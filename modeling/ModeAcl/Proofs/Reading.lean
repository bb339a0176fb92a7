import Mathlib.Tactic.Common
import ModeAcl.Proofs.Running

/-!
# What reading a list gives

`Exchange.Shows` says of one answer of a backend that it is the right one for a
list with an owner and a group. If all answers that a read gets are, the read
succeeds with the mode that the list amounts to (`readMode_of_shown`), which
`listedMasks` spells out as a fold over the entries.
-/

namespace ModeAcl

variable {Acl Descriptor σ α : Type} {b : Backend Acl Descriptor σ} {w : World σ}

/-- The rights of each class from the entries of a list, for an owner and a group. -/
def listedMasks (owner group : Sid) (aces : List Ace) : TriadMasks :=
  aces.foldl (fun masks ace => masks.grant (classify ace.sid owner group) ace.mask) .empty

/-- The answer to a call that reads is right for a list with an owner and a group; of other
calls nothing is said. -/
def Exchange.Shows (owner group : Sid) (aces : List Ace) : Exchange Acl Descriptor → Prop
  | ⟨.security (.descriptor _), reply⟩ => ∃ d, reply = .ok d
  | ⟨.security (.owner _), reply⟩ => reply = .ok owner
  | ⟨.security (.group _), reply⟩ => reply = .ok group
  | ⟨.security (.aceCount _), reply⟩ => reply = .ok aces.length
  | ⟨.security (.ace _ index), reply⟩ => ∀ ace, aces[index]? = some ace → reply = .ok ace
  | _ => True

/-- What holds of all calls of an operation that begins with a call to the backend holds of that
call, and of the calls behind it if it is answered. -/
theorem forall_exchanges_askAt_bind {stage : String} {c : SecurityCall Acl Descriptor}
    {f : c.Answer → Operation Acl Descriptor α} {P : Exchange Acl Descriptor → Prop}
    (all : ∀ x ∈ (Operation.askAt stage c >>= f).exchangesIn b w, P x) :
    P ⟨.security c, (b.respond (.security c) w).1⟩ ∧
      ∀ a, (b.respond (.security c) w).1 = .ok a →
        (Operation.askAt stage c >>= f).run b w = (f a).run b (b.respond (.security c) w).2 ∧
        ∀ x ∈ (f a).exchangesIn b (b.respond (.security c) w).2, P x := by
  rw [Operation.exchangesIn_bind, Operation.exchangesIn_askAt] at all
  refine ⟨all _ (List.mem_append_left _ List.mem_cons_self), fun a answered => ?_⟩
  have asked : (Operation.askAt stage c).run b w = _ := Operation.run_askAt_of_ok answered
  rw [asked] at all
  exact ⟨Operation.run_bind_of_ok asked, fun x member => all x (List.mem_append_right _ member)⟩

/-! ## The entries -/

/-- Reading an entry adds its rights to those of its class. -/
theorem readEntry_of_shown {d : Descriptor} {owner group : Sid} {aces : List Ace}
    {masks : TriadMasks} {index : Nat} {ace : Ace} (there : aces[index]? = some ace)
    (shown : ∀ x ∈ (readEntry d owner group masks index :
      Operation Acl Descriptor TriadMasks).exchangesIn b w, x.Shows owner group aces) :
    ∃ w', (readEntry d owner group masks index).run b w =
      (.ok (masks.grant (classify ace.sid owner group) ace.mask), w') := by
  rw [readEntry] at shown ⊢
  obtain ⟨answer, rest⟩ := forall_exchanges_askAt_bind shown
  obtain ⟨ran, -⟩ := rest ace (answer ace there)
  rw [ran, Operation.run_bind_of_ok (Operation.run_note _ _)]
  exact ⟨_, rfl⟩

/-- Reading the entries of a list from some index on adds their rights to the masks so far. The
entries before that index are `before`. -/
theorem readEntries_of_shown {d : Descriptor} {owner group : Sid} (aces : List Ace) :
    ∀ (before : List Ace) {masks : TriadMasks} {w : World σ},
      (∀ x ∈ ((List.range' before.length aces.length).foldlM (readEntry d owner group) masks :
        Operation Acl Descriptor TriadMasks).exchangesIn b w,
          x.Shows owner group (before ++ aces)) →
      ∃ w', ((List.range' before.length aces.length).foldlM
        (readEntry d owner group) masks).run b w =
          (.ok (aces.foldl (fun masks ace =>
            masks.grant (classify ace.sid owner group) ace.mask) masks), w') := by
  induction aces with
  | nil => exact fun _ _ w _ => ⟨w, rfl⟩
  | cons ace aces ih =>
    intro before masks w shown
    rw [List.length_cons, List.range'_succ, List.foldlM_cons] at shown ⊢
    rw [Operation.exchangesIn_bind] at shown
    have there : (before ++ ace :: aces)[before.length]? = some ace := by simp
    obtain ⟨mid, first⟩ := readEntry_of_shown there
      fun x member => shown x (List.mem_append_left _ member)
    rw [first] at shown
    rw [Operation.run_bind_of_ok first]
    have split : before ++ ace :: aces = (before ++ [ace]) ++ aces := by simp
    have length : (before ++ [ace]).length = before.length + 1 := by simp
    rw [split, ← length] at shown
    rw [← length]
    exact ih (before ++ [ace]) fun x member => shown x (List.mem_append_right _ member)

/-! ## The whole list -/

theorem descriptorMasks_of_shown {d : Descriptor} {owner group : Sid} {aces : List Ace}
    (shown : ∀ x ∈ (descriptorMasks d : Operation Acl Descriptor TriadMasks).exchangesIn b w,
      x.Shows owner group aces) :
    ∃ w', (descriptorMasks d).run b w = (.ok (listedMasks owner group aces), w') := by
  rw [descriptorMasks] at shown ⊢
  obtain ⟨count, rest⟩ := forall_exchanges_askAt_bind shown
  obtain ⟨counted, shown⟩ := rest _ count
  obtain ⟨whose, rest⟩ := forall_exchanges_askAt_bind shown
  obtain ⟨owned, shown⟩ := rest _ whose
  obtain ⟨grouped, rest⟩ := forall_exchanges_askAt_bind shown
  obtain ⟨last, shown⟩ := rest _ grouped
  rw [counted, owned, last, List.range_eq_range']
  rw [List.range_eq_range'] at shown
  exact readEntries_of_shown aces [] shown

/-- A read all of whose answers are right for a list gives the mode that the list amounts to. -/
theorem readMode_of_shown {path : Path} {owner group : Sid} {aces : List Ace}
    (shown : ∀ x ∈ (readMode path : Operation Acl Descriptor Mode).exchangesIn b w,
      x.Shows owner group aces) :
    ((readMode path).run b w).1 = .ok (listedMasks owner group aces).toMode := by
  rw [readMode] at shown ⊢
  obtain ⟨⟨d, found⟩, rest⟩ := forall_exchanges_askAt_bind shown
  obtain ⟨opened, shown⟩ := rest d found
  rw [Operation.exchangesIn_bind] at shown
  obtain ⟨w', read⟩ := descriptorMasks_of_shown
    fun x member => shown x (List.mem_append_left _ member)
  rw [opened, Operation.run_bind_of_ok read, Operation.run_bind_of_ok (Operation.run_note _ _)]
  rfl

end ModeAcl
