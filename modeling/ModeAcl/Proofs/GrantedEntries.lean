import Mathlib.Data.List.Basic
import ModeAcl.Proofs.Stages

/-!
# One entry for each class with rights

`explicitEntries` is given masks of any kind, not only those that a mode stands for. Its
calls and its result depend on nothing but what the backend answers for the classes with
rights (`Answered`): each of these is looked up once, in the order of the classes, and gives
either its entry or its error. One error is enough for there to be no entries at all.
-/

namespace ModeAcl

variable {Acl Descriptor σ : Type}

/-! ## The classes with rights -/

namespace TriadMasks

variable {masks : TriadMasks} {c : FileClass}

theorem mem_granted : c ∈ masks.granted ↔ masks.get c ≠ .empty := by
  have listed : c ∈ FileClass.all := by cases c <;> decide
  rw [granted, List.mem_filter, Bool.not_eq_true', ← Bool.not_eq_true, AccessMask.isEmpty,
    beq_iff_eq]
  constructor
  · intro both empty
    exact both.2 (congrArg AccessMask.bits empty)
  · intro rights
    exact ⟨listed, fun none => rights (congrArg AccessMask.mk none)⟩

/-- The classes with rights stand in the order of all classes, each once. -/
theorem granted_sublist (masks : TriadMasks) : masks.granted.Sublist [.owner, .group, .other] :=
  List.filter_sublist

theorem nodup_granted (masks : TriadMasks) : masks.granted.Nodup :=
  masks.granted_sublist.nodup (by decide)

/-- The entry of a class whose trustee was found. -/
def entry? (masks : TriadMasks) (c : FileClass) : Except CallError Sid → Option Grant
  | .ok sid => some ⟨sid, masks.get c⟩
  | .error _ => none

end TriadMasks

/-- The error of a class whose trustee was not found. -/
def Trustees.failure? (trustees : Trustees) (c : FileClass) : Except CallError Sid → Option Error
  | .ok _ => none
  | .error e => some (.security (trustees.resolutionStage c) e)

/-! ## Answers by class -/

/-- Lookups of some classes, for each of which the backend answers with `reply`. -/
structure Answered (masks : TriadMasks) (trustees : Trustees) (classes : List FileClass)
    (reply : FileClass → Except CallError Sid) (xs : List (Exchange Acl Descriptor))
    (grants : List Grant) (errors : List Error) : Prop where
  calls : xs = classes.map fun c => trustees.lookup c (reply c)
  entries : grants = classes.filterMap fun c => masks.entry? c (reply c)
  failures : errors = classes.filterMap fun c => trustees.failure? c (reply c)

section

variable {masks : TriadMasks} {trustees : Trustees} {classes : List FileClass}
  {reply : FileClass → Except CallError Sid} {xs : List (Exchange Acl Descriptor)}
  {grants : List Grant} {errors : List Error}

/-- What is made of the answers for several classes, if one more is looked up before the others. -/
theorem filterMap_update_cons {β : Type} (make : FileClass → Except CallError Sid → Option β)
    {c : FileClass} (new : c ∉ classes) (r : Except CallError Sid) :
    (c :: classes).filterMap (fun d => make d (Function.update reply c r d)) =
      (make c r).toList ++ classes.filterMap fun d => make d (reply d) := by
  have others : classes.filterMap (fun d => make d (Function.update reply c r d)) =
      classes.filterMap fun d => make d (reply d) := by
    refine List.filterMap_congr fun d member => ?_
    rw [Function.update_of_ne (ne_of_mem_of_not_mem member new)]
  rw [List.filterMap_cons, Function.update_self, others]
  cases make c r <;> rfl

theorem Answered.cons (answered : Answered masks trustees classes reply xs grants errors)
    {c : FileClass} (new : c ∉ classes) (r : Except CallError Sid) :
    Answered masks trustees (c :: classes) (Function.update reply c r)
      (trustees.lookup c r :: xs) ((masks.entry? c r).toList ++ grants)
      ((trustees.failure? c r).toList ++ errors) := by
  constructor
  · rw [List.map_cons, Function.update_self, answered.calls]
    refine congrArg _ (List.map_congr_left fun d member => ?_)
    rw [Function.update_of_ne (ne_of_mem_of_not_mem member new)]
  · rw [filterMap_update_cons masks.entry? new, answered.entries]
  · rw [filterMap_update_cons trustees.failure? new, answered.failures]

theorem Lookups.exists_reply (lookups : Lookups masks trustees classes xs grants errors)
    (distinct : classes.Nodup) :
    ∃ reply, Answered masks trustees classes reply xs grants errors := by
  induction lookups with
  | nil => exact ⟨fun _ => .error default, rfl, rfl, rfl⟩
  | found sid _ ih =>
    obtain ⟨new, distinct⟩ := List.nodup_cons.mp distinct
    obtain ⟨reply, answered⟩ := ih distinct
    exact ⟨_, answered.cons new (.ok sid)⟩
  | failed e _ ih =>
    obtain ⟨new, distinct⟩ := List.nodup_cons.mp distinct
    obtain ⟨reply, answered⟩ := ih distinct
    exact ⟨_, answered.cons new (.error e)⟩

/-- If all trustees were found, every class has its entry. -/
theorem Answered.entries_of_ok (answered : Answered masks trustees classes reply xs grants errors)
    {sids : FileClass → Sid} (found : ∀ c ∈ classes, reply c = .ok (sids c)) :
    errors = [] ∧ grants = classes.map fun c => ⟨sids c, masks.get c⟩ := by
  constructor
  · rw [answered.failures, List.filterMap_eq_nil_iff]
    exact fun c member => by rw [found c member]; rfl
  · rw [answered.entries, List.filterMap_eq_map_iff_forall_eq_some]
    exact fun c member => by rw [found c member]; rfl

theorem Answered.errors_ne_nil (answered : Answered masks trustees classes reply xs grants errors)
    {c : FileClass} {e : CallError} (member : c ∈ classes) (failed : reply c = .error e) :
    errors ≠ [] := by
  rw [answered.failures]
  intro none
  have missed := List.filterMap_eq_nil_iff.mp none c member
  rw [failed] at missed
  cases missed

end

/-! ## Calls for these classes only -/

/-- Nothing is asked but who gets the rights of a class that has some. -/
theorem explicitEntries_asks (masks : TriadMasks) (trustees : Trustees) :
    (explicitEntries masks trustees : Operation Acl Descriptor (List Grant)).Within
      fun call => ∃ c ∈ masks.granted, call = .security (trustees.resolution c) := by
  refine Operation.Within.ofProcedure (.bind (.mapM fun c granted => ?_) fun _ => ?_)
  · refine Procedure.Within.bind ?_ fun _ => .pure _
    cases trustees <;> cases c <;> exact Operation.Within.askAt ⟨_, granted, rfl⟩
  · split <;> exact .pure _

/-- Different classes are looked up by different calls. -/
theorem Trustees.resolution_inj {trustees : Trustees} {c d : FileClass}
    (same : (trustees.resolution c : SecurityCall Acl Descriptor) = trustees.resolution d) :
    c = d := by
  cases trustees <;> cases c <;> cases d <;> cases same <;> rfl

/-- One entry for each class with rights, for masks of any kind and over any backend. The trustees
of these classes are looked up, each once and in the order of the classes. If all of them are
found, there is one entry for each, which gives the class's own trustee the class's own rights, and
none of these is a grant of nothing; otherwise there are no entries, but the errors of all classes
whose trustees were not found, each labelled with its trustee. The trustee of a class without rights
is not looked up, and nothing depends on what the backend would answer for it. -/
theorem explicitEntries_by_class (b : Backend Acl Descriptor σ) (w : World σ) (masks : TriadMasks)
    (trustees : Trustees) :
    (masks.granted.Sublist [.owner, .group, .other] ∧
      ∀ c, c ∈ masks.granted ↔ masks.get c ≠ .empty) ∧
    (∃ reply : FileClass → Except CallError Sid,
      (explicitEntries masks trustees).exchangesIn b w =
        masks.granted.map (fun c => trustees.lookup c (reply c)) ∧
      (∀ sids : FileClass → Sid, (∀ c ∈ masks.granted, reply c = .ok (sids c)) →
        ((explicitEntries masks trustees).run b w).1 =
          .ok (masks.granted.map fun c => ⟨sids c, masks.get c⟩)) ∧
      ((∃ c ∈ masks.granted, ∃ e, reply c = .error e) →
        ((explicitEntries masks trustees).run b w).1 =
          .error (.entries (masks.granted.filterMap fun c =>
            match reply c with
            | .ok _ => none
            | .error e => some (.security (trustees.resolutionStage c) e))))) ∧
    (∀ grants w', (explicitEntries masks trustees).run b w = (.ok grants, w') →
      ∀ g ∈ grants, g.permissions ≠ .empty) ∧
    (∀ c, masks.get c = .empty → trustees.resolution c ∉
      securityCalls ((explicitEntries masks trustees).exchangesIn b w)) ∧
    ∀ b' : Backend Acl Descriptor σ,
      (∀ c ∈ masks.granted, ∀ v, b'.respond (.security (trustees.resolution c)) v =
        b.respond (.security (trustees.resolution c)) v) →
      (explicitEntries masks trustees).run b' w = (explicitEntries masks trustees).run b w := by
  obtain ⟨grants, errors, lookups, result⟩ :=
    lookups_of_explicitEntries masks trustees b.respond w
  obtain ⟨reply, answered⟩ := lookups.exists_reply masks.nodup_granted
  rw [Operation.result_run] at result
  refine ⟨⟨masks.granted_sublist, fun c => TriadMasks.mem_granted⟩,
    ⟨reply, answered.calls, ?_, ?_⟩, ?_, ?_, ?_⟩
  · intro sids found
    obtain ⟨none, entries⟩ := answered.entries_of_ok found
    rw [result, if_pos none, entries]
  · rintro ⟨c, member, e, failed⟩
    rw [result, if_neg (answered.errors_ne_nil member failed), answered.failures]
    rfl
  · intro granted w' ran g member
    rw [ran] at result
    split at result
    · cases result
      rw [answered.entries, List.mem_filterMap] at member
      obtain ⟨c, rights, entry⟩ := member
      rcases replied : reply c with e | sid
      · rw [replied] at entry
        cases entry
      · rw [replied] at entry
        cases entry
        exact TriadMasks.mem_granted.mp rights
    · cases result
  · intro c empty asked
    have calls : securityCalls ((explicitEntries masks trustees).exchangesIn b w) =
        masks.granted.map trustees.resolution := lookups.securityCalls_eq
    rw [calls, List.mem_map] at asked
    obtain ⟨d, rights, same⟩ := asked
    obtain rfl := Trustees.resolution_inj same
    exact TriadMasks.mem_granted.mp rights empty
  · intro b' alike
    refine (explicitEntries_asks masks trustees).run_congr ?_ w
    rintro _ ⟨c, granted, rfl⟩ v
    exact alike c granted v

/-- The owner has no rights, and the trustee of owners is broken; so is that of others, who have
some. -/
theorem explicitEntries_by_class_of_broken :
    let masks : TriadMasks := ⟨.empty, ⟨1⟩, ⟨2⟩⟩
    let w : World MemoryBackend := ⟨⟨.directory ⟨0o755⟩ [], .linked [], ⟨0⟩⟩,
      { MemoryBackend.initial with
        faults := { Faults.none with brokenSids := [.creatorOwner, .world] } }⟩
    masks.granted = [.group, .other] ∧
      ((explicitEntries masks .creator).run memoryBackend w).1 = .error (.entries
        [.security "creating sid for everyone" (MemoryBackend.broken "CreateWellKnownSid")]) ∧
      Trustees.creator.resolution .owner ∉
        securityCalls ((explicitEntries masks .creator).exchangesIn memoryBackend w) := by
  intro masks w
  obtain ⟨-, -, -, unasked, -⟩ := explicitEntries_by_class memoryBackend w masks .creator
  exact ⟨by rfl, by rfl, unasked .owner rfl⟩

end ModeAcl
