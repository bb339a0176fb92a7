import Mathlib.Logic.Function.Basic
import ModeAcl.Proofs.Running

/-!
# Several procedures at once

Procedures that run against one state take turns (`Joint.run`): in each turn, one
of them makes its next call. What a procedure achieves among others is shown from
what the others leave alone. A `Contract` says how the state may change between
two calls of a procedure and which calls it may make itself; `Procedure.Copes`
follows a procedure through whatever the contract allows. If each of several
procedures copes, then all of them do together, in whatever order they take turns
(`Joint.Coping.run`), and what every allowed call preserves holds at the end.
-/

namespace ModeAcl

variable {ι Acl Descriptor σ α β : Type} {respond : Responder Acl Descriptor σ}

/-! ## Taking turns -/

/-- Procedures that run against one state: what is left of each of them, the state, and the calls
that have been made, each with the procedure that has made it. -/
structure Joint (ι Acl Descriptor σ α : Type) where
  left : ι → Procedure Acl Descriptor α
  state : σ
  trace : List (ι × Exchange Acl Descriptor)

/-- The calls among others that one of the procedures has made. -/
def callsBy [DecidableEq ι] (i : ι) (trace : List (ι × Exchange Acl Descriptor)) :
    List (Exchange Acl Descriptor) :=
  trace.filterMap fun (j, x) => if j = i then some x else none

namespace Joint

/-- Procedures before their first calls. -/
def start (procedures : ι → Procedure Acl Descriptor α) (s : σ) : Joint ι Acl Descriptor σ α :=
  ⟨procedures, s, []⟩

variable [DecidableEq ι]

/-- One procedure makes its next call. If it is done, nothing happens. -/
def turn (respond : Responder Acl Descriptor σ) (m : Joint ι Acl Descriptor σ α) (i : ι) :
    Joint ι Acl Descriptor σ α :=
  match m.left i with
  | .done _ => m
  | .call c next =>
    let (reply, state) := respond c m.state
    ⟨Function.update m.left i (next reply), state, m.trace ++ [(i, ⟨c, reply⟩)]⟩

def run (respond : Responder Acl Descriptor σ) (m : Joint ι Acl Descriptor σ α)
    (turns : List ι) : Joint ι Acl Descriptor σ α :=
  turns.foldl (turn respond) m

variable {m : Joint ι Acl Descriptor σ α} {i : ι}

theorem turn_of_done {a : α} (done : m.left i = .done a) : m.turn respond i = m := by
  rw [turn, done]

theorem turn_of_call {c : Call Acl Descriptor} {next : c.Reply → Procedure Acl Descriptor α}
    (calls : m.left i = .call c next) :
    m.turn respond i =
      ⟨Function.update m.left i (next (respond c m.state).1), (respond c m.state).2,
        m.trace ++ [(i, ⟨c, (respond c m.state).1⟩)]⟩ := by
  rw [turn, calls]

theorem run_cons (i : ι) (turns : List ι) :
    m.run respond (i :: turns) = (m.turn respond i).run respond turns := rfl

theorem run_append (first later : List ι) :
    m.run respond (first ++ later) = (m.run respond first).run respond later :=
  List.foldl_append

theorem run_concat (turns : List ι) (i : ι) :
    m.run respond (turns ++ [i]) = (m.run respond turns).turn respond i := run_append turns [i]

theorem left_turn_of_ne {j : ι} (other : j ≠ i) : (m.turn respond i).left j = m.left j := by
  rcases left : m.left i with a | ⟨c, next⟩
  · rw [turn_of_done left]
  · rw [turn_of_call left]
    exact Function.update_of_ne other _ _

theorem left_turn_of_call {c : Call Acl Descriptor} {next : c.Reply → Procedure Acl Descriptor α}
    (calls : m.left i = .call c next) :
    (m.turn respond i).left i = next (respond c m.state).1 := by
  rw [turn_of_call calls]
  exact Function.update_self ..

/-- What holds of a state at first and not at the end is undone by one of the turns. -/
theorem exists_turn_of_change {P : σ → Prop} {turns : List ι} (holds : P m.state)
    (changed : ¬ P (m.run respond turns).state) :
    ∃ first j later, turns = first ++ j :: later ∧ P (m.run respond first).state ∧
      ¬ P (m.run respond (first ++ [j])).state := by
  induction turns generalizing m with
  | nil => exact absurd holds changed
  | cons i turns ih =>
    by_cases next : P (m.turn respond i).state
    · obtain ⟨first, j, later, rfl, before, after⟩ := ih next changed
      exact ⟨i :: first, j, later, rfl, before, after⟩
    · exact ⟨[], i, turns, rfl, holds, next⟩

end Joint

/-- A procedure that is alone does what it does without taking turns. -/
theorem Joint.run_alone (m : Joint Unit Acl Descriptor σ α) (turns : List Unit) :
    ((m.run respond turns).left ()).run respond (m.run respond turns).state =
      (m.left ()).run respond m.state := by
  induction turns generalizing m with
  | nil => rfl
  | cons i turns ih =>
    cases i
    rw [run_cons, ih]
    rcases left : m.left () with a | ⟨c, next⟩
    · rw [turn_of_done left, left]
    · rw [turn_of_call left]
      dsimp only
      rw [Function.update_self]
      rfl

/-! ## How long a procedure takes -/

/-- A procedure that makes at most `n` calls, whatever they are answered with. -/
inductive Procedure.AtMost : Nat → Procedure Acl Descriptor α → Prop
  | done {n : Nat} (a : α) : AtMost n (.done a)
  | call {n : Nat} {c : Call Acl Descriptor} {next : c.Reply → Procedure Acl Descriptor α} :
    (∀ reply, AtMost n (next reply)) → AtMost (n + 1) (.call c next)

namespace Procedure.AtMost

variable {n k : Nat} {p : Procedure Acl Descriptor α}

theorem mono (short : p.AtMost n) (le : n ≤ k) : p.AtMost k := by
  induction short generalizing k with
  | done a => exact .done a
  | call _ ih =>
    obtain ⟨k, rfl⟩ := Nat.exists_eq_add_of_le' (Nat.lt_of_lt_of_le (Nat.zero_lt_succ _) le)
    exact .call fun reply => ih reply (Nat.le_of_succ_le_succ le)

theorem bind {f : α → Procedure Acl Descriptor β} (first : p.AtMost n)
    (rest : ∀ a, (f a).AtMost k) : (p >>= f).AtMost (n + k) := by
  induction first with
  | done a => exact (rest a).mono (Nat.le_add_left _ _)
  | @call n c next _ ih =>
    rw [Nat.add_right_comm]
    exact .call ih

theorem map (f : α → β) (short : p.AtMost n) : (f <$> p).AtMost n := by
  rw [← bind_pure_comp]
  exact short.bind (k := 0) fun a => .done (f a)

/-- As many calls for each of several items. -/
theorem mapM {f : α → Procedure Acl Descriptor β} (each : ∀ a, (f a).AtMost n) (items : List α) :
    (items.mapM f).AtMost (items.length * n) := by
  induction items with
  | nil =>
    rw [List.mapM_nil]
    exact .done []
  | cons a items ih =>
    rw [List.mapM_cons, List.length_cons, Nat.succ_mul, Nat.add_comm]
    exact (each a).bind fun _ => (ih.bind fun _ => .done (n := 0) _)

end Procedure.AtMost

/-- A procedure that gets enough turns gets done. -/
theorem Joint.done_of_run [DecidableEq ι] {i : ι} {n : Nat} {turns : List ι}
    {m : Joint ι Acl Descriptor σ α} (short : (m.left i).AtMost n) (enough : n ≤ turns.count i) :
    ∃ a, (m.run respond turns).left i = .done a := by
  induction turns generalizing m n with
  | nil =>
    cases Nat.le_zero.mp enough
    cases left : m.left i with
    | done a => exact ⟨a, left⟩
    | call c next =>
      rw [left] at short
      cases short
  | cons j turns ih =>
    rw [run_cons]
    rcases left : m.left j with a | ⟨c, next⟩
    · rw [turn_of_done left]
      by_cases same : j = i
      · subst same
        exact ih (left ▸ .done a) (Nat.zero_le _)
      · rw [List.count_cons_of_ne same] at enough
        exact ih short enough
    · rw [turn_of_call left]
      by_cases same : j = i
      · subst same
        rw [List.count_cons_self] at enough
        rw [left] at short
        cases short with
        | call short =>
          refine ih ?_ (Nat.le_of_succ_le_succ enough)
          simpa using short _
      · rw [List.count_cons_of_ne same] at enough
        refine ih ?_ enough
        simpa [Function.update_of_ne (Ne.symm same)] using short

/-! ## Contracts -/

/-- What procedures expect of each other. Between two calls of one of them, the state changes only
as `changes` says; every call that is made is one that `allows` admits where it is made. -/
structure Contract (respond : Responder Acl Descriptor σ) where
  changes : σ → σ → Prop
  allows : Call Acl Descriptor → σ → Prop
  refl : ∀ s, changes s s
  trans : ∀ {s t u}, changes s t → changes t u → changes s u
  step : ∀ {c s}, allows c s → changes s (respond c s).2

/-- Among others that keep a contract, a procedure keeps it too, and when it is done, `post` holds
of the calls that it has made, its result and the state, and goes on to hold. -/
def Procedure.Copes (contract : Contract respond) : Procedure Acl Descriptor α → σ →
    (List (Exchange Acl Descriptor) → α → σ → Prop) → Prop
  | .done a, s, post => ∀ s', contract.changes s s' → post [] a s'
  | .call c next, s, post => ∀ s', contract.changes s s' → contract.allows c s' ∧
    (next (respond c s').1).Copes contract (respond c s').2 fun xs =>
      post (⟨c, (respond c s').1⟩ :: xs)

namespace Procedure.Copes

variable {contract : Contract respond} {p : Procedure Acl Descriptor α} {s s' : σ}
  {post post' : List (Exchange Acl Descriptor) → α → σ → Prop}

/-- A procedure still copes after others have made their calls. -/
theorem after (copes : p.Copes contract s post) (changed : contract.changes s s') :
    p.Copes contract s' post := by
  cases p with
  | done a => exact fun t later => copes t (contract.trans changed later)
  | call c next => exact fun t later => copes t (contract.trans changed later)

theorem mono (weaker : ∀ xs a t, post xs a t → post' xs a t) (copes : p.Copes contract s post) :
    p.Copes contract s post' := by
  induction p generalizing s post post' with
  | done a => exact fun t later => weaker _ _ _ (copes t later)
  | call c next ih =>
    intro t later
    obtain ⟨allowed, onward⟩ := copes t later
    exact ⟨allowed, ih _ (fun xs a u => weaker _ a u) onward⟩

theorem pure {a : α} (holds : ∀ t, contract.changes s t → post [] a t) :
    (Pure.pure a : Procedure Acl Descriptor α).Copes contract s post := holds

/-- Over the whole of a procedure, the state changes only as the contract says. -/
theorem tracked (copes : p.Copes contract s post) :
    p.Copes contract s fun xs a t => post xs a t ∧ contract.changes s t := by
  induction p generalizing s post with
  | done a => exact fun t later => ⟨copes t later, later⟩
  | call c continue_ ih =>
    intro t later
    obtain ⟨allowed, onward⟩ := copes t later
    refine ⟨allowed, (ih _ onward).mono fun xs a u both => ⟨both.1, ?_⟩⟩
    exact contract.trans later (contract.trans (contract.step allowed) both.2)

theorem bind_of_post {f : α → Procedure Acl Descriptor β}
    {next : List (Exchange Acl Descriptor) → β → σ → Prop} (copes : p.Copes contract s post)
    (rest : ∀ xs a t, post xs a t → (f a).Copes contract t fun ys => next (xs ++ ys)) :
    (p >>= f).Copes contract s next := by
  induction p generalizing s post next with
  | done a => exact rest [] a s (copes s (contract.refl s))
  | call c continue_ ih =>
    intro t later
    obtain ⟨allowed, onward⟩ := copes t later
    exact ⟨allowed, ih _ onward fun xs a u holds => rest _ a u holds⟩

/-- One procedure after another. The second one starts from a state that has changed only as the
contract says. -/
theorem bind {f : α → Procedure Acl Descriptor β}
    {next : List (Exchange Acl Descriptor) → β → σ → Prop} (copes : p.Copes contract s post)
    (rest : ∀ xs a t, contract.changes s t → post xs a t →
      (f a).Copes contract t fun ys => next (xs ++ ys)) :
    (p >>= f).Copes contract s next :=
  copes.tracked.bind_of_post fun xs a t both => rest xs a t both.2 both.1

theorem map {f : α → β} {next : List (Exchange Acl Descriptor) → β → σ → Prop}
    (copes : p.Copes contract s fun xs a => next xs (f a)) :
    (f <$> p).Copes contract s next := by
  induction p generalizing s next with
  | done a => exact copes
  | call c continue_ ih =>
    intro t later
    obtain ⟨allowed, onward⟩ := copes t later
    exact ⟨allowed, ih _ onward⟩

/-- A single call. -/
theorem single {c : Call Acl Descriptor}
    {post : List (Exchange Acl Descriptor) → c.Reply → σ → Prop}
    (holds : ∀ s', contract.changes s s' → contract.allows c s' ∧
      ∀ t, contract.changes (respond c s').2 t →
        post [⟨c, (respond c s').1⟩] (respond c s').1 t) :
    (Procedure.call c .done).Copes contract s post := holds

end Procedure.Copes

/-! ## All together -/

namespace Joint

variable {contract : Contract respond} {post : ι → List (Exchange Acl Descriptor) → α → σ → Prop}

/-- Every procedure copes with what is left for it to do, counting the calls it has made. -/
def Coping [DecidableEq ι] (contract : Contract respond)
    (post : ι → List (Exchange Acl Descriptor) → α → σ → Prop)
    (m : Joint ι Acl Descriptor σ α) : Prop :=
  ∀ i, (m.left i).Copes contract m.state fun xs => post i (callsBy i m.trace ++ xs)

variable [DecidableEq ι] {m : Joint ι Acl Descriptor σ α}

/-- A call of one procedure is one that the contract allows, and all of them still cope. -/
theorem Coping.turn (coping : m.Coping contract post) {i : ι} {c : Call Acl Descriptor}
    {next : c.Reply → Procedure Acl Descriptor α} (calls : m.left i = .call c next) :
    contract.allows c m.state ∧ (m.turn respond i).Coping contract post := by
  have own := coping i
  rw [calls] at own
  obtain ⟨allowed, onward⟩ := own m.state (contract.refl m.state)
  refine ⟨allowed, fun j => ?_⟩
  rw [turn_of_call calls]
  dsimp only
  by_cases same : j = i
  · subst same
    rw [Function.update_self]
    refine onward.mono fun xs a t holds => ?_
    simpa [callsBy] using holds
  · rw [Function.update_of_ne same]
    refine ((coping j).after (contract.step allowed)).mono fun xs a t holds => ?_
    simpa [callsBy, Ne.symm same] using holds

/-- Procedures that cope still do after any turns, and what every allowed call preserves has been
preserved. -/
theorem Coping.run {I : σ → List (ι × Exchange Acl Descriptor) → Prop}
    (coping : m.Coping contract post) (holds : I m.state m.trace)
    (keeps : ∀ s trace i c, I s trace → contract.allows c s →
      I (respond c s).2 (trace ++ [(i, ⟨c, (respond c s).1⟩)])) (turns : List ι) :
    (m.run respond turns).Coping contract post ∧
      I (m.run respond turns).state (m.run respond turns).trace := by
  induction turns generalizing m with
  | nil => exact ⟨coping, holds⟩
  | cons i turns ih =>
    rw [run_cons]
    rcases left : m.left i with a | ⟨c, next⟩
    · rw [turn_of_done left]
      exact ih coping holds
    · obtain ⟨allowed, onward⟩ := coping.turn left
      refine ih onward ?_
      rw [turn_of_call left]
      exact keeps _ _ i c holds allowed

/-- When a procedure that copes is done, it has achieved what it should. -/
theorem Coping.of_done (coping : m.Coping contract post) {i : ι} {a : α}
    (done : m.left i = .done a) : post i (callsBy i m.trace) a m.state := by
  have own := coping i
  rw [done] at own
  simpa using own m.state (contract.refl m.state)

end Joint

end ModeAcl
