import Mathlib.Data.List.Basic
import Mathlib.Data.List.Infix
import Mathlib.Logic.Function.Iterate
import Mathlib.Logic.Relation
import ModeAcl.Error

/-!
# Nested errors keep what they hold

One error may hold several others, and each of these may hold more. However deep they are
nested, each of the three readings of an error follows from the errors inside by a rule of its
own:

* the kind is that of one error at the bottom, which is reached by going to the error that came
  first as long as there is one (`Error.Reaches`, `Error.Leaf`);
* the text is composed of the texts of all errors inside (`Error.Composed`), so it shows each of
  them in full (`Error.text_infix`);
* the sources are what is found by asking for the cause, then for the cause of that, and so on
  (`Cause.causes`, `Error.StemsFrom`).

None of them changes when an error is handed on in the form of a call's error and taken up again
(`Error.passOn`), however often.
-/

namespace ModeAcl

/-- Induction on what errors hold. -/
@[elab_as_elim]
theorem Error.induction {P : Error → Prop} (io : ∀ error, P (.io error))
    (security : ∀ stage source, P (.security stage source))
    (entries : ∀ errors, (∀ e ∈ errors, P e) → P (.entries errors))
    (cleanup : ∀ error path removal, P error → P (.cleanup error path removal))
    (invalidMode : ∀ text, P (.invalidMode text)) : ∀ e, P e
  | .io error => io error
  | .security stage source => security stage source
  | .entries errors =>
    entries errors fun e _ => Error.induction io security entries cleanup invalidMode e
  | .cleanup error path removal =>
    cleanup error path removal (Error.induction io security entries cleanup invalidMode error)
  | .invalidMode text => invalidMode text

/-! ## The error that gives the kind -/

/-- The error inside that came first: the first of several, or the one before the removal that
failed as well. -/
def Error.inner? : Error → Option Error
  | .entries (first :: _) => some first
  | .cleanup error _ _ => some error
  | .io _ | .security _ _ | .entries [] | .invalidMode _ => none

/-- Going to the error that came first, any number of times. -/
def Error.Reaches : Error → Error → Prop :=
  Relation.ReflTransGen fun e inner => e.inner? = some inner

/-- An error in which no other came first, and its kind. -/
inductive Error.Leaf : Error → ErrorKind → Prop
  | io (error : CallError) : Leaf (.io error) error.kind
  | security (stage : String) (source : CallError) : Leaf (.security stage source) source.kind
  | nothing : Leaf (.entries []) .other
  | invalidMode (text : String) : Leaf (.invalidMode text) .invalidInput

namespace Error

variable {e inner leaf : Error} {kind : ErrorKind}

theorem kind_of_inner (first : e.inner? = some inner) : e.kind = inner.kind := by
  unfold inner? at first
  split at first
  · cases first
    rw [Error.kind]
  · cases first
    rw [Error.kind]
  all_goals cases first

theorem Reaches.kind_eq (reaches : e.Reaches leaf) : e.kind = leaf.kind := by
  induction reaches with
  | refl => rfl
  | tail _ first ih => exact ih.trans (kind_of_inner first)

theorem Leaf.kind_eq (isLeaf : e.Leaf kind) : e.kind = kind := by
  cases isLeaf <;> rw [Error.kind]

theorem Leaf.inner?_eq (isLeaf : e.Leaf kind) : e.inner? = none := by
  cases isLeaf <;> rfl

/-- No more than one leaf is reached, for no more than one error inside came first. -/
theorem Reaches.leaf_unique (reaches : e.Reaches leaf) {other : Error} {kind' : ErrorKind}
    (isLeaf : leaf.Leaf kind) (reaches' : e.Reaches other) (isLeaf' : other.Leaf kind') :
    other = leaf := by
  -- along the way to `leaf`, which the way to `other` can neither leave nor end on
  induction reaches using Relation.ReflTransGen.head_induction_on with
  | refl =>
    rcases reaches'.cases_head with same | ⟨inner, first, -⟩
    · exact same.symm
    · rw [isLeaf.inner?_eq] at first
      cases first
  | head first _ ih =>
    apply ih
    rcases reaches'.cases_head with rfl | ⟨inner, first', rest⟩
    · rw [isLeaf'.inner?_eq] at first
      cases first
    · rw [first] at first'
      cases first'
      exact rest

theorem exists_reaches (e : Error) : ∃ leaf kind, e.Reaches leaf ∧ leaf.Leaf kind := by
  induction e using Error.induction with
  | io error => exact ⟨_, _, .refl, .io error⟩
  | security stage source => exact ⟨_, _, .refl, .security stage source⟩
  | entries errors ih =>
    cases errors with
    | nil => exact ⟨_, _, .refl, .nothing⟩
    | cons first others =>
      obtain ⟨leaf, kind, reaches, isLeaf⟩ := ih first List.mem_cons_self
      exact ⟨leaf, kind, reaches.head rfl, isLeaf⟩
  | cleanup error path removal ih =>
    obtain ⟨leaf, kind, reaches, isLeaf⟩ := ih
    exact ⟨leaf, kind, reaches.head rfl, isLeaf⟩
  | invalidMode text => exact ⟨_, _, .refl, .invalidMode text⟩

/-- There is one leaf that is reached, and its kind is that of the error. -/
theorem exists_leaf (e : Error) :
    ∃ leaf, ∀ other kind, e.Reaches other ∧ other.Leaf kind ↔ other = leaf ∧ kind = e.kind := by
  obtain ⟨leaf, kind, reaches, isLeaf⟩ := e.exists_reaches
  refine ⟨leaf, fun other kind' => ⟨?_, ?_⟩⟩
  · intro ⟨reaches', isLeaf'⟩
    have same : other = leaf := reaches.leaf_unique isLeaf reaches' isLeaf'
    have own : e.kind = kind' := reaches'.kind_eq.trans isLeaf'.kind_eq
    exact ⟨same, own.symm⟩
  · intro ⟨same, own⟩
    have first : e.kind = kind := reaches.kind_eq.trans isLeaf.kind_eq
    rw [same, own, first]
    exact ⟨reaches, isLeaf⟩

end Error

/-! ## The texts of all errors inside -/

/-- How a text is composed of the texts of the errors inside. -/
inductive Error.Composed : Error → String → Prop
  | io (error : CallError) : Composed (.io error) error.text
  | security (stage : String) (source : CallError) :
      Composed (.security stage source) (stage ++ ": " ++ source.text)
  -- equal entries have equal texts, so the texts are given as a function and not as a list
  | entries {errors : List Error} {text : Error → String} :
      (∀ e ∈ errors, Composed e (text e)) →
      Composed (.entries errors)
        ("creating access control entries: " ++ "; ".intercalate (errors.map text))
  | cleanup {error : Error} {text : String} (path : String) (removal : CallError) :
      Composed error text →
      Composed (.cleanup error path removal)
        (text ++ "; removing " ++ path ++ ": " ++ removal.text)
  | invalidMode (text : String) : Composed (.invalidMode text) ("invalid mode: '" ++ text ++ "'")

/-- An error and one right inside it. -/
inductive Error.Holds : Error → Error → Prop
  | entry {errors : List Error} {e : Error} : e ∈ errors → Holds (.entries errors) e
  | beforeRemoval (error : Error) (path : String) (removal : CallError) :
      Holds (.cleanup error path removal) error

theorem mem_intersperse {α : Type} {a separator : α} {as : List α} (member : a ∈ as) :
    a ∈ as.intersperse separator := by
  obtain ⟨i, small, rfl⟩ := List.getElem_of_mem member
  rw [List.getElem_eq_getElem_intersperse_two_mul small]
  exact List.getElem_mem _

namespace Error

variable {e inner : Error} {text : String}

theorem Composed.text_eq (composed : e.Composed text) : text = e.text := by
  induction composed with
  | io error => rw [text_io]
  | security stage source => rw [text_security]
  | entries _ ih => rw [text_entries, List.map_congr_left ih]
  | cleanup path removal _ ih => rw [text_cleanup, ih]
  | invalidMode text => rw [text_invalidMode]

theorem composed_text (e : Error) : e.Composed e.text := by
  induction e using Error.induction with
  | io error => exact .io error
  | security stage source => exact .security stage source
  | entries errors ih =>
    rw [text_entries]
    exact .entries ih
  | cleanup error path removal ih => exact .cleanup path removal ih
  | invalidMode text => exact .invalidMode text

theorem composed_iff : e.Composed text ↔ text = e.text := by
  constructor
  · exact Composed.text_eq
  · intro same
    rw [same]
    exact e.composed_text

/-- What is right inside an error shows its whole text. -/
theorem Holds.text_infix (holds : e.Holds inner) : inner.text.toList <:+: e.text.toList := by
  cases holds with
  | @entry errors _ member =>
    have listed : inner.text.toList ∈ (errors.map Error.text).map String.toList :=
      List.mem_map_of_mem (List.mem_map_of_mem member)
    rw [text_entries, String.toList_append, String.toList_intercalate]
    apply (List.infix_of_mem_flatten (mem_intersperse listed)).trans
    exact (List.suffix_append _ _).isInfix
  | beforeRemoval _ path removal =>
    simp only [text_cleanup, String.toList_append, List.append_assoc]
    exact (List.prefix_append _ _).isInfix

/-- However deep an error is nested, its text is a part of the whole. -/
theorem text_infix (nested : Relation.ReflTransGen Holds e inner) :
    inner.text.toList <:+: e.text.toList := by
  induction nested with
  | refl => exact List.infix_refl _
  | tail _ holds ih => exact holds.text_infix.trans ih

end Error

/-! ## The causes, one after the other -/

/-- An error from which others stem: of a call, of an operation, or from elsewhere. -/
inductive Cause
  | call (error : CallError)
  | operation (error : Error)
  | foreign (text : String) (sources : List String)

/-- The nearest of some sources from elsewhere. -/
def Cause.nearest? : List String → Option Cause
  | [] => none
  | text :: others => some (.foreign text others)

mutual

/-- The cause of a call's error. An operation's error in this form is the same error, and so has
the same cause. -/
def CallError.cause? : CallError → Option Cause
  | .os _ | .plain _ | .message _ _ => none
  | .wrapped _ error => error.cause?
  | .foreign _ _ sources => Cause.nearest? sources

/-- The cause of an operation's error. A call's error to which nothing was added is the same error
still. -/
def Error.cause? : Error → Option Cause
  | .io error => error.cause?
  | .security _ source => some (.call source)
  | .cleanup error _ _ => some (.operation error)
  | .entries _ | .invalidMode _ => none

end

namespace Cause

def text : Cause → String
  | call error => error.text
  | operation error => error.text
  | foreign text _ => text

def sources : Cause → List String
  | call error => error.sources
  | operation error => error.sources
  | foreign _ sources => sources

def cause? : Cause → Option Cause
  | call error => error.cause?
  | operation error => error.cause?
  | foreign _ sources => nearest? sources

/-- The texts from a cause on. -/
def texts : Option Cause → List String
  | none => []
  | some cause => cause.text :: cause.sources

theorem texts_nearest? (sources : List String) : texts (nearest? sources) = sources := by
  cases sources <;> rfl

end Cause

mutual

theorem CallError.sources_eq : ∀ error : CallError, error.sources = Cause.texts error.cause?
  | .os _ | .plain _ | .message _ _ => rfl
  | .wrapped _ error => error.sources_eq
  | .foreign _ _ sources => (Cause.texts_nearest? sources).symm

theorem Error.sources_eq : ∀ error : Error, error.sources = Cause.texts error.cause?
  | .io error => error.sources_eq
  | .security _ _ | .cleanup _ _ _ | .entries _ | .invalidMode _ => rfl

end

namespace Cause

theorem sources_eq (cause : Cause) : cause.sources = texts cause.cause? := by
  cases cause with
  | call error => exact error.sources_eq
  | operation error => exact error.sources_eq
  | foreign text sources => exact (texts_nearest? sources).symm

theorem sources_of_cause? {cause next : Cause} (stems : cause.cause? = some next) :
    cause.sources = next.text :: next.sources := by
  rw [sources_eq, stems, texts]

/-- All causes of an error, each that of the one before. There is an end to them, since each takes
one text off the sources. -/
def causes (cause : Cause) : List Cause :=
  match _ : cause.cause? with
  | none => []
  | some next => next :: next.causes
termination_by cause.sources.length
decreasing_by
  rename_i stems
  rw [sources_of_cause? stems, List.length_cons]
  exact Nat.lt_succ_self _

/-- A cause, if there is one, with all its causes. -/
def chain : Option Cause → List Cause
  | none => []
  | some cause => cause :: cause.causes

theorem causes_eq (cause : Cause) : cause.causes = chain cause.cause? := by
  rw [causes]
  split
  · rename_i last
    rw [last, chain]
  · rename_i next stems
    rw [stems, chain]

/-- The sources of an error are the texts of its causes. -/
theorem map_text_causes (cause : Cause) : cause.causes.map text = cause.sources := by
  induction cause using causes.induct with
  | case1 cause last => rw [causes_eq, sources_eq, last, chain, List.map_nil, texts]
  | case2 cause next stems ih =>
    rw [causes_eq, sources_eq, stems, chain, List.map_cons, ih, texts]

end Cause

/-- The causes of a call's error. -/
def CallError.causes (error : CallError) : List Cause := (Cause.call error).causes

/-- The causes of the error of an operation. -/
def Error.causes (error : Error) : List Cause := (Cause.operation error).causes

/-- The causes of an error by what it holds. -/
inductive Error.StemsFrom : Error → List Cause → Prop
  | io (error : CallError) : StemsFrom (.io error) error.causes
  | security (stage : String) (source : CallError) :
      StemsFrom (.security stage source) (.call source :: source.causes)
  | entries (errors : List Error) : StemsFrom (.entries errors) []
  | cleanup {error : Error} {causes : List Cause} (path : String) (removal : CallError) :
      StemsFrom error causes →
      StemsFrom (.cleanup error path removal) (.operation error :: causes)
  | invalidMode (text : String) : StemsFrom (.invalidMode text) []

namespace Error

variable {e : Error} {causes : List Cause}

theorem causes_eq (e : Error) : e.causes = Cause.chain e.cause? :=
  Cause.causes_eq (.operation e)

theorem causes_io (error : CallError) : (io error).causes = error.causes :=
  (causes_eq _).trans (Cause.causes_eq (.call error)).symm

theorem causes_security (stage : String) (source : CallError) :
    (security stage source).causes = .call source :: source.causes :=
  causes_eq _

theorem causes_entries (errors : List Error) : (entries errors).causes = [] :=
  causes_eq _

theorem causes_cleanup (error : Error) (path : String) (removal : CallError) :
    (cleanup error path removal).causes = .operation error :: error.causes :=
  causes_eq _

theorem causes_invalidMode (text : String) : (invalidMode text).causes = [] :=
  causes_eq _

theorem StemsFrom.causes_eq (stems : e.StemsFrom causes) : causes = e.causes := by
  induction stems with
  | io error => rw [causes_io]
  | security stage source => rw [causes_security]
  | entries errors => rw [causes_entries]
  | cleanup path removal _ ih => rw [causes_cleanup, ih]
  | invalidMode text => rw [causes_invalidMode]

theorem stemsFrom_causes (e : Error) : e.StemsFrom e.causes := by
  induction e using Error.induction with
  | io error =>
    rw [causes_io]
    exact .io error
  | security stage source =>
    rw [causes_security]
    exact .security stage source
  | entries errors _ =>
    rw [causes_entries]
    exact .entries errors
  | cleanup error path removal ih =>
    rw [causes_cleanup]
    exact .cleanup path removal ih
  | invalidMode text =>
    rw [causes_invalidMode]
    exact .invalidMode text

theorem stemsFrom_iff : e.StemsFrom causes ↔ causes = e.causes := by
  constructor
  · exact StemsFrom.causes_eq
  · intro same
    rw [same]
    exact e.stemsFrom_causes

end Error

/-! ## Errors that are handed on -/

/-- What is to be read of an error. -/
structure Readings where
  kind : ErrorKind
  text : String
  causes : List Cause

def CallError.readings (error : CallError) : Readings := ⟨error.kind, error.text, error.causes⟩

def Error.readings (error : Error) : Readings := ⟨error.kind, error.text, error.causes⟩

/-- Hand the error on in the form of a call's error, and take that up as an operation's. -/
def Error.passOn (error : Error) : Error := .io error.toCallError

namespace Error

theorem cause?_toCallError (e : Error) : e.toCallError.cause? = e.cause? := by
  cases e <;> rfl

theorem causes_toCallError (e : Error) : e.toCallError.causes = e.causes := by
  rw [causes_eq, ← cause?_toCallError]
  exact Cause.causes_eq (.call e.toCallError)

theorem readings_toCallError (e : Error) : e.toCallError.readings = e.readings := by
  rw [CallError.readings, kind_toCallError, text_toCallError, causes_toCallError, Error.readings]

theorem readings_io (error : CallError) : (io error).readings = error.readings := by
  rw [Error.readings, causes_io, text_io, Error.kind, CallError.readings]

theorem readings_passOn (e : Error) : e.passOn.readings = e.readings :=
  (readings_io e.toCallError).trans e.readings_toCallError

theorem readings_passOn_iterate (e : Error) (n : Nat) : (passOn^[n] e).readings = e.readings := by
  induction n with
  | zero => rfl
  | succ n ih => rw [Function.iterate_succ_apply', readings_passOn, ih]

/-- Nested errors keep what they hold, to any depth. Exactly one leaf is reached by going to the
error that came first, of several to the first and of an operation that could not be undone to the
one before the removal, and the kind is that of this leaf. The text is composed of the texts of all
errors inside, in their order, so that it shows each of them in full. The causes, found by asking
each for the next, are those of the call's error if nothing was added to it; the call's error and
its causes if it was labelled with a stage; the error before the removal and its causes if that
failed as well; and none if there were several errors or the mode was invalid. The sources are the
texts of the causes. None of the three changes when the error is handed on in the form of a call's
error, however often it has been taken up from that form before. -/
theorem readings_of_nested (e : Error) :
    (∃ leaf, ∀ other kind, e.Reaches other ∧ other.Leaf kind ↔ other = leaf ∧ kind = e.kind) ∧
    ((∀ text, e.Composed text ↔ text = e.text) ∧
      ∀ inner, Relation.ReflTransGen Holds e inner → inner.text.toList <:+: e.text.toList) ∧
    ((∀ causes, e.StemsFrom causes ↔ causes = e.causes) ∧
      e.sources = e.causes.map Cause.text ∧
      ∀ error : CallError, error.sources = error.causes.map Cause.text) ∧
    ∀ n, (passOn^[n] e).readings = e.readings ∧
      (passOn^[n] e).toCallError.readings = e.readings := by
  refine ⟨e.exists_leaf, ⟨fun _ => composed_iff, fun _ => text_infix⟩,
    ⟨fun _ => stemsFrom_iff, ?_, ?_⟩, ?_⟩
  · exact (Cause.map_text_causes (.operation e)).symm
  · intro error
    exact (Cause.map_text_causes (.call error)).symm
  · intro n
    have kept : (passOn^[n] e).readings = e.readings := e.readings_passOn_iterate n
    exact ⟨kept, (readings_toCallError _).trans kept⟩

example : (cleanup (entries [security "creating sid for everyone" (.plain .timedOut),
      cleanup (io (.os .ENOENT)) "/d" (.message .other "busy")]) "/e" (.os .ENOTEMPTY)).text =
    "creating access control entries: creating sid for everyone: timed out; " ++
      "No such file or directory (os error 2); removing /d: busy; " ++
      "removing /e: Directory not empty (os error 39)" := by
  rfl

end Error

end ModeAcl
