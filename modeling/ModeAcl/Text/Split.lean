/-!
# Fields between separators

`split sep` cuts a text at every `sep`; `join sep` puts it together again. There
is always at least one field, and two separators in a row have an empty field
between them.
-/

namespace ModeAcl.Fields

/-- The fields of a text between the occurrences of `sep`. -/
def split (sep : Char) : List Char → List (List Char)
  | [] => [[]]
  | c :: cs =>
    if c = sep then [] :: split sep cs
    else
      match split sep cs with
      | field :: fields => (c :: field) :: fields
      | [] => [[c]]

/-- The fields with one `sep` between any two neighbours. -/
def join (sep : Char) : List (List Char) → List Char
  | [] => []
  | [field] => field
  | field :: next :: fields => field ++ sep :: join sep (next :: fields)

theorem split_ne_nil (sep : Char) (text : List Char) : split sep text ≠ [] := by
  cases text with
  | nil => simp [split]
  | cons c cs =>
    unfold split
    split
    · simp
    · split <;> simp

/-- Cutting loses nothing. -/
theorem join_split (sep : Char) (text : List Char) : join sep (split sep text) = text := by
  induction text with
  | nil => rfl
  | cons c cs ih =>
    unfold split
    split
    case isTrue h =>
      subst h
      cases hs : split c cs with
      | nil => exact absurd hs (split_ne_nil c cs)
      | cons field fields => rw [hs] at ih; simp [join, ih]
    case isFalse h =>
      cases hs : split sep cs with
      | nil => exact absurd hs (split_ne_nil sep cs)
      | cons field fields =>
        rw [hs] at ih
        cases fields with
        | nil => simpa [join] using ih
        | cons next fields => simp only [join, List.cons_append] at ih ⊢; rw [ih]

theorem not_mem_of_mem_split {sep : Char} {text field : List Char}
    (member : field ∈ split sep text) : sep ∉ field := by
  induction text generalizing field with
  | nil =>
    rw [split, List.mem_singleton] at member
    simp [member]
  | cons c cs ih =>
    unfold split at member
    split at member
    · rcases List.mem_cons.mp member with rfl | later
      · simp
      · exact ih later
    · rename_i other
      rcases parts : split sep cs with _ | ⟨first, fields⟩
      · exact absurd parts (split_ne_nil sep cs)
      rw [parts] at member ih
      rcases List.mem_cons.mp member with rfl | later
      · have clean := ih List.mem_cons_self
        simp [clean, Ne.symm other]
      · exact ih (List.mem_cons_of_mem _ later)

theorem split_of_not_mem {sep : Char} {field : List Char} (clean : sep ∉ field) :
    split sep field = [field] := by
  induction field with
  | nil => rfl
  | cons c cs ih =>
    rw [List.mem_cons, not_or] at clean
    rw [split, if_neg (Ne.symm clean.1), ih clean.2]

theorem split_append {sep : Char} {field : List Char} (clean : sep ∉ field) (text : List Char) :
    split sep (field ++ sep :: text) = field :: split sep text := by
  induction field with
  | nil => simp [split]
  | cons c cs ih =>
    rw [List.mem_cons, not_or] at clean
    rw [List.cons_append, split, if_neg (Ne.symm clean.1), ih clean.2]

/-- Fields without the separator are cut where they were joined. -/
theorem split_join {sep : Char} {fields : List (List Char)} (some_ : fields ≠ [])
    (clean : ∀ field ∈ fields, sep ∉ field) : split sep (join sep fields) = fields := by
  induction fields with
  | nil => exact absurd rfl some_
  | cons field fields ih =>
    have first : sep ∉ field := clean field List.mem_cons_self
    cases fields with
    | nil => rw [join, split_of_not_mem first]
    | cons next fields =>
      rw [join, split_append first]
      exact congrArg (field :: ·)
        (ih (List.cons_ne_nil next fields) fun f member => clean f (List.mem_cons_of_mem _ member))

end ModeAcl.Fields
