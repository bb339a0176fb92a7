import Mathlib.Tactic.Common
import ModeAcl.Text.Numeral

/-!
# Reading written numerals

A number is read again from its digits, with zeros before them or without, and
with small letters or capitals: `Spells` says of a way to write digits that each
of them is read as itself. No digit is a sign or a separator, so a written
numeral is one run.
-/

namespace ModeAcl.Numeral

variable {base n : Nat}

/-! ## Single digits -/

theorem digitValue?_of_sixteen {c : Char} {d : Nat} (value : digitValue? 16 c = some d)
    (small : d < base) : digitValue? base c = some d := by
  rw [digitValue?, Option.filter_eq_some_iff] at value ⊢
  exact ⟨value.1, decide_eq_true small⟩

/-- Digits are written so that each is read as itself. -/
def Spells (base : Nat) (spell : Char → Char) : Prop :=
  ∀ d < base, digitValue? base (spell d.digitChar) = some d

theorem spells_of_sixteen {spell : Char → Char} (spells : Spells 16 spell) (few : base ≤ 16) :
    Spells base spell :=
  fun d small => digitValue?_of_sixteen (spells d (Nat.lt_of_lt_of_le small few)) small

theorem spells_id (few : base ≤ 16) : Spells base id :=
  spells_of_sixteen (by unfold Spells; decide) few

theorem spells_toUpper (few : base ≤ 16) : Spells base Char.toUpper :=
  spells_of_sixteen (by unfold Spells; decide) few

/-! ## Runs -/

theorem readFrom?_append (base acc : Nat) (run rest : List Char) :
    readFrom? base acc (run ++ rest) =
      (readFrom? base acc run).bind fun acc => readFrom? base acc rest := by
  induction run generalizing acc with
  | nil => rfl
  | cons c run ih =>
    rw [List.cons_append, readFrom?, readFrom?]
    cases digitValue? base c with
    | none => rfl
    | some d => exact ih _

/-- The digits of a number, from the last one on. -/
theorem digits_eq (two : 1 < base) (n : Nat) :
    digits base n =
      if n < base then [n.digitChar] else digits base (n / base) ++ [(n % base).digitChar] :=
  Nat.toDigits_eq_if two

theorem readFrom?_digits (two : 1 < base) {spell : Char → Char} (spells : Spells base spell)
    (n : Nat) : readFrom? base 0 ((digits base n).map spell) = some n := by
  induction n using Nat.strongRecOn with
  | ind n ih =>
    rw [digits_eq two]
    split
    · rename_i small
      simp only [List.map_cons, List.map_nil, readFrom?, spells n small]
      rw [Nat.zero_mul, Nat.zero_add]
    · rename_i large
      have last := spells (n % base) (Nat.mod_lt n (by omega))
      have before := ih (n / base) (Nat.div_lt_self (by omega) two)
      rw [List.map_append, readFrom?_append, before]
      simp only [List.map_cons, List.map_nil, Option.bind_some, readFrom?, last]
      rw [Nat.mul_comm, Nat.div_add_mod]

theorem digits_ne_nil (base n : Nat) : digits base n ≠ [] := Nat.toDigits_ne_nil

theorem read?_of_ne_nil {run : List Char} (some_ : run ≠ []) :
    read? base run = readFrom? base 0 run := by
  cases run with
  | nil => exact absurd rfl some_
  | cons c run => rfl

/-- Zeros at the front do not count. -/
theorem readFrom?_zeros {zero : Char} (none : digitValue? base zero = some 0) (k : Nat)
    (run : List Char) :
    readFrom? base 0 (List.replicate k zero ++ run) = readFrom? base 0 run := by
  induction k with
  | zero => rfl
  | succ k ih =>
    rw [List.replicate_succ, List.cons_append, readFrom?, none]
    simpa using ih

theorem read?_zeros {zero : Char} (none : digitValue? base zero = some 0) {run : List Char}
    (some_ : run ≠ []) (k : Nat) :
    read? base (List.replicate k zero ++ run) = read? base run := by
  rw [read?_of_ne_nil (List.append_ne_nil_of_right_ne_nil _ some_), readFrom?_zeros none,
    read?_of_ne_nil some_]

/-! ## Whole numerals -/

theorem map_digits_ne_nil (base n : Nat) (spell : Char → Char) :
    (digits base n).map spell ≠ [] := by
  rw [Ne, List.map_eq_nil_iff]
  exact digits_ne_nil base n

theorem read?_digits (two : 1 < base) {spell : Char → Char} (spells : Spells base spell)
    (n : Nat) : read? base ((digits base n).map spell) = some n := by
  rw [read?_of_ne_nil (map_digits_ne_nil base n spell), readFrom?_digits two spells]

theorem read?_padded (two : 1 < base) {spell : Char → Char} (spells : Spells base spell)
    (width n : Nat) : read? base ((padded base width n).map spell) = some n := by
  have zero : digitValue? base (spell '0') = some 0 := spells 0 (by omega)
  have shown : (padded base width n).map spell =
      List.replicate (width - (digits base n).length) (spell '0') ++
        (digits base n).map spell := by
    rw [padded, List.leftpad, List.map_append, List.map_replicate]
  rw [shown, read?_zeros zero (map_digits_ne_nil base n spell), read?_digits two spells]

/-- A run of digits has no sign to be taken off. -/
theorem readBounded?_of_read? {bound : Nat} {run : List Char} (read : read? base run = some n)
    (small : n < bound) : readBounded? base bound run = some n := by
  unfold readBounded?
  split
  · cases read
  · dsimp only
    rw [read, Option.filter_some, if_pos (decide_eq_true small)]

/-! ## Characters -/

theorem mem_digits (two : 1 < base) {c : Char} (member : c ∈ digits base n) :
    ∃ d < base, c = d.digitChar := by
  induction n using Nat.strongRecOn with
  | ind n ih =>
    rw [digits_eq two] at member
    split at member
    · exact ⟨n, ‹_›, List.mem_singleton.mp member⟩
    · rcases List.mem_append.mp member with before | last
      · exact ih (n / base) (Nat.div_lt_self (by omega) two) before
      · exact ⟨n % base, Nat.mod_lt n (by omega), List.mem_singleton.mp last⟩

/-- A character that is read as no digit is in no numeral. -/
theorem not_mem_digits (two : 1 < base) {spell : Char → Char} (spells : Spells base spell)
    {c : Char} (other : digitValue? base c = none) : c ∉ (digits base n).map spell := by
  intro member
  obtain ⟨digit, written, rfl⟩ := List.mem_map.mp member
  obtain ⟨d, small, rfl⟩ := mem_digits two written
  rw [spells d small] at other
  cases other

end ModeAcl.Numeral
