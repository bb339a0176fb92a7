import Mathlib.Data.List.Forall2
import Mathlib.Data.Nat.Digits.Defs
import Mathlib.Tactic.Ring
import ModeAcl.Proofs.Numerals

/-!
# The grammar of numerals

`Denotes` says what a run of digits is worth without reading it: the positional sum of
its digits. The readers accept exactly the runs that denote a number
(`read?_eq_some_iff`), with a bound those below it, behind a plus sign or without one
(`readBounded?_eq_some_iff`).

The reader of words gives up at the first product or sum that has no room. Further
digits never make a number smaller, so it gives up exactly if the number that the whole
run denotes has no room (`readWord?_eq`): nothing wraps around, and zeros at the front
take no room, however many there are.
-/

namespace ModeAcl.Numeral

variable {base n : Nat}

/-! ## Digits -/

/-- The digits, in the order of their values. -/
def smallDigits : List Char := "0123456789abcdef".toList

/-- The digits with capitals for the letters. -/
def capitalDigits : List Char := "0123456789ABCDEF".toList

/-- The character is a digit of the base, of this value. -/
def IsDigit (base : Nat) (c : Char) (d : Nat) : Prop :=
  d < base ∧ (smallDigits[d]? = some c ∨ capitalDigits[d]? = some c)

/-- What holds of all characters of a range holds of each. -/
theorem of_between {P : Char → Prop} {first last c : Char}
    (each : ∀ k < last.toNat - first.toNat + 1, P (Char.ofNat (first.toNat + k)))
    (low : first ≤ c) (high : c ≤ last) : P c := by
  have low : first.toNat ≤ c.toNat := low
  have high : c.toNat ≤ last.toNat := high
  have at_ := each (c.toNat - first.toNat) (by omega)
  have back : first.toNat + (c.toNat - first.toNat) = c.toNat := by omega
  rwa [back, Char.ofNat_toNat] at at_

theorem isDigit_of_digitValue? {c : Char} {d : Nat} (value : digitValue? base c = some d) :
    IsDigit base c d := by
  unfold digitValue? at value
  rw [Option.filter_eq_some_iff, decide_eq_true_eq] at value
  obtain ⟨value, small⟩ := value
  refine ⟨small, ?_⟩
  -- One range of characters after the other: within each, the value gives the position.
  split at value
  · rename_i range
    obtain rfl := Option.some.inj value
    left
    exact of_between (P := fun c => smallDigits[c.toNat - '0'.toNat]? = some c) (by decide)
      range.1 range.2
  split at value
  · rename_i range
    obtain rfl := Option.some.inj value
    left
    exact of_between (P := fun c => smallDigits[c.toNat - 'a'.toNat + 10]? = some c) (by decide)
      range.1 range.2
  split at value
  · rename_i range
    obtain rfl := Option.some.inj value
    right
    exact of_between (P := fun c => capitalDigits[c.toNat - 'A'.toNat + 10]? = some c) (by decide)
      range.1 range.2
  · cases value

theorem digitValue?_of_isDigit {c : Char} {d : Nat} (digit : IsDigit base c d) :
    digitValue? base c = some d := by
  obtain ⟨small, listed⟩ := digit
  refine digitValue?_of_sixteen ?_ small
  rcases listed with listed | listed
  · obtain ⟨bound, rfl⟩ := List.getElem?_eq_some_iff.mp listed
    have each : ∀ d : Fin 16, digitValue? 16 smallDigits[d] = some d.val := by decide
    exact each ⟨d, bound⟩
  · obtain ⟨bound, rfl⟩ := List.getElem?_eq_some_iff.mp listed
    have each : ∀ d : Fin 16, digitValue? 16 capitalDigits[d] = some d.val := by decide
    exact each ⟨d, bound⟩

/-! ## Runs of digits -/

/-- The run is not empty, all of it are digits, and `n` is their positional sum. -/
def Denotes (base : Nat) (run : List Char) (n : Nat) : Prop :=
  run ≠ [] ∧ ∃ ds, List.Forall₂ (IsDigit base) run ds ∧ n = Nat.ofDigits base ds.reverse

theorem ofDigits_reverse_cons (base d : Nat) (ds : List Nat) :
    Nat.ofDigits base (d :: ds).reverse = d * base ^ ds.length + Nat.ofDigits base ds.reverse := by
  rw [List.reverse_cons, Nat.ofDigits_append, Nat.ofDigits_singleton, List.length_reverse,
    Nat.mul_comm, Nat.add_comm]

/-- Reading on moves what has been read by as many places as there are further digits. -/
theorem readFrom?_eq_some_iff {acc : Nat} {run : List Char} :
    readFrom? base acc run = some n ↔
      ∃ ds, List.Forall₂ (IsDigit base) run ds ∧
        n = acc * base ^ run.length + Nat.ofDigits base ds.reverse := by
  induction run generalizing acc with
  | nil =>
    simp only [readFrom?, Option.some.injEq, List.forall₂_nil_left_iff, exists_eq_left,
      List.length_nil, pow_zero, mul_one, List.reverse_nil, Nat.ofDigits_nil, add_zero]
    exact eq_comm
  | cons c run ih =>
    rw [readFrom?, List.length_cons]
    constructor
    · intro read
      rcases value : digitValue? base c with _ | d
      · rw [value] at read
        cases read
      rw [value] at read
      obtain ⟨ds, digits, sum⟩ := ih.mp read
      refine ⟨d :: ds, .cons (isDigit_of_digitValue? value) digits, ?_⟩
      rw [ofDigits_reverse_cons, sum, digits.length_eq]
      ring
    · rintro ⟨ds, digits, sum⟩
      cases digits with
      | @cons _ d _ ds digit digits =>
        rw [digitValue?_of_isDigit digit]
        refine ih.mpr ⟨ds, digits, ?_⟩
        rw [sum, ofDigits_reverse_cons, digits.length_eq]
        ring

/-- The reader accepts the runs that denote a number, as this number. -/
theorem read?_eq_some_iff {run : List Char} : read? base run = some n ↔ Denotes base run n := by
  unfold Denotes
  by_cases some_ : run = []
  · subst some_
    simp [read?]
  · rw [read?_of_ne_nil some_, readFrom?_eq_some_iff]
    simp only [zero_mul, zero_add, ne_eq, some_, not_false_eq_true, true_and]

theorem Denotes.exists_digit {run : List Char} (denotes : Denotes base run n) {c : Char}
    (member : c ∈ run) : ∃ d, digitValue? base c = some d := by
  obtain ⟨-, ds, digits, -⟩ := denotes
  induction digits with
  | nil => cases member
  | cons digit digits ih =>
    rcases List.mem_cons.mp member with rfl | later
    · exact ⟨_, digitValue?_of_isDigit digit⟩
    · exact ih later

/-- Zeros at the front do not count. -/
theorem Denotes.zeros {run : List Char} (denotes : Denotes base run n) (positive : 0 < base)
    (k : Nat) : Denotes base (List.replicate k '0' ++ run) n := by
  have zero : digitValue? base '0' = some 0 := digitValue?_of_sixteen rfl positive
  rw [← read?_eq_some_iff, read?_zeros zero denotes.1]
  exact read?_eq_some_iff.mpr denotes

/-! ## With a plus sign -/

/-- The text denotes a number, or is a plus sign and a run that denotes it. -/
def DenotesSigned (base : Nat) (text : List Char) (n : Nat) : Prop :=
  Denotes base text n ∨ ∃ run, text = '+' :: run ∧ Denotes base run n

/-- A plus sign is no digit, so a text is read in one way only. -/
theorem denotesSigned_plus {run : List Char} :
    DenotesSigned base ('+' :: run) n ↔ Denotes base run n := by
  constructor
  · rintro (denotes | ⟨rest, same, denotes⟩)
    · obtain ⟨d, value⟩ := denotes.exists_digit List.mem_cons_self
      cases value
    · cases same
      exact denotes
  · intro denotes
    exact Or.inr ⟨run, rfl, denotes⟩

theorem denotesSigned_of_ne {text : List Char} (unsigned : ∀ run, text ≠ '+' :: run) :
    DenotesSigned base text n ↔ Denotes base text n := by
  constructor
  · rintro (denotes | ⟨run, same, -⟩)
    · exact denotes
    · exact absurd same (unsigned run)
  · exact Or.inl

theorem DenotesSigned.exists_digit {text : List Char} (denotes : DenotesSigned base text n)
    {c : Char} (member : c ∈ text) (other : c ≠ '+') : ∃ d, digitValue? base c = some d := by
  rcases denotes with denotes | ⟨run, rfl, denotes⟩
  · exact denotes.exists_digit member
  · rcases List.mem_cons.mp member with same | later
    · exact absurd same other
    · exact denotes.exists_digit later

theorem readBounded?_eq_some_iff {bound : Nat} {text : List Char} :
    readBounded? base bound text = some n ↔ DenotesSigned base text n ∧ n < bound := by
  unfold readBounded?
  split
  · rw [Option.filter_eq_some_iff, read?_eq_some_iff, denotesSigned_plus, decide_eq_true_eq]
  · rename_i unsigned
    rw [Option.filter_eq_some_iff, read?_eq_some_iff, denotesSigned_of_ne unsigned,
      decide_eq_true_eq]

/-! ## Words -/

/-- Further digits never make a number smaller. -/
theorem le_of_readFrom? {acc : Nat} {run : List Char} (read : readFrom? base acc run = some n) :
    acc ≤ n := by
  induction run generalizing acc with
  | nil => exact Nat.le_of_eq (Option.some.inj read)
  | cons c run ih =>
    rw [readFrom?] at read
    rcases value : digitValue? base c with _ | d
    · rw [value] at read
      cases read
    rw [value] at read
    have positive : 0 < base := Nat.zero_lt_of_lt (isDigit_of_digitValue? value).1
    calc acc ≤ acc * base := Nat.le_mul_of_pos_right acc positive
      _ ≤ acc * base + d := Nat.le_add_right _ _
      _ ≤ n := ih read

variable {width : Nat}

/-- A digit is put behind a number exactly if there is room for the result. -/
theorem pushDigit?_eq (fits : base < 2 ^ width) {d : Nat} (digit : d < base)
    (acc : BitVec width) :
    pushDigit? (.ofNat width base) (.ofNat width d) acc =
      if acc.toNat * base + d < 2 ^ width then some (.ofNat width (acc.toNat * base + d))
      else none := by
  have toBase : (BitVec.ofNat width base).toNat = base := by
    rw [BitVec.toNat_ofNat, Nat.mod_eq_of_lt fits]
  have toDigit : (BitVec.ofNat width d).toNat = d := by
    rw [BitVec.toNat_ofNat, Nat.mod_eq_of_lt (Nat.lt_trans digit fits)]
  unfold pushDigit?
  by_cases product : acc.umulOverflow (.ofNat width base) = true
  · rw [if_pos product, if_neg]
    rw [BitVec.umulOverflow, toBase, decide_eq_true_eq] at product
    omega
  have exact_ := BitVec.toNat_mul_of_not_umulOverflow product
  rw [toBase] at exact_
  by_cases sum : (acc * .ofNat width base).uaddOverflow (.ofNat width d) = true
  · rw [if_neg product, if_pos sum, if_neg]
    rw [BitVec.uaddOverflow, exact_, toDigit, decide_eq_true_eq] at sum
    omega
  have total := BitVec.toNat_add_of_not_uaddOverflow sum
  rw [exact_, toDigit] at total
  rw [if_neg product, if_neg sum, if_pos (total ▸ BitVec.isLt _), ← total, BitVec.ofNat_toNat,
    BitVec.setWidth_eq]

/-- Reading into a word is reading the number, if this has room in the end. -/
theorem readWordFrom?_eq (fits : base < 2 ^ width) (acc : BitVec width) (run : List Char) :
    readWordFrom? base acc run =
      ((readFrom? base acc.toNat run).filter (· < 2 ^ width)).map (.ofNat width) := by
  induction run generalizing acc with
  | nil =>
    rw [readWordFrom?, readFrom?, Option.filter_some, if_pos (decide_eq_true acc.isLt),
      Option.map_some, BitVec.ofNat_toNat, BitVec.setWidth_eq]
  | cons c run ih =>
    rw [readWordFrom?, readFrom?]
    rcases value : digitValue? base c with _ | d
    · rfl
    dsimp only
    rw [pushDigit?_eq fits (isDigit_of_digitValue? value).1]
    by_cases room : acc.toNat * base + d < 2 ^ width
    · rw [if_pos room]
      dsimp only
      rw [ih, BitVec.toNat_ofNat, Nat.mod_eq_of_lt room]
    · -- What has no room now has none later.
      rw [if_neg room]
      rcases read : readFrom? base (acc.toNat * base + d) run with _ | m
      · rfl
      have grown := le_of_readFrom? read
      rw [Option.filter_some, if_neg]
      · rfl
      · rw [decide_eq_true_eq]
        omega

theorem readWordRun?_eq (fits : base < 2 ^ width) (run : List Char) :
    readWordRun? base width run =
      ((read? base run).filter (· < 2 ^ width)).map (.ofNat width) := by
  cases run with
  | nil => rfl
  | cons c cs => exact readWordFrom?_eq fits 0 (c :: cs)

theorem readWord?_eq (fits : base < 2 ^ width) (text : List Char) :
    readWord? base width text = (readBounded? base (2 ^ width) text).map (.ofNat width) := by
  unfold readWord? readBounded?
  split
  · exact readWordRun?_eq fits _
  · exact readWordRun?_eq fits _

/-- The reader of words accepts a number exactly if it fits a word. -/
theorem readWord?_eq_some_iff (fits : base < 2 ^ width) {text : List Char}
    {word : BitVec width} :
    readWord? base width text = some word ↔ DenotesSigned base text word.toNat := by
  rw [readWord?_eq fits, Option.map_eq_some_iff]
  constructor
  · rintro ⟨n, read, rfl⟩
    obtain ⟨denotes, small⟩ := readBounded?_eq_some_iff.mp read
    rwa [BitVec.toNat_ofNat, Nat.mod_eq_of_lt small]
  · intro denotes
    refine ⟨word.toNat, readBounded?_eq_some_iff.mpr ⟨denotes, word.isLt⟩, ?_⟩
    rw [BitVec.ofNat_toNat, BitVec.setWidth_eq]

end ModeAcl.Numeral
