import ModeAcl.Mode
import ModeAcl.Proofs.NumeralGrammar

/-!
# Modes as texts

A text names a mode if it consists of the digits from 0 to 7 and is worth at most
0o7777 (`Mode.IsOctal`). The reader accepts exactly these texts and hands any other
back in its error. It reads into a word of 32 bits, where a text may be worth more than
the word holds; no such text is taken for that of a mode. Written in octal, padded or
not, a mode is read again exactly if it has no type bits and none above them.
-/

namespace ModeAcl.Mode

open Numeral

/-- The number that octal digits are worth. -/
def octalValue (s : String) : Nat :=
  Nat.ofDigits 8 (s.toList.reverse.map fun c => c.toNat - '0'.toNat)

/-- The text names a mode: octal digits that are worth no more than triads and special bits. -/
def IsOctal (s : String) : Prop :=
  s ≠ "" ∧ (∀ c ∈ s.toList, '0' ≤ c ∧ c ≤ '7') ∧ octalValue s ≤ 0o7777

instance (s : String) : Decidable (IsOctal s) :=
  inferInstanceAs (Decidable (s ≠ "" ∧ (∀ c ∈ s.toList, '0' ≤ c ∧ c ≤ '7') ∧ _))

/-! ## Octal digits -/

theorem isDigit_eight_iff {c : Char} {d : Nat} :
    IsDigit 8 c d ↔ ('0' ≤ c ∧ c ≤ '7') ∧ d = c.toNat - '0'.toNat := by
  constructor
  · rintro ⟨small, listed⟩
    -- Up to the letters the two rows of digits are the same.
    have same : ∀ d : Fin 8, capitalDigits[d.val]? = smallDigits[d.val]? := by decide
    rw [same ⟨d, small⟩, or_self] at listed
    obtain ⟨bound, rfl⟩ := List.getElem?_eq_some_iff.mp listed
    have each : ∀ d : Fin 8, ('0' ≤ smallDigits[d.val] ∧ smallDigits[d.val] ≤ '7') ∧
        d.val = smallDigits[d.val].toNat - '0'.toNat := by decide
    exact each ⟨d, small⟩
  · rintro ⟨range, rfl⟩
    exact of_between (P := fun c => IsDigit 8 c (c.toNat - '0'.toNat)) (by unfold IsDigit; decide)
      range.1 range.2

theorem forall₂_isDigit_eight_iff {run : List Char} {ds : List Nat} :
    List.Forall₂ (IsDigit 8) run ds ↔
      (∀ c ∈ run, '0' ≤ c ∧ c ≤ '7') ∧ ds = run.map fun c => c.toNat - '0'.toNat := by
  induction run generalizing ds with
  | nil => simp
  | cons c run ih =>
    simp only [List.forall₂_cons_left_iff, isDigit_eight_iff, ih, List.forall_mem_cons,
      List.map_cons]
    constructor
    · rintro ⟨d, ds, ⟨range, rfl⟩, ⟨ranges, rfl⟩, rfl⟩
      exact ⟨⟨range, ranges⟩, rfl⟩
    · rintro ⟨⟨range, ranges⟩, rfl⟩
      exact ⟨_, _, ⟨range, rfl⟩, ⟨ranges, rfl⟩, rfl⟩

theorem denotes_eight_iff {s : String} {n : Nat} :
    Denotes 8 s.toList n ↔ s ≠ "" ∧ (∀ c ∈ s.toList, '0' ≤ c ∧ c ≤ '7') ∧ n = octalValue s := by
  unfold Denotes octalValue
  rw [Ne, String.toList_eq_nil_iff]
  apply and_congr_right
  intro _
  constructor
  · rintro ⟨ds, digits, rfl⟩
    obtain ⟨ranges, rfl⟩ := forall₂_isDigit_eight_iff.mp digits
    exact ⟨ranges, by rw [List.map_reverse]⟩
  · rintro ⟨ranges, rfl⟩
    refine ⟨_, forall₂_isDigit_eight_iff.mpr ⟨ranges, rfl⟩, ?_⟩
    rw [List.map_reverse]

/-! ## Reading -/

/-- What passes the first check has no plus sign, so reading into a word means what it means for
a run of digits. -/
theorem parse?_eq_some_iff {s : String} {m : Mode} :
    parse? s = some m ↔ Denotes 8 s.toList m.toNat ∧ m.toNat ≤ 0o7777 := by
  have fits : 8 < 2 ^ 32 := by decide
  have value : ∀ word : BitVec 32,
      (readWord? 8 32 s.toList).filter (· ≤ modeMask.bits) = some word ↔
        DenotesSigned 8 s.toList word.toNat ∧ word.toNat ≤ 0o7777 := by
    intro word
    rw [Option.filter_eq_some_iff, readWord?_eq_some_iff fits, decide_eq_true_eq, BitVec.le_def]
    rfl
  unfold parse?
  rw [Option.ite_none_left_eq_some, Option.map_eq_some_iff]
  constructor
  · rintro ⟨digits, word, read, rfl⟩
    obtain ⟨denotes, small⟩ := (value word).mp read
    refine ⟨?_, small⟩
    rcases denotes with denotes | ⟨run, signed, -⟩
    · exact denotes
    · rw [signed] at digits
      exact absurd digits (by simp [digitValue?])
  · rintro ⟨denotes, small⟩
    have some_ : s ≠ "" := (denotes_eight_iff.mp denotes).1
    have digits : ∀ c ∈ s.toList, (digitValue? 8 c).isSome = true := by
      intro c member
      obtain ⟨d, value⟩ := denotes.exists_digit member
      rw [value, Option.isSome_some]
    refine ⟨?_, m.bits, (value m.bits).mpr ⟨Or.inl denotes, small⟩, rfl⟩
    rw [Bool.or_eq_true, String.isEmpty_iff, Bool.not_eq_true', ← Bool.not_eq_true, not_or, not_not,
      List.all_eq_true]
    exact ⟨some_, digits⟩

theorem toNat_ofNat {n : Nat} (small : n ≤ 0o7777) : (ofNat n).toNat = n := by
  show (BitVec.ofNat 32 n).toNat = n
  rw [BitVec.toNat_ofNat, Nat.mod_eq_of_lt (by omega)]

theorem ofNat_toNat (m : Mode) : ofNat m.toNat = m := by
  show Mode.mk (BitVec.ofNat 32 m.bits.toNat) = m
  rw [BitVec.ofNat_toNat, BitVec.setWidth_eq]

/-- Octal digits that are not worth too much are read as what they are worth, and every other
text is handed back. -/
theorem parse_eq (s : String) :
    parse s = if IsOctal s then .ok (.ofNat (octalValue s)) else .error (.invalidMode s) := by
  unfold parse
  by_cases octal : IsOctal s
  · obtain ⟨some_, ranges, small⟩ := octal
    have read : parse? s = some (.ofNat (octalValue s)) := by
      rw [parse?_eq_some_iff, toNat_ofNat small]
      exact ⟨denotes_eight_iff.mpr ⟨some_, ranges, rfl⟩, small⟩
    rw [read, if_pos ⟨some_, ranges, small⟩]
  · have refused : parse? s = none := by
      rw [Option.eq_none_iff_forall_ne_some]
      intro m read
      obtain ⟨denotes, small⟩ := parse?_eq_some_iff.mp read
      obtain ⟨some_, ranges, worth⟩ := denotes_eight_iff.mp denotes
      exact octal ⟨some_, ranges, worth ▸ small⟩
    rw [refused, if_neg octal]

theorem parse_eq_ok_iff {s : String} {m : Mode} :
    parse s = .ok m ↔ IsOctal s ∧ m.toNat = octalValue s := by
  rw [parse_eq]
  constructor
  · intro read
    split at read
    · rename_i octal
      obtain rfl := Except.ok.inj read
      exact ⟨octal, toNat_ofNat octal.2.2⟩
    · cases read
  · rintro ⟨octal, worth⟩
    rw [if_pos octal, ← worth, ofNat_toNat]

/-! ## Reading what was written -/

/-- A text that denotes a mode is read as this mode, if it has neither type nor higher bits. -/
theorem parse_of_denotes {s : String} {m : Mode} (denotes : Denotes 8 s.toList m.toNat) :
    parse s = if m.toNat ≤ 0o7777 then .ok m else .error (.invalidMode s) := by
  obtain ⟨some_, ranges, worth⟩ := denotes_eight_iff.mp denotes
  have octal : IsOctal s ↔ m.toNat ≤ 0o7777 := by
    unfold IsOctal
    rw [worth]
    exact ⟨fun octal => octal.2.2, fun small => ⟨some_, ranges, small⟩⟩
  rw [parse_eq, ← worth, ofNat_toNat]
  simp only [octal]

theorem denotes_octal (m : Mode) : Denotes 8 m.octal.toList m.toNat := by
  have read : read? 8 ((digits 8 m.toNat).map id) = some m.toNat :=
    read?_digits (by decide) (spells_id (by decide)) m.toNat
  rw [List.map_id] at read
  rw [octal, Numeral.octal, String.toList_ofList]
  exact read?_eq_some_iff.mp read

theorem denotes_octalPadded (width : Nat) (m : Mode) :
    Denotes 8 (m.octalPadded width).toList m.toNat := by
  have read : read? 8 ((padded 8 width m.toNat).map id) = some m.toNat :=
    read?_padded (by decide) (spells_id (by decide)) width m.toNat
  rw [List.map_id] at read
  rw [octalPadded, String.toList_ofList]
  exact read?_eq_some_iff.mp read

theorem toNat_modeBits_le (m : Mode) : m.modeBits.toNat ≤ 0o7777 := by
  show (m.bits &&& modeMask.bits).toNat ≤ 0o7777
  rw [BitVec.toNat_and]
  exact Nat.and_le_right

/-- Four digits are enough for triads and special bits. -/
theorem length_octalPadded {m : Mode} (small : m.toNat ≤ 0o7777) :
    (m.octalPadded 4).length = 4 := by
  have few : (digits 8 m.toNat).length ≤ 4 := Nat.toDigits_length 8 _ 4 (by decide) (by omega)
  rw [octalPadded, padded, String.length_ofList, List.length_leftpad, max_eq_left few]

/-- A text is read as a mode exactly if it consists of octal digits, at least one and any number of
zeros among them, that are worth at most 0o7777, and the mode is what they are worth; any other text
is handed back unchanged as no mode. So a mode that is written in octal, with zeros before it or
without, is read again exactly if it is at most 0o7777. -/
theorem octal_language :
    (∀ s, parse s = if IsOctal s then .ok (.ofNat (octalValue s)) else .error (.invalidMode s)) ∧
    (∀ s m, parse s = .ok m ↔
      (s ≠ "" ∧ (∀ c ∈ s.toList, '0' ≤ c ∧ c ≤ '7') ∧ octalValue s ≤ 0o7777) ∧
        m.toNat = octalValue s) ∧
    (∀ s m zeros, parse s = .ok m →
      parse (String.ofList (List.replicate zeros '0' ++ s.toList)) = .ok m) ∧
    (∀ m : Mode, parse m.octal =
      if m.toNat ≤ 0o7777 then .ok m else .error (.invalidMode m.octal)) ∧
    (∀ m : Mode, parse (m.octalPadded 4) =
      if m.toNat ≤ 0o7777 then .ok m else .error (.invalidMode (m.octalPadded 4))) := by
  refine ⟨parse_eq, fun s m => parse_eq_ok_iff, ?_, fun m => parse_of_denotes (denotes_octal m),
    fun m => parse_of_denotes (denotes_octalPadded 4 m)⟩
  intro s m zeros read
  obtain ⟨⟨some_, ranges, small⟩, worth⟩ := parse_eq_ok_iff.mp read
  have denotes : Denotes 8 s.toList m.toNat := denotes_eight_iff.mpr ⟨some_, ranges, worth⟩
  have padded : Denotes 8 (String.ofList (List.replicate zeros '0' ++ s.toList)).toList m.toNat := by
    rw [String.toList_ofList]
    exact denotes.zeros (by decide) zeros
  rw [parse_of_denotes padded, if_pos (worth ▸ small)]

/-- A mode with a special bit behind forty zeros; and a text that is worth 0o755 and as much more as
a word of 32 bits can count. -/
theorem octal_language_of_long_texts :
    parse "4755" = .ok ⟨0o4755⟩ ∧
      parse (String.ofList (List.replicate 40 '0' ++ "4755".toList)) = .ok ⟨0o4755⟩ ∧
      octalValue "40000000755" = 0o755 + 2 ^ 32 ∧
      parse "40000000755" = .error (.invalidMode "40000000755") := by
  obtain ⟨exact_, accepted, zeros, -⟩ := octal_language
  have short : Denotes 8 "4755".toList 0o4755 := read?_eq_some_iff.mp rfl
  have long : Denotes 8 "40000000755".toList (0o755 + 2 ^ 32) := read?_eq_some_iff.mp rfl
  obtain ⟨some_, ranges, worth⟩ := denotes_eight_iff.mp short
  obtain ⟨-, -, worthMore⟩ := denotes_eight_iff.mp long
  have plain : parse "4755" = .ok ⟨0o4755⟩ :=
    (accepted "4755" ⟨0o4755⟩).mpr ⟨⟨some_, ranges, worth ▸ by decide⟩, worth⟩
  have refused := exact_ "40000000755"
  rw [if_neg (fun octal => absurd octal.2.2 (by rw [← worthMore]; decide))] at refused
  exact ⟨plain, zeros "4755" ⟨0o4755⟩ 40 plain, worthMore.symm, refused⟩

end ModeAcl.Mode
