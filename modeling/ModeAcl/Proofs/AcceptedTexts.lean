import ModeAcl.Proofs.NumeralGrammar
import ModeAcl.Proofs.TextForm

/-!
# The texts of identifiers

`Sid.Spelled` is the grammar of the texts that name an identifier: what stands between
the hyphens, and which numbers it is worth. The reader accepts exactly these texts, each
as the identifier with these numbers (`spelled_iff`).

`readInWords?` reads with the means of a machine: it cuts off the mark of the base by
its bytes and keeps all numbers in words. No cut ever falls within a character and no
number wraps around (`readInWords?_eq`).
-/

namespace ModeAcl.Sid

open Numeral

/-! ## Grammar -/

/-- An authority, in decimal or behind the mark of hexadecimal digits. -/
inductive IsAuthority : List Char → Nat → Prop
  | decimal {text : List Char} {n : Nat} (denotes : DenotesSigned 10 text n) : IsAuthority text n
  | hexadecimal {mark : Char} {text : List Char} {n : Nat} (marked : mark = 'x' ∨ mark = 'X')
      (denotes : DenotesSigned 16 text n) : IsAuthority ('0' :: mark :: text) n

/-- Between its hyphens, the text has `S`, `1`, an authority and at most fifteen sub-authorities,
which are worth these numbers; all of them have room in an identifier. -/
structure Spelled (s : String) (authority : Nat) (subs : List Nat) : Prop where
  pieces : ∃ first texts, Fields.split '-' s.toList = ['S'] :: ['1'] :: first :: texts ∧
    IsAuthority first authority ∧ List.Forall₂ (DenotesSigned 10) texts subs
  authority_lt : authority < 2 ^ 48
  few : subs.length ≤ 15
  subs_lt : ∀ sub ∈ subs, sub < 2 ^ 32

theorem readAuthority?_eq_some_iff {text : List Char} {n : Nat} :
    readAuthority? text = some n ↔ IsAuthority text n ∧ n < 1 <<< 64 := by
  constructor
  · intro read
    unfold readAuthority? at read
    split at read
    · obtain ⟨denotes, small⟩ := readBounded?_eq_some_iff.mp read
      exact ⟨.hexadecimal (Or.inl rfl) denotes, small⟩
    · obtain ⟨denotes, small⟩ := readBounded?_eq_some_iff.mp read
      exact ⟨.hexadecimal (Or.inr rfl) denotes, small⟩
    · obtain ⟨denotes, small⟩ := readBounded?_eq_some_iff.mp read
      exact ⟨.decimal denotes, small⟩
  · rintro ⟨authority, small⟩
    cases authority with
    | decimal denotes =>
      have noMark : ∀ c, digitValue? 10 c = none → c ≠ '+' → c ∉ text := by
        intro c other unsigned member
        obtain ⟨d, value⟩ := denotes.exists_digit member unsigned
        rw [other] at value
        cases value
      rw [readAuthority?_of_decimal
        ⟨noMark 'x' rfl (by decide), noMark 'X' rfl (by decide)⟩]
      exact readBounded?_eq_some_iff.mpr ⟨denotes, small⟩
    | hexadecimal marked denotes =>
      rcases marked with rfl | rfl <;> exact readBounded?_eq_some_iff.mpr ⟨denotes, small⟩

theorem readSubAuthority?_eq (text : List Char) :
    readSubAuthority? text = readWord? 10 32 text :=
  (readWord?_eq (by decide) text).symm

theorem mapM_readSubAuthority?_eq_some_iff {texts : List (List Char)} {subs : List (BitVec 32)} :
    texts.mapM readSubAuthority? = some subs ↔
      List.Forall₂ (DenotesSigned 10) texts (subs.map (·.toNat)) := by
  induction texts generalizing subs with
  | nil =>
    rw [List.mapM_nil, List.forall₂_nil_left_iff, List.map_eq_nil_iff]
    exact Option.some_inj.trans eq_comm
  | cons text texts ih =>
    rw [List.mapM_cons, readSubAuthority?_eq]
    constructor
    · intro read
      obtain ⟨sub, first, read⟩ := Option.bind_eq_some_iff.mp read
      obtain ⟨others, rest, same⟩ := Option.bind_eq_some_iff.mp read
      obtain rfl := Option.some.inj same
      exact .cons ((readWord?_eq_some_iff (by decide)).mp first) (ih.mp rest)
    · intro denotes
      cases subs with
      | nil => cases denotes
      | cons sub subs =>
        cases denotes with
        | cons first rest =>
          rw [(readWord?_eq_some_iff (by decide)).mpr first, ih.mpr rest]
          rfl

/-! ## Reading -/

theorem parse_eq_ok_iff {s : String} {sid : Sid} :
    parse s = .ok sid ↔ Spelled s sid.authority.toNat (sid.subAuthorities.map (·.toNat)) := by
  unfold parse
  rw [ofPieces_eq_ok_iff]
  constructor
  · rintro ⟨first, texts, pieces, authority, subs, fits⟩
    refine ⟨⟨first, texts, pieces, (readAuthority?_eq_some_iff.mp authority).1,
      mapM_readSubAuthority?_eq_some_iff.mp subs⟩, sid.authority.isLt, ?_, ?_⟩
    · rwa [List.length_map]
    · intro sub member
      obtain ⟨word, -, rfl⟩ := List.mem_map.mp member
      exact word.isLt
  · rintro ⟨⟨first, texts, pieces, authority, subs⟩, small, few, -⟩
    rw [List.length_map] at few
    refine ⟨first, texts, pieces, readAuthority?_eq_some_iff.mpr ⟨authority, ?_⟩,
      mapM_readSubAuthority?_eq_some_iff.mpr subs, few⟩
    exact Nat.lt_trans small (by decide)

/-- A text in the grammar is read as the identifier with exactly its numbers. -/
theorem Spelled.parse_eq {s : String} {authority : Nat} {subs : List Nat}
    (spelled : Spelled s authority subs) :
    ∃ sid, parse s = .ok sid ∧ sid.authority.toNat = authority ∧
      sid.subAuthorities.map (·.toNat) = subs := by
  have first : (BitVec.ofNat 48 authority).toNat = authority := by
    rw [BitVec.toNat_ofNat, Nat.mod_eq_of_lt spelled.authority_lt]
  have others : (subs.map (BitVec.ofNat 32)).map (·.toNat) = subs := by
    rw [List.map_map]
    conv_rhs => rw [← List.map_id subs]
    apply List.map_congr_left
    intro sub member
    exact Nat.mod_eq_of_lt (spelled.subs_lt sub member)
  refine ⟨⟨.ofNat 48 authority, subs.map (.ofNat 32)⟩, parse_eq_ok_iff.mpr ?_, first, others⟩
  dsimp only
  rwa [first, others]

/-! ## Reading bytes and words -/

/-- What remains of a text behind so many bytes, if they end between two characters. -/
def behindBytes? : Nat → List Char → Option (List Char)
  | 0, text => some text
  | _ + 1, [] => none
  | bytes + 1, c :: text =>
    if c.utf8Size ≤ bytes + 1 then behindBytes? (bytes + 1 - c.utf8Size) text else none

/-- Read an authority into a word, behind the two bytes of a mark if there is one. Nothing is
answered if two bytes cannot be cut off. -/
def authorityWord? (text : List Char) : Option (Option (BitVec 64)) :=
  if ['0', 'x'].isPrefixOf text || ['0', 'X'].isPrefixOf text then
    (behindBytes? 2 text).map (readWord? 16 64)
  else some (readWord? 10 64 text)

/-- Read the pieces between the hyphens into words, if nothing is cut within a character. -/
def wordsOfPieces? : List (List Char) → Option (Except Malformed Sid)
  | ['S'] :: ['1'] :: authority :: subs =>
    (authorityWord? authority).map fun word? =>
      match word?, subs.mapM (readWord? 10 32) with
      | none, _ => .error .badAuthority
      | some _, none => .error .badSubAuthority
      | some word, some subs =>
        if word >>> 48 ≠ 0 ∨ maxSubAuthorities < subs.length then .error .outOfRange
        else .ok ⟨(word &&& 0xffffffffffff#64).setWidth 48, subs⟩
  | [['S'], ['1']] => some (.error .noAuthority)
  | _ => some (.error .opening)

/-- Read a text in bytes and words. -/
def readInWords? (s : String) : Option (Except Malformed Sid) :=
  wordsOfPieces? (Fields.split '-' s.toList)

/-- The mark of a base takes two bytes, so the cut behind it is between two characters. -/
theorem authorityWord?_marked {mark : Char} (marked : mark = 'x' ∨ mark = 'X')
    (run : List Char) : authorityWord? ('0' :: mark :: run) = some (readWord? 16 64 run) := by
  rcases marked with rfl | rfl <;> simp [authorityWord?, behindBytes?, Char.utf8Size]

theorem authorityWord?_eq (text : List Char) :
    authorityWord? text = some ((readAuthority? text).map (BitVec.ofNat 64)) := by
  have hexadecimal : ∀ run,
      readWord? 16 64 run = (readBounded? 16 (1 <<< 64) run).map (BitVec.ofNat 64) :=
    readWord?_eq (by decide)
  have decimal : readWord? 10 64 text = (readBounded? 10 (1 <<< 64) text).map (BitVec.ofNat 64) :=
    readWord?_eq (by decide) text
  unfold readAuthority?
  split
  · rw [authorityWord?_marked (Or.inl rfl), hexadecimal]
  · rw [authorityWord?_marked (Or.inr rfl), hexadecimal]
  · rename_i noSmall noCapital
    have unmarked : (['0', 'x'].isPrefixOf text || ['0', 'X'].isPrefixOf text) = false := by
      rw [← Bool.not_eq_true, Bool.or_eq_true, List.isPrefixOf_iff_prefix,
        List.isPrefixOf_iff_prefix]
      rintro (⟨run, rfl⟩ | ⟨run, rfl⟩)
      · exact noSmall run rfl
      · exact noCapital run rfl
    rw [authorityWord?, unmarked]
    exact congrArg some decimal

/-- The bits of a word above the lowest 48 are clear exactly if its number is not too large. -/
theorem ushiftRight_ne_zero_iff {n : Nat} (small : n < 1 <<< 64) :
    BitVec.ofNat 64 n >>> 48 ≠ 0 ↔ 1 <<< 48 ≤ n := by
  have whole : n % 2 ^ 64 = n := Nat.mod_eq_of_lt small
  rw [Ne, ← BitVec.toNat_inj, BitVec.toNat_ushiftRight, BitVec.toNat_ofNat, whole,
    Nat.shiftRight_eq_div_pow]
  show ¬ n / 2 ^ 48 = 0 ↔ 2 ^ 48 ≤ n
  omega

theorem setWidth_ofNat {n : Nat} (small : n < 1 <<< 64) :
    (BitVec.ofNat 64 n &&& 0xffffffffffff#64).setWidth 48 = BitVec.ofNat 48 n := by
  have whole : n % 2 ^ 64 = n := Nat.mod_eq_of_lt small
  apply BitVec.eq_of_toNat_eq
  rw [BitVec.toNat_setWidth, BitVec.toNat_and, BitVec.toNat_ofNat, BitVec.toNat_ofNat, whole]
  show (n &&& 2 ^ 48 - 1) % 2 ^ 48 = n % 2 ^ 48
  rw [Nat.and_two_pow_sub_one_eq_mod, Nat.mod_mod]

theorem wordsOfPieces?_eq (pieces : List (List Char)) :
    wordsOfPieces? pieces = some (ofPieces pieces) := by
  unfold wordsOfPieces?
  split
  · rename_i authority subs
    rw [authorityWord?_eq, Option.map_some, ← funext readSubAuthority?_eq, ofPieces]
    rcases first : readAuthority? authority with _ | n
    · rfl
    rcases others : subs.mapM readSubAuthority? with _ | words
    · rfl
    have small := (readAuthority?_eq_some_iff.mp first).2
    simp only [Option.map_some, ushiftRight_ne_zero_iff small, setWidth_ofNat small]
    rfl
  · rfl
  · rename_i notWhole notShort
    unfold ofPieces
    split
    · exact (notWhole _ _ rfl).elim
    · exact (notShort rfl).elim
    · rfl

/-- A machine reads every text to the end, and finds what `parse` finds. -/
theorem readInWords?_eq (s : String) : readInWords? s = some (parse s) :=
  wordsOfPieces?_eq _

/-! ## Main results -/

/-- The texts of identifiers. A text is accepted exactly if it is in the grammar: `S`, `1`, an
authority below 2 ^ 48 and at most fifteen sub-authorities below 2 ^ 32 between its hyphens, with a
plus sign before any number and with any number of zeros at its front. It is read as the identifier
with exactly these numbers. Every other text is refused as invalid data; a machine that reads in bytes
and words neither cuts within a character nor wraps a number around. -/
theorem parse_grammar (s : String) :
    (∀ sid, parse s = .ok sid ↔
      Spelled s sid.authority.toNat (sid.subAuthorities.map (·.toNat))) ∧
    ((∃ sid, parse s = .ok sid) ↔ ∃ authority subs, Spelled s authority subs) ∧
    (∀ authority subs, Spelled s authority subs →
      ∃ sid, parse s = .ok sid ∧ sid.authority.toNat = authority ∧
        sid.subAuthorities.map (·.toNat) = subs) ∧
    ((¬ ∃ authority subs, Spelled s authority subs) →
      ∃ m, parse s = .error m ∧ m.toCallError.kind = .invalidData) ∧
    (∀ base run n zeros, 0 < base → Denotes base run n →
      Denotes base (List.replicate zeros '0' ++ run) n) ∧
    readInWords? s = some (parse s) := by
  have accepted : (∃ sid, parse s = .ok sid) ↔ ∃ authority subs, Spelled s authority subs := by
    constructor
    · rintro ⟨sid, read⟩
      exact ⟨_, _, parse_eq_ok_iff.mp read⟩
    · rintro ⟨authority, subs, spelled⟩
      obtain ⟨sid, read, -⟩ := spelled.parse_eq
      exact ⟨sid, read⟩
  refine ⟨fun sid => parse_eq_ok_iff, accepted, fun _ _ spelled => spelled.parse_eq, ?_,
    fun base run n zeros positive denotes => denotes.zeros positive zeros, readInWords?_eq s⟩
  intro other
  rcases read : parse s with m | sid
  · exact ⟨m, rfl, rfl⟩
  · exact absurd (accepted.mp ⟨sid, read⟩) other

/-- Plus signs, zeros at the front and letters of either case; and a digit of another script. -/
theorem parse_grammar_of_signs :
    Spelled "S-1-0X+00aF-+0032-4294967295" 0xaf [32, 4294967295] ∧
      (∃ sid, parse "S-1-0X+00aF-+0032-4294967295" = .ok sid ∧ sid.authority.toNat = 0xaf ∧
        sid.subAuthorities.map (·.toNat) = [32, 4294967295]) ∧
      Denotes 10 "0032".toList 32 ∧
      (¬ ∃ authority subs, Spelled "S-1-５" authority subs) ∧
      ∃ m, parse "S-1-５" = .error m ∧ m.toCallError.kind = .invalidData := by
  obtain ⟨spells, -, reads, -, zeros, -⟩ := parse_grammar "S-1-0X+00aF-+0032-4294967295"
  obtain ⟨-, accepted, -, refuses, -⟩ := parse_grammar "S-1-５"
  have spelled : Spelled "S-1-0X+00aF-+0032-4294967295" 0xaf [32, 4294967295] :=
    (spells ⟨0xaf, [32, 4294967295]⟩).mp (by decide +kernel)
  have other : ¬ ∃ authority subs, Spelled "S-1-５" authority subs := by
    rw [← accepted]
    rintro ⟨sid, read⟩
    have refused : parse "S-1-５" = .error .badAuthority := by decide +kernel
    rw [refused] at read
    cases read
  have short : Denotes 10 ['3', '2'] 32 := read?_eq_some_iff.mp rfl
  exact ⟨spelled, reads _ _ spelled, zeros 10 ['3', '2'] 32 2 (by decide) short, other,
    refuses other⟩

end ModeAcl.Sid
