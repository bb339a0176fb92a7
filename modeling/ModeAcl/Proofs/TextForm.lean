import ModeAcl.Proofs.BinaryForm
import ModeAcl.Proofs.Numerals
import ModeAcl.Sid.Text

/-!
# Identifiers as texts

The pieces of an identifier's text are an authority and numbers without hyphens,
so cutting the text at its hyphens gives them back (`split_text`), and every piece
is read as what it was written for. The reader refuses an identifier only for
having too many sub-authorities (`parse_text`); the text of such an identifier
still belongs to no other (`text_injective`).

Texts and bytes have room for the same identifiers (`parse_iff_ofBytes`).
-/

namespace ModeAcl.Sid

open Numeral

/-! ## Authorities -/

theorem readAuthority?_of_decimal {run : List Char} (noMark : 'x' ∉ run ∧ 'X' ∉ run) :
    readAuthority? run = readBounded? 10 (1 <<< 64) run := by
  unfold readAuthority?
  split
  · exact absurd (by simp) noMark.1
  · exact absurd (by simp) noMark.2
  · rfl

/-- A character that is no decimal digit is in no decimal numeral. -/
theorem not_mem_decimal {c : Char} (other : digitValue? 10 c = none) (n : Nat) :
    c ∉ digits 10 n := by
  have absent := not_mem_digits (n := n) (by decide) (spells_id (by decide)) other
  rwa [List.map_id] at absent

theorem read?_decimal (n : Nat) : read? 10 (digits 10 n) = some n := by
  have read : read? 10 ((digits 10 n).map id) = some n :=
    read?_digits (by decide) (spells_id (by decide)) n
  rwa [List.map_id] at read

/-- An authority is read from the text that it has, in either base. -/
theorem readAuthority?_authorityText {authority : Nat} (small : authority < 1 <<< 64) :
    readAuthority? (authorityText authority) = some authority := by
  rw [authorityText]
  split
  · rw [readAuthority?_of_decimal ⟨not_mem_decimal rfl _, not_mem_decimal rfl _⟩]
    exact readBounded?_of_read? (read?_decimal authority) small
  · exact readBounded?_of_read?
      (read?_padded (by decide) (spells_toUpper (by decide)) 12 authority) small

theorem readSubAuthority?_digits (sub : BitVec 32) :
    readSubAuthority? (digits 10 sub.toNat) = some sub := by
  have small : sub.toNat < 1 <<< 32 := sub.isLt
  rw [readSubAuthority?, readBounded?_of_read? (read?_decimal sub.toNat) small, Option.map_some,
    BitVec.ofNat_toNat, BitVec.setWidth_eq]

/-! ## Pieces -/

theorem hyphen_not_mem_authorityText (authority : Nat) : '-' ∉ authorityText authority := by
  rw [authorityText]
  split
  · exact not_mem_decimal rfl _
  · rw [padded, List.leftpad, List.map_append, List.map_replicate]
    have clean : '-' ∉ (digits 16 authority).map Char.toUpper :=
      not_mem_digits (by decide) (spells_toUpper (by decide)) rfl
    simp [clean]

theorem hyphen_not_mem_piece {sid : Sid} {piece : List Char} (member : piece ∈ sid.pieces) :
    '-' ∉ piece := by
  rw [pieces, List.mem_cons, List.mem_cons, List.mem_cons, List.mem_map] at member
  rcases member with rfl | rfl | rfl | ⟨sub, -, rfl⟩
  · decide
  · decide
  · exact hyphen_not_mem_authorityText _
  · exact not_mem_decimal rfl _

/-- Cut at the hyphens, a text gives back the pieces that it was put together from. -/
theorem split_text (sid : Sid) : Fields.split '-' sid.text.toList = sid.pieces := by
  rw [text, String.toList_ofList]
  exact Fields.split_join (List.cons_ne_nil _ _) fun _ => hyphen_not_mem_piece

/-- All sub-authorities are read from their digits. -/
theorem mapM_readSubAuthority? (subs : List (BitVec 32)) :
    (subs.map fun sub => digits 10 sub.toNat).mapM readSubAuthority? = some subs := by
  induction subs with
  | nil => rfl
  | cons sub subs ih =>
    rw [List.map_cons, List.mapM_cons, readSubAuthority?_digits, ih]
    rfl

theorem readAuthority?_of_sid (sid : Sid) :
    readAuthority? (authorityText sid.authority.toNat) = some sid.authority.toNat :=
  readAuthority?_authorityText (Nat.lt_trans sid.authority.isLt (by decide))

/-! ## Reading what was written -/

theorem parse_text (sid : Sid) :
    parse sid.text =
      if sid.subAuthorities.length ≤ maxSubAuthorities then .ok sid else .error .outOfRange := by
  have small : ¬ 1 <<< 48 ≤ sid.authority.toNat := Nat.not_le.mpr sid.authority.isLt
  have whole : ofNat sid.authority.toNat sid.subAuthorities = sid := by
    rw [ofNat, BitVec.ofNat_toNat, BitVec.setWidth_eq]
  rw [parse, split_text, pieces, ofPieces, readAuthority?_of_sid, mapM_readSubAuthority?]
  simp only [small, false_or, whole]
  by_cases fits : sid.subAuthorities.length ≤ maxSubAuthorities
  · rw [if_pos fits, if_neg (Nat.not_lt.mpr fits)]
  · rw [if_neg fits, if_pos (Nat.not_le.mp fits)]

/-- However many sub-authorities there are, a text belongs to one identifier. -/
theorem text_injective {sid sid' : Sid} (same : sid.text = sid'.text) : sid = sid' := by
  have parts := congrArg (fun s => Fields.split '-' s.toList) same
  simp only [split_text, pieces, List.cons.injEq, true_and] at parts
  obtain ⟨authorities, subs⟩ := parts
  have authority := congrArg readAuthority? authorities
  have others := congrArg (·.mapM readSubAuthority?) subs
  rw [readAuthority?_of_sid, readAuthority?_of_sid, Option.some.injEq] at authority
  rw [mapM_readSubAuthority?, mapM_readSubAuthority?, Option.some.injEq] at others
  cases sid
  cases sid'
  exact congrArg₂ Sid.mk (BitVec.eq_of_toNat_eq authority) others

/-! ## Accepted texts -/

/-- The pieces that are accepted: all numbers are read, none is too large, and there are not too
many. -/
theorem ofPieces_eq_ok_iff {pieces : List (List Char)} {sid : Sid} :
    ofPieces pieces = .ok sid ↔
      ∃ authority subs, pieces = ['S'] :: ['1'] :: authority :: subs ∧
        readAuthority? authority = some sid.authority.toNat ∧
        subs.mapM readSubAuthority? = some sid.subAuthorities ∧
        sid.subAuthorities.length ≤ maxSubAuthorities := by
  constructor
  · intro read
    rw [ofPieces.eq_def] at read
    split at read
    · rename_i authority subs
      rcases first : readAuthority? authority with _ | n
      · rw [first] at read
        cases read
      rcases others : subs.mapM readSubAuthority? with _ | words
      · rw [first, others] at read
        cases read
      rw [first, others] at read
      dsimp only at read
      split at read
      · cases read
      · rename_i fits
        rw [not_or, Nat.not_le, Nat.not_lt] at fits
        cases read
        refine ⟨authority, subs, rfl, ?_, others, fits.2⟩
        rw [first, ofNat, BitVec.toNat_ofNat]
        exact congrArg some (Nat.mod_eq_of_lt fits.1).symm
    · cases read
    · cases read
  · rintro ⟨authority, subs, rfl, first, others, fits⟩
    have small : ¬ 1 <<< 48 ≤ sid.authority.toNat := Nat.not_le.mpr sid.authority.isLt
    rw [ofPieces, first, others]
    dsimp only
    rw [if_neg (not_or.mpr ⟨small, Nat.not_lt.mpr fits⟩), ofNat, BitVec.ofNat_toNat,
      BitVec.setWidth_eq]

/-- A text that is accepted has an authority as its third piece, and nothing of it has been cut off;
there is room for the identifier. -/
theorem of_parse {s : String} {sid : Sid} (read : parse s = .ok sid) :
    sid.subAuthorities.length ≤ maxSubAuthorities ∧
      ∃ piece, (Fields.split '-' s.toList)[2]? = some piece ∧
        readAuthority? piece = some sid.authority.toNat := by
  obtain ⟨authority, subs, pieces, first, -, fits⟩ := ofPieces_eq_ok_iff.mp read
  refine ⟨fits, authority, ?_, first⟩
  rw [pieces]
  rfl

/-- Texts and bytes are accepted for the same identifiers: those that there is room for. -/
theorem parse_iff_ofBytes (sid : Sid) :
    (∃ s, parse s = .ok sid) ↔ ∃ bytes, ofBytes bytes = .ok sid := by
  constructor
  · rintro ⟨s, read⟩
    exact ⟨_, ofBytes_toBytes_of_le (of_parse read).1 []⟩
  · rintro ⟨bytes, read⟩
    exact ⟨sid.text, by rw [parse_text, if_pos (length_le_of_ofBytes read)]⟩

/-- An identifier has an authority of 48 bits, wherever it comes from: what it is made of is cut to
them, and what is read has no more. From its text it is read again if it has at most fifteen
sub-authorities; with more it is refused as invalid data, but its text is still that of no other
identifier. Texts and bytes are accepted for the same identifiers, and each form gives back what was
read from the other. -/
theorem text_faithful :
    (∀ (authority : Nat) (subs : List (BitVec 32)),
      (ofNat authority subs).authority.toNat = authority % 1 <<< 48) ∧
    (∀ bytes sid, ofBytes bytes = .ok sid →
      sid.authority.toNat = ByteOrder.ofBigEndian ((bytes.drop 2).take 6)) ∧
    (∀ s sid, parse s = .ok sid → ∃ piece, (Fields.split '-' s.toList)[2]? = some piece ∧
      readAuthority? piece = some sid.authority.toNat) ∧
    (∀ sid : Sid, sid.authority.toNat < 1 <<< 48) ∧
    (∀ sid : Sid, parse sid.text =
      if sid.subAuthorities.length ≤ 15 then .ok sid else .error .outOfRange) ∧
    Malformed.outOfRange.toCallError.kind = .invalidData ∧
    (∀ sid sid' : Sid, sid.text = sid'.text → sid = sid') ∧
    (∀ sid, (∃ s, parse s = .ok sid) ↔ ∃ bytes, ofBytes bytes = .ok sid) ∧
    (∀ s sid, parse s = .ok sid → ofBytes sid.toBytes = .ok sid) ∧
    (∀ bytes sid, ofBytes bytes = .ok sid → parse sid.text = .ok sid) := by
  refine ⟨fun authority subs => BitVec.toNat_ofNat authority 48, fun bytes sid read => ?_,
    fun s sid read => (of_parse read).2, fun sid => sid.authority.isLt, parse_text, rfl,
    fun _ _ => text_injective, parse_iff_ofBytes, fun s sid read => ?_, fun bytes sid read => ?_⟩
  · obtain ⟨count, begins⟩ := begins_of_ofBytes read
    exact (begins.toBytes_eq read).2.2
  · have again := ofBytes_toBytes_of_le (of_parse read).1 []
    rwa [List.append_nil] at again
  · rw [parse_text, if_pos (length_le_of_ofBytes read)]

/-- Small letters, and zeros that the text of the identifier does not have. -/
theorem text_faithful_of_lower_case :
    ∃ sid, parse "S-1-0x00123456789abc-007" = .ok sid ∧ ofBytes sid.toBytes = .ok sid ∧
      sid.text = "S-1-0x123456789ABC-7" ∧ parse sid.text = .ok sid := by
  have read : parse "S-1-0x00123456789abc-007" = .ok (ofNat 0x123456789abc [7]) := by
    decide +kernel
  obtain ⟨-, -, -, -, again, -, -, -, bytes, texts⟩ := text_faithful
  have written := bytes _ _ read
  exact ⟨_, read, written, by decide +kernel, texts _ _ written⟩

end ModeAcl.Sid
