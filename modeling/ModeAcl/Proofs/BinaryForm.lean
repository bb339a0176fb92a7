import Mathlib.Tactic.Common
import ModeAcl.Sid.Bytes

/-!
# Identifiers as bytes

The binary form of an identifier has one byte for the count of its
sub-authorities, so the count wraps around; what `ofBytes` makes of `toBytes` is
known for every identifier all the same (`ofBytes_toBytes_append`): it keeps as
many sub-authorities as the count byte tells, or refuses them. Up to
`maxSubAuthorities` of them, writing and reading are inverse.

`readIndexed?` reads bytes by their positions and gives up where there is no byte
at a position. It never does (`readIndexed?_eq`).
-/

namespace ModeAcl.Sid

open ByteOrder

/-! ## Words -/

/-- The words as bytes. -/
abbrev wordBytes (subs : List (BitVec 32)) : List UInt8 :=
  subs.flatMap fun sub => littleEndian 4 sub.toNat

theorem length_wordBytes (subs : List (BitVec 32)) : (wordBytes subs).length = 4 * subs.length := by
  induction subs with
  | nil => rfl
  | cons sub subs ih =>
    rw [wordBytes, List.flatMap_cons, List.length_append, length_littleEndian, ih, List.length_cons]
    omega

@[simp] theorem length_words (count : Nat) (bytes : List UInt8) :
    (words count bytes).length = count := by
  induction count generalizing bytes with
  | zero => rfl
  | succ count ih => rw [words, List.length_cons, ih]

theorem ofNat_ofLittleEndian_littleEndian (sub : BitVec 32) :
    BitVec.ofNat 32 (ofLittleEndian (littleEndian 4 sub.toNat)) = sub := by
  rw [ofLittleEndian_littleEndian]
  apply BitVec.eq_of_toNat_eq
  have small : sub.toNat < Nat.pow 256 4 := sub.isLt
  rw [Nat.mod_eq_of_lt small, BitVec.toNat_ofNat, Nat.mod_eq_of_lt sub.isLt]

/-- As many words are read as are asked for, from the first on. -/
theorem words_wordBytes (subs : List (BitVec 32)) (rest : List UInt8) {count : Nat}
    (enough : count ≤ subs.length) : words count (wordBytes subs ++ rest) = subs.take count := by
  induction count generalizing subs with
  | zero => rw [words, List.take_zero]
  | succ count ih =>
    cases subs with
    | nil => cases enough
    | cons sub subs =>
      have first : (littleEndian 4 sub.toNat).length = 4 := length_littleEndian 4 _
      rw [wordBytes, List.flatMap_cons, List.append_assoc, words, List.take_left' first,
        List.drop_left' first, ofNat_ofLittleEndian_littleEndian, List.take_succ_cons]
      exact congrArg (sub :: ·) (ih subs (Nat.le_of_succ_le_succ enough))

/-- Four bytes are written again as they were read. -/
theorem littleEndian_toNat_ofNat {word : List UInt8} (four : word.length = 4) :
    littleEndian 4 (BitVec.ofNat 32 (ofLittleEndian word)).toNat = word := by
  have small : ofLittleEndian word < Nat.pow 256 4 := four ▸ ofLittleEndian_lt word
  rw [BitVec.toNat_ofNat, Nat.mod_eq_of_lt small, ← four, littleEndian_ofLittleEndian]

theorem wordBytes_words {count : Nat} {bytes : List UInt8} (enough : 4 * count ≤ bytes.length) :
    wordBytes (words count bytes) = bytes.take (4 * count) := by
  induction count generalizing bytes with
  | zero => rw [words, Nat.mul_zero, List.take_zero]; rfl
  | succ count ih =>
    have four : (bytes.take 4).length = 4 := by rw [List.length_take]; omega
    have others : 4 * count ≤ (bytes.drop 4).length := by rw [List.length_drop]; omega
    rw [words, wordBytes, List.flatMap_cons, littleEndian_toNat_ofNat four]
    refine (congrArg (bytes.take 4 ++ ·) (ih others)).trans ?_
    rw [← List.take_add]
    congr 1
    omega

/-- What comes behind the words does not count. -/
theorem words_take (count : Nat) (bytes : List UInt8) :
    words count (bytes.take (4 * count)) = words count bytes := by
  induction count generalizing bytes with
  | zero => rfl
  | succ count ih =>
    have first : min 4 (4 * (count + 1)) = 4 := by omega
    have others : 4 * (count + 1) - 4 = 4 * count := by omega
    rw [words, words, List.take_take, first, List.drop_take, others, ih]

/-! ## Writing -/

theorem toBytes_eq (sid : Sid) :
    sid.toBytes = revision :: UInt8.ofNat sid.subAuthorities.length ::
      (bigEndian 6 sid.authority.toNat ++ wordBytes sid.subAuthorities) := rfl

theorem length_toBytes (sid : Sid) : sid.toBytes.length = sid.byteLength := by
  rw [toBytes_eq, List.length_cons, List.length_cons, List.length_append, length_bigEndian,
    length_wordBytes, byteLength]
  omega

/-- The six bytes of an authority are read as this authority. -/
theorem ofNat_ofBigEndian_bigEndian (authority : BitVec 48) (subs : List (BitVec 32)) :
    ofNat (ofBigEndian (bigEndian 6 authority.toNat)) subs = ⟨authority, subs⟩ := by
  have small : authority.toNat < Nat.pow 256 6 := authority.isLt
  rw [ofBigEndian_bigEndian, Nat.mod_eq_of_lt small, ofNat, BitVec.ofNat_toNat,
    BitVec.setWidth_eq]

/-! ## Reading -/

theorem ofBytes_of_short {bytes : List UInt8} (short : bytes.length < 8) :
    ofBytes bytes = .error .header := by
  rw [ofBytes.eq_def]
  split
  · rename_i rev count rest
    rw [if_pos]
    right
    rw [List.length_cons, List.length_cons] at short
    omega
  · rfl

/-- What is read, in terms of the parts of the binary form. -/
theorem ofBytes_parts (rev count : UInt8) {six : List UInt8} (length : six.length = 6)
    (body : List UInt8) :
    ofBytes (rev :: count :: (six ++ body)) =
      if rev ≠ revision then .error .header
      else if maxSubAuthorities < count.toNat ∨ body.length < 4 * count.toNat then
        .error .truncated
      else .ok (ofNat (ofBigEndian six) (words count.toNat body)) := by
  have long : ¬ (six ++ body).length < 6 := by
    rw [List.length_append, length]
    omega
  rw [ofBytes]
  simp only [long, or_false]
  rw [List.take_left' length, List.drop_left' length]

theorem exists_parts {bytes : List UInt8} (long : 8 ≤ bytes.length) :
    ∃ rev count six body, bytes = rev :: count :: (six ++ body) ∧ six.length = 6 := by
  obtain ⟨rev, bytes, rfl⟩ := List.exists_cons_of_length_pos (l := bytes) (by omega)
  rw [List.length_cons] at long
  obtain ⟨count, bytes, rfl⟩ := List.exists_cons_of_length_pos (l := bytes) (by omega)
  rw [List.length_cons] at long
  refine ⟨rev, count, bytes.take 6, bytes.drop 6, by rw [List.take_append_drop], ?_⟩
  rw [List.length_take]
  omega

/-- What becomes of an identifier that is written and read: its count is taken modulo 256. -/
theorem ofBytes_toBytes_append (sid : Sid) (rest : List UInt8) :
    ofBytes (sid.toBytes ++ rest) =
      if sid.subAuthorities.length % 256 ≤ maxSubAuthorities then
        .ok ⟨sid.authority, sid.subAuthorities.take (sid.subAuthorities.length % 256)⟩
      else .error .truncated := by
  have wraps : (UInt8.ofNat sid.subAuthorities.length).toNat = sid.subAuthorities.length % 256 :=
    UInt8.toNat_ofNat'
  have fewer := Nat.mod_le sid.subAuthorities.length 256
  have long : ¬ (wordBytes sid.subAuthorities ++ rest).length <
      4 * (sid.subAuthorities.length % 256) := by
    rw [List.length_append, length_wordBytes]
    omega
  rw [toBytes_eq, List.cons_append, List.cons_append, List.append_assoc,
    ofBytes_parts _ _ (length_bigEndian 6 _), if_neg (by simp), wraps]
  simp only [long, or_false]
  by_cases fits : sid.subAuthorities.length % 256 ≤ maxSubAuthorities
  · rw [if_pos fits, if_neg (Nat.not_lt.mpr fits), ofNat_ofBigEndian_bigEndian,
      words_wordBytes _ _ fewer]
  · rw [if_neg fits, if_pos (Nat.not_le.mp fits)]

/-- An identifier that there is room for is read again, whatever comes behind it. -/
theorem ofBytes_toBytes_of_le {sid : Sid} (fits : sid.subAuthorities.length ≤ maxSubAuthorities)
    (rest : List UInt8) : ofBytes (sid.toBytes ++ rest) = .ok sid := by
  have small : sid.subAuthorities.length % 256 = sid.subAuthorities.length :=
    Nat.mod_eq_of_lt (Nat.lt_of_le_of_lt fits (by decide))
  rw [ofBytes_toBytes_append, small, if_pos fits, List.take_length]

/-! ## Accepting -/

/-- The bytes begin with a binary form of so many sub-authorities. -/
structure Begins (bytes : List UInt8) (count : UInt8) : Prop where
  header : 8 ≤ bytes.length
  version : bytes[0]? = some 1
  counted : bytes[1]? = some count
  room : count.toNat ≤ 15
  long : 8 + 4 * count.toNat ≤ bytes.length

variable {bytes : List UInt8} {sid : Sid}

/-- What is read from bytes that begin with a binary form. -/
theorem Begins.ofBytes_eq {count : UInt8} (begins : Begins bytes count) :
    ∃ six body, bytes = Sid.revision :: count :: (six ++ body) ∧ six.length = 6 ∧
      4 * count.toNat ≤ body.length ∧
      ofBytes bytes = .ok (ofNat (ofBigEndian six) (words count.toNat body)) := by
  obtain ⟨rev, count', six, body, rfl, length⟩ := exists_parts begins.header
  obtain rfl : rev = Sid.revision := Option.some.inj begins.version
  obtain rfl : count' = count := Option.some.inj begins.counted
  have long := begins.long
  simp only [List.length_cons, List.length_append, length] at long
  have enough : 4 * count'.toNat ≤ body.length := by omega
  refine ⟨six, body, rfl, length, enough, ?_⟩
  rw [ofBytes_parts _ _ length, if_neg (by simp), if_neg]
  rintro (many | few)
  · exact absurd begins.room (Nat.not_le.mpr many)
  · exact absurd enough (Nat.not_le.mpr few)

/-- Only such bytes are accepted. -/
theorem begins_of_ofBytes (read : ofBytes bytes = .ok sid) : ∃ count, Begins bytes count := by
  by_cases short : bytes.length < 8
  · rw [ofBytes_of_short short] at read
    cases read
  obtain ⟨rev, count, six, body, rfl, length⟩ := exists_parts (Nat.not_lt.mp short)
  rw [ofBytes_parts _ _ length] at read
  split at read
  · cases read
  · rename_i same
    split at read
    · cases read
    · rename_i fits
      rw [not_or, Nat.not_lt, Nat.not_lt] at fits
      refine ⟨count, Nat.not_lt.mp short, ?_, rfl, fits.1, ?_⟩
      · exact congrArg some (not_not.mp same)
      · simp only [List.length_cons, List.length_append, length]
        omega

theorem ofBytes_eq_ok_iff : (∃ sid, ofBytes bytes = .ok sid) ↔ ∃ count, Begins bytes count := by
  refine ⟨fun ⟨_, read⟩ => begins_of_ofBytes read, fun ⟨_, begins⟩ => ?_⟩
  obtain ⟨six, body, -, -, -, read⟩ := begins.ofBytes_eq
  exact ⟨_, read⟩

/-- What was read is written again as the bytes that it was read from, and nothing of the authority
has been cut off. -/
theorem Begins.toBytes_eq {count : UInt8} (begins : Begins bytes count)
    (read : ofBytes bytes = .ok sid) :
    sid.byteLength = 8 + 4 * count.toNat ∧ sid.toBytes = bytes.take (8 + 4 * count.toNat) ∧
      sid.authority.toNat = ofBigEndian ((bytes.drop 2).take 6) := by
  obtain ⟨six, body, rfl, length, enough, read'⟩ := begins.ofBytes_eq
  obtain rfl := Except.ok.inj (read'.symm.trans read)
  have small : ofBigEndian six < Nat.pow 256 6 := length ▸ ofBigEndian_lt six
  have authority : (BitVec.ofNat 48 (ofBigEndian six)).toNat = ofBigEndian six := by
    rw [BitVec.toNat_ofNat]
    exact Nat.mod_eq_of_lt small
  have written : bigEndian 6 (ofBigEndian six) = six := length ▸ bigEndian_ofBigEndian six
  refine ⟨by rw [byteLength, ofNat, length_words], ?_, ?_⟩
  · rw [Sid.toBytes_eq, ofNat, length_words, authority, written, UInt8.ofNat_toNat,
      wordBytes_words enough]
    have split : 8 + 4 * count.toNat = six.length + 4 * count.toNat + 1 + 1 := by omega
    rw [split, List.take_succ_cons, List.take_succ_cons, List.take_length_add_append]
  · rw [ofNat, authority, List.drop_succ_cons, List.drop_succ_cons, List.drop_zero,
      List.take_left' length]

/-- What was read has room to be written again. -/
theorem length_le_of_ofBytes (read : ofBytes bytes = .ok sid) :
    sid.subAuthorities.length ≤ maxSubAuthorities := by
  obtain ⟨count, begins⟩ := begins_of_ofBytes read
  have length := (begins.toBytes_eq read).1
  have room := begins.room
  rw [byteLength] at length
  rw [maxSubAuthorities]
  omega

/-! ## Reading by position -/

/-- The bytes from `start` up to `stop`, if there are as many. -/
def slice? (bytes : List UInt8) (start stop : Nat) : Option (List UInt8) :=
  if start ≤ stop ∧ stop ≤ bytes.length then some ((bytes.take stop).drop start) else none

/-- Four bytes as a word, if they are four. -/
def word? (chunk : List UInt8) : Option (BitVec 32) := do
  let first ← chunk[0]?
  let second ← chunk[1]?
  let third ← chunk[2]?
  let fourth ← chunk[3]?
  return BitVec.ofNat 32 (ofLittleEndian [first, second, third, fourth])

/-- So many words, from the one at `start` on. -/
def wordsAt? (bytes : List UInt8) : (count start : Nat) → Option (List (BitVec 32))
  | 0, _ => some []
  | count + 1, start => do
    let word ← word? (← slice? bytes start (start + 4))
    let others ← wordsAt? bytes count (start + 4)
    return word :: others

/-- Read bytes by their positions, and give up where there is none. -/
def readIndexed? (bytes : List UInt8) : Option (Except Malformed Sid) :=
  if bytes.length < 8 then some (.error .header)
  else do
    let rev ← bytes[0]?
    if rev ≠ revision then some (.error .header)
    else do
      let count ← bytes[1]?
      if maxSubAuthorities < count.toNat ∨ bytes.length < 8 + 4 * count.toNat then
        some (.error .truncated)
      else do
        let authority ← slice? bytes 2 8
        let body ← slice? bytes 8 (8 + 4 * count.toNat)
        let subs ← wordsAt? body count.toNat 0
        return .ok (ofNat (ofBigEndian authority) subs)

theorem slice?_eq {start stop : Nat} (ordered : start ≤ stop) (inside : stop ≤ bytes.length) :
    slice? bytes start stop = some ((bytes.drop start).take (stop - start)) := by
  rw [slice?, if_pos ⟨ordered, inside⟩, List.drop_take]

theorem word?_eq {chunk : List UInt8} (four : chunk.length = 4) :
    word? chunk = some (BitVec.ofNat 32 (ofLittleEndian chunk)) := by
  match chunk, four with
  | [first, second, third, fourth], _ => rfl

theorem wordsAt?_eq {count start : Nat} (enough : start + 4 * count ≤ bytes.length) :
    wordsAt? bytes count start = some (words count (bytes.drop start)) := by
  induction count generalizing start with
  | zero => rfl
  | succ count ih =>
    have chunk : slice? bytes start (start + 4) = some ((bytes.drop start).take 4) := by
      rw [slice?_eq (by omega) (by omega), Nat.add_sub_cancel_left]
    have four : ((bytes.drop start).take 4).length = 4 := by
      rw [List.length_take, List.length_drop]
      omega
    have others : wordsAt? bytes count (start + 4) = some (words count (bytes.drop (start + 4))) :=
      ih (by omega)
    rw [wordsAt?, chunk, others, words, List.drop_drop]
    simp only [Option.bind_eq_bind, Option.bind_some, word?_eq four]
    rfl

/-- Every position is in range, and what is found there is what `ofBytes` finds. -/
theorem readIndexed?_eq (bytes : List UInt8) : readIndexed? bytes = some (ofBytes bytes) := by
  by_cases short : bytes.length < 8
  · rw [readIndexed?, if_pos short, ofBytes_of_short short]
  obtain ⟨rev, count, six, body, rfl, length⟩ := exists_parts (Nat.not_lt.mp short)
  have total : (rev :: count :: (six ++ body)).length = 8 + body.length := by
    simp only [List.length_cons, List.length_append, length]
    omega
  have few : 8 + body.length < 8 + 4 * count.toNat ↔ body.length < 4 * count.toNat := by omega
  rw [readIndexed?, if_neg short, ofBytes_parts _ _ length, total]
  simp only [List.getElem?_cons_zero, List.getElem?_cons_succ, Option.bind_eq_bind,
    Option.bind_some, few]
  split
  · rfl
  split
  · rfl
  rename_i fits
  rw [not_or, Nat.not_lt, Nat.not_lt] at fits
  have authority : slice? (rev :: count :: (six ++ body)) 2 8 = some six := by
    rw [slice?_eq (by omega) (by omega)]
    exact congrArg some (List.take_left' length)
  have inner : slice? (rev :: count :: (six ++ body)) 8 (8 + 4 * count.toNat) =
      some (body.take (4 * count.toNat)) := by
    rw [slice?_eq (by omega) (by omega), Nat.add_sub_cancel_left]
    exact congrArg (fun behind => some (List.take (4 * count.toNat) behind))
      (List.drop_left' length)
  have subs : wordsAt? (body.take (4 * count.toNat)) count.toNat 0 =
      some (words count.toNat (body.take (4 * count.toNat))) :=
    wordsAt?_eq (by rw [List.length_take]; omega)
  rw [authority, inner, Option.bind_some, Option.bind_some, subs, words_take]
  rfl

/-! ## Main results -/

/-- Bytes are accepted exactly if they begin with a binary form: a header of eight bytes whose first
is one, a second byte of at most fifteen, and four bytes for each that this counts. Others are refused
as invalid data, and no position that is looked at is out of range. What was read is written again
as the bytes of this binary form, and conversely an identifier with at most fifteen sub-authorities
is read again from its bytes, whatever comes behind them. -/
theorem ofBytes_exact (bytes : List UInt8) :
    ((∃ sid, ofBytes bytes = .ok sid) ↔
      8 ≤ bytes.length ∧ bytes[0]? = some 1 ∧ ∃ count, bytes[1]? = some count ∧
        count.toNat ≤ 15 ∧ 8 + 4 * count.toNat ≤ bytes.length) ∧
    (∀ m, ofBytes bytes = .error m → m.toCallError.kind = .invalidData) ∧
    readIndexed? bytes = some (ofBytes bytes) ∧
    (∀ sid, ofBytes bytes = .ok sid → ∃ count, bytes[1]? = some count ∧
      sid.byteLength = 8 + 4 * count.toNat ∧
      sid.toBytes = bytes.take (8 + 4 * count.toNat) ∧
      (sid.toBytes = bytes ↔ bytes.length = 8 + 4 * count.toNat) ∧
      sid.authority.toNat = ofBigEndian ((bytes.drop 2).take 6) ∧
      sid.authority.toNat < 1 <<< 48) ∧
    (∀ sid rest, sid.subAuthorities.length ≤ 15 → ofBytes (sid.toBytes ++ rest) = .ok sid) := by
  refine ⟨ofBytes_eq_ok_iff.trans ⟨?_, ?_⟩, fun _ _ => rfl, readIndexed?_eq bytes, ?_,
    fun sid rest fits => ofBytes_toBytes_of_le fits rest⟩
  · rintro ⟨count, begins⟩
    exact ⟨begins.header, begins.version, count, begins.counted, begins.room, begins.long⟩
  · rintro ⟨header, version, count, counted, room, long⟩
    exact ⟨count, header, version, counted, room, long⟩
  · intro sid read
    obtain ⟨count, begins⟩ := begins_of_ofBytes read
    obtain ⟨length, written, authority⟩ := begins.toBytes_eq read
    refine ⟨count, begins.counted, length, written, ?_, authority, sid.authority.isLt⟩
    rw [written]
    refine ⟨fun whole => ?_, fun same => by rw [← same, List.take_length]⟩
    rw [← whole, List.length_take, Nat.min_eq_left begins.long]

/-- Two sub-authorities and a byte too many. -/
theorem ofBytes_exact_of_surplus :
    ∃ sid, ofBytes [1, 2, 0, 0, 0, 0, 0, 5, 32, 0, 0, 0, 32, 2, 0, 0, 7] = .ok sid ∧
      sid.toBytes = [1, 2, 0, 0, 0, 0, 0, 5, 32, 0, 0, 0, 32, 2, 0, 0] := by
  have exact := ofBytes_exact [1, 2, 0, 0, 0, 0, 0, 5, 32, 0, 0, 0, 32, 2, 0, 0, 7]
  obtain ⟨sid, read⟩ := exact.1.mpr ⟨by decide, rfl, 2, rfl, by decide, by decide⟩
  obtain ⟨count, counted, -, written, -⟩ := exact.2.2.2.1 sid read
  obtain rfl : 2 = count := Option.some.inj counted
  exact ⟨sid, read, written⟩

/-- What becomes of an identifier whose bytes are read: it keeps as many sub-authorities as the count
byte tells, which is their count modulo 256, or is refused if that is more than fifteen. So from the
bytes of an identifier another one may be read, unless it has at most fifteen sub-authorities or their
count modulo 256 is more than fifteen. -/
theorem ofBytes_toBytes (authority : Nat) (subs : List (BitVec 32)) :
    ofBytes (ofNat authority subs).toBytes =
      (if subs.length % 256 ≤ 15 then .ok (ofNat authority (subs.take (subs.length % 256)))
        else .error .truncated) ∧
    ((∀ sid, ofBytes (ofNat authority subs).toBytes = .ok sid → sid = ofNat authority subs) ↔
      subs.length ≤ 15 ∨ 15 < subs.length % 256) := by
  have read := ofBytes_toBytes_append (ofNat authority subs) []
  rw [List.append_nil] at read
  refine ⟨read, ?_⟩
  rw [read]
  change (∀ sid, (if subs.length % 256 ≤ 15 then _ else _) = _ → _) ↔ _
  by_cases few : subs.length % 256 ≤ 15
  · rw [if_pos few]
    constructor
    · intro same
      have kept := congrArg (·.subAuthorities.length) (same _ rfl)
      dsimp only [ofNat] at kept
      rw [List.length_take] at kept
      left
      omega
    · rintro (fits | many) sid read
      · have small : subs.length % 256 = subs.length := Nat.mod_eq_of_lt (by omega)
        cases read
        refine congrArg (ofNat authority) ((congrArg (subs.take ·) small).trans ?_)
        exact List.take_length
      · omega
  · rw [if_neg few]
    exact iff_of_true (fun sid refused => by cases refused) (Or.inr (Nat.not_le.mp few))

/-- From the bytes of an identifier with 256 sub-authorities one without any is read. -/
theorem not_ofBytes_toBytes :
    ¬ ∀ (authority : Nat) (subs : List (BitVec 32)) (sid : Sid),
      ofBytes (ofNat authority subs).toBytes = .ok sid → sid = ofNat authority subs := by
  intro faithful
  have read := ofBytes_toBytes_append (ofNat 5 (List.replicate 256 0)) []
  rw [List.append_nil] at read
  have length : (ofNat 5 (List.replicate 256 0)).subAuthorities.length = 256 :=
    List.length_replicate
  rw [length, if_pos (by decide)] at read
  have same := congrArg (·.subAuthorities.length) (faithful 5 (List.replicate 256 0) _ read)
  dsimp only at same
  rw [List.length_take, length] at same
  exact absurd same (by decide)

end ModeAcl.Sid
