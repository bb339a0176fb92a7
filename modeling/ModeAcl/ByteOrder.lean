/-!
# Numbers as bytes

A number written with a fixed count of bytes, from either end. Higher bytes than
the count has room for are dropped.
-/

namespace ModeAcl.ByteOrder

/-- The lowest `count` bytes of `n`, least significant first. -/
def littleEndian : (count n : Nat) → List UInt8
  | 0, _ => []
  | count + 1, n => UInt8.ofNat n :: littleEndian count (n / 256)

/-- The lowest `count` bytes of `n`, most significant first. -/
def bigEndian (count n : Nat) : List UInt8 := (littleEndian count n).reverse

def ofLittleEndian : List UInt8 → Nat
  | [] => 0
  | b :: bs => b.toNat + 256 * ofLittleEndian bs

def ofBigEndian (bytes : List UInt8) : Nat := ofLittleEndian bytes.reverse

@[simp] theorem length_littleEndian (count n : Nat) : (littleEndian count n).length = count := by
  induction count generalizing n with
  | zero => rfl
  | succ count ih => simp [littleEndian, ih]

@[simp] theorem length_bigEndian (count n : Nat) : (bigEndian count n).length = count := by
  simp [bigEndian]

/-- Reading back gives the number modulo what the bytes have room for. -/
theorem ofLittleEndian_littleEndian (count n : Nat) :
    ofLittleEndian (littleEndian count n) = n % Nat.pow 256 count := by
  induction count generalizing n with
  | zero => simp [littleEndian, ofLittleEndian, Nat.mod_one]
  | succ count ih =>
    have lowest : (UInt8.ofNat n).toNat = n % 256 := UInt8.toNat_ofNat'
    simp only [littleEndian, ofLittleEndian, ih, lowest]
    rw [Nat.pow_eq, Nat.pow_eq, Nat.pow_succ, Nat.mul_comm (256 ^ count) 256, Nat.mod_mul]

theorem ofLittleEndian_lt (bytes : List UInt8) :
    ofLittleEndian bytes < Nat.pow 256 bytes.length := by
  induction bytes with
  | nil => exact Nat.one_pos
  | cons b bytes ih =>
    have lowest : b.toNat < 256 := b.toNat_lt
    rw [Nat.pow_eq] at ih
    rw [ofLittleEndian, List.length_cons, Nat.pow_eq, Nat.pow_succ]
    omega

/-- Bytes are written again as they were read. -/
theorem littleEndian_ofLittleEndian (bytes : List UInt8) :
    littleEndian bytes.length (ofLittleEndian bytes) = bytes := by
  induction bytes with
  | nil => rfl
  | cons b bytes ih =>
    have lowest : b.toNat < 256 := b.toNat_lt
    have rest : (b.toNat + 256 * ofLittleEndian bytes) / 256 = ofLittleEndian bytes := by omega
    have first : UInt8.ofNat (b.toNat + 256 * ofLittleEndian bytes) = b := by
      apply UInt8.toNat_inj.mp
      rw [UInt8.toNat_ofNat']
      omega
    rw [ofLittleEndian, List.length_cons, littleEndian, first, rest, ih]

theorem ofBigEndian_bigEndian (count n : Nat) :
    ofBigEndian (bigEndian count n) = n % Nat.pow 256 count := by
  rw [ofBigEndian, bigEndian, List.reverse_reverse, ofLittleEndian_littleEndian]

theorem ofBigEndian_lt (bytes : List UInt8) : ofBigEndian bytes < Nat.pow 256 bytes.length := by
  rw [← List.length_reverse]
  exact ofLittleEndian_lt bytes.reverse

theorem bigEndian_ofBigEndian (bytes : List UInt8) :
    bigEndian bytes.length (ofBigEndian bytes) = bytes := by
  rw [bigEndian, ofBigEndian, ← List.length_reverse, littleEndian_ofLittleEndian,
    List.reverse_reverse]

end ModeAcl.ByteOrder
