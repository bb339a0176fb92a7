import ModeAcl.Text.Numeral

/-!
# Access masks

The rights that an entry of an access control list grants, as a word of bits.
-/

namespace ModeAcl

/-- A set of access rights. -/
structure AccessMask where
  bits : BitVec 32
  deriving DecidableEq, Repr

namespace AccessMask

def ofNat (n : Nat) : AccessMask := ⟨BitVec.ofNat 32 n⟩

def toNat (m : AccessMask) : Nat := m.bits.toNat

instance : OrOp AccessMask := ⟨fun a b => ⟨a.bits ||| b.bits⟩⟩

instance : AndOp AccessMask := ⟨fun a b => ⟨a.bits &&& b.bits⟩⟩

def empty : AccessMask := ⟨0⟩

/-! ## Rights -/

def genericRead : AccessMask := ⟨0x80000000#32⟩

def genericWrite : AccessMask := ⟨0x40000000#32⟩

def genericExecute : AccessMask := ⟨0x20000000#32⟩

def delete : AccessMask := ⟨0x00010000#32⟩

/-- List a directory. -/
def listDirectory : AccessMask := ⟨0x00000001#32⟩

/-- Write extended attributes. -/
def writeAttributes : AccessMask := ⟨0x00000010#32⟩

/-- Pass through a directory. -/
def traverse : AccessMask := ⟨0x00000020#32⟩

/-- Delete what a directory holds. -/
def deleteChild : AccessMask := ⟨0x00000040#32⟩

/-! ## Sets of rights -/

def isEmpty (m : AccessMask) : Bool := m.bits == 0#32

/-- Whether every right of `n` is one of `m`. -/
def contains (m n : AccessMask) : Bool := m &&& n == n

/-! ## Text -/

def hex (m : AccessMask) : String := Numeral.hex m.toNat

/-- Hexadecimal behind the mark of its base. -/
def hexMarked (m : AccessMask) : String := "0x" ++ m.hex

/-- Hexadecimal behind the mark of its base, with at least `width` digits. -/
def hexPadded (width : Nat) (m : AccessMask) : String :=
  "0x" ++ String.ofList (Numeral.padded 16 width m.toNat)

def debug (m : AccessMask) : String := "AccessMask(" ++ m.hexPadded 8 ++ ")"

end AccessMask

end ModeAcl
