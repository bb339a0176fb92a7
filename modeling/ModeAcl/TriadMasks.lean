import ModeAcl.AccessMask
import ModeAcl.Mode

/-!
# Triads as access masks

`TriadMasks.ofMode` gives each class the rights that its triad stands for, and
`TriadMasks.toMode` reads the triads back. Both work on the bits in place: a bit
of a triad is moved straight to the bit of the right that it grants, by a
distance that depends on the class.
-/

namespace ModeAcl

/-- The access mask of each class. -/
structure TriadMasks where
  owner : AccessMask
  group : AccessMask
  other : AccessMask
  deriving DecidableEq, Repr

namespace TriadMasks

def empty : TriadMasks := ⟨.empty, .empty, .empty⟩

def get (masks : TriadMasks) : FileClass → AccessMask
  | .owner => masks.owner
  | .group => masks.group
  | .other => masks.other

/-- Add rights to those of a class. -/
def grant (masks : TriadMasks) (c : FileClass) (mask : AccessMask) : TriadMasks :=
  match c with
  | .owner => { masks with owner := masks.owner ||| mask }
  | .group => { masks with group := masks.group ||| mask }
  | .other => { masks with other := masks.other ||| mask }

def debug (masks : TriadMasks) : String :=
  "TriadMasks \x7b owner: " ++ masks.owner.debug ++ ", group: " ++ masks.group.debug ++
    ", other: " ++ masks.other.debug ++ " \x7d"

/-! ## Distances

How far a bit of a triad is from the bit of the right that it grants: to the
left if positive, to the right if negative. -/

/-- From each bit of the triad to the generic right of the same name. -/
def genericShift : FileClass → Int
  | .owner => 23
  | .group => 26
  | .other => 29

/-- From the write bit to the right to delete. -/
def deleteShift : FileClass → Int
  | .owner => 9
  | .group => 12
  | .other => 15

/-- From the read bit to the right to list. -/
def listShift : FileClass → Int
  | .owner => -8
  | .group => -5
  | .other => -2

/-- From the read bit to the right to traverse. -/
def traverseShift : FileClass → Int
  | .owner => -3
  | .group => 0
  | .other => 3

/-- From the write bit to the right to delete children. -/
def deleteChildShift : FileClass → Int
  | .owner => -1
  | .group => 2
  | .other => 5

/-- From the write bit to the right to write attributes. -/
def writeAttributesShift : FileClass → Int
  | .owner => -3
  | .group => 0
  | .other => 3

/-- Move bits by a distance. -/
def shift (bits : BitVec 32) : Int → BitVec 32
  | .ofNat n => bits <<< n
  | .negSucc n => bits >>> (n + 1)

/-! ## Translation -/

/-- The rights that the triad of one class stands for. -/
def classMask (mode : Mode) (c : FileClass) (isDirectory : Bool) : AccessMask :=
  let read := mode.bits &&& c.read
  let write := mode.bits &&& c.write
  let common := shift (mode.bits &&& c.bits) (genericShift c) ||| shift write (deleteShift c)
  if isDirectory then
    ⟨common ||| shift read (listShift c) ||| shift read (traverseShift c)
      ||| shift write (deleteChildShift c) ||| shift write (writeAttributesShift c)⟩
  else ⟨common⟩

def ofMode (mode : Mode) (isDirectory : Bool) : TriadMasks where
  owner := classMask mode .owner isDirectory
  group := classMask mode .group isDirectory
  other := classMask mode .other isDirectory

/-- The triad that one class's rights amount to: the right to delete counts as write. -/
def classBits (c : FileClass) (mask : AccessMask) : BitVec 32 :=
  shift mask.bits (-(genericShift c)) &&& c.bits ||| shift mask.bits (-(deleteShift c)) &&& c.write

def toMode (masks : TriadMasks) : Mode :=
  ⟨classBits .owner masks.owner ||| classBits .group masks.group ||| classBits .other masks.other⟩

end TriadMasks

end ModeAcl
