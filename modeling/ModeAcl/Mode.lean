import ModeAcl.Error
import ModeAcl.FileClass

/-!
# Modes

A mode is a word of permission bits: three triads, three special bits above them
and, above those, the type of the object. Words of any value are modes; `perm`
and `modeBits` cut out the parts that mean permissions.
-/

namespace ModeAcl

/-- Permission, special and type bits of an object. -/
structure Mode where
  bits : BitVec 32
  deriving DecidableEq, Repr

/-- What kind of object a path names. -/
inductive ObjectType
  | file
  | directory
  | symlink
  | socket
  | characterDevice
  deriving DecidableEq, Repr

namespace Mode

def ofNat (n : Nat) : Mode := ⟨BitVec.ofNat 32 n⟩

def toNat (m : Mode) : Nat := m.bits.toNat

instance : OrOp Mode := ⟨fun a b => ⟨a.bits ||| b.bits⟩⟩

instance : AndOp Mode := ⟨fun a b => ⟨a.bits &&& b.bits⟩⟩

instance : Complement Mode := ⟨fun a => ⟨~~~a.bits⟩⟩

/-! ## Named bits -/

/-- The nine bits of the three triads. -/
def permMask : Mode := ⟨0o777#32⟩

def setGroup : Mode := ⟨0o2000#32⟩

def sticky : Mode := ⟨0o1000#32⟩

/-- The triads and the three special bits. -/
def modeMask : Mode := ⟨0o7777#32⟩

/-- The bits that hold the type of the object. -/
def typeMask : Mode := ⟨0o170000#32⟩

def directoryType : Mode := ⟨0o040000#32⟩

def fileType : Mode := ⟨0o100000#32⟩

def symlinkType : Mode := ⟨0o120000#32⟩

def socketType : Mode := ⟨0o140000#32⟩

def characterDeviceType : Mode := ⟨0o020000#32⟩

/-! ## Parts -/

/-- The triads alone. -/
def perm (m : Mode) : Mode := m &&& permMask

/-- The triads and the special bits. -/
def modeBits (m : Mode) : Mode := m &&& modeMask

def isEmpty (m : Mode) : Bool := m.bits == 0#32

/-- Whether every bit of `n` is set in `m`. -/
def contains (m n : Mode) : Bool := m &&& n == n

/-- The mode with the triads of another in the place of its own. -/
def withPerm (m perm' : Mode) : Mode := m &&& ~~~permMask ||| perm'.perm

/-- The three bits of a class, moved down to the bottom. -/
def triad (m : Mode) (c : FileClass) : BitVec 32 := (m.bits >>> c.offset) &&& 7#32

/-- The type bits of the objects that carry a portable mode; other types have none. -/
def ofType : ObjectType → Mode
  | .symlink => symlinkType
  | .directory => directoryType
  | .file => fileType
  | .socket | .characterDevice => ⟨0⟩

/-- The type bits that the system itself keeps. -/
def ofNativeType : ObjectType → Mode
  | .symlink => symlinkType
  | .directory => directoryType
  | .file => fileType
  | .socket => socketType
  | .characterDevice => characterDeviceType

/-! ## Text -/

def octal (m : Mode) : String := Numeral.octal m.toNat

/-- Octal with zeros before it up to `width` digits. -/
def octalPadded (width : Nat) (m : Mode) : String :=
  String.ofList (Numeral.padded 8 width m.toNat)

/-- Octal behind the mark of its base. -/
def octalMarked (m : Mode) : String := "0o" ++ m.octal

def debug (m : Mode) : String := "Mode(" ++ m.octalMarked ++ ")"

/-- The mode that a text of octal digits names: only triads and special bits can be named. -/
def parse? (s : String) : Option Mode :=
  -- The reader of words alone would take a plus sign as well.
  if s.isEmpty || !s.toList.all fun c => (Numeral.digitValue? 8 c).isSome then none
  else ((Numeral.readWord? 8 32 s.toList).filter (· ≤ modeMask.bits)).map mk

/-- The mode that a text names; any other text is reported as it is. -/
def parse (s : String) : Except Error Mode :=
  match parse? s with
  | some m => .ok m
  | none => .error (.invalidMode s)

end Mode

end ModeAcl
