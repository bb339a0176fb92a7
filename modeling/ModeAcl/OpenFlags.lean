/-!
# Ways to open a file
-/

namespace ModeAcl

/-- What is asked for when a file is opened. -/
structure OpenFlags where
  read : Bool
  write : Bool
  append : Bool
  truncate : Bool
  create : Bool
  /-- Create the file, and fail if there is one. -/
  createNew : Bool
  deriving DecidableEq, Repr

namespace OpenFlags

def none : OpenFlags := ⟨false, false, false, false, false, false⟩

def readOnly : OpenFlags := { none with read := true }

/-- Create the file, or empty the one that is there. -/
def createTruncate : OpenFlags := { none with write := true, create := true, truncate := true }

/-- Whether opening may create the file. -/
def creates (f : OpenFlags) : Bool := f.create || f.createNew

/-- Whether what is opened can be written to. -/
def writes (f : OpenFlags) : Bool := f.write || f.append

/-- Why the flags contradict each other, if they do. Creating and emptying need write
access, and appending rules out emptying, unless the file has to be new. -/
def contradiction? (f : OpenFlags) : Option String :=
  if !f.writes && (f.truncate || f.creates) || f.append && f.truncate && !f.createNew then
    some "creating or truncating a file requires write or append access"
  else if !f.read && !f.writes then
    some "must specify at least one of read, write, or append access"
  else Option.none

def debug (f : OpenFlags) : String :=
  let field (name : String) (value : Bool) : String := name ++ ": " ++ toString value
  "OpenFlags \x7b " ++ ", ".intercalate
    [field "read" f.read, field "write" f.write, field "append" f.append,
      field "truncate" f.truncate, field "create" f.create, field "create_new" f.createNew] ++
    " \x7d"

end OpenFlags

end ModeAcl
