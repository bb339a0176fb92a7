/-!
# File classes

A mode grants permissions to three classes of users, each with a triad of read,
write and execute bits. The triads of a mode follow each other at `offset`.
-/

namespace ModeAcl

/-- Whom a triad of permission bits is for. -/
inductive FileClass
  | owner
  | group
  | other
  deriving DecidableEq, Repr

namespace FileClass

/-- Every class, in the order in which a mode writes them. -/
def all : List FileClass := [owner, group, other]

/-- The position of the lowest bit of the triad. -/
def offset : FileClass → Nat
  | owner => 6
  | group => 3
  | other => 0

/-- The read bit, in the position that it has within a mode. -/
def read (c : FileClass) : BitVec 32 := 4#32 <<< c.offset

def write (c : FileClass) : BitVec 32 := 2#32 <<< c.offset

def execute (c : FileClass) : BitVec 32 := 1#32 <<< c.offset

/-- All three bits of the triad. -/
def bits (c : FileClass) : BitVec 32 := c.read ||| c.write ||| c.execute

def name : FileClass → String
  | owner => "Owner"
  | group => "Group"
  | other => "Other"

end FileClass

end ModeAcl
