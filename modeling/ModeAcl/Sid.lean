import ModeAcl.Error

/-!
# Security identifiers

A security identifier names a user, a group or everyone: an authority of 48 bits
and any number of sub-authorities of 32 bits.
-/

namespace ModeAcl

structure Sid where
  authority : BitVec 48
  subAuthorities : List (BitVec 32)
  deriving DecidableEq, Repr

namespace Sid

/-- The identifier with the lowest 48 bits of `authority`. -/
def ofNat (authority : Nat) (subAuthorities : List (BitVec 32)) : Sid :=
  ⟨BitVec.ofNat 48 authority, subAuthorities⟩

/-- The number of sub-authorities that the binary and the text form have room for. -/
def maxSubAuthorities : Nat := 15

/-- Why bytes or a text are no identifier. -/
inductive Malformed
  | header
  | truncated
  | opening
  | noAuthority
  | badAuthority
  | badSubAuthority
  | outOfRange
  deriving DecidableEq, Repr

def Malformed.text : Malformed → String
  | header => "malformed sid header"
  | truncated => "truncated sid"
  | opening => "sid must start with S-1-"
  | noAuthority => "missing identifier authority"
  | badAuthority => "bad identifier authority"
  | badSubAuthority => "bad sub-authority"
  | outOfRange => "sid out of range"

/-- The error with which bytes or a text are refused. -/
def Malformed.toCallError (m : Malformed) : CallError := .message .invalidData m.text

end Sid

/-! ## Well-known identifiers -/

/-- Identifiers that mean the same on every system. -/
inductive WellKnownSid
  /-- Stands for whoever creates the object. -/
  | creatorOwner
  /-- Stands for the primary group of whoever creates the object. -/
  | creatorGroup
  | world
  deriving DecidableEq, Repr

namespace WellKnownSid

def sid : WellKnownSid → Sid
  | creatorOwner => .ofNat 3 [0]
  | creatorGroup => .ofNat 3 [1]
  | world => .ofNat 1 [0]

def name : WellKnownSid → String
  | creatorOwner => "creator owner"
  | creatorGroup => "creator group"
  | world => "everyone"

def debug : WellKnownSid → String
  | creatorOwner => "CreatorOwner"
  | creatorGroup => "CreatorGroup"
  | world => "World"

end WellKnownSid

end ModeAcl
