import ModeAcl.Error
import ModeAcl.Security

/-!
# Faults

Settings under which the calls to a backend fail. A part of the backend may be
broken for good; besides, any call may be told to fail from some time on, with an
error of one's choice.
-/

namespace ModeAcl

/-- A place where a backend can be made to fail. -/
inductive FaultPoint
  | wellKnown (kind : WellKnownSid)
  | currentUser
  | primaryGroup
  | buildAcl
  | setAcl
  | descriptor
  | owner
  | group
  | aceCount
  | ace (index : Nat)
  deriving DecidableEq, Repr

/-- How calls fail at a point. -/
structure Fault where
  error : CallError
  /-- So many calls still go through. -/
  grace : Nat
  /-- Whether the object is removed before its list would have been set. -/
  removes : Bool

structure Faults where
  brokenSids : List WellKnownSid
  brokenUser : Bool
  brokenAcl : Bool
  brokenSet : Bool
  /-- Whether a broken attempt to set a list leaves a file in the directory. -/
  litters : Bool
  brokenDescriptor : Bool
  points : List (FaultPoint × Fault)

namespace Faults

/-- Nothing fails. -/
def none : Faults := ⟨[], false, false, false, false, false, []⟩

/-- Meet the fault of a point, or let one more call through. -/
def strikeIn (point : FaultPoint) :
    List (FaultPoint × Fault) → Option Fault × List (FaultPoint × Fault)
  | [] => (Option.none, [])
  | (p, fault) :: points =>
    if p = point then
      match fault.grace with
      | 0 => (some fault, (p, fault) :: points)
      | grace + 1 => (Option.none, (p, { fault with grace := grace }) :: points)
    else ((strikeIn point points).1, (p, fault) :: (strikeIn point points).2)

/-- The fault that a call at a point meets, and the settings for the calls after it. -/
def strike (faults : Faults) (point : FaultPoint) : Option Fault × Faults :=
  let (fault, points) := strikeIn point faults.points
  (fault, { faults with points := points })

end Faults

end ModeAcl
