import ModeAcl.Procedure
import ModeAcl.TriadMasks

/-!
# Applying a mode

The access control list of an object is replaced by the one that a mode stands
for. Every class with rights gets one entry; a class without rights gets none,
since a grant of nothing is not the same as no grant. Nothing is set unless every
trustee was resolved and the list was built.
-/

namespace ModeAcl

variable {Acl Descriptor : Type}

/-- Look up a well-known identifier. -/
def resolveWellKnown (kind : WellKnownSid) : Operation Acl Descriptor Sid :=
  Operation.askAt ("creating sid for " ++ kind.name) (.wellKnownSid kind)

/-- Look up the identity that gets the rights of a class. -/
def Trustees.resolve : Trustees → FileClass → Operation Acl Descriptor Sid
  | _, .other => resolveWellKnown .world
  | .creator, .owner => resolveWellKnown .creatorOwner
  | .creator, .group => resolveWellKnown .creatorGroup
  | .currentUser, .owner => Operation.askAt "resolving current user" .currentUser
  | .currentUser, .group => Operation.askAt "resolving primary group" .primaryGroup

/-- The classes that have rights. -/
def TriadMasks.granted (masks : TriadMasks) : List FileClass :=
  FileClass.all.filter fun c => !(masks.get c).isEmpty

/-- Part results into what succeeded and what failed, each in order. -/
def partResults {ε α : Type} : List (Except ε α) → List α × List ε
  | [] => ([], [])
  | .ok a :: results => (a :: (partResults results).1, (partResults results).2)
  | .error e :: results => ((partResults results).1, e :: (partResults results).2)

/-- One grant for each class that has rights. All trustees are looked up, also when one of
them cannot be, and the failures are reported together. -/
def explicitEntries (masks : TriadMasks) (trustees : Trustees) :
    Operation Acl Descriptor (List Grant) :=
  Operation.ofProcedure do
    let results ← masks.granted.mapM fun c => do
      let sid ← (trustees.resolve c).result
      return sid.map fun sid => (⟨sid, masks.get c⟩ : Grant)
    match partResults results with
    | (grants, []) => return .ok grants
    | (_, errors) => return .error (.entries errors)

/-- The line that tells of a list that was set. -/
def appliedText (path : Path) (mode : Mode) (masks : TriadMasks) : String :=
  "applied " ++ mode.perm.octal ++ " to " ++ path.text ++ ": owner " ++ masks.owner.hexMarked ++
    ", group " ++ masks.group.hexMarked ++ ", other " ++ masks.other.hexMarked

/-- Replace the list of an object. -/
def applyMode (path : Path) (mode : Mode) (isDirectory : Bool) (trustees : Trustees) :
    Operation Acl Descriptor Unit := do
  let masks := TriadMasks.ofMode mode isDirectory
  let grants ← explicitEntries masks trustees
  let acl ← Operation.askAt "creating access control list" (.buildAcl grants)
  let () ← Operation.askAt "setting security descriptor" (.setAcl path acl)
  Operation.note .debug (appliedText path mode masks)

end ModeAcl
