import ModeAcl.AccessMask
import ModeAcl.FileClass
import ModeAcl.Sid

/-!
# Access control lists

An entry is written as a grant and read back as an access control entry. The
trustees say which identity gets the rights of each class.
-/

namespace ModeAcl

/-- An entry as it is written: `permissions` for `trustee`. -/
structure Grant where
  trustee : Sid
  permissions : AccessMask
  deriving DecidableEq, Repr

/-- An entry as it is read back. -/
structure Ace where
  sid : Sid
  mask : AccessMask
  deriving DecidableEq, Repr

/-- The entry that a grant becomes. -/
def Grant.toAce (g : Grant) : Ace := ⟨g.trustee, g.permissions⟩

/-- Which identities get the rights of the owner and of the group. Others are always everyone. -/
inductive Trustees
  /-- The placeholders for whoever creates the object. -/
  | creator
  /-- The current user with its primary group. -/
  | currentUser
  deriving DecidableEq, Repr

end ModeAcl
