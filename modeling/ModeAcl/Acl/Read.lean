import ModeAcl.Procedure
import ModeAcl.Sid.Text
import ModeAcl.TriadMasks

/-!
# Reading a mode

Every entry of a list belongs to one class, by whom it is for; the rights of the
entries of a class are taken together.
-/

namespace ModeAcl

variable {Acl Descriptor : Type}

/-- The class that an entry for `sid` counts for. The placeholders for whoever creates the
object count as the owner and the group themselves; the owner comes first, and anyone else is
other. -/
def classify (sid owner group : Sid) : FileClass :=
  if sid = owner ∨ sid = WellKnownSid.creatorOwner.sid then .owner
  else if sid = group ∨ sid = WellKnownSid.creatorGroup.sid then .group
  else .other

/-- The line that tells how an entry was counted. -/
def entryText (index : Nat) (ace : Ace) (c : FileClass) : String :=
  "entry " ++ Numeral.decimal index ++ ": " ++ ace.sid.text ++ " " ++ ace.mask.hexMarked ++
    " as " ++ c.name

/-- Read one entry and add its rights to those read before. -/
def readEntry (d : Descriptor) (owner group : Sid) (masks : TriadMasks) (index : Nat) :
    Operation Acl Descriptor TriadMasks := do
  let ace ← Operation.askAt
    ("getting access control entry at index " ++ Numeral.decimal index) (.ace d index)
  let c := classify (Ace.sid ace) owner group
  Operation.note .trace (entryText index ace c)
  return masks.grant c (Ace.mask ace)

/-- The rights of each class, from all entries of a list. -/
def descriptorMasks (d : Descriptor) : Operation Acl Descriptor TriadMasks := do
  let count ← Operation.askAt "getting discretionary access control list" (.aceCount d)
  let owner ← Operation.askAt "getting owner sid" (.owner d)
  let group ← Operation.askAt "getting group sid" (.group d)
  (List.range count).foldlM (readEntry d owner group) .empty

/-- The line that tells of a mode that was read. -/
def readText (path : Path) (mode : Mode) (masks : TriadMasks) : String :=
  "read " ++ mode.octal ++ " from " ++ path.text ++ ": " ++ masks.debug

/-- The mode that the list of an object amounts to. -/
def readMode (path : Path) : Operation Acl Descriptor Mode := do
  let d ← Operation.askAt "getting security descriptor" (.descriptor path)
  let masks ← descriptorMasks d
  Operation.note .debug (readText path masks.toMode masks)
  return masks.toMode

end ModeAcl
