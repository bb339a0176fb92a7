import ModeAcl.ByteOrder
import ModeAcl.Sid

/-!
# The binary form of identifiers

A byte for the revision, a byte for the count of sub-authorities, six bytes of
authority from the most significant on, and four bytes for each sub-authority
from the least significant on. Bytes behind the last sub-authority do not count.
-/

namespace ModeAcl.Sid

open ByteOrder

def revision : UInt8 := 1

/-- How many bytes the binary form has. -/
def byteLength (sid : Sid) : Nat := 8 + 4 * sid.subAuthorities.length

/-- The count byte holds the lowest eight bits of the count. -/
def toBytes (sid : Sid) : List UInt8 :=
  revision :: UInt8.ofNat sid.subAuthorities.length ::
    (bigEndian 6 sid.authority.toNat ++
      sid.subAuthorities.flatMap fun sub => littleEndian 4 sub.toNat)

/-- The first `count` words of four bytes each. -/
def words : Nat → List UInt8 → List (BitVec 32)
  | 0, _ => []
  | count + 1, bytes =>
    BitVec.ofNat 32 (ofLittleEndian (bytes.take 4)) :: words count (bytes.drop 4)

def ofBytes (bytes : List UInt8) : Except Malformed Sid :=
  match bytes with
  | rev :: count :: rest =>
    if rev ≠ revision ∨ rest.length < 6 then .error .header
    else
      let body := rest.drop 6
      if maxSubAuthorities < count.toNat ∨ body.length < 4 * count.toNat then .error .truncated
      else .ok (.ofNat (ofBigEndian (rest.take 6)) (words count.toNat body))
  | _ => .error .header

end ModeAcl.Sid
