import ModeAcl.Sid
import ModeAcl.Text.Numeral
import ModeAcl.Text.Split

/-!
# The text form of identifiers

`S-1-` and the authority, then a hyphen and a number for each sub-authority. The
authority is written in decimal if it has at most 32 bits, else with twelve
hexadecimal digits behind `0x`. The reader takes either base for any authority,
hexadecimal digits of either case, leading zeros and a plus sign before any
number.
-/

namespace ModeAcl.Sid

open Numeral

/-! ## Writing -/

/-- The authority, in the base that its size calls for. -/
def authorityText (authority : Nat) : List Char :=
  if authority < 1 <<< 32 then digits 10 authority
  else '0' :: 'x' :: (padded 16 12 authority).map Char.toUpper

/-- The pieces between the hyphens. -/
def pieces (sid : Sid) : List (List Char) :=
  ['S'] :: ['1'] :: authorityText sid.authority.toNat ::
    sid.subAuthorities.map fun sub => digits 10 sub.toNat

def text (sid : Sid) : String := String.ofList (Fields.join '-' sid.pieces)

def debug (sid : Sid) : String := "Sid(" ++ sid.text ++ ")"

/-! ## Reading -/

/-- An authority in decimal, or in hexadecimal behind its mark. -/
def readAuthority? : List Char → Option Nat
  | '0' :: 'x' :: run => readBounded? 16 (1 <<< 64) run
  | '0' :: 'X' :: run => readBounded? 16 (1 <<< 64) run
  | run => readBounded? 10 (1 <<< 64) run

def readSubAuthority? (run : List Char) : Option (BitVec 32) :=
  (readBounded? 10 (1 <<< 32) run).map (BitVec.ofNat 32)

/-- Read the pieces between the hyphens. The numbers are checked from left to right, and
only then whether they fit an identifier. -/
def ofPieces : List (List Char) → Except Malformed Sid
  | ['S'] :: ['1'] :: authority :: subs =>
    match readAuthority? authority, subs.mapM readSubAuthority? with
    | none, _ => .error .badAuthority
    | some _, none => .error .badSubAuthority
    | some authority, some subs =>
      if 1 <<< 48 ≤ authority ∨ maxSubAuthorities < subs.length then .error .outOfRange
      else .ok (.ofNat authority subs)
  | [['S'], ['1']] => .error .noAuthority
  | _ => .error .opening

def parse (s : String) : Except Malformed Sid := ofPieces (Fields.split '-' s.toList)

end ModeAcl.Sid
