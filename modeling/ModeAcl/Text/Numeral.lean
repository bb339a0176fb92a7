/-!
# Numerals

Natural numbers as runs of digits in a base of at most sixteen. `read?` takes a
non-empty run of digits to its value, without a bound, so a numeral is never too
long to be read; a caller that works with words adds the bound through
`readBounded?`, or reads digit by digit into a word with `readWord?`. `digits` is
the shortest run with a given value, and `padded` puts zeros before it.
-/

namespace ModeAcl.Numeral

/-! ## Reading -/

/-- The value of a digit of `base`; the letters of either case count on from ten. -/
def digitValue? (base : Nat) (c : Char) : Option Nat :=
  let value :=
    if '0' ≤ c ∧ c ≤ '9' then some (c.toNat - '0'.toNat)
    else if 'a' ≤ c ∧ c ≤ 'f' then some (c.toNat - 'a'.toNat + 10)
    else if 'A' ≤ c ∧ c ≤ 'F' then some (c.toNat - 'A'.toNat + 10)
    else none
  value.filter (· < base)

/-- Read further digits behind a number whose value is `acc`. -/
def readFrom? (base : Nat) : Nat → List Char → Option Nat
  | acc, [] => some acc
  | acc, c :: cs =>
    match digitValue? base c with
    | some d => readFrom? base (acc * base + d) cs
    | none => none

/-- The value of a non-empty run of digits. -/
def read? (base : Nat) : List Char → Option Nat
  | [] => none
  | c :: cs => readFrom? base 0 (c :: cs)

/-- The value of a run of digits that a single plus sign may open, if it is below `bound`. -/
def readBounded? (base bound : Nat) (text : List Char) : Option Nat :=
  let run := match text with
    | '+' :: run => run
    | run => run
  (read? base run).filter (· < bound)

/-! ## Reading into words -/

section

variable {width : Nat}

/-- Put a digit behind a number, unless the product or the sum does not fit the word. -/
def pushDigit? (base d acc : BitVec width) : Option (BitVec width) :=
  if acc.umulOverflow base then none
  else if (acc * base).uaddOverflow d then none
  else some (acc * base + d)

/-- Read further digits behind a number that a word holds. -/
def readWordFrom? (base : Nat) : BitVec width → List Char → Option (BitVec width)
  | acc, [] => some acc
  | acc, c :: cs =>
    match digitValue? base c with
    | some d =>
      match pushDigit? (.ofNat width base) (.ofNat width d) acc with
      | some acc => readWordFrom? base acc cs
      | none => none
    | none => none

/-- The value of a non-empty run of digits, if it never outgrows the word. -/
def readWordRun? (base width : Nat) : List Char → Option (BitVec width)
  | [] => none
  | c :: cs => readWordFrom? base 0 (c :: cs)

/-- The same for a run that a single plus sign may open. -/
def readWord? (base width : Nat) (text : List Char) : Option (BitVec width) :=
  match text with
  | '+' :: run => readWordRun? base width run
  | run => readWordRun? base width run

end

/-! ## Writing -/

/-- The digits of `n`, most significant first, small letters from ten on. -/
def digits (base n : Nat) : List Char := Nat.toDigits base n

/-- The digits of `n`, with zeros before them up to `width` in all. -/
def padded (base width n : Nat) : List Char := (digits base n).leftpad width '0'

def decimal (n : Nat) : String := String.ofList (digits 10 n)

def octal (n : Nat) : String := String.ofList (digits 8 n)

def hex (n : Nat) : String := String.ofList (digits 16 n)

end ModeAcl.Numeral
