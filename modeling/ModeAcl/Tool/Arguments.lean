/-!
# Arguments

The arguments of a command are options and operands in any order. An option has a
letter and a word; letters may be joined behind one hyphen, and a value stands
directly behind the letter, behind an equals sign or in the next argument. Behind
two hyphens alone everything is an operand. No option can be given twice, and no
word shortened.

The commands leave this to a library that is no part of them. `Spec.read` stands in
for it as far as these commands go; what the library shows when it refuses arguments
or explains them is left out.
-/

namespace ModeAcl.Tool

structure OptionSpec where
  letter : Char
  word : String
  takesValue : Bool
  deriving DecidableEq, Repr

/-- The options that were given, with their values, and the operands. -/
structure Arguments where
  given : List (Char × String)
  operands : List String
  deriving DecidableEq, Repr

namespace Arguments

def has (args : Arguments) (letter : Char) : Bool := (args.given.lookup letter).isSome

def value? (args : Arguments) (letter : Char) : Option String := args.given.lookup letter

end Arguments

/-- What a list of arguments asks for. -/
inductive Request
  | run (args : Arguments)
  | version
  | help
  /-- The arguments make no sense. -/
  | refused
  deriving DecidableEq, Repr

/-- An argument that cannot be the value of the option before it. -/
def looksLikeOption (arg : String) : Bool :=
  match arg.toList with
  | '-' :: _ :: _ => true
  | _ => false

/-- What is left to do after an argument has been read. -/
inductive Reading
  | next (args : Arguments)
  /-- The option with this letter still lacks its value. -/
  | value (letter : Char) (args : Arguments)
  | done (request : Request)

/-- The command to which arguments are given. -/
structure Spec where
  options : List OptionSpec
  /-- So many operands at the beginning may be empty; those behind them are file names. -/
  freeOperands : Nat
  /-- The command takes no fewer operands than these. -/
  minOperands : Nat
  deriving DecidableEq, Repr

namespace Spec

/-- Whether all file names among the operands are names. -/
def admits (spec : Spec) (operands : List String) : Bool :=
  (operands.drop spec.freeOperands).all (· != "")

/-- Stop for one of the options that every command has. -/
def interrupt (spec : Spec) (args : Arguments) (request : Request) : Reading :=
  .done (if spec.admits args.operands then request else .refused)

/-- Note an option that has not been given before. -/
def give (args : Arguments) (letter : Char) (value : String) : Reading :=
  if args.has letter then .done .refused
  else .next { args with given := args.given ++ [(letter, value)] }

/-- Read letters that are joined behind one hyphen. -/
def readLetters (spec : Spec) : List Char → Arguments → Reading
  | [], args => .next args
  | letter :: rest, args =>
    if letter = 'V' then spec.interrupt args .version
    else if letter = 'h' then spec.interrupt args .help
    else
      match spec.options.find? (·.letter == letter) with
      | none => .done .refused
      | some option =>
        if option.takesValue then
          match rest with
          | [] => if args.has letter then .done .refused else .value letter args
          | '=' :: value => give args letter (String.ofList value)
          | value => give args letter (String.ofList value)
        else
          match give args letter "" with
          | .next args => readLetters spec rest args
          | reading => reading

/-- Read a word behind two hyphens, with the value behind its equals sign, if it has one. -/
def readWord (spec : Spec) (word : String) (value? : Option String) (args : Arguments) :
    Reading :=
  if word == "version" || word == "help" then
    match value? with
    | some _ => .done .refused
    | none => spec.interrupt args (if word == "version" then .version else .help)
  else
    match spec.options.find? (·.word == word) with
    | none => .done .refused
    | some option =>
      match option.takesValue, value? with
      | true, some value => give args option.letter value
      | true, none => if args.has option.letter then .done .refused else .value option.letter args
      | false, none => give args option.letter ""
      | false, some _ => .done .refused

/-- The part before the first equals sign and, if there is one, the part behind it. -/
def cutAtEquals (text : List Char) : String × Option String :=
  match text.dropWhile (· != '=') with
  | [] => (String.ofList text, none)
  | _ :: value => (String.ofList (text.takeWhile (· != '=')), some (String.ofList value))

/-- Read an argument before which no option lacks its value. -/
def readArgument (spec : Spec) (arg : String) (args : Arguments) : Reading :=
  match arg.toList with
  | '-' :: '-' :: text => let (word, value?) := cutAtEquals text; spec.readWord word value? args
  | '-' :: letter :: letters => spec.readLetters (letter :: letters) args
  | _ => .next { args with operands := args.operands ++ [arg] }

/-- Accept the operands if they are possible and enough. -/
def finish (spec : Spec) (args : Arguments) : Request :=
  if spec.admits args.operands && spec.minOperands ≤ args.operands.length then .run args
  else .refused

/-- Read arguments in order; `waiting` is the letter of an option that lacks its value. -/
def readAll (spec : Spec) : Option Char → List String → Arguments → Request
  | none, [], args => spec.finish args
  | some _, [], _ => .refused
  | some letter, arg :: rest, args =>
    if looksLikeOption arg then .refused
    else
      match give args letter arg with
      | .next args => spec.readAll none rest args
      | _ => .refused
  | none, arg :: rest, args =>
    if arg == "--" then spec.finish { args with operands := args.operands ++ rest }
    else
      match spec.readArgument arg args with
      | .next args => spec.readAll none rest args
      | .value letter args => spec.readAll (some letter) rest args
      | .done request => request

/-- What the arguments of a command ask for. This stands in for the library that reads them. -/
def read (spec : Spec) (arguments : List String) : Request :=
  spec.readAll none arguments ⟨[], []⟩

end Spec

end ModeAcl.Tool
