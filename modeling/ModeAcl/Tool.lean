import ModeAcl.Native
import ModeAcl.Tool.Arguments

/-!
# Commands

Three commands for the permissions of files: `chmod` sets them, `mkdir` creates
directories with them, `stat` shows them. Each takes its operands one after the
other, whether or not it could deal with those before, and reports every failure
on a line of its own.

What the commands put into a log, which may go to the errors as well, is left out.
What they show is not translated, and to prepare a translation never fails.
-/

namespace ModeAcl

inductive Tool
  | chmod
  | mkdir
  | stat
  deriving DecidableEq, Repr

namespace Tool

def name : Tool → String
  | chmod => "chmod"
  | mkdir => "mkdir"
  | stat => "stat"

/-- The mode that `chmod` takes first may be an empty text, as far as the arguments are
concerned; a file name may not. -/
def spec : Tool → Spec
  | chmod => ⟨[], 1, 2⟩
  | mkdir => ⟨[⟨'p', "parents", false⟩, ⟨'m', "mode", true⟩], 0, 1⟩
  | stat => ⟨[⟨'c', "mode-only", false⟩], 0, 1⟩

/-! ## Operands -/

/-- What a command has written by its end, and whether anything failed. -/
structure Report where
  failed : Bool
  output : String
  errors : String
  deriving DecidableEq, Repr

/-- What is done to one operand: its result is what goes to the output. -/
abbrev Action : Type := String → FileSystem → Except Error String × FileSystem

/-- Report how an operand fared, before the report on those after it. -/
def Report.after (operand : String) (result : Except Error String) (report : Report) : Report :=
  match result with
  | .ok line => { report with output := line ++ report.output }
  | .error e =>
    { report with failed := true, errors := operand ++ ": " ++ e.text ++ "\n" ++ report.errors }

/-- Deal with operands one after the other. -/
def each (act : Action) : List String → FileSystem → Report × FileSystem
  | [], fs => (⟨false, "", ""⟩, fs)
  | operand :: operands, fs =>
    let (result, fs) := act operand fs
    let (report, fs) := each act operands fs
    (report.after operand result, fs)

/-- An action of which nothing is shown if it succeeds. -/
def silently (act : Path → FileSystem → Except Error Unit × FileSystem) : Action :=
  fun operand fs =>
    let (result, fs) := act ⟨operand⟩ fs
    (result.map fun _ => "", fs)

/-- The line that shows a mode. -/
def statLine (modeOnly : Bool) (operand : String) (info : FileInfo) : String :=
  let mode := info.mode.modeBits.octalPadded 4
  if modeOnly then mode ++ "\n" else mode ++ " " ++ operand ++ "\n"

def showMode (modeOnly : Bool) : Action := fun operand fs =>
  ((Native.stat ⟨operand⟩ fs).map (statLine modeOnly operand), fs)

/-! ## Running -/

inductive Outcome
  /-- The arguments were refused, by what reads them and before anything is done. The exit code is
  then 2. -/
  | refused
  /-- The usage was asked for. -/
  | usage
  | finished (code : Nat) (output errors : String)
  deriving DecidableEq, Repr

def versionText : String := "posixutils-tree 0.2.2\n"

/-- The outcome that a report amounts to. -/
def Report.outcome (report : Report) : Outcome :=
  .finished (if report.failed then 1 else 0) report.output report.errors

/-- Deal with operands if the text of a mode can be read; else nothing is done. -/
def withMode (tool : Tool) (text : String) (act : Mode → Action) (operands : List String)
    (fs : FileSystem) : Outcome × FileSystem :=
  match Mode.parse text with
  | .error e => (.finished 1 "" (tool.name ++ ": " ++ e.text ++ "\n"), fs)
  | .ok mode =>
    let (report, fs) := each (act mode) operands fs
    (report.outcome, fs)

/-- Run a command on arguments that have been read. -/
def perform (args : Arguments) (fs : FileSystem) : Tool → Outcome × FileSystem
  | chmod =>
    withMode .chmod (args.operands.headD "") (fun mode => silently (Native.chmod · mode))
      args.operands.tail fs
  | mkdir =>
    let make (mode : Mode) : Action :=
      silently fun path =>
        if args.has 'p' then Native.mkdirAll path mode else Native.mkdir path mode
    match args.value? 'm' with
    | some text => withMode .mkdir text make args.operands fs
    | none =>
      let (report, fs) := each (make .permMask) args.operands fs
      (report.outcome, fs)
  | stat =>
    let (report, fs) := each (showMode (args.has 'c')) args.operands fs
    (report.outcome, fs)

/-- Run a command. -/
def run (tool : Tool) (arguments : List String) (fs : FileSystem) : Outcome × FileSystem :=
  match tool.spec.read arguments with
  | .refused => (.refused, fs)
  | .help => (.usage, fs)
  | .version => (.finished 0 versionText "", fs)
  | .run args => perform args fs tool

end Tool

end ModeAcl
