import ModeAcl.Tool

/-!
# Sessions

A session is a sequence of command lines, each run on the file system that those
before it left. The words of a command line are separated by blanks.
-/

namespace ModeAcl.Session

/-- What a command line shows on the two outputs. -/
structure Shown where
  output : String
  errors : String
  deriving DecidableEq, Repr

/-- Where a session starts: an empty directory, in which groups cannot write what is created. -/
def initial : FileSystem := ⟨.directory ⟨0o755⟩ [], .linked [], ⟨0o022⟩⟩

/-- The words of a line. -/
def words (line : String) : List String :=
  ((Fields.split ' ' (line.toList.filter (· != '\n'))).filter (!·.isEmpty)).map String.ofList

def toolOfName? (name : String) : Option Tool :=
  [Tool.chmod, Tool.mkdir, Tool.stat].find? (·.name == name)

/-- What an outcome shows. -/
def Shown.ofOutcome (tool : Tool) : Tool.Outcome → Shown
  | .refused => ⟨"", tool.name ++ ": the arguments are not understood\n"⟩
  | .usage => ⟨tool.name ++ " takes operands and options\n", ""⟩
  | .finished _ output errors => ⟨output, errors⟩

/-- Run one command line. -/
def step (line : String) (fs : FileSystem) : Shown × FileSystem :=
  match words line with
  | [] => (⟨"", ""⟩, fs)
  | name :: arguments =>
    match toolOfName? name with
    | none => (⟨"", name ++ ": no such command\n"⟩, fs)
    | some tool =>
      let (outcome, fs) := tool.run arguments fs
      (.ofOutcome tool outcome, fs)

end ModeAcl.Session
