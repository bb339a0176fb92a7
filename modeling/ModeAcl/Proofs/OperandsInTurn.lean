import ModeAcl.Proofs.CommandLines
import ModeAcl.Proofs.OctalModes

/-!
# Commands deal with every operand

A command that is given names of files performs an operation of the library on each of them,
in order, and each time on the files that those before have left (`InTurn`). A failure stops
nothing: it is one line among the errors, and the reason for the exit code. What the command
writes and how it ends depends on the results of the operation alone (`each_telling`). Nothing
at all is done where the text of a mode cannot be read (`EndsInMode`), nor where no operand is
given or an empty one.

Operands are texts (`Path`), the operations work on trees in which modes keep nobody out
(`Node`), and the arguments are read by `Spec.read`, in the place of the library that does so.
-/

namespace ModeAcl.Tool

variable {α : Type}

/-! ## One operand after the other -/

/-- An operation is performed once on each operand, in order and whatever became of those before,
on the files that they have left. -/
inductive InTurn (op : Path → FileSystem → Except Error α × FileSystem) :
    List String → FileSystem → List (String × Except Error α) → FileSystem → Prop
  | nil (fs : FileSystem) : InTurn op [] fs [] fs
  | cons {operand : String} {operands : List String} {fs mid fs' : FileSystem}
      {result : Except Error α} {results : List (String × Except Error α)} :
      op ⟨operand⟩ fs = (result, mid) → InTurn op operands mid results fs' →
      InTurn op (operand :: operands) fs ((operand, result) :: results) fs'

/-- The operation has failed on at least one operand. -/
def SomeFailed (results : List (String × Except Error α)) : Prop :=
  ∃ r ∈ results, r.2.isOk = false

instance (results : List (String × Except Error α)) : Decidable (SomeFailed results) :=
  inferInstanceAs (Decidable (∃ r ∈ results, r.2.isOk = false))

def exitCode (results : List (String × Except Error α)) : Nat :=
  if SomeFailed results then 1 else 0

/-- The line for an operand on which the operation has failed. -/
def errorLine : String × Except Error α → Option String
  | (operand, .error e) => some (operand ++ ": " ++ e.text ++ "\n")
  | (_, .ok _) => none

/-- The line for an operand on which it has succeeded. -/
def outputLine (line : String → α → String) : String × Except Error α → Option String
  | (operand, .ok a) => some (line operand a)
  | (_, .error _) => none

/-- One line for each failure, in the order of the operands. -/
def errorText (results : List (String × Except Error α)) : String :=
  String.join (results.filterMap errorLine)

/-- One line for each success, in the order of the operands. -/
def outputText (line : String → α → String) (results : List (String × Except Error α)) : String :=
  String.join (results.filterMap (outputLine line))

/-- The report that results amount to. -/
def reportOn (line : String → α → String) (results : List (String × Except Error α)) : Report :=
  ⟨decide (SomeFailed results), outputText line results, errorText results⟩

/-- Perform an operation on an operand and tell of its success by a line. -/
def telling (op : Path → FileSystem → Except Error α × FileSystem) (line : String → α → String) :
    Action :=
  fun operand fs => ((op ⟨operand⟩ fs).1.map (line operand), (op ⟨operand⟩ fs).2)

theorem someFailed_cons_ok (operand : String) (a : α) (results : List (String × Except Error α)) :
    SomeFailed ((operand, .ok a) :: results) ↔ SomeFailed results := by
  rw [SomeFailed, List.exists_mem_cons_iff]
  exact or_iff_right fun failed => by cases failed

theorem someFailed_cons_error (operand : String) (e : Error)
    (results : List (String × Except Error α)) : SomeFailed ((operand, .error e) :: results) :=
  ⟨_, List.mem_cons_self, rfl⟩

/-- One more result is reported before the others. -/
theorem after_reportOn (line : String → α → String) (operand : String) (result : Except Error α)
    (results : List (String × Except Error α)) :
    (reportOn line results).after operand (result.map (line operand)) =
      reportOn line ((operand, result) :: results) := by
  cases result with
  | ok a =>
    have failed := someFailed_cons_ok operand a results
    simp only [reportOn, outputText, errorText, failed, List.filterMap_cons, outputLine, errorLine,
      String.join_cons]
    rfl
  | error e =>
    have failed := someFailed_cons_error operand e results
    simp only [reportOn, outputText, errorText, failed, List.filterMap_cons, outputLine, errorLine,
      String.join_cons]
    rfl

/-- The report on all operands, by the results of the operation on each. -/
theorem each_telling (op : Path → FileSystem → Except Error α × FileSystem)
    (line : String → α → String) (operands : List String) (fs : FileSystem) :
    ∃ results fs', InTurn op operands fs results fs' ∧
      each (telling op line) operands fs = (reportOn line results, fs') := by
  induction operands generalizing fs with
  | nil => exact ⟨[], fs, .nil fs, rfl⟩
  | cons operand operands ih =>
    rcases performed : op ⟨operand⟩ fs with ⟨result, mid⟩
    obtain ⟨results, fs', others, reported⟩ := ih mid
    have told : telling op line operand fs = (result.map (line operand), mid) := by
      rw [telling, performed]
    refine ⟨(operand, result) :: results, fs', .cons performed others, ?_⟩
    rw [each, told]
    dsimp only
    rw [reported, after_reportOn]

/-- An operation that leaves the files alone. -/
theorem InTurn.files_eq {ask : Path → FileSystem → Except Error α} {operands : List String}
    {fs fs' : FileSystem} {results : List (String × Except Error α)}
    (inTurn : InTurn (fun path fs => (ask path fs, fs)) operands fs results fs') : fs' = fs := by
  induction inTurn with
  | nil fs => rfl
  | cons performed _ ih =>
    cases performed
    exact ih

/-! ## The commands -/

theorem outcome_reportOn (line : String → α → String) (results : List (String × Except Error α)) :
    (reportOn line results).outcome =
      .finished (exitCode results) (outputText line results) (errorText results) := by
  simp only [Report.outcome, reportOn, exitCode, decide_eq_true_eq]

theorem outputText_silent (results : List (String × Except Error α)) :
    outputText (fun _ _ => "") results = "" := by
  unfold outputText
  induction results with
  | nil => rfl
  | cons result results ih =>
    obtain ⟨operand, _ | _⟩ := result
    · exact ih
    · rw [List.filterMap_cons, outputLine, String.join_cons, ih]
      rfl

/-- One operand after the other, of which nothing is shown but failures. -/
theorem each_silently (op : Path → FileSystem → Except Error Unit × FileSystem)
    (operands : List String) (fs : FileSystem) :
    ∃ results fs', InTurn op operands fs results fs' ∧
      ((each (silently op) operands fs).1.outcome, (each (silently op) operands fs).2) =
        (.finished (exitCode results) "" (errorText results), fs') := by
  obtain ⟨results, fs', inTurn, reported⟩ := each_telling op (fun _ _ => "") operands fs
  have silent : silently op = telling op fun _ _ => "" := rfl
  rw [silent, reported, outcome_reportOn, outputText_silent]
  exact ⟨results, fs', inTurn, rfl⟩

/-- How a command ends whose mode is named by a text. -/
inductive EndsInMode (tool : Tool) (text : String)
    (op : Mode → Path → FileSystem → Except Error Unit × FileSystem) (operands : List String)
    (fs : FileSystem) : Outcome × FileSystem → Prop
  /-- The operation is performed in this mode on each operand, and only failures are shown. -/
  | performed {mode : Mode} {results : List (String × Except Error Unit)} {fs' : FileSystem} :
      Mode.parse text = .ok mode → InTurn (op mode) operands fs results fs' →
      EndsInMode tool text op operands fs
        (.finished (exitCode results) "" (errorText results), fs')
  /-- The text is no mode. It is shown, and nothing is done. -/
  | refused : Mode.parse text = .error (.invalidMode text) →
      EndsInMode tool text op operands fs
        (.finished 1 "" (tool.name ++ ": invalid mode: '" ++ text ++ "'\n"), fs)

theorem line_invalidMode (name text : String) :
    name ++ ": " ++ (Error.invalidMode text).text ++ "\n" =
      name ++ ": invalid mode: '" ++ text ++ "'\n" := by
  have shown : (Error.invalidMode text).text = "invalid mode: '" ++ text ++ "'" := rfl
  have opening : ": " ++ "invalid mode: '" = ": invalid mode: '" := by decide
  have closing : "'" ++ "\n" = "'\n" := by decide
  calc name ++ ": " ++ (Error.invalidMode text).text ++ "\n"
    _ = name ++ (": " ++ "invalid mode: '") ++ text ++ ("'" ++ "\n") := by
      rw [shown]
      simp only [String.append_assoc]
    _ = name ++ ": invalid mode: '" ++ text ++ "'\n" := by rw [opening, closing]

theorem endsInMode_withMode (tool : Tool) (text : String)
    (op : Mode → Path → FileSystem → Except Error Unit × FileSystem) (operands : List String)
    (fs : FileSystem) :
    EndsInMode tool text op operands fs
      (withMode tool text (fun mode => silently (op mode)) operands fs) := by
  rw [withMode]
  rcases read : Mode.parse text with e | mode
  · rw [Mode.parse_eq] at read
    split at read
    · cases read
    · cases read
      have shown := line_invalidMode tool.name text
      dsimp only
      rw [shown]
      exact .refused (by rw [Mode.parse_eq, if_neg ‹_›])
  · obtain ⟨results, fs', inTurn, ended⟩ := each_silently (op mode) operands fs
    dsimp only
    rw [ended]
    exact .performed read inTurn

/-- Create a directory, with those missing above it or without. -/
def makeDirectory (parents : Bool) (mode : Mode) (path : Path) :
    FileSystem → Except Error Unit × FileSystem :=
  if parents then Native.mkdirAll path mode else Native.mkdir path mode

theorem statLine_eq (modeOnly : Bool) (operand : String) (info : FileInfo) :
    statLine modeOnly operand info =
      info.mode.modeBits.octalPadded 4 ++ (if modeOnly then "" else " " ++ operand) ++ "\n" := by
  rw [statLine]
  cases modeOnly with
  | true => rw [if_pos rfl, if_pos rfl, String.append_empty]
  | false =>
    rw [if_neg Bool.false_ne_true, if_neg Bool.false_ne_true]
    simp only [String.append_assoc]

section

variable {operands : List String} (some_ : operands ≠ []) (named : "" ∉ operands) (fs : FileSystem)
include some_ named

theorem chmod_run (text : String) :
    EndsInMode .chmod text (fun mode path => Native.chmod path mode) operands fs
      ((Job.chmod text).run operands fs) := by
  rw [Job.run_of_named _ some_ named]
  exact endsInMode_withMode .chmod text _ operands fs

theorem mkdir_run_in_mode (parents : Bool) (text : String) :
    EndsInMode .mkdir text (makeDirectory parents) operands fs
      ((Job.mkdir parents (some text)).run operands fs) := by
  rw [Job.run_of_named _ some_ named, Job.tool, perform, Job.value?_mode, Job.has_parents]
  exact endsInMode_withMode .mkdir text _ operands fs

/-- Without a mode, directories get all rights that the mask leaves. -/
theorem mkdir_run (parents : Bool) : ∃ results fs',
    InTurn (makeDirectory parents .permMask) operands fs results fs' ∧
    (Job.mkdir parents none).run operands fs =
      (.finished (exitCode results) "" (errorText results), fs') := by
  obtain ⟨results, fs', inTurn, ended⟩ :=
    each_silently (makeDirectory parents .permMask) operands fs
  refine ⟨results, fs', inTurn, ?_⟩
  rw [Job.run_of_named _ some_ named, Job.tool, perform, Job.value?_mode, Job.has_parents]
  exact ended

theorem stat_run (modeOnly : Bool) : ∃ results,
    InTurn (fun path fs => (Native.stat path fs, fs)) operands fs results fs ∧
    (Job.stat modeOnly).run operands fs = (.finished (exitCode results)
      (outputText (statLine modeOnly) results) (errorText results), fs) := by
  obtain ⟨results, fs', inTurn, reported⟩ :=
    each_telling (fun path fs => (Native.stat path fs, fs)) (statLine modeOnly) operands fs
  have show_ : showMode modeOnly =
      telling (fun path fs => (Native.stat path fs, fs)) (statLine modeOnly) := rfl
  have given : ((Job.stat modeOnly).arguments operands).operands = operands := rfl
  obtain rfl := inTurn.files_eq
  refine ⟨results, inTurn, ?_⟩
  rw [Job.run_of_named _ some_ named, Job.tool, perform, Job.has_modeOnly, given, show_, reported]
  dsimp only
  rw [outcome_reportOn]

end

end ModeAcl.Tool
