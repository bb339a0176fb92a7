import ModeAcl.Tool

/-!
# Command lines

Whatever options are given, and in whatever way, a command is run only on operands that
are enough and name files (`Spec.Accepts`, `accepts_of_read`). What it is to do is a job.
Every job can be asked for, whatever the text of its mode is and whatever the operands
look like (`Job.read_line`): the options come first, and two hyphens keep the operands from
being taken for options. And nothing else can be asked for (`run_eq_run_asked`).
-/

namespace ModeAcl.Tool

/-! ## What is read -/

/-- Reading that stops here does not lead to a run. -/
def Reading.Idle : Reading → Prop
  | .done request => ∀ args, request ≠ .run args
  | .next _ | .value _ _ => True

namespace Spec

variable {spec : Spec} {args args' : Arguments}

/-- The operands are enough, and a name is given for every file. -/
structure Accepts (spec : Spec) (operands : List String) : Prop where
  enough : spec.minOperands ≤ operands.length
  named : "" ∉ operands.drop spec.freeOperands

theorem admits_eq_true_iff {operands : List String} :
    spec.admits operands = true ↔ "" ∉ operands.drop spec.freeOperands := by
  rw [admits, List.all_eq_true]
  constructor
  · intro named member
    exact absurd rfl (bne_iff_ne.mp (named "" member))
  · intro named operand member
    refine bne_iff_ne.mpr fun empty => ?_
    exact named (empty ▸ member)

theorem finish_eq_run (accepts : spec.Accepts args.operands) : spec.finish args = .run args := by
  rw [finish, admits_eq_true_iff.mpr accepts.named, decide_eq_true accepts.enough]
  rfl

theorem finish_eq_refused (rejects : ¬ spec.Accepts args.operands) :
    spec.finish args = .refused := by
  rw [finish, if_neg]
  rw [Bool.and_eq_true, decide_eq_true_iff, admits_eq_true_iff]
  exact fun both => rejects ⟨both.2, both.1⟩

theorem accepts_of_finish (finished : spec.finish args = .run args') :
    spec.Accepts args'.operands := by
  by_cases accepts : spec.Accepts args.operands
  · rw [finish_eq_run accepts] at finished
    cases finished
    exact accepts
  · rw [finish_eq_refused accepts] at finished
    cases finished

theorem refused_idle : (Reading.done .refused).Idle := fun _ asked => by cases asked

theorem interrupt_idle {request : Request} (harmless : ∀ args, request ≠ .run args) :
    (spec.interrupt args request).Idle := by
  rw [interrupt]
  split
  · exact harmless
  · exact refused_idle

theorem version_idle : (spec.interrupt args .version).Idle :=
  interrupt_idle fun _ asked => by cases asked

theorem help_idle : (spec.interrupt args .help).Idle :=
  interrupt_idle fun _ asked => by cases asked

theorem give_idle (args : Arguments) (letter : Char) (value : String) :
    (give args letter value).Idle := by
  rw [give]
  split
  · exact refused_idle
  · trivial

theorem readLetters_idle (letters : List Char) (args : Arguments) :
    (spec.readLetters letters args).Idle := by
  induction letters generalizing args with
  | nil => trivial
  | cons letter letters ih =>
    unfold readLetters
    split
    · exact version_idle
    split
    · exact help_idle
    split
    · exact refused_idle
    split
    · split
      · split
        · exact refused_idle
        · trivial
      · exact give_idle _ _ _
      · exact give_idle _ _ _
    · have given := give_idle args letter ""
      split
      · exact ih _
      · exact given

theorem readWord_idle (word : String) (value? : Option String) (args : Arguments) :
    (spec.readWord word value? args).Idle := by
  unfold readWord
  split
  · split
    · exact refused_idle
    · split
      · exact version_idle
      · exact help_idle
  split
  · exact refused_idle
  split
  · exact give_idle _ _ _
  · split
    · exact refused_idle
    · trivial
  · exact give_idle _ _ _
  · exact refused_idle

theorem readArgument_idle (arg : String) (args : Arguments) :
    (spec.readArgument arg args).Idle := by
  rw [readArgument]
  split
  · exact readWord_idle _ _ _
  · exact readLetters_idle _ _
  · trivial

/-- Whatever comes before, in the end the operands have been looked at. -/
theorem accepts_of_readAll {waiting : Option Char} {arguments : List String}
    (read : spec.readAll waiting arguments args = .run args') : spec.Accepts args'.operands := by
  induction arguments generalizing waiting args with
  | nil =>
    cases waiting with
    | none => exact accepts_of_finish read
    | some letter => cases read
  | cons arg arguments ih =>
    cases waiting with
    | some letter =>
      rw [readAll] at read
      split at read
      · cases read
      split at read
      · exact ih read
      · cases read
    | none =>
      rw [readAll] at read
      split at read
      · exact accepts_of_finish read
      have idle : (spec.readArgument arg args).Idle := readArgument_idle arg args
      split at read
      · exact ih read
      · exact ih read
      · rename_i stops
        rw [stops] at idle
        exact absurd read (idle args')

theorem accepts_of_read {arguments : List String} (read : spec.read arguments = .run args) :
    spec.Accepts args.operands :=
  accepts_of_readAll read

/-- Two hyphens that are not alone come before a word. -/
theorem readArgument_word {arg : String} {text : List Char}
    (chars : arg.toList = '-' :: '-' :: text) (args : Arguments) :
    spec.readArgument arg args =
      spec.readWord (cutAtEquals text).1 (cutAtEquals text).2 args := by
  rw [readArgument, chars]
  rfl

/-- Behind two hyphens everything is an operand. -/
theorem readAll_hyphens (operands : List String) (args : Arguments) :
    spec.readAll none ("--" :: operands) args =
      spec.finish { args with operands := args.operands ++ operands } := by
  rw [readAll, if_pos (by decide)]

/-- What does not look like an option is an operand anywhere. -/
theorem readAll_operands {operands : List String}
    (plain : ∀ operand ∈ operands, looksLikeOption operand = false) (args : Arguments) :
    spec.readAll none operands args =
      spec.finish { args with operands := args.operands ++ operands } := by
  induction operands generalizing args with
  | nil => rw [readAll, List.append_nil]
  | cons operand operands ih =>
    have plainHere := plain operand List.mem_cons_self
    have notHyphens : ¬ (operand == "--") = true := by
      intro same
      rw [beq_iff_eq.mp same] at plainHere
      exact absurd plainHere (by decide)
    have taken : spec.readArgument operand args =
        .next { args with operands := args.operands ++ [operand] } := by
      rw [looksLikeOption] at plainHere
      rw [readArgument]
      split at plainHere
      · cases plainHere
      · rename_i other
        split
        · rename_i shape
          exact absurd shape (other _ _)
        · rename_i shape
          exact absurd shape (other _ _)
        · rfl
    rw [readAll, if_neg notHyphens, taken]
    dsimp only
    rw [ih fun next among => plain next (List.mem_cons_of_mem _ among), List.append_assoc]
    rfl

end Spec

/-! ## Jobs -/

/-- What a command is to do to its operands. -/
inductive Job
  /-- Set the mode that a text names. -/
  | chmod (text : String)
  /-- Create directories, perhaps with those above them, and perhaps with a mode. -/
  | mkdir (parents : Bool) (text? : Option String)
  /-- Show modes, perhaps without the operands. -/
  | stat (modeOnly : Bool)
  deriving DecidableEq, Repr

namespace Job

def tool : Job → Tool
  | chmod _ => .chmod
  | mkdir _ _ => .mkdir
  | stat _ => .stat

/-- The options that tell of a job. -/
def options : Job → List String
  | chmod _ => []
  | mkdir parents text? =>
    (if parents then ["-p"] else []) ++ (text?.map ("--mode=" ++ ·)).toList
  | stat modeOnly => if modeOnly then ["-c"] else []

/-- The options as they are read. -/
def given : Job → List (Char × String)
  | chmod _ => []
  | mkdir parents text? => (if parents then [('p', "")] else []) ++ (text?.map ('m', ·)).toList
  | stat modeOnly => if modeOnly then [('c', "")] else []

/-- What stands among the operands: the text of a mode comes first if there is no option for it. -/
def words : Job → List String → List String
  | chmod text, operands => text :: operands
  | mkdir _ _, operands | stat _, operands => operands

/-- A command line for a job. -/
def line (job : Job) (operands : List String) : List String :=
  job.options ++ "--" :: job.words operands

/-- The arguments that such a line is read as. -/
def arguments (job : Job) (operands : List String) : Arguments := ⟨job.given, job.words operands⟩

/-- Have the command do the job. -/
def run (job : Job) (operands : List String) (fs : FileSystem) : Outcome × FileSystem :=
  job.tool.run (job.line operands) fs

/-! ### Reading the line -/

theorem cutAtEquals_mode (text : String) :
    Spec.cutAtEquals ('m' :: 'o' :: 'd' :: 'e' :: '=' :: text.toList) = ("mode", some text) := by
  have behind : String.ofList text.toList = text := String.ofList_toList
  have word : String.ofList ['m', 'o', 'd', 'e'] = "mode" := by decide
  simp [Spec.cutAtEquals, behind, word]

/-- A text that stands directly behind the equals sign is the mode, whatever it looks like. -/
theorem readAll_mode (text : String) (rest : List String) (args : Arguments)
    (new : args.has 'm' = false) :
    Tool.mkdir.spec.readAll none (("--mode=" ++ text) :: rest) args =
      Tool.mkdir.spec.readAll none rest { args with given := args.given ++ [('m', text)] } := by
  have chars : ("--mode=" ++ text).toList =
      '-' :: '-' :: 'm' :: 'o' :: 'd' :: 'e' :: '=' :: text.toList := by
    rw [String.toList_append]
    rfl
  have notHyphens : ¬ (("--mode=" ++ text) == "--") = true := by
    intro same
    rw [beq_iff_eq.mp same] at chars
    cases chars
  have taken : Tool.mkdir.spec.readArgument ("--mode=" ++ text) args =
      .next { args with given := args.given ++ [('m', text)] } := by
    have cut := cutAtEquals_mode text
    have word : Tool.mkdir.spec.readWord "mode" (some text) args = Spec.give args 'm' text := rfl
    rw [Spec.readArgument_word chars, cut, word, Spec.give, new]
    rfl
  rw [Spec.readAll, if_neg notHyphens, taken]

/-- The options are read first, and nothing else. -/
theorem readAll_options (job : Job) (rest : List String) :
    job.tool.spec.readAll none (job.options ++ rest) ⟨[], []⟩ =
      job.tool.spec.readAll none rest ⟨job.given, []⟩ := by
  cases job with
  | chmod text => rfl
  | mkdir parents text? =>
    cases text? with
    | none => cases parents <;> rfl
    | some text =>
      cases parents with
      | false => exact readAll_mode text rest ⟨[], []⟩ rfl
      | true => exact readAll_mode text rest ⟨[('p', "")], []⟩ rfl
  | stat modeOnly => cases modeOnly <;> rfl

theorem read_line (job : Job) (operands : List String) :
    job.tool.spec.read (job.line operands) = job.tool.spec.finish (job.arguments operands) := by
  rw [Spec.read, line, readAll_options, Spec.readAll_hyphens]
  rfl

/-- The two hyphens are not needed if nothing behind them looks like an option. -/
theorem read_plain {job : Job} {operands : List String}
    (plain : ∀ word ∈ job.words operands, looksLikeOption word = false) :
    job.tool.spec.read (job.options ++ job.words operands) =
      job.tool.spec.finish (job.arguments operands) := by
  rw [Spec.read, readAll_options, Spec.readAll_operands plain]
  rfl

theorem accepts_words_iff (job : Job) (operands : List String) :
    job.tool.spec.Accepts (job.words operands) ↔ operands ≠ [] ∧ "" ∉ operands := by
  constructor
  · intro accepts
    obtain ⟨enough, named⟩ := accepts
    cases job with
    | chmod text => exact ⟨List.length_pos_iff.mp (Nat.le_of_succ_le_succ enough), named⟩
    | mkdir parents text? => exact ⟨List.length_pos_iff.mp enough, named⟩
    | stat modeOnly => exact ⟨List.length_pos_iff.mp enough, named⟩
  · intro both
    obtain ⟨some_, named⟩ := both
    have one : 1 ≤ operands.length := List.length_pos_iff.mpr some_
    cases job with
    | chmod text => exact ⟨Nat.succ_le_succ one, named⟩
    | mkdir parents text? => exact ⟨one, named⟩
    | stat modeOnly => exact ⟨one, named⟩

/-! ### Running it -/

theorem has_parents (parents : Bool) (text? : Option String) (operands : List String) :
    ((mkdir parents text?).arguments operands).has 'p' = parents := by
  cases parents <;> cases text? <;> rfl

theorem value?_mode (parents : Bool) (text? : Option String) (operands : List String) :
    ((mkdir parents text?).arguments operands).value? 'm' = text? := by
  cases parents <;> cases text? <;> rfl

theorem has_modeOnly (modeOnly : Bool) (operands : List String) :
    ((stat modeOnly).arguments operands).has 'c' = modeOnly := by
  cases modeOnly <;> rfl

theorem run_of_named (job : Job) {operands : List String} (some_ : operands ≠ [])
    (named : "" ∉ operands) (fs : FileSystem) :
    job.run operands fs = perform (job.arguments operands) fs job.tool := by
  have accepts := (accepts_words_iff job operands).mpr ⟨some_, named⟩
  rw [run, Tool.run, read_line, Spec.finish_eq_run accepts]

theorem run_refused (job : Job) {operands : List String} (rejects : operands = [] ∨ "" ∈ operands)
    (fs : FileSystem) : job.run operands fs = (.refused, fs) := by
  have refuses : ¬ job.tool.spec.Accepts (job.words operands) := by
    rw [accepts_words_iff]
    exact fun both => rejects.elim both.1 both.2
  rw [run, Tool.run, read_line, Spec.finish_eq_refused refuses]

/-- What is said with a line can be done without the two hyphens as well. -/
theorem run_plain {job : Job} {operands : List String}
    (plain : ∀ word ∈ job.words operands, looksLikeOption word = false) (fs : FileSystem) :
    job.tool.run (job.options ++ job.words operands) fs = job.run operands fs := by
  rw [run, Tool.run, Tool.run, read_line, read_plain plain]

end Job

/-! ## Any command line -/

/-- The job that a command is given by arguments, and the operands for it. -/
def Arguments.asked (args : Arguments) : Tool → Job × List String
  | chmod => (.chmod (args.operands.headD ""), args.operands.tail)
  | mkdir => (.mkdir (args.has 'p') (args.value? 'm'), args.operands)
  | stat => (.stat (args.has 'c'), args.operands)

theorem Arguments.tool_asked (args : Arguments) (tool : Tool) :
    (args.asked tool).1.tool = tool := by
  cases tool <;> rfl

/-- The operands of a command that is run are the words of its job. -/
theorem words_asked {tool : Tool} {args : Arguments} (accepts : tool.spec.Accepts args.operands) :
    (args.asked tool).1.words (args.asked tool).2 = args.operands := by
  obtain ⟨enough, -⟩ := accepts
  cases tool with
  | chmod =>
    rcases words : args.operands with _ | ⟨text, operands⟩
    · rw [words] at enough
      cases enough
    · simp only [Arguments.asked, Job.words, words, List.headD_cons, List.tail_cons]
  | mkdir => rfl
  | stat => rfl

/-- A command looks at nothing but its own options and the operands. -/
theorem perform_asked (args : Arguments) (tool : Tool) (fs : FileSystem) :
    perform ((args.asked tool).1.arguments (args.asked tool).2) fs tool = perform args fs tool := by
  cases tool with
  | chmod => rfl
  | mkdir =>
    simp only [perform, Arguments.asked, Job.has_parents, Job.value?_mode]
    rfl
  | stat =>
    simp only [perform, Arguments.asked, Job.has_modeOnly]
    rfl

/-- A command line that can be read at all asks for a job. -/
theorem run_eq_run_asked {tool : Tool} {arguments : List String} {args : Arguments}
    (read : tool.spec.read arguments = .run args) :
    (args.asked tool).2 ≠ [] ∧ "" ∉ (args.asked tool).2 ∧
      ∀ fs, tool.run arguments fs = (args.asked tool).1.run (args.asked tool).2 fs := by
  have accepts := Spec.accepts_of_read read
  have words := words_asked accepts
  have own := args.tool_asked tool
  have named := Job.accepts_words_iff (args.asked tool).1 (args.asked tool).2
  rw [own, words] at named
  obtain ⟨some_, named⟩ := named.mp accepts
  refine ⟨some_, named, fun fs => ?_⟩
  rw [Job.run_of_named _ some_ named, own, perform_asked, run, read]

/-- If no job is asked for, nothing is done. -/
theorem run_of_no_run {tool : Tool} {arguments : List String}
    (idle : ∀ args, tool.spec.read arguments ≠ .run args) (fs : FileSystem) :
    tool.run arguments fs ∈
      [(.refused, fs), (.usage, fs), (.finished 0 versionText "", fs)] := by
  rw [run]
  rcases read : tool.spec.read arguments with args | _ | _ | _
  · exact absurd read (idle args)
  · simp
  · simp
  · simp

end ModeAcl.Tool
