import ModeAcl.Proofs.Stages

/-!
# Errors tell of the first failure

Whatever calls fail, and with whatever they fail: the error of an operation has the kind of
the first call that failed, in its own form as well as in the form of a call's error. Later
failures, of other trustees or of the attempt to remove what was created, add to the text only.
`Tells` says this of the calls that were made and the result that came of them, and every
operation tells (`Operation.Tells`) that is put together of calls whose failures it passes on.
No answers are excluded: the calls are answered by any `Responder`, so a file system may refuse a
call for reasons that no tree of objects shows.

One answer is no failure: where a file may be created, it is looked up first, and need not be
there (`withoutProbe`).
-/

namespace ModeAcl

variable {Acl Descriptor α β : Type}

/-! ## Kinds of calls and errors -/

/-- The error with which a call failed. -/
def Exchange.failure? : Exchange Acl Descriptor → Option CallError
  | ⟨.security _, .error e⟩ | ⟨.file _, .error e⟩ => some e
  | _ => none

/-- A call to the file system whose failure is passed on as it is. The failure to compute an
absolute path is labelled with this stage. -/
def Call.PassedOn : Call Acl Descriptor → Prop
  | .file (.absolute _) | .security _ | .log _ => False
  | .file _ => True

/-- A call that removes what was created. -/
def Call.Removes : Call Acl Descriptor → Prop
  | .file (.removeDirectory _) | .file (.removeFile _) => True
  | .file _ | .security _ | .log _ => False

/-- The error is nothing but that of a call to the file system. -/
def Error.isIo : Error → Bool
  | .io _ => true
  | _ => false

/-! ## Telling -/

/-- What a result tells of the calls that were made. If it is an error, one of them failed, and of
those that failed the first has given the error its kind; the error is nothing but that of the file
system if this call failed there and is passed on, and no removal failed after it. -/
inductive Tells : List (Exchange Acl Descriptor) → Except Error α → Prop
  | fine {xs : List (Exchange Acl Descriptor)} {a : α} :
      (∀ x ∈ xs, x.failure? = none) → Tells xs (.ok a)
  | failed {before after : List (Exchange Acl Descriptor)} {x : Exchange Acl Descriptor}
      {failure : CallError} {e : Error} :
      (∀ y ∈ before, y.failure? = none) → x.failure? = some failure → e.kind = failure.kind →
      (e.isIo = true ↔ x.call.PassedOn ∧ ∀ y ∈ after, y.call.Removes → y.failure? = none) →
      Tells (before ++ x :: after) (.error e)

namespace Tells

variable {xs ys : List (Exchange Acl Descriptor)} {result : Except Error α} {e : Error}

theorem answered {x : Exchange Acl Descriptor} {a : α} (fine : x.failure? = none) :
    Tells [x] (.ok a : Except Error α) :=
  .fine (List.forall_mem_singleton.mpr fine)

/-- Calls that were all answered come before. -/
theorem behind (tells : Tells ys result) (fine : ∀ x ∈ xs, x.failure? = none) :
    Tells (xs ++ ys) result := by
  cases tells with
  | fine others => exact .fine (List.forall_mem_append.mpr ⟨fine, others⟩)
  | failed others failed kind io =>
    rw [← List.append_assoc]
    exact .failed (List.forall_mem_append.mpr ⟨fine, others⟩) failed kind io

theorem all_fine {a : α} (tells : Tells xs (.ok a : Except Error α)) :
    ∀ x ∈ xs, x.failure? = none := by
  generalize whole : (.ok a : Except Error α) = result at tells
  cases tells with
  | fine all => exact all
  | failed => cases whole

/-- An error that is passed on, of whatever the result would have been. -/
theorem of_error (tells : Tells xs (.error e : Except Error α)) :
    Tells xs (.error e : Except Error β) := by
  generalize whole : (.error e : Except Error α) = result at tells
  cases tells with
  | fine => cases whole
  | failed others failed kind io =>
    cases whole
    exact .failed others failed kind io

/-- What was created has been removed again. -/
theorem removed (tells : Tells xs (.error e : Except Error α))
    (fine : ∀ y ∈ ys, y.failure? = none) : Tells (xs ++ ys) (.error e : Except Error α) := by
  generalize whole : (.error e : Except Error α) = result at tells
  cases tells with
  | fine => cases whole
  | failed others failed kind io =>
    cases whole
    rw [List.append_assoc, List.cons_append]
    refine .failed others failed kind (io.trans (and_congr_right fun _ => ?_))
    rw [List.forall_mem_append]
    exact ⟨fun all => ⟨all, fun y member _ => fine y member⟩, And.left⟩

/-- What was created could not be removed again. -/
theorem stuck (tells : Tells xs (.error e : Except Error α)) (path : String)
    {y : Exchange Acl Descriptor} {removal : CallError} (removes : y.call.Removes)
    (refused : y.failure? = some removal) :
    Tells (xs ++ y :: ys) (.error (.cleanup e path removal) : Except Error α) := by
  generalize whole : (.error e : Except Error α) = result at tells
  cases tells with
  | fine => cases whole
  | failed others failed kind io =>
    cases whole
    rw [List.append_assoc, List.cons_append]
    refine .failed others failed kind (iff_of_false Bool.false_ne_true fun both => ?_)
    have done := both.2 y (List.mem_append_right _ List.mem_cons_self) removes
    rw [refused] at done
    cases done

end Tells

/-- The failures to find trustees are reported together, the first before the others. -/
theorem Lookups.tells {masks : TriadMasks} {trustees : Trustees} {classes : List FileClass}
    {xs : List (Exchange Acl Descriptor)} {grants : List Grant} {errors : List Error}
    (lookups : Lookups masks trustees classes xs grants errors) :
    Tells xs (if errors = [] then .ok grants else .error (.entries errors) :
      Except Error (List Grant)) := by
  induction lookups with
  | nil => exact .fine fun x member => by cases member
  | @found c _ xs grants errors sid _ ih =>
    have answered : (trustees.lookup c (.ok sid) : Exchange Acl Descriptor).failure? = none := by
      cases trustees <;> cases c <;> rfl
    rw [← List.singleton_append]
    refine Tells.behind ?_ (List.forall_mem_singleton.mpr answered)
    cases errors with
    | nil => exact .fine ih.all_fine
    | cons e errors => exact ih
  | @failed c _ xs _ errors e _ _ =>
    rw [if_neg (List.cons_ne_nil _ _), ← List.nil_append (_ :: xs)]
    have refused : (trustees.lookup c (.error e) : Exchange Acl Descriptor).failure? = some e := by
      cases trustees <;> cases c <;> rfl
    refine .failed (fun y member => by cases member) refused rfl
      (iff_of_false Bool.false_ne_true fun both => ?_)
    have passed := both.1
    cases trustees <;> cases c <;> exact passed

/-! ## Operations that tell -/

/-- Whoever answers its calls, the result of the operation tells of them. -/
def Operation.Tells (op : Operation Acl Descriptor α) : Prop :=
  ∀ (σ : Type) (respond : Responder Acl Descriptor σ) (s : σ),
    ModeAcl.Tells (op.result.exchanges respond s) (op.result.run respond s).1

namespace Operation.Tells

theorem pure (a : α) : Tells (pure a : Operation Acl Descriptor α) :=
  fun _ _ _ => .fine fun x member => by cases member

theorem bind {op : Operation Acl Descriptor α} {f : α → Operation Acl Descriptor β}
    (first : op.Tells) (rest : ∀ a, (f a).Tells) : (op >>= f).Tells := by
  intro σ respond s
  have parts : (op >>= f).result = op.result >>= ExceptT.bindCont f := rfl
  have told := first σ respond s
  rw [parts, Procedure.exchanges_bind, Procedure.run_bind]
  rcases ran : op.result.run respond s with ⟨e | a, s'⟩
  · rw [ran] at told
    exact (List.append_nil (op.result.exchanges respond s)).symm ▸ told.of_error
  · rw [ran] at told
    exact (rest a σ respond s').behind told.all_fine

theorem foldlM {f : β → α → Operation Acl Descriptor β} (each : ∀ x a, (f x a).Tells)
    (items : List α) : ∀ x, (items.foldlM f x).Tells := by
  induction items with
  | nil => exact fun x => .pure x
  | cons a items ih => exact fun x => (each x a).bind ih

theorem note (level : LogLevel) (text : String) :
    (note level text : Operation Acl Descriptor Unit).Tells := by
  intro σ respond s
  exact .answered rfl

/-- A single call that was refused. -/
theorem single {x : Exchange Acl Descriptor} {failure : CallError} {e : Error}
    (refused : x.failure? = some failure) (kind : e.kind = failure.kind)
    (io : e.isIo = true ↔ x.call.PassedOn) :
    ModeAcl.Tells [x] (.error e : Except Error α) := by
  rw [← List.nil_append [x]]
  refine .failed (fun y member => by cases member) refused kind (io.trans ?_)
  exact (and_iff_left fun y member => by cases member).symm

theorem askAt (stage : String) (c : SecurityCall Acl Descriptor) : (askAt stage c).Tells := by
  intro σ respond s
  show ModeAcl.Tells [⟨.security c, (respond (.security c) s).1⟩]
    (atStage stage (respond (.security c) s).1)
  rcases (respond (.security c) s).1 with e | a
  · exact single rfl rfl (iff_of_false Bool.false_ne_true id)
  · exact .answered rfl

theorem files (c : FileCall) (passed : (.file c : Call Acl Descriptor).PassedOn) :
    (files c : Operation Acl Descriptor c.Answer).Tells := by
  intro σ respond s
  show ModeAcl.Tells [⟨.file c, (respond (.file c) s).1⟩] (unlabelled (respond (.file c) s).1)
  rcases (respond (.file c) s).1 with e | a
  · exact single rfl rfl (iff_of_true rfl passed)
  · exact .answered rfl

end Operation.Tells

/-! ## Applying and reading -/

theorem explicitEntries_tells (masks : TriadMasks) (trustees : Trustees) :
    (explicitEntries masks trustees : Operation Acl Descriptor (List Grant)).Tells := by
  intro σ respond s
  obtain ⟨grants, errors, lookups, result⟩ :=
    lookups_of_explicitEntries masks trustees respond s
  rw [result]
  exact lookups.tells

theorem applyMode_tells (path : Path) (mode : Mode) (isDirectory : Bool) (trustees : Trustees) :
    (applyMode path mode isDirectory trustees : Operation Acl Descriptor Unit).Tells := by
  refine (explicitEntries_tells _ trustees).bind fun grants => ?_
  refine (Operation.Tells.askAt _ _).bind fun acl => ?_
  exact (Operation.Tells.askAt _ _).bind fun _ => .note _ _

theorem readMode_tells (path : Path) : (readMode path : Operation Acl Descriptor Mode).Tells := by
  refine (Operation.Tells.askAt _ _).bind fun d => .bind ?_ fun masks => ?_
  · refine (Operation.Tells.askAt _ _).bind fun count => ?_
    refine (Operation.Tells.askAt _ _).bind fun owner => ?_
    refine (Operation.Tells.askAt _ _).bind fun group => ?_
    refine Operation.Tells.foldlM (fun masks index => ?_) _ _
    exact (Operation.Tells.askAt _ _).bind fun ace => (Operation.Tells.note _ _).bind fun _ =>
      .pure _
  · exact (Operation.Tells.note _ _).bind fun _ => .pure _

namespace AclFiles

open Operation

/-! ## Undoing -/

/-- What undoes a creation at a path: a single call that removes a directory or a file. -/
def Undoes (path : Path) (removal : Procedure Acl Descriptor (Except CallError Unit)) : Prop :=
  removal = onFiles (.removeDirectory path) ∨ removal = onFiles (.removeFile path)

theorem Undoes.exists_call {path : Path}
    {removal : Procedure Acl Descriptor (Except CallError Unit)} (undoes : Undoes path removal)
    {σ : Type} (respond : Responder Acl Descriptor σ) (s : σ) :
    ∃ y : Exchange Acl Descriptor, removal.exchanges respond s = [y] ∧ y.call.Removes ∧
      ((removal.run respond s).1 = .ok () ∧ y.failure? = none ∨
        ∃ e, (removal.run respond s).1 = .error e ∧ y.failure? = some e) := by
  rcases undoes with rfl | rfl <;>
  · refine ⟨⟨_, (respond _ s).1⟩, rfl, trivial, ?_⟩
    simp only [onFiles, Procedure.run]
    rcases (respond _ s).1 with e | _
    · exact Or.inr ⟨e, rfl, rfl⟩
    · exact Or.inl ⟨rfl, rfl⟩

/-- The error of an application is told whether or not what was created is removed again. -/
theorem applyOrRemove_tells (path : Path) (mode : Mode) (isDirectory : Bool) (trustees : Trustees)
    {removal : Procedure Acl Descriptor (Except CallError Unit)} (undoes : Undoes path removal) :
    (applyOrRemove path mode isDirectory trustees removal).Tells := by
  intro σ respond s
  have told : Tells ((applyMode path mode isDirectory trustees).result.exchanges respond s) _ :=
    applyMode_tells path mode isDirectory trustees σ respond s
  rw [applyOrRemove, ofProcedure, result, Procedure.exchanges_bind, Procedure.run_bind]
  rcases ran : (applyMode path mode isDirectory trustees).result.run respond s with ⟨e | _, s'⟩
  · rw [ran] at told
    dsimp only
    rw [Procedure.exchanges_bind, Procedure.run_bind]
    obtain ⟨y, calls, removing, ⟨done, fine⟩ | ⟨e', refused, failed⟩⟩ :=
      undoes.exists_call respond s'
    · rw [calls, done]
      exact told.removed (List.forall_mem_singleton.mpr fine)
    · rw [calls, refused]
      exact told.stuck path.text removing failed
  · rw [ran] at told
    exact (List.append_nil _).symm ▸ told

/-! ## Operations on files -/

theorem chmod_tells (path : Path) (mode : Mode) :
    (chmod path mode : Operation Acl Descriptor Unit).Tells :=
  (Operation.Tells.files (.metadata path) trivial).bind fun _ => applyMode_tells _ _ _ _

theorem mkdir_tells (path : Path) (mode : Mode) :
    (mkdir path mode : Operation Acl Descriptor Unit).Tells := by
  refine Operation.Tells.bind ?_ fun whole => ?_
  · intro σ respond s
    show Tells [⟨.file (.absolute path), (respond (.file (.absolute path)) s).1⟩]
      (atStage "computing absolute path" (respond (.file (.absolute path)) s).1)
    rcases (respond (.file (.absolute path)) s).1 with e | a
    · exact Operation.Tells.single rfl rfl (iff_of_false Bool.false_ne_true id)
    · exact .answered rfl
  · refine (Operation.Tells.files (.createDirectory whole) trivial).bind fun _ => ?_
    exact applyOrRemove_tells whole mode true .currentUser (Or.inl rfl)

theorem stat_tells (path : Path) : (stat path : Operation Acl Descriptor FileInfo).Tells :=
  (Operation.Tells.files (.metadata path) trivial).bind fun _ =>
    (readMode_tells path).bind fun _ => .pure _

/-- A look at an object that turns out not to be there. -/
def findsNothing : Exchange Acl Descriptor → Bool
  | ⟨.file (.metadata _), .error e⟩ => e.kind = .notFound
  | ⟨.file _, _⟩ | ⟨.security _, _⟩ | ⟨.log _, _⟩ => false

/-- The calls of an opening but for a first look that found nothing. -/
def withoutProbe : List (Exchange Acl Descriptor) → List (Exchange Acl Descriptor)
  | [] => []
  | x :: xs => if findsNothing x then xs else x :: xs

/-- A first look is a single call: something is there, or nothing, or this cannot be told. -/
theorem exchanges_probeObject (path : Path) {σ : Type} (respond : Responder Acl Descriptor σ)
    (s : σ) :
    ∃ x : Exchange Acl Descriptor, (probeObject path).result.exchanges respond s = [x] ∧
      (((probeObject path).result.run respond s).1 = .ok true ∧
          x.failure? = none ∧ findsNothing x = false ∨
        ((probeObject path).result.run respond s).1 = .ok false ∧ findsNothing x = true ∨
        ∃ e, ((probeObject path).result.run respond s).1 = .error (.io e) ∧
          x.failure? = some e ∧ x.call.PassedOn ∧ findsNothing x = false) := by
  refine ⟨⟨.file (.metadata path), (respond (.file (.metadata path)) s).1⟩, ?_⟩
  rw [probeObject, ofProcedure, result, Procedure.exchanges_bind, Procedure.run_bind]
  simp only [onFiles, Procedure.exchanges, Procedure.run]
  rcases (respond (.file (.metadata path)) s).1 with e | m
  · refine ⟨rfl, Or.inr ?_⟩
    by_cases missing : e.kind = .notFound
    · exact Or.inl ⟨by simp only [missing, if_true, Procedure.run_pure], decide_eq_true missing⟩
    · exact Or.inr ⟨e, by simp only [missing, if_false, Procedure.run_pure], rfl, trivial,
        decide_eq_false missing⟩
  · exact ⟨rfl, Or.inl ⟨rfl, rfl, rfl⟩⟩

/-- Opening tells of its calls, but not of a first look that found nothing. -/
theorem openFile_tells (path : Path) (flags : OpenFlags) (mode : Mode) {σ : Type}
    (respond : Responder Acl Descriptor σ) (s : σ) :
    Tells (withoutProbe ((openFile path flags mode).result.exchanges respond s))
      ((openFile path flags mode).result.run respond s).1 := by
  have opening : (files (.openFile path flags) : Operation Acl Descriptor Handle).Tells :=
    .files (.openFile path flags) trivial
  by_cases creates : flags.creates = true
  · obtain ⟨rest, parts, rest_tells⟩ : ∃ rest : Bool → Operation Acl Descriptor Handle,
        openFile path flags mode = probeObject path >>= rest ∧ ∀ existed, (rest existed).Tells := by
      refine ⟨_, if_pos creates, fun existed => opening.bind fun handle => ?_⟩
      cases existed with
      | true => exact .pure handle
      | false =>
        exact (applyOrRemove_tells path mode false .creator (Or.inr rfl)).bind fun _ => .pure handle
    have split : (probeObject path >>= rest).result =
        (probeObject path).result >>= ExceptT.bindCont rest := rfl
    obtain ⟨x, asked, cases_⟩ := exchanges_probeObject path respond s
    rw [parts, split, Procedure.exchanges_bind, Procedure.run_bind, asked, List.singleton_append,
      withoutProbe]
    rcases ran : (probeObject path).result.run respond s with ⟨probed, s'⟩
    rw [ran] at cases_
    obtain ⟨rfl, fine, found⟩ | ⟨rfl, nothing⟩ | ⟨e, rfl, failed, passed, told⟩ := cases_
    · rw [found, if_neg Bool.false_ne_true, ← List.singleton_append]
      exact (rest_tells true σ respond s').behind (List.forall_mem_singleton.mpr fine)
    · rw [nothing, if_pos rfl]
      exact rest_tells false σ respond s'
    · rw [told, if_neg Bool.false_ne_true]
      exact Operation.Tells.single failed rfl (iff_of_true rfl passed)
  · have parts : (openFile path flags mode : Operation Acl Descriptor Handle) = _ := if_neg creates
    rw [parts]
    exact opening σ respond s

/-! ## All of them -/

/-- An operation with all that it is given. -/
inductive Task
  | chmod (path : Path) (mode : Mode)
  | mkdir (path : Path) (mode : Mode)
  | openFile (path : Path) (flags : OpenFlags) (mode : Mode)
  | stat (path : Path)
  | applyMode (path : Path) (mode : Mode) (isDirectory : Bool) (trustees : Trustees)
  | readMode (path : Path)

namespace Task

def Result : Task → Type
  | chmod _ _ | mkdir _ _ | applyMode _ _ _ _ => Unit
  | openFile _ _ _ => Handle
  | stat _ => FileInfo
  | readMode _ => Mode

def operation : (task : Task) → Operation Acl Descriptor task.Result
  | chmod path mode => AclFiles.chmod path mode
  | mkdir path mode => AclFiles.mkdir path mode
  | openFile path flags mode => AclFiles.openFile path flags mode
  | stat path => AclFiles.stat path
  | applyMode path mode isDirectory trustees => ModeAcl.applyMode path mode isDirectory trustees
  | readMode path => ModeAcl.readMode path

/-- The calls whose failure is one of the task's. -/
def counted : Task → List (Exchange Acl Descriptor) → List (Exchange Acl Descriptor)
  | openFile _ _ _, xs => withoutProbe xs
  | _, xs => xs

theorem tells (task : Task) {σ : Type} (respond : Responder Acl Descriptor σ) (s : σ) :
    Tells (task.counted (task.operation.result.exchanges respond s))
      (task.operation.result.run respond s).1 := by
  cases task with
  | chmod path mode => exact chmod_tells path mode σ respond s
  | mkdir path mode => exact mkdir_tells path mode σ respond s
  | openFile path flags mode => exact openFile_tells path flags mode respond s
  | stat path => exact stat_tells path σ respond s
  | applyMode path mode isDirectory trustees =>
    exact applyMode_tells path mode isDirectory trustees σ respond s
  | readMode path => exact readMode_tells path σ respond s

end Task

/-- Errors tell of the first failure, whoever answers the calls and however they fail. If changing
a mode, creating a directory, opening a file, asking about one, applying or reading a mode ends in
an error, then one of its calls failed, a first look that found nothing to be opened apart, and the
kind of the error, also in the form of a call's error, is that of the first call that failed. The
error is nothing but that of the file system exactly if this call went to the file system, was not
to compute an absolute path, and no removal failed after it. -/
theorem kind_of_first_failure (task : Task) {σ : Type} (respond : Responder Acl Descriptor σ)
    (s : σ) {e : Error} (ended : (task.operation.result.run respond s).1 = .error e) :
    ∃ before x after failure,
      task.counted (task.operation.result.exchanges respond s) = before ++ x :: after ∧
      (∀ y ∈ before, y.failure? = none) ∧ x.failure? = some failure ∧
      e.kind = failure.kind ∧ e.toCallError.kind = failure.kind ∧
      (e.isIo = true ↔ x.call.PassedOn ∧ ∀ y ∈ after, y.call.Removes → y.failure? = none) := by
  have told := task.tells respond s
  rw [ended] at told
  generalize calls : task.counted (task.operation.result.exchanges respond s) = xs at told
  cases told with
  | failed others failed kind io =>
    exact ⟨_, _, _, _, rfl, others, failed, kind, e.kind_toCallError.trans kind, io⟩

/-- Neither the user nor its group is found, and nothing can be removed. -/
def threefold : Responder (List Ace) MemoryDescriptor Unit
  | .security (.wellKnownSid kind), s => (.ok kind.sid, s)
  | .security .currentUser, s => (.error (.plain .timedOut), s)
  | .security .primaryGroup, s => (.error (.plain .permissionDenied), s)
  | .security _, s => (.error (.plain .unsupported), s)
  | .file (.absolute path), s => (.ok path, s)
  | .file (.createDirectory _), s => (.ok (), s)
  | .file (.removeDirectory _), s => (.error (.os .ENOTEMPTY), s)
  | .file _, s => (.error (.plain .unsupported), s)
  | .log _, s => ((), s)

/-- Of three failures the first gives the error its kind. -/
theorem kind_of_first_failure_of_three :
    let task := Task.mkdir ⟨"/d/a"⟩ ⟨0o755⟩
    let e := Error.cleanup (.entries [.security "resolving current user" (.plain .timedOut),
      .security "resolving primary group" (.plain .permissionDenied)]) "/d/a" (.os .ENOTEMPTY)
    (task.operation.result.run threefold ()).1 = .error e ∧
    e.kind = .timedOut ∧ e.isIo = false ∧
    ∃ before x after failure,
      task.counted (task.operation.result.exchanges threefold ()) = before ++ x :: after ∧
      (∀ y ∈ before, y.failure? = none) ∧ x.failure? = some failure ∧
      e.kind = failure.kind ∧ e.toCallError.kind = failure.kind ∧
      (e.isIo = true ↔ x.call.PassedOn ∧ ∀ y ∈ after, y.call.Removes → y.failure? = none) := by
  intro task e
  have ended : (task.operation.result.run threefold ()).1 = .error e := rfl
  exact ⟨ended, rfl, rfl, kind_of_first_failure task threefold () ended⟩

end AclFiles

end ModeAcl
