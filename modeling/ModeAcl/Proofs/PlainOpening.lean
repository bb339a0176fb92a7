import ModeAcl.Proofs.FileContents
import ModeAcl.Proofs.MkdirFootprint
import ModeAcl.Proofs.Stages

/-!
# Opening, compared with a plain open

Opening a file is the call of the file system and nothing else, unless the file has
to be created (`openFile_of_plain`). Only then the backend is asked anything: it gets
the calls of one application of the mode (`openFile_of_missing`). What is written to
a file that was there is all that is in it. For a new file the backend has its say:
it may do what it likes to the files before the list is set, and so what is written
is all that is in the file exactly if the backend leaves it alone
(`writeFile_holds_iff`).

What is opened is a file or a directory, as there are no devices and no pipes; modes
keep nobody from opening. The contents of a file are found by its location.
-/

namespace ModeAcl

open Operation

variable {Acl Descriptor σ α : Type} {b : Backend Acl Descriptor σ} {w w' : World σ}

/-! ## Calls that are not for the backend -/

/-- A call that goes to the file system or to the log. -/
def Call.Aside : Call Acl Descriptor → Prop
  | .security _ => False
  | .file _ | .log _ => True

theorem Procedure.Within.securityCalls_eq_nil {p : Procedure Acl Descriptor α}
    (within : p.Within Call.Aside) (w : World σ) :
    securityCalls (p.exchanges b.respond w) = [] := by
  rw [securityCalls, List.filterMap_eq_nil_iff]
  rintro ⟨c | c | c, reply⟩ member
  · exact absurd (within.exchanges w _ member) id
  · rfl
  · rfl

theorem Operation.Within.securityCalls_eq_nil {op : Operation Acl Descriptor α}
    (within : op.Within Call.Aside) (w : World σ) : securityCalls (op.exchangesIn b w) = [] :=
  Procedure.Within.securityCalls_eq_nil within w

/-- A call to the file system leaves the backend as it is. -/
theorem Operation.backend_of_files (c : FileCall) :
    ((files c : Operation Acl Descriptor c.Answer).run b w).2.backend = w.backend := by
  rw [run_files]
  rcases w.files.answer c with e | ⟨a, fs⟩ <;> rfl

theorem FileSystem.metadata_of_hasObject {fs : FileSystem} {path : Path}
    (there : fs.hasObject path = true) : ∃ m, fs.metadata path = .ok m := by
  rw [hasObject] at there
  rcases found : fs.metadata path with e | m
  · rw [found] at there
    cases there
  · exact ⟨m, rfl⟩

namespace AclFiles

/-! ## The calls of opening -/

theorem probeObject_within (path : Path) :
    (probeObject path : Operation Acl Descriptor Bool).Within Call.Aside :=
  .call trivial fun reply => by cases reply <;> exact .done _

theorem exchangesIn_probeObject (path : Path) :
    (probeObject path : Operation Acl Descriptor Bool).exchangesIn b w =
      [⟨.file (.metadata path), w.files.metadata path⟩] := by
  have reply : (b.respond (.file (.metadata path)) w).1 = w.files.metadata path := by
    rw [Backend.respond]
    simp only [FileSystem.answer]
    rcases w.files.metadata path with e | m <;> rfl
  have asked : (probeObject path : Operation Acl Descriptor Bool).exchangesIn b w = _ :=
    Procedure.exchanges_bind b.respond (onFiles (.metadata path)) _ w
  rw [asked, ← reply]
  rcases ((onFiles (.metadata path)).run b.respond w).1 with e | m <;> rfl

/-- Removing a file and telling of it asks the backend nothing. -/
theorem securityCalls_applyOrRemoveFile (path : Path) (mode : Mode) (isDirectory : Bool)
    (trustees : Trustees) :
    securityCalls ((applyOrRemove path mode isDirectory trustees
        (onFiles (.removeFile path))).exchangesIn b w) =
      securityCalls ((applyMode path mode isDirectory trustees).exchangesIn b w) := by
  have parts : (applyOrRemove path mode isDirectory trustees
      (onFiles (.removeFile path))).exchangesIn b w = _ :=
    Procedure.exchanges_bind b.respond (applyMode path mode isDirectory trustees).result _ w
  rw [parts, securityCalls_append]
  refine (congrArg _ ?_).trans (List.append_nil _)
  refine Procedure.Within.securityCalls_eq_nil ?_ _
  rcases ((applyMode path mode isDirectory trustees).result.run b.respond w).1 with e | _
  · refine Procedure.Within.bind (.call trivial fun _ => .done _) fun removed => ?_
    refine Procedure.Within.bind ?_ fun _ => .done _
    cases removed with
    | ok _ => exact .done _
    | error _ => exact .call trivial fun _ => .done _
  · exact .done _

/-! ## Opening -/

section

variable {path : Path} {flags : OpenFlags}

/-- The backend is asked for the list of a file that was not there and could be opened, and for
nothing else. -/
theorem securityCalls_openFile_of_creates (creates : flags.creates = true) (path : Path)
    (mode : Mode) :
    securityCalls ((openFile path flags mode : Operation Acl Descriptor Handle).exchangesIn b w) =
      match (probeObject path : Operation Acl Descriptor Bool).run b w with
      | (.ok false, w') =>
        match w'.files.openFile path flags FileSystem.defaultFileMode with
        | .ok (_, fs) =>
          securityCalls ((applyMode path mode false .creator).exchangesIn b { w' with files := fs })
        | .error _ => []
      | _ => [] := by
  have parts : (openFile path flags mode : Operation Acl Descriptor Handle) = _ := if_pos creates
  rw [parts, exchangesIn_bind, securityCalls_append,
    (probeObject_within path).securityCalls_eq_nil, List.nil_append]
  rcases (probeObject path : Operation Acl Descriptor Bool).run b w with ⟨e | existed, w'⟩
  · rfl
  dsimp only
  rw [exchangesIn_bind, securityCalls_append, Within.securityCalls_eq_nil (.files trivial),
    List.nil_append, run_files]
  simp only [FileSystem.answer]
  cases existed with
  | true =>
    rcases w'.files.openFile path flags FileSystem.defaultFileMode with e | ⟨handle, fs⟩ <;> rfl
  | false =>
    dsimp only
    rcases w'.files.openFile path flags FileSystem.defaultFileMode with e | ⟨handle, fs⟩
    · rfl
    dsimp only
    rw [← securityCalls_applyOrRemoveFile]
    show securityCalls ((applyOrRemove path mode false .creator (onFiles (.removeFile path)) >>=
      fun _ => (pure handle : Operation Acl Descriptor Handle)).exchangesIn b _) = _
    rw [exchangesIn_bind, securityCalls_append]
    refine (congrArg _ ?_).trans (List.append_nil _)
    split <;> rfl

theorem openFile_of_not_creates (keeps : flags.creates = false) (path : Path) (mode : Mode) :
    (openFile path flags mode : Operation Acl Descriptor Handle) = files (.openFile path flags) :=
  if_neg (by rw [keeps]; decide)

section

variable (plain : flags.creates = false ∨ w.files.hasObject path = true) (mode : Mode)
include plain

/-- Without anything to be created, opening is the call of the file system. -/
theorem run_openFile_of_plain :
    (openFile path flags mode : Operation Acl Descriptor Handle).run b w =
      (files (.openFile path flags) : Operation Acl Descriptor Handle).run b w := by
  cases creates : flags.creates with
  | false =>
    rw [openFile_of_not_creates creates]
    rfl
  | true =>
    obtain ⟨m, found⟩ :=
      FileSystem.metadata_of_hasObject (plain.resolve_left (by rw [creates]; decide))
    refine (run_openFile_of_found creates found mode).trans ?_
    refine Eq.trans ?_ (run_files (.openFile path flags)).symm
    simp only [FileSystem.answer]
    rcases w.files.openFile path flags FileSystem.defaultFileMode with e | ⟨handle, fs⟩ <;> rfl

theorem securityCalls_openFile_of_plain :
    securityCalls ((openFile path flags mode : Operation Acl Descriptor Handle).exchangesIn b w) =
      [] := by
  cases creates : flags.creates with
  | false =>
    rw [openFile_of_not_creates creates]
    exact Within.securityCalls_eq_nil (.files trivial) w
  | true =>
    obtain ⟨m, found⟩ :=
      FileSystem.metadata_of_hasObject (plain.resolve_left (by rw [creates]; decide))
    rw [securityCalls_openFile_of_creates creates, run_probeObject, found]

/-- Nobody but the file system is asked. -/
theorem openFile_of_plain :
    (openFile path flags mode).run b w = (files (.openFile path flags)).run b w ∧
      ((openFile path flags mode).run b w).2.backend = w.backend ∧
      securityCalls ((openFile path flags mode).exchangesIn b w) = [] := by
  have alike := run_openFile_of_plain (b := b) plain mode
  exact ⟨alike, (congrArg (·.2.backend) alike).trans (backend_of_files _),
    securityCalls_openFile_of_plain plain mode⟩

end

/-- If the probe fails for another reason than that nothing is there, its failure is the result. -/
theorem openFile_of_hidden (creates : flags.creates = true) {e : CallError}
    (hidden : w.files.metadata path = .error e) (other : e.kind ≠ .notFound) (mode : Mode) :
    (openFile path flags mode : Operation Acl Descriptor Handle).run b w = (.error (.io e), w) ∧
      (openFile path flags mode : Operation Acl Descriptor Handle).exchangesIn b w =
        [⟨.file (.metadata path), .error e⟩] := by
  refine ⟨run_openFile_of_hidden creates hidden other mode, ?_⟩
  have parts : (openFile path flags mode : Operation Acl Descriptor Handle) = _ := if_pos creates
  have probed : (probeObject path : Operation Acl Descriptor Bool).run b w =
      (.error (.io e), w) := by
    rw [run_probeObject, hidden]
    simp only [other, if_false]
  rw [parts, exchangesIn_bind, exchangesIn_probeObject, probed, hidden]
  rfl

/-- What the file system refuses to open is not opened, and the backend is not asked. -/
theorem openFile_of_refused {e : CallError}
    (refused : w.files.openFile path flags FileSystem.defaultFileMode = .error e) (mode : Mode) :
    (∃ e', (openFile path flags mode : Operation Acl Descriptor Handle).run b w = (.error e', w)) ∧
      securityCalls ((openFile path flags mode : Operation Acl Descriptor Handle).exchangesIn b w) =
        [] := by
  refine ⟨run_openFile_of_refused refused mode, ?_⟩
  cases creates : flags.creates with
  | false => exact securityCalls_openFile_of_plain (Or.inl creates) mode
  | true =>
    rw [securityCalls_openFile_of_creates creates, run_probeObject]
    rcases w.files.metadata path with e' | m
    · by_cases missing : e'.kind = .notFound
      · simp only [missing, if_true, refused]
      · simp only [missing, if_false]
    · rfl

/-- A file that was not there is created and gets the list of the mode, once; that opening succeeds
exactly if the list is set. -/
theorem openFile_of_missing (creates : flags.creates = true) {e : CallError}
    (missing : w.files.metadata path = .error e) (kind : e.kind = .notFound) {handle : Handle}
    {fs : FileSystem}
    (opened : w.files.openFile path flags FileSystem.defaultFileMode = .ok (handle, fs))
    (mode : Mode) :
    (∃ free name, w.files.CreatesAt path flags free name) ∧ ∃ xs result after,
      (applyMode path mode false .creator).exchangesIn b ⟨fs, w.backend⟩ = xs ∧
      (applyMode path mode false .creator).run b ⟨fs, w.backend⟩ = (result, after) ∧
      Application path mode false .creator xs result ∧
      securityCalls ((openFile path flags mode).exchangesIn b w) = securityCalls xs ∧
      ((openFile path flags mode).run b w).1.isOk = result.isOk ∧
      (result = .ok () → (openFile path flags mode).run b w = (.ok handle, after)) := by
  have application := application_of_run (b := b) path mode false .creator ⟨fs, w.backend⟩
  have probed : (probeObject path : Operation Acl Descriptor Bool).run b w = (.ok false, w) := by
    rw [run_probeObject, missing]
    simp only [kind, if_true]
  rcases applied : (applyMode path mode false .creator).run b ⟨fs, w.backend⟩ with ⟨result, after⟩
  rw [applied] at application
  have created := (FileSystem.metadata_of_openFile creates opened).resolve_right
    fun ⟨m, found⟩ => by rw [missing] at found; cases found
  refine ⟨created, _, result, after, rfl, rfl, application, ?_, ?_⟩
  · rw [securityCalls_openFile_of_creates creates, probed]
    dsimp only
    rw [opened]
  · rw [run_openFile_of_missing creates missing kind, opened]
    dsimp only
    rw [run_applyOrRemoveFile, applied]
    cases result with
    | ok _ => exact ⟨rfl, fun _ => rfl⟩
    | error e' =>
      dsimp only
      rcases after.files.removeFile path with removal | left <;>
        exact ⟨rfl, fun set => by cases set⟩

end

end AclFiles

/-! ## Writing -/

/-- Nobody but this client is at work on a file that it opens anew: once the list is set, the path
still leads to this file, and the file is still empty. -/
def Backend.Undisturbed (b : Backend Acl Descriptor σ) (w : World σ) (path : Path) (mode : Mode) :
    Prop :=
  ∀ handle fs w',
    w.files.openFile path .createTruncate FileSystem.defaultFileMode = .ok (handle, fs) →
    (applyMode path mode false .creator).run b ⟨fs, w.backend⟩ = (.ok (), w') →
      ∃ loc, handle = FileSystem.handleFor .createTruncate (some loc) ∧
        w'.files.HoldsAt path loc []

theorem undisturbed_of_keepsFiles (keeps : b.KeepsFiles) (w : World σ) (path : Path) (mode : Mode) :
    b.Undisturbed w path mode := by
  intro handle fs w' opened applied
  have kept := files_of_applyMode keeps path mode false .creator ⟨fs, w.backend⟩
  rw [applied] at kept
  rw [kept]
  exact FileSystem.holdsAt_of_openFile opened

theorem undisturbed_memory (w : MemoryWorld) (path : Path) (mode : Mode) :
    memoryBackend.Undisturbed w path mode := by
  intro handle fs w' opened applied
  rw [files_of_applyMode_ok applied]
  exact FileSystem.holdsAt_of_openFile opened

namespace AclFiles

section

variable {path : Path} {mode : Mode} {bytes : List UInt8}

/-- Writing a file asks the backend for what opening it does. -/
theorem securityCalls_writeFile (path : Path) (bytes : List UInt8) (mode : Mode) :
    securityCalls ((writeFile path bytes mode : Operation Acl Descriptor Unit).exchangesIn b w) =
      securityCalls ((openFile path .createTruncate mode).exchangesIn b w) := by
  rw [writeFile, exchangesIn_bind, securityCalls_append]
  refine (congrArg _ ?_).trans (List.append_nil _)
  split
  · exact Within.securityCalls_eq_nil (.bind (.files trivial) fun _ => .pure _) _
  · rfl

theorem ok_of_run_writeFile (ran : (writeFile path bytes mode).run b w = (.ok (), w')) :
    ∃ handle mid next fs, (openFile path .createTruncate mode).run b w = (.ok handle, mid) ∧
      mid.files.write handle bytes = .ok (next, fs) ∧ w' = { mid with files := fs } := by
  rw [run_writeFile] at ran
  rcases opening : (openFile path .createTruncate mode).run b w with ⟨e | handle, mid⟩
  · rw [opening] at ran
    cases ran
  rw [opening] at ran
  dsimp only at ran
  rcases writing : mid.files.write handle bytes with e | ⟨next, fs⟩
  · rw [writing] at ran
    cases ran
  · rw [writing] at ran
    cases ran
    exact ⟨handle, mid, next, fs, rfl, writing, rfl⟩

/-- A file that was opened anew is empty, whether it was there before or has been given a list. -/
theorem holdsAt_of_run_openFile
    (still : w.files.hasObject path = true ∨ b.Undisturbed w path mode) {handle : Handle}
    (ran : (openFile path .createTruncate mode).run b w = (.ok handle, w')) :
    ∃ loc, handle = FileSystem.handleFor .createTruncate (some loc) ∧
      w'.files.HoldsAt path loc [] := by
  have creates : OpenFlags.createTruncate.creates = true := rfl
  rcases opened : w.files.openFile path .createTruncate FileSystem.defaultFileMode with
    e | ⟨fresh, fs⟩
  · obtain ⟨e', failed⟩ := run_openFile_of_refused (b := b) opened mode
    rw [failed] at ran
    cases ran
  obtain ⟨loc, rfl, holds⟩ := FileSystem.holdsAt_of_openFile opened
  rcases probed : w.files.metadata path with e | m
  · by_cases missing : e.kind = .notFound
    · have absent : w.files.hasObject path ≠ true := by
        rw [FileSystem.hasObject, probed]
        exact Bool.false_ne_true
      obtain ⟨-, -, result, after, -, applied, -, -, alike, both⟩ :=
        openFile_of_missing (b := b) creates probed missing opened mode
      rw [ran] at alike both
      cases result with
      | error e' => cases alike
      | ok _ =>
        cases both rfl
        exact (still.resolve_left absent) _ _ _ opened applied
    · rw [run_openFile_of_hidden creates probed missing] at ran
      cases ran
  · rw [run_openFile_of_found creates probed, opened] at ran
    cases ran
    exact ⟨loc, rfl, holds⟩

/-- What is written is always what the file holds exactly if the file was there or is not disturbed
while it gets its list. -/
theorem writeFile_holds_iff (b : Backend Acl Descriptor σ) (w : World σ) (path : Path)
    (mode : Mode) :
    (∀ bytes w', (writeFile path bytes mode).run b w = (.ok (), w') → w'.files.Holds path bytes) ↔
      w.files.hasObject path = true ∨ b.Undisturbed w path mode := by
  constructor
  · intro all
    by_cases there : w.files.hasObject path = true
    · exact Or.inl there
    refine Or.inr fun handle fs after opened applied => ?_
    obtain ⟨loc, rfl, -⟩ := FileSystem.holdsAt_of_openFile opened
    have creates : OpenFlags.createTruncate.creates = true := rfl
    have missing : w.files.metadata path = .error (.os .ENOENT) := by
      rcases FileSystem.metadata_of_openFile creates opened with ⟨free, name, at_⟩ | ⟨m, found⟩
      · exact FileSystem.metadata_of_createsAt at_
      · rw [FileSystem.hasObject, found] at there
        exact absurd rfl there
    obtain ⟨-, -, result, after', -, applied', -, -, -, both⟩ :=
      openFile_of_missing (b := b) creates missing rfl opened mode
    cases applied.symm.trans applied'
    refine ⟨loc, rfl, FileSystem.holdsAt_of_writes fun bytes next fs' written => ?_⟩
    refine all bytes { after with files := fs' } ?_
    rw [run_writeFile, both rfl]
    dsimp only
    rw [written]
  · intro still bytes w' ran
    obtain ⟨handle, mid, next, fs, opening, writing, rfl⟩ := ok_of_run_writeFile ran
    obtain ⟨loc, rfl, holds⟩ := holdsAt_of_run_openFile still opening
    obtain ⟨next', fs', written, held⟩ := holds.write bytes
    cases writing.symm.trans written
    exact ⟨loc, held⟩

/-- A file that was there keeps its list. -/
theorem writeFile_keeps (there : w.files.hasObject path = true)
    (ran : (writeFile path bytes mode).run b w = (.ok (), w')) :
    w'.backend = w.backend ∧ securityCalls ((writeFile path bytes mode).exchangesIn b w) = [] := by
  obtain ⟨handle, mid, next, fs, opening, -, rfl⟩ := ok_of_run_writeFile ran
  have plain : OpenFlags.createTruncate.creates = false ∨ w.files.hasObject path = true :=
    Or.inr there
  obtain ⟨-, kept, quiet⟩ := openFile_of_plain (b := b) plain mode
  rw [opening] at kept
  exact ⟨kept, (securityCalls_writeFile path bytes mode).trans quiet⟩

end

/-- The backend in memory, but a list is written into the file that it is for. -/
def inscribingBackend : Backend (List Ace) MemoryDescriptor MemoryBackend where
  answer b fs
    | .setAcl path aces =>
      let inscribed := do
        let (handle, fs) ← fs.openFile path .createTruncate FileSystem.defaultFileMode
        fs.write handle (aces.map fun _ => 0)
      match inscribed with
      | .ok (_, fs) => (.ok (), fs, b)
      | .error e => (.error e, fs, b)
    | c => memoryBackend.answer b fs c

theorem ok_of_inscribing :
    let w : MemoryWorld := ⟨⟨.directory ⟨0o755⟩ [], .linked [], ⟨0o022⟩⟩, .initial⟩
    ∃ w', (writeFile ⟨"/f"⟩ [7] ⟨0o640⟩).run inscribingBackend w = (.ok (), w') ∧
      w'.files.walk .follow ⟨"/f"⟩ = .ok (.object ["f"]) ∧
      (w'.files.read ⟨some ["f"], true, false, false, 0⟩).toOption = some [7, 0] := by
  intro w
  have ran : ((writeFile ⟨"/f"⟩ [7] ⟨0o640⟩).run inscribingBackend w).1.isOk = true := by
    decide +kernel
  have leads : (((writeFile ⟨"/f"⟩ [7] ⟨0o640⟩).run inscribingBackend w).2.files.walk .follow
      ⟨"/f"⟩).toOption = some (.object ["f"]) := by
    decide +kernel
  have held : (((writeFile ⟨"/f"⟩ [7] ⟨0o640⟩).run inscribingBackend w).2.files.read
      ⟨some ["f"], true, false, false, 0⟩).toOption = some [7, 0] := by
    decide +kernel
  rcases outcome : (writeFile ⟨"/f"⟩ [7] ⟨0o640⟩).run inscribingBackend w with ⟨_ | _, w'⟩
  · rw [outcome] at ran
    cases ran
  rw [outcome] at leads held
  rcases walked : w'.files.walk .follow ⟨"/f"⟩ with e | spot
  · rw [walked] at leads
    cases leads
  · rw [walked] at leads
    cases leads
    exact ⟨w', rfl, walked, held⟩

end AclFiles

end ModeAcl
