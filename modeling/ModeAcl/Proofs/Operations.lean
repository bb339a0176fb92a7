import ModeAcl.Proofs.Running

/-!
# What the operations on files run through

Each operation of `AclFiles`, taken apart: which calls are made one after the
other, and what becomes of a failure. In these statements nothing is left of
binds and log lines; a world passes from call to call.
-/

namespace ModeAcl.AclFiles

open Operation

variable {Acl Descriptor σ : Type} {b : Backend Acl Descriptor σ} {w w' : World σ}

/-! ## Undoing -/

/-- The end of an operation that has failed and has tried to undo its creation at `path`. -/
def undone (e : Error) (path : Path) : Except CallError Unit × World σ → Except Error Unit × World σ
  | (.ok (), w) => (.error e, w)
  | (.error removal, w) => (.error (.cleanup e path.text removal), w)

theorem run_applyOrRemove (path : Path) (mode : Mode) (isDirectory : Bool) (trustees : Trustees)
    (removal : Procedure Acl Descriptor (Except CallError Unit)) :
    (applyOrRemove path mode isDirectory trustees removal).run b w =
      match (applyMode path mode isDirectory trustees).run b w with
      | (.ok (), w') => (.ok (), w')
      | (.error e, w') => undone e path (removal.run b.respond w') := by
  rw [applyOrRemove, run_ofProcedure, Procedure.run_bind, result_run]
  rcases (applyMode path mode isDirectory trustees).run b w with ⟨_ | _, w'⟩
  · dsimp only
    rw [Procedure.run_bind, Procedure.run_bind]
    rcases removal.run b.respond w' with ⟨_ | _, w''⟩ <;> rfl
  · rfl

theorem run_applyOrRemove_of_ok {path : Path} {mode : Mode} {isDirectory : Bool}
    {trustees : Trustees} (removal : Procedure Acl Descriptor (Except CallError Unit))
    (applied : (applyMode path mode isDirectory trustees).run b w = (.ok (), w')) :
    (applyOrRemove path mode isDirectory trustees removal).run b w = (.ok (), w') := by
  rw [run_applyOrRemove, applied]

theorem run_applyOrRemoveFile (path : Path) (mode : Mode) (isDirectory : Bool)
    (trustees : Trustees) :
    (applyOrRemove path mode isDirectory trustees (onFiles (.removeFile path))).run b w =
      match (applyMode path mode isDirectory trustees).run b w with
      | (.ok (), w') => (.ok (), w')
      | (.error e, w') =>
        match w'.files.removeFile path with
        | .ok fs => (.error e, { w' with files := fs })
        | .error removal => (.error (.cleanup e path.text removal), w') := by
  refine (run_applyOrRemove path mode isDirectory trustees _).trans ?_
  rcases (applyMode path mode isDirectory trustees).run b w with ⟨e | _, w'⟩
  · refine (congrArg (undone e path) (run_onFiles (.removeFile path))).trans ?_
    simp only [FileSystem.answer]
    rcases w'.files.removeFile path with e | fs <;> rfl
  · rfl

theorem run_applyOrRemoveDirectory (path : Path) (mode : Mode) :
    (applyOrRemove path mode true .currentUser (onFiles (.removeDirectory path))).run b w =
      match (applyMode path mode true .currentUser).run b w with
      | (.ok (), w') => (.ok (), w')
      | (.error e, w') =>
        match w'.files.removeDirectory path with
        | .ok fs => (.error e, { w' with files := fs })
        | .error removal => (.error (.cleanup e path.text removal), w') := by
  refine (run_applyOrRemove path mode true .currentUser _).trans ?_
  rcases (applyMode path mode true .currentUser).run b w with ⟨e | _, w'⟩
  · refine (congrArg (undone e path) (run_onFiles (.removeDirectory path))).trans ?_
    simp only [FileSystem.answer]
    rcases w'.files.removeDirectory path with e | fs <;> rfl
  · rfl

/-! ## Directories -/

theorem run_probeDirectory (path : Path) :
    (probeDirectory path : Procedure Acl Descriptor Bool).run b.respond w =
      (w.files.isDirectory path, w) := by
  rw [probeDirectory, Procedure.run_bind, run_onFiles, FileSystem.isDirectory]
  simp only [FileSystem.answer]
  rcases w.files.metadata path with e | m <;> rfl

theorem run_mkdir (path : Path) (mode : Mode) :
    (mkdir path mode).run b w =
      match w.files.absolute path with
      | .error e => (.error (.security "computing absolute path" e), w)
      | .ok whole =>
        match w.files.createDirectory whole FileSystem.defaultDirectoryMode with
        | .error e => (.error (.io e), w)
        | .ok fs =>
          (applyOrRemove whole mode true .currentUser (onFiles (.removeDirectory whole))).run b
            { w with files := fs } := by
  rw [mkdir, run_bind, run_ofProcedure, Procedure.run_map, run_onFiles]
  simp only [FileSystem.answer]
  rcases w.files.absolute path with e | whole
  · rfl
  simp only [Except.map, atStage]
  rw [run_bind, run_files]
  simp only [FileSystem.answer]
  rcases w.files.createDirectory whole FileSystem.defaultDirectoryMode with e | fs <;> rfl

theorem run_mkdir_of_refused {path whole : Path} (absolute : w.files.absolute path = .ok whole)
    {e : CallError}
    (refused : w.files.createDirectory whole FileSystem.defaultDirectoryMode = .error e)
    (mode : Mode) : (mkdir path mode).run b w = (.error (.io e), w) := by
  rw [run_mkdir, absolute]
  dsimp only
  rw [refused]

/-- The result of an attempt to create a directory that counts if someone else was faster. -/
def orFound (path : Path) : Except Error Unit × World σ → Except Error Unit × World σ
  | (.ok (), w) => (.ok (), w)
  | (.error e, w) =>
    if e.kind = .alreadyExists ∧ w.files.isDirectory path then (.ok (), w) else (.error e, w)

theorem run_mkdirEach (mode : Mode) (path : Path) (above : List Path) :
    (mkdirEach mode (path :: above)).run b w =
      if w.files.isDirectory path then (.ok (), w)
      else
        match (mkdirEach mode above).run b w with
        | (.error e, w') => (.error e, w')
        | (.ok (), w') => orFound path ((mkdir path mode).run b w') := by
  rw [mkdirEach, run_ofProcedure, Procedure.run_bind, run_probeDirectory]
  dsimp only
  split
  · rfl
  rw [Procedure.run_bind, result_run]
  rcases (mkdirEach mode above).run b w with ⟨_ | _, w'⟩
  · rfl
  dsimp only
  rw [Procedure.run_bind, result_run]
  rcases (mkdir path mode).run b w' with ⟨e | _, w''⟩
  · dsimp only [orFound]
    by_cases exists_ : e.kind = .alreadyExists
    · rw [if_pos exists_, Procedure.run_bind, run_probeDirectory]
      simp only [exists_, true_and]
      split <;> rfl
    · rw [if_neg exists_, if_neg fun both => exists_ both.1]
      rfl
  · rfl

/-! ## Files -/

theorem run_chmod (path : Path) (mode : Mode) :
    (chmod path mode).run b w =
      match w.files.metadata path with
      | .error e => (.error (.io e), w)
      | .ok m => (applyMode path mode m.isDirectory .creator).run b w := by
  rw [chmod, run_bind, run_files]
  simp only [FileSystem.answer]
  rcases w.files.metadata path with e | m <;> rfl

theorem run_stat (path : Path) :
    (stat path).run b w =
      match w.files.metadata path with
      | .error e => (.error (.io e), w)
      | .ok m =>
        match (readMode path).run b w with
        | (.error e, w') => (.error e, w')
        | (.ok perm, w') =>
          (.ok ⟨path.displayName, m, (Mode.ofType m.type).withPerm perm⟩, w') := by
  rw [stat, run_bind, run_files]
  simp only [FileSystem.answer]
  rcases w.files.metadata path with e | m
  · rfl
  simp only [Except.map]
  rw [run_bind]
  rcases (readMode path).run b w with ⟨_ | _, w'⟩ <;> rfl

theorem run_probeObject (path : Path) :
    (probeObject path : Operation Acl Descriptor Bool).run b w =
      match w.files.metadata path with
      | .ok _ => (.ok true, w)
      | .error e => (if e.kind = .notFound then .ok false else .error (.io e), w) := by
  rw [probeObject, run_ofProcedure, Procedure.run_bind, run_onFiles]
  simp only [FileSystem.answer]
  rcases w.files.metadata path with e | m <;> rfl

/-- Opening a file with flags that may create it. -/
theorem run_openFile_of_creates {flags : OpenFlags} (creates : flags.creates = true) (path : Path)
    (mode : Mode) :
    (openFile path flags mode : Operation Acl Descriptor Handle).run b w =
      match (probeObject path : Operation Acl Descriptor Bool).run b w with
      | (.error e, w') => (.error e, w')
      | (.ok existed, w') =>
        match w'.files.openFile path flags FileSystem.defaultFileMode with
        | .error e => (.error (.io e), w')
        | .ok (handle, fs) =>
          if existed then (.ok handle, { w' with files := fs })
          else
            match (applyOrRemove path mode false .creator (onFiles (.removeFile path))).run b
              { w' with files := fs } with
            | (.ok (), w'') => (.ok handle, w'')
            | (.error e, w'') => (.error e, w'') := by
  have parts : (openFile path flags mode : Operation Acl Descriptor Handle) = _ := if_pos creates
  rw [parts, run_bind]
  rcases (probeObject path : Operation Acl Descriptor Bool).run b w with ⟨_ | existed, w'⟩
  · rfl
  dsimp only
  rw [run_bind, run_files]
  simp only [FileSystem.answer]
  rcases w'.files.openFile path flags FileSystem.defaultFileMode with e | ⟨handle, fs⟩
  · rfl
  cases existed with
  | true => rfl
  | false =>
    simp only [Bool.false_eq_true, if_false]
    show (applyOrRemove path mode false .creator (onFiles (.removeFile path)) >>= fun _ =>
      (pure handle : Operation Acl Descriptor Handle)).run b _ = _
    rw [run_bind]
    rcases (applyOrRemove path mode false .creator (onFiles (.removeFile path))).run b
      { w' with files := fs } with ⟨_ | _, w''⟩ <;> rfl

/-- One that is there is only opened. -/
theorem run_openFile_of_found {flags : OpenFlags} (creates : flags.creates = true) {path : Path}
    {m : Metadata} (found : w.files.metadata path = .ok m) (mode : Mode) :
    (openFile path flags mode : Operation Acl Descriptor Handle).run b w =
      match w.files.openFile path flags FileSystem.defaultFileMode with
      | .error e => (.error (.io e), w)
      | .ok (handle, fs) => (.ok handle, { w with files := fs }) := by
  rw [run_openFile_of_creates creates, run_probeObject, found]
  rfl

theorem run_openFile_of_hidden {flags : OpenFlags} (creates : flags.creates = true) {path : Path}
    {e : CallError} (hidden : w.files.metadata path = .error e) (other : e.kind ≠ .notFound)
    (mode : Mode) :
    (openFile path flags mode : Operation Acl Descriptor Handle).run b w = (.error (.io e), w) := by
  rw [run_openFile_of_creates creates, run_probeObject, hidden]
  simp only [other, if_false]

/-- One that is not there is opened and then gets its list. -/
theorem run_openFile_of_missing {flags : OpenFlags} (creates : flags.creates = true) {path : Path}
    {e : CallError} (missing : w.files.metadata path = .error e) (kind : e.kind = .notFound)
    (mode : Mode) :
    (openFile path flags mode : Operation Acl Descriptor Handle).run b w =
      match w.files.openFile path flags FileSystem.defaultFileMode with
      | .error e => (.error (.io e), w)
      | .ok (handle, fs) =>
        match (applyOrRemove path mode false .creator (onFiles (.removeFile path))).run b
          { w with files := fs } with
        | (.ok (), w') => (.ok handle, w')
        | (.error e, w') => (.error e, w') := by
  rw [run_openFile_of_creates creates, run_probeObject, missing]
  simp only [kind, if_true]
  rfl

theorem run_openFile_of_not_creates {flags : OpenFlags} (keeps : flags.creates = false)
    (path : Path) (mode : Mode) :
    (openFile path flags mode : Operation Acl Descriptor Handle).run b w =
      match w.files.openFile path flags FileSystem.defaultFileMode with
      | .error e => (.error (.io e), w)
      | .ok (handle, fs) => (.ok handle, { w with files := fs }) := by
  have refused : ¬ flags.creates = true := by rw [keeps]; decide
  have parts : (openFile path flags mode : Operation Acl Descriptor Handle) = _ := if_neg refused
  rw [parts]
  refine (run_files (.openFile path flags)).trans ?_
  simp only [FileSystem.answer]
  rcases w.files.openFile path flags FileSystem.defaultFileMode with e | ⟨handle, fs⟩ <;> rfl

theorem run_writeFile (path : Path) (bytes : List UInt8) (mode : Mode) :
    (writeFile path bytes mode : Operation Acl Descriptor Unit).run b w =
      match (openFile path .createTruncate mode).run b w with
      | (.error e, w') => (.error e, w')
      | (.ok handle, w') =>
        match w'.files.write handle bytes with
        | .error e => (.error (.io e), w')
        | .ok (_, fs) => (.ok (), { w' with files := fs }) := by
  rw [writeFile, run_bind]
  rcases (openFile path .createTruncate mode).run b w with ⟨_ | handle, w'⟩
  · rfl
  dsimp only
  rw [run_bind, run_files]
  simp only [FileSystem.answer]
  rcases w'.files.write handle bytes with e | ⟨h, fs⟩ <;> rfl

end ModeAcl.AclFiles
