import ModeAcl.Proofs.HarmedDirectory

/-!
# What failures leave

Over a confined backend, which may fail at any call and harm the object whose list it
should set, a failure changes no list. One of `mkdir` leaves the tree as it was, or it
says that the new directory could not be removed, and why. `chmod` only looks at the
tree; what becomes of its object is the backend's doing. Removing never fails for want
of permissions, and the path in an error is the text of a `Path`.
-/

namespace ModeAcl

open FileSystem

variable {Acl Descriptor σ τ : Type} {b : Backend Acl Descriptor σ} {lists : σ → τ}
  {w w' : World σ}

/-- Whether it fails or not, an application does no more than harm to its object. -/
theorem Backend.Confined.harmed_of_applyMode (confined : b.Confined lists) (path : Path)
    (mode : Mode) (isDirectory : Bool) (trustees : Trustees) (w : World σ) :
    Harmed path w.files ((applyMode path mode isDirectory trustees).run b w).2.files := by
  rcases ran : (applyMode path mode isDirectory trustees).run b w with ⟨e | _, w'⟩
  · exact (confined.applyMode_error ran).1
  · obtain ⟨grants, acl, found, built, entries, building, setting⟩ := applyMode_ok ran
    have harm := confined.harm path acl built
    rw [setting, (confined.buildAcl entries building).1] at harm
    exact harm

namespace AclFiles

/-! ## Directories -/

/-- How an attempt to create a directory can fail: without a trace, or with a directory that could
not be removed after its list could not be set. -/
inductive MkdirFailure (b : Backend Acl Descriptor σ) (w : World σ) (path : Path) (mode : Mode) :
    Error → World σ → Prop
  | undone {e : Error} {w' : World σ} : w'.files = w.files →
      (∀ cause text removal, e ≠ .cleanup cause text removal) → MkdirFailure b w path mode e w'
  | left {whole : Path} {fs : FileSystem} {cause : Error} {removal : CallError} {w' : World σ} :
      w.files.absolute path = .ok whole →
      w.files.createDirectory whole defaultDirectoryMode = .ok fs →
      (applyMode whole mode true .currentUser).run b { w with files := fs } = (.error cause, w') →
      w'.files.removeDirectory whole = .error removal →
      MkdirFailure b w path mode (.cleanup cause whole.text removal) w'

theorem mkdir_error (confined : b.Confined lists) (sound : w.files.Sound) {path : Path}
    {mode : Mode} {e : Error} (ran : (mkdir path mode).run b w = (.error e, w')) :
    lists w'.backend = lists w.backend ∧ MkdirFailure b w path mode e w' := by
  rw [run_mkdir] at ran
  rcases absolute : w.files.absolute path with e' | whole <;> rw [absolute] at ran <;>
    dsimp only at ran
  · cases ran
    exact ⟨rfl, .undone rfl (by simp)⟩
  rcases created : w.files.createDirectory whole defaultDirectoryMode with e' | fs <;>
    rw [created] at ran <;> dsimp only at ran
  · cases ran
    exact ⟨rfl, .undone rfl (by simp)⟩
  obtain ⟨before, name, inner, fresh, rfl⟩ :=
    fresh_of_createDirectory (isAbsolute_of_absolute absolute) sound.top created
  rw [run_applyOrRemoveDirectory] at ran
  rcases applied : (applyMode whole mode true .currentUser).run b
    { w with files := w.files.withDirectory inner name defaultDirectoryMode } with
    ⟨cause | _, mid⟩ <;> rw [applied] at ran <;> dsimp only at ran
  · obtain ⟨harmed, kept⟩ := confined.applyMode_error applied
    have remains := fresh.remains_of_harmed sound harmed
    rcases removed : mid.files.removeDirectory whole with removal | fs <;> rw [removed] at ran <;>
      cases ran
    · exact ⟨kept, .left absolute created applied removed⟩
    · refine ⟨kept, .undone (fresh.eq_of_removeDirectory sound remains removed) ?_⟩
      -- the error is that of the application, and only `mkdir` itself reports removals
      rintro cause' text removal rfl
      exact applyMode_ne_cleanup applied
  · cases ran

/-! ## Files -/

theorem chmod_error (confined : b.Confined lists) {path : Path} {mode : Mode} {e : Error}
    (ran : (chmod path mode).run b w = (.error e, w')) :
    lists w'.backend = lists w.backend := by
  rw [run_chmod] at ran
  rcases found : w.files.metadata path with e' | m <;> rw [found] at ran
  · cases ran
    rfl
  · exact (confined.applyMode_error ran).2

theorem openFile_error (confined : b.Confined lists) {path : Path} {flags : OpenFlags}
    {mode : Mode} {e : Error} (ran : (openFile path flags mode).run b w = (.error e, w')) :
    lists w'.backend = lists w.backend := by
  by_cases creates : ∃ free name, w.files.CreatesAt path flags free name
  · obtain ⟨free, name, creates⟩ := creates
    rw [run_openFile_of_createsAt creates, run_applyOrRemoveFile] at ran
    rcases applied : (applyMode path mode false .creator).run b
      ⟨w.files.insert free name (.file (w.files.maskMode defaultFileMode.modeBits) []),
        w.backend⟩ with ⟨cause | _, mid⟩ <;> rw [applied] at ran <;> dsimp only at ran
    · have kept := (confined.applyMode_error applied).2
      rcases removed : mid.files.removeFile path with removal | fs <;> rw [removed] at ran <;>
        cases ran <;> exact kept
    · cases ran
  · rcases opened : w.files.openFile path flags defaultFileMode with e' | ⟨handle, fs⟩
    · obtain ⟨e'', refused⟩ := run_openFile_of_refused (b := b) opened mode
      rw [refused] at ran
      cases ran
      rfl
    · rw [run_openFile_of_opened opened creates] at ran
      cases ran

/-- The calls of `chmod`: it looks at its object, and only if that is there, it applies the mode. -/
theorem exchangesIn_chmod (path : Path) (mode : Mode) :
    (chmod path mode).exchangesIn b w =
      match w.files.metadata path with
      | .error e => [⟨.file (.metadata path), .error e⟩]
      | .ok m => ⟨.file (.metadata path), .ok m⟩ ::
          (applyMode path mode m.isDirectory .creator).exchangesIn b w :=
  Operation.exchangesIn_metadata_bind path _

/-- No call of `chmod` to the file system does anything to it. -/
theorem file_of_mem_chmod {path : Path} {mode : Mode} {x : Exchange Acl Descriptor}
    (member : x ∈ (chmod path mode).exchangesIn b w) {c : FileCall} (file : x.call = .file c) :
    c = .metadata path := by
  have first : ∀ {reply : Except CallError Metadata},
      x = ⟨.file (.metadata path), reply⟩ → c = .metadata path := by
    rintro reply rfl
    cases file
    rfl
  rw [exchangesIn_chmod] at member
  rcases found : w.files.metadata path with e | m <;> rw [found] at member
  · exact first (List.mem_singleton.mp member)
  · rcases List.mem_cons.mp member with here | applying
    · exact first here
    · have applies := (applyMode_within path mode m.isDirectory .creator).exchanges w x applying
      rw [file] at applies
      cases applies

theorem harmed_of_chmod (confined : b.Confined lists) (path : Path) (mode : Mode) (w : World σ) :
    Harmed path w.files ((chmod path mode).run b w).2.files := by
  rw [run_chmod]
  rcases w.files.metadata path with e | m
  · exact .refl path w.files
  · exact confined.harmed_of_applyMode path mode m.isDirectory .creator w

/-! ## All failures -/

/-- Over a confined backend, a failure of `mkdir`, of `chmod` or of `openFile` changes no list. One
of `mkdir` leaves the tree as it was, unless it says that the directory that was created could not be
removed; then it tells the path of the directory, why its list could not be set, and why it could
not be removed. `chmod` makes no call to the file system but to look at its object, without which it
fails before any call to the backend, so a tree that the backend keeps it keeps as well. The backend
in memory is confined, whatever a script makes of its calls. -/
theorem failures_undone (confined : b.Confined lists) (sound : w.files.Sound) (path : Path)
    (mode : Mode) :
    (∀ e w', (mkdir path mode).run b w = (.error e, w') →
      lists w'.backend = lists w.backend ∧ MkdirFailure b w path mode e w') ∧
    (∀ e w', (chmod path mode).run b w = (.error e, w') →
      lists w'.backend = lists w.backend) ∧
    (∀ flags e w', (openFile path flags mode).run b w = (.error e, w') →
      lists w'.backend = lists w.backend) ∧
    (∀ x ∈ (chmod path mode).exchangesIn b w, ∀ c, x.call = .file c → c = .metadata path) ∧
    Harmed path w.files ((chmod path mode).run b w).2.files ∧
    (b.KeepsFiles → ((chmod path mode).run b w).2.files = w.files) ∧
    (∀ e, w.files.metadata path = .error e →
      (chmod path mode).exchangesIn b w = [⟨.file (.metadata path), .error e⟩] ∧
        (chmod path mode).run b w = (.error (.io e), w)) ∧
    (∀ (υ : Type) (script : υ → FileSystem → MemoryCall → Mishap × υ),
      (mishapping script).Confined fun s => s.1.store) := by
  refine ⟨fun e w' => mkdir_error confined sound, fun e w' => chmod_error confined,
    fun flags e w' => openFile_error confined, fun x member c => file_of_mem_chmod member,
    harmed_of_chmod confined path mode w, fun keeps => ?_, fun e missing => ⟨?_, ?_⟩,
    fun υ => mishapping_confined⟩
  · rw [run_chmod]
    rcases w.files.metadata path with e | m
    · rfl
    · exact files_of_applyMode keeps path mode m.isDirectory .creator w
  · rw [exchangesIn_chmod, missing]
  · rw [run_chmod, missing]

/-! ## A directory that is littered -/

/-- Every list that should be set is refused, and a file is left instead. -/
def littering : Unit → FileSystem → MemoryCall → Mishap × Unit
  | (), _, .setAcl _ _ =>
    (⟨[.leaves ⟨"litter", ⟨by decide, by decide⟩, by simp [Path.Slashless]⟩ []],
      some (.plain .alreadyExists)⟩, ())
  | (), _, _ => (⟨[], none⟩, ())

/-- An empty tree and a backend that litters it. -/
def litteringWorld : World (MemoryBackend × Unit) :=
  ⟨⟨.directory ⟨0o755⟩ [], .linked [], ⟨0o022⟩⟩, .initial, ()⟩

theorem failures_undone_of_littering :
    (mishapping littering).Confined (fun s => s.1.store) ∧ litteringWorld.files.Sound ∧
      ∃ w', (mkdir ⟨"/d"⟩ ⟨0o755⟩).run (mishapping littering) litteringWorld =
          (.error (.cleanup (.security "setting security descriptor" (.plain .alreadyExists)) "/d"
            (.os .ENOTEMPTY)), w') ∧
        w'.backend.1.store = litteringWorld.backend.1.store := by
  have confined := mishapping_confined littering
  have sound : litteringWorld.files.Sound := ⟨⟨⟨0o755⟩, rfl⟩, fun name member => by cases member⟩
  have failed : (mkdir ⟨"/d"⟩ ⟨0o755⟩).run (mishapping littering) litteringWorld =
      (.error (.cleanup (.security "setting security descriptor" (.plain .alreadyExists)) "/d"
        (.os .ENOTEMPTY)), _) := Prod.ext rfl rfl
  exact ⟨confined, sound, _, failed,
    ((failures_undone confined sound ⟨"/d"⟩ ⟨0o755⟩).1 _ _ failed).1⟩

end AclFiles

end ModeAcl
