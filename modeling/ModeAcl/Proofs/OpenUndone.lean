import ModeAcl.Proofs.Memory
import ModeAcl.Proofs.Operations
import ModeAcl.Proofs.Walking

/-!
# Opening that fails

If a file was created but its list could not be set, the file is removed again:
what is removed is the last name of the path itself, while creating has followed
links. So a failure leaves the tree as it was, unless the file was created
through a link (`FileSystem.CreatesThroughLink`); then the link is gone and the
file is left. Symbolic links are meant: no object of a tree has a second name, none
is a device or a pipe, and removing is not a matter of permissions.
-/

namespace ModeAcl

/-! ## Creating -/

namespace FileSystem

variable {fs : FileSystem} {path : Path} {flags : OpenFlags}

/-- Opening has to create the file, at a free name in a directory. -/
def CreatesAt (fs : FileSystem) (path : Path) (flags : OpenFlags) (free : Location)
    (name : String) : Prop :=
  flags.creates = true ∧ flags.contradiction? = none ∧
    fs.walk (lastFor flags) path = .ok (.vacant free name)

/-- Opening has to create the file, and the last name of the path is a link. -/
def CreatesThroughLink (fs : FileSystem) (path : Path) (flags : OpenFlags) : Prop :=
  ∃ free name dir own slash target, fs.CreatesAt path flags free name ∧
    fs.slot path = .ok (.entry dir own slash) ∧ fs.entry? dir own = some (.symlink target)

theorem contains_nul_of_walk {last : Last} {spot : Spot} (walked : fs.walk last path = .ok spot) :
    path.text.toList.contains '\x00' = false := by
  obtain ⟨checked, -⟩ := walk_eq_ok walked
  rw [Path.check] at checked
  split at checked
  · cases checked
  · exact Bool.eq_false_iff.mpr ‹_›

/-- A walk that creates something arrives at a free name where one that follows links does. -/
theorem metadata_of_createsAt {free : Location} {name : String}
    (creates : fs.CreatesAt path flags free name) :
    fs.metadata path = .error (.os .ENOENT) := by
  rw [metadata, walk_follow_all creates.2.2 (Or.inr ⟨free, name, rfl⟩)]

theorem openFile_of_createsAt {free : Location} {name : String}
    (creates : fs.CreatesAt path flags free name) (mode : Mode) :
    fs.openFile path flags mode = .ok (handleFor flags (some (free ++ [name])),
      fs.insert free name (.file (fs.maskMode mode.modeBits) [])) := by
  obtain ⟨may, sound, walked⟩ := creates
  have plain := contains_nul_of_walk walked
  rw [openFile, plain, sound, walked]
  simp only [may, Bool.false_eq_true, if_false, if_true]

/-- Opening a file anew that is there empties it. -/
theorem openFile_of_found {loc : Location} {bits : Mode} {data : List UInt8}
    (walked : fs.walk .create path = .ok (.object loc))
    (found : fs.root.get? loc = some (.file bits data)) (mode : Mode) :
    fs.openFile path .createTruncate mode =
      .ok (handleFor .createTruncate (some loc), fs.truncate loc) := by
  have sound : OpenFlags.createTruncate.contradiction? = none := rfl
  have last : lastFor .createTruncate = .create := rfl
  rw [openFile, contains_nul_of_walk walked, if_neg Bool.false_ne_true, sound]
  dsimp only
  rw [last, walked]
  dsimp only
  rw [found]
  rfl

/-- A file that is opened with flags that may create it was created, or was there before. -/
theorem createsAt_or_found {mode : Mode} (may : flags.creates = true) {handle : Handle}
    {fs' : FileSystem} (opened : fs.openFile path flags mode = .ok (handle, fs')) :
    (∃ free name, fs.CreatesAt path flags free name) ∨
      ∃ loc bits data, fs.walk .create path = .ok (.object loc) ∧
        fs.root.get? loc = some (.file bits data) ∧ handle = handleFor flags (some loc) := by
  have busy : ∀ {result : Handle × FileSystem}, fs.openDirectory flags ≠ .ok result := by
    intro result opened
    rw [openDirectory, may, Bool.or_true] at opened
    split at opened <;> cases opened
  rw [openFile] at opened
  split at opened
  · cases opened
  rcases sound : flags.contradiction? with _ | text
  · rw [sound] at opened
    rcases walked : fs.walk (lastFor flags) path with e | loc | ⟨free, name⟩ | depth
    · rw [walked] at opened
      cases opened
    · rw [walked] at opened
      dsimp only at opened
      rcases found : fs.root.get? loc with _ | ⟨bits, data⟩ | ⟨bits, entries⟩ | target | bits
      · rw [found] at opened
        cases opened
      · rw [found] at opened
        dsimp only at opened
        split at opened
        · cases opened
        have follows : lastFor flags = .create := by
          have new : flags.createNew = false := Bool.eq_false_iff.mpr ‹_›
          rw [OpenFlags.creates, new, Bool.or_false] at may
          rw [lastFor, new, may]
          rfl
        rw [follows] at walked
        cases opened
        exact Or.inr ⟨loc, bits, data, walked, found, rfl⟩
      · rw [found] at opened
        exact absurd opened busy
      · rw [found] at opened
        dsimp only at opened
        split at opened <;> cases opened
      · rw [found] at opened
        dsimp only at opened
        split at opened <;> cases opened
    · exact Or.inl ⟨free, name, may, sound, walked⟩
    · rw [walked] at opened
      exact absurd opened busy
  · rw [sound] at opened
    cases opened

/-- What could be opened and was not created is seen beforehand. -/
theorem metadata_of_openFile {mode : Mode} (may : flags.creates = true) {handle : Handle}
    {fs' : FileSystem} (opened : fs.openFile path flags mode = .ok (handle, fs')) :
    (∃ free name, fs.CreatesAt path flags free name) ∨ ∃ m, fs.metadata path = .ok m := by
  rcases createsAt_or_found may opened with creates | ⟨loc, bits, data, walked, found, -⟩
  · exact Or.inl creates
  · refine Or.inr ⟨(Node.file bits data).metadata, ?_⟩
    rw [metadata, walk_follow_all walked (Or.inl rfl)]
    dsimp only
    rw [found]

end FileSystem

/-! ## Removing what was created -/

namespace FileSystem

variable {fs : FileSystem} {path : Path} {flags : OpenFlags} {free : Location} {name : String}

theorem refusesSlash_lastFor (may : flags.creates = true) :
    (lastFor flags).refusesSlash = true := by
  rw [OpenFlags.creates, Bool.or_eq_true] at may
  rw [lastFor]
  split
  · rfl
  · rw [if_pos (may.resolve_right ‹_›)]
    rfl

theorem free_of_createsAt (creates : fs.CreatesAt path flags free name) :
    (∃ mode, fs.root.faceAt free = some (.directory mode)) ∧
      fs.root.faceAt (free ++ [name]) = none :=
  (slot_of_vacant (refusesSlash_lastFor creates.1) creates.2.2).1

/-- A new file in a free place leaves all objects where they are. -/
theorem faceAt_insert_of_createsAt (creates : fs.CreatesAt path flags free name) (bits : Mode)
    (loc : Location) :
    (fs.insert free name (.file bits [])).root.faceAt loc =
      if loc = free ++ [name] then some (.file bits []) else fs.root.faceAt loc := by
  obtain ⟨⟨mode, inside⟩, none⟩ := free_of_createsAt creates
  exact Node.faceAt_insert inside none (Node.isLeaf_file bits []) loc

theorem grows_of_createsAt (creates : fs.CreatesAt path flags free name) (bits : Mode)
    (loc : Location) (f : Face) (found : fs.root.faceAt loc = some f) :
    (fs.insert free name (.file bits [])).root.faceAt loc = some f := by
  obtain ⟨⟨mode, inside⟩, none⟩ := free_of_createsAt creates
  exact Node.faceAt_insert_of_found inside none (Node.isLeaf_file bits []) loc f found

/-- The path leads to the file that was created for it. -/
theorem walk_insert_of_createsAt (creates : fs.CreatesAt path flags free name) (bits : Mode) :
    (fs.insert free name (.file bits [])).walk .follow path = .ok (.object (free ++ [name])) := by
  have new := faceAt_insert_of_createsAt creates bits (free ++ [name])
  rw [if_pos rfl] at new
  obtain ⟨checked, pieces⟩ := walk_eq_ok creates.2.2
  obtain ⟨passed, rest, start, split, walked, again⟩ :=
    walkPieces_start pieces fun depth same => by cases same
  rw [walkFrom_eq_ok_iff] at walked
  have there := walked.found_of_vacant (refusesSlash_lastFor creates.1)
    (grows_of_createsAt creates bits) new
  rw [walk, checked, split]
  dsimp only
  rw [again (fs.insert free name (.file bits [])) rfl, walkFrom_eq_ok_iff.mpr there]
  rfl

theorem get?_insert_of_createsAt (creates : fs.CreatesAt path flags free name) (bits : Mode) :
    (fs.insert free name (.file bits [])).root.get? (free ++ [name]) = some (.file bits []) := by
  rw [← Node.faceAt_file, faceAt_insert_of_createsAt creates bits, if_pos rfl]

theorem hasObject_insert_of_createsAt (creates : fs.CreatesAt path flags free name) (bits : Mode) :
    (fs.insert free name (.file bits [])).hasObject path = true := by
  rw [hasObject, metadata, walk_insert_of_createsAt creates]
  dsimp only
  rw [get?_insert_of_createsAt creates]
  rfl

/-- Where the last name of the path is when a file was created, and what is removed there. -/
theorem slot_of_createsAt (creates : fs.CreatesAt path flags free name) (bits : Mode) :
    ∃ dir own, fs.slot path = .ok (.entry dir own false) ∧
      (fs.insert free name (.file bits [])).removeFile path =
        .ok ((fs.insert free name (.file bits [])).erase dir own) ∧
      (free = dir ∧ name = own ∧ fs.entry? dir own = none ∨
        ∃ target, fs.entry? dir own = some (.symlink target)) := by
  obtain ⟨⟨-, none⟩, dir, own, slots, place⟩ :=
    slot_of_vacant (refusesSlash_lastFor creates.1) creates.2.2
  have faces := faceAt_insert_of_createsAt creates bits
  have grows := grows_of_createsAt creates bits
  have here := slots fs rfl fun _ _ found => found
  have there := slots (fs.insert free name (.file bits [])) rfl grows
  refine ⟨dir, own, here, ?_, ?_⟩
  · rw [removeFile, there]
    dsimp only
    rcases place with ⟨-, rfl, rfl⟩ | ⟨-, target, link⟩
    · have face := faces (free ++ [name])
      rw [if_pos rfl, Node.faceAt_file, ← entry?_eq_get?] at face
      rw [face]
      rfl
    · have face := grows _ _ link
      rw [Node.faceAt_symlink, ← entry?_eq_get?] at face
      rw [face]
      rfl
  · rcases place with ⟨absent, rfl, rfl⟩ | ⟨-, target, link⟩
    · rw [Node.faceAt_eq_none, ← entry?_eq_get?] at absent
      exact Or.inl ⟨rfl, rfl, absent⟩
    · rw [Node.faceAt_symlink, ← entry?_eq_get?] at link
      exact Or.inr ⟨target, link⟩

/-- A file that was created through a link is left, and the link is not. -/
theorem erase_insert_ne (creates : fs.CreatesAt path flags free name) {dir : Location}
    {own target : String} (link : fs.entry? dir own = some (.symlink target)) (bits : Mode) :
    ((fs.insert free name (.file bits [])).erase dir own).root ≠ fs.root := by
  rw [entry?_eq_get?, ← Node.faceAt_symlink] at link
  obtain ⟨⟨mode, inside⟩, none⟩ := free_of_createsAt creates
  -- nothing is below a link, so the new file is not removed with it
  have apart : ¬ dir ++ [own] <+: free ++ [name] := by
    rintro ⟨rest, split⟩
    cases rest using List.reverseRecOn with
    | nil =>
      rw [List.append_nil] at split
      rw [← split, link] at none
      cases none
    | append_singleton rest last =>
      rw [← List.append_assoc] at split
      rw [← List.append_inj_left' split rfl] at inside
      by_cases below : rest = []
      · rw [below, List.append_nil, link] at inside
        cases inside
      · obtain ⟨mode', at_⟩ := Node.directory_of_faceAt_append below inside
        rw [link] at at_
        cases at_
  intro same
  have left := faceAt_insert_of_createsAt creates bits (free ++ [name])
  rw [if_pos rfl, ← Node.faceAt_erase_of_outside apart] at left
  have there : ((fs.insert free name (.file bits [])).erase dir own).root.faceAt (free ++ [name]) =
      some (.file bits []) := left
  rw [same, none] at there
  cases there

end FileSystem

/-! ## What a failure leaves -/

variable {Acl Descriptor σ : Type} {b : Backend Acl Descriptor σ} {w w' : World σ}

/-- The calls to a backend, whether they fail or not, do not change the file system. -/
def Backend.KeepsFiles (b : Backend Acl Descriptor σ) : Prop :=
  ∀ s fs c, (b.answer s fs c).2.1 = fs

theorem files_of_applyMode (keeps : b.KeepsFiles) (path : Path) (mode : Mode)
    (isDirectory : Bool) (trustees : Trustees) (w : World σ) :
    ((applyMode path mode isDirectory trustees).run b w).2.files = w.files := by
  refine (applyMode_within path mode isDirectory trustees).preserves
    (R := fun w w' : World σ => w'.files = w.files) (fun _ => rfl)
    (fun first second => second.trans first) ?_ w
  rintro (c | c | c) applies w
  · exact keeps w.backend w.files c
  · cases applies
  · rfl

/-- The tree that is left when opening a file fails: the same as before, unless the file was created
through a link. Then the link has been removed, and the file has not. -/
def FailureLeaves (fs : FileSystem) (path : Path) (flags : OpenFlags) (root : Node) : Prop :=
  (root = fs.root ↔ ¬ fs.CreatesThroughLink path flags) ∧
    ∀ free name dir own slash target, fs.CreatesAt path flags free name →
      fs.slot path = .ok (.entry dir own slash) → fs.entry? dir own = some (.symlink target) →
        root = (fs.root.insert free name
          (.file (fs.maskMode FileSystem.defaultFileMode.modeBits) [])).erase dir own

namespace AclFiles

/-! ## Opening, with its list -/

/-- What the file system does not open is not opened, and nothing has happened. -/
theorem run_openFile_of_refused {path : Path} {flags : OpenFlags} {e : CallError}
    (refused : w.files.openFile path flags FileSystem.defaultFileMode = .error e) (mode : Mode) :
    ∃ e', (openFile path flags mode : Operation Acl Descriptor Handle).run b w = (.error e', w) := by
  cases may : flags.creates with
  | false => exact ⟨_, by rw [run_openFile_of_not_creates may, refused]⟩
  | true =>
    rcases probed : w.files.metadata path with e' | m
    · by_cases missing : e'.kind = .notFound
      · exact ⟨_, by rw [run_openFile_of_missing may probed missing, refused]⟩
      · exact ⟨_, run_openFile_of_hidden may probed missing mode⟩
    · exact ⟨_, by rw [run_openFile_of_found may probed, refused]⟩

/-- A file that has not been created is opened as it is. -/
theorem run_openFile_of_opened {path : Path} {flags : OpenFlags} {handle : Handle}
    {fs : FileSystem}
    (opened : w.files.openFile path flags FileSystem.defaultFileMode = .ok (handle, fs))
    (never : ¬ ∃ free name, w.files.CreatesAt path flags free name) (mode : Mode) :
    (openFile path flags mode : Operation Acl Descriptor Handle).run b w =
      (.ok handle, { w with files := fs }) := by
  cases may : flags.creates with
  | false => rw [run_openFile_of_not_creates may, opened]
  | true =>
    obtain ⟨m, probed⟩ := (FileSystem.metadata_of_openFile may opened).resolve_left never
    rw [run_openFile_of_found may probed, opened]

/-- A file that has been created gets its list, or is removed by its path. -/
theorem run_openFile_of_createsAt {path : Path} {flags : OpenFlags} {free : Location}
    {name : String} (creates : w.files.CreatesAt path flags free name) (mode : Mode) :
    (openFile path flags mode : Operation Acl Descriptor Handle).run b w =
      match (applyOrRemove path mode false .creator (onFiles (.removeFile path))).run b
        ⟨w.files.insert free name
          (.file (w.files.maskMode FileSystem.defaultFileMode.modeBits) []), w.backend⟩ with
      | (.ok (), w') => (.ok (FileSystem.handleFor flags (some (free ++ [name]))), w')
      | (.error e, w') => (.error e, w') := by
  have missing := FileSystem.metadata_of_createsAt creates
  have ran := run_openFile_of_missing (b := b) (w := w) creates.1 missing rfl mode
  rw [FileSystem.openFile_of_createsAt creates] at ran
  exact ran

/-- Opening that does not come to creating a file fails without a trace. -/
theorem root_of_openFile_error {path : Path} {flags : OpenFlags} {mode : Mode} {e : Error}
    (never : ¬ ∃ free name, w.files.CreatesAt path flags free name)
    (ran : (openFile path flags mode).run b w = (.error e, w')) : w'.files.root = w.files.root := by
  rcases opened : w.files.openFile path flags FileSystem.defaultFileMode with e' | ⟨handle, fs⟩
  · obtain ⟨e'', failed⟩ := run_openFile_of_refused (b := b) opened mode
    rw [failed] at ran
    cases ran
    rfl
  · rw [run_openFile_of_opened opened never] at ran
    cases ran

/-- Opening that creates a file fails only in setting its list. -/
theorem files_of_openFile_error (keeps : b.KeepsFiles) {path : Path} {flags : OpenFlags}
    {mode : Mode} {e : Error} {free : Location} {name : String}
    (creates : w.files.CreatesAt path flags free name)
    (ran : (openFile path flags mode).run b w = (.error e, w')) :
    ∃ dir own, w.files.slot path = .ok (.entry dir own false) ∧
      w'.files = (w.files.insert free name
        (.file (w.files.maskMode FileSystem.defaultFileMode.modeBits) [])).erase dir own ∧
      (free = dir ∧ name = own ∧ w.files.entry? dir own = none ∨
        ∃ target, w.files.entry? dir own = some (.symlink target)) := by
  obtain ⟨dir, own, here, removed, place⟩ :=
    FileSystem.slot_of_createsAt creates (w.files.maskMode FileSystem.defaultFileMode.modeBits)
  refine ⟨dir, own, here, ?_, place⟩
  rw [run_openFile_of_createsAt creates, run_applyOrRemoveFile] at ran
  have kept := files_of_applyMode keeps path mode false .creator
    ⟨w.files.insert free name (.file (w.files.maskMode FileSystem.defaultFileMode.modeBits) []),
      w.backend⟩
  rcases applied : (applyMode path mode false .creator).run b
    ⟨w.files.insert free name (.file (w.files.maskMode FileSystem.defaultFileMode.modeBits) []),
      w.backend⟩ with ⟨e' | _, mid⟩
  · rw [applied] at ran kept
    dsimp only at ran kept
    rw [kept, removed] at ran
    cases ran
    rfl
  · rw [applied] at ran
    cases ran

theorem handle_of_openFile {path : Path} {flags : OpenFlags} {mode : Mode} {handle : Handle}
    (may : flags.creates = true)
    (ran : (openFile path flags mode).run b w = (.ok handle, w')) :
    ∃ loc, handle = FileSystem.handleFor flags (some loc) := by
  by_cases creates : ∃ free name, w.files.CreatesAt path flags free name
  · obtain ⟨free, name, creates⟩ := creates
    rw [run_openFile_of_createsAt creates] at ran
    split at ran
    · cases ran
      exact ⟨_, rfl⟩
    · cases ran
  · rcases opened : w.files.openFile path flags FileSystem.defaultFileMode with e | ⟨handle', fs⟩
    · obtain ⟨e', failed⟩ := run_openFile_of_refused (b := b) opened mode
      rw [failed] at ran
      cases ran
    · rw [run_openFile_of_opened opened creates] at ran
      cases ran
      obtain ⟨loc, -, -, -, -, same⟩ :=
        (FileSystem.createsAt_or_found may opened).resolve_left creates
      exact ⟨loc, same⟩

/-! ## Whole failures -/

/-- Writing a file anew fails only in opening it. -/
theorem openFile_error_of_writeFile_error {path : Path} {bytes : List UInt8} {mode : Mode}
    {e : Error} (ran : (writeFile path bytes mode).run b w = (.error e, w')) :
    (openFile path .createTruncate mode).run b w = (.error e, w') := by
  rw [run_writeFile] at ran
  rcases opened : (openFile path .createTruncate mode).run b w with ⟨e' | handle, mid⟩
  · rw [opened] at ran
    cases ran
    rfl
  · obtain ⟨loc, rfl⟩ := handle_of_openFile rfl opened
    rw [opened] at ran
    dsimp only at ran
    rw [FileSystem.write] at ran
    cases bytes <;> cases ran

theorem failureLeaves_of_openFile_error (keeps : b.KeepsFiles) {path : Path} {flags : OpenFlags}
    {mode : Mode} {e : Error} (ran : (openFile path flags mode).run b w = (.error e, w')) :
    FailureLeaves w.files path flags w'.files.root := by
  by_cases creates : ∃ free name, w.files.CreatesAt path flags free name
  · obtain ⟨free, name, creates⟩ := creates
    obtain ⟨dir, own, slot, files, place⟩ := files_of_openFile_error keeps creates ran
    refine ⟨?_, ?_⟩
    · rcases place with ⟨rfl, rfl, absent⟩ | ⟨target, link⟩
      · have plain : ¬ w.files.CreatesThroughLink path flags := by
          rintro ⟨-, -, dir, own, slash, target, -, slot', link⟩
          rw [slot] at slot'
          cases slot'
          rw [absent] at link
          cases link
        have root := congrArg FileSystem.root files
        exact iff_of_true (root.trans (Node.erase_insert _ _ _ _)) plain
      · have through : w.files.CreatesThroughLink path flags :=
          ⟨free, name, dir, own, false, target, creates, slot, link⟩
        rw [files]
        exact iff_of_false (FileSystem.erase_insert_ne creates link _) fun other => other through
    · intro free' name' dir' own' slash target creates' slot' link
      have place := creates.2.2.symm.trans creates'.2.2
      rw [slot] at slot'
      cases slot'
      cases place
      exact congrArg FileSystem.root files
  · refine ⟨iff_of_true (root_of_openFile_error creates ran) ?_, ?_⟩
    · rintro ⟨free, name, -, -, -, -, found, -⟩
      exact creates ⟨free, name, found⟩
    · intro free name _ _ _ _ found
      exact absurd ⟨free, name, found⟩ creates

/-- Whatever the backend fails at, opening or writing a file that fails leaves the tree as it was,
except if the file had to be created through a link: then the link is removed and the file stays. -/
theorem openFile_failure (keeps : b.KeepsFiles) (w : World σ) (path : Path) (mode : Mode) :
    (∀ flags e w', (openFile path flags mode).run b w = (.error e, w') →
      FailureLeaves w.files path flags w'.files.root) ∧
    (∀ bytes e w', (writeFile path bytes mode).run b w = (.error e, w') →
      FailureLeaves w.files path .createTruncate w'.files.root) :=
  ⟨fun _ _ _ => failureLeaves_of_openFile_error keeps,
    fun _ _ _ ran => failureLeaves_of_openFile_error keeps (openFile_error_of_writeFile_error ran)⟩

/-- A backend that gives the same answers and keeps away from the file system. -/
def harmless (b : Backend Acl Descriptor σ) : Backend Acl Descriptor σ where
  answer s fs c := ((b.answer s fs c).1, fs, (b.answer s fs c).2.2)

/-- The directory holds a link to a name that is not there, and no list can be built. -/
def danglingLink : MemoryWorld :=
  ⟨⟨.directory ⟨0o755⟩ [("link", .symlink "target")], .linked [], ⟨0o022⟩⟩,
    { MemoryBackend.initial with faults := { Faults.none with brokenAcl := true } }⟩

theorem openFile_failure_of_plain_name :
    (harmless memoryBackend).KeepsFiles ∧
      ((openFile ⟨"/new"⟩ .createTruncate ⟨0o644⟩).run (harmless memoryBackend)
        danglingLink).2.files.root = danglingLink.files.root := by
  have keeps : (harmless memoryBackend).KeepsFiles := fun _ _ _ => rfl
  have failure := (openFile_failure keeps danglingLink ⟨"/new"⟩ ⟨0o644⟩).1 .createTruncate _ _
    (Prod.ext rfl rfl)
  have slot : danglingLink.files.slot ⟨"/new"⟩ = .ok (.entry [] "new" false) := by rfl
  have absent : danglingLink.files.entry? [] "new" = none := by rfl
  refine ⟨keeps, failure.1.mpr ?_⟩
  rintro ⟨free, name, dir, own, slash, target, -, found, link⟩
  rw [slot] at found
  cases found
  rw [absent] at link
  cases link

/-- The file that the link leads to is there afterwards, and the link is not. -/
theorem not_openFile_failure_undone :
    ¬ ∀ b : Backend (List Ace) MemoryDescriptor MemoryBackend, b.KeepsFiles →
      ∀ w path flags mode e w', (openFile path flags mode).run b w = (.error e, w') →
        w'.files.root = w.files.root := by
  intro undone
  have same := undone (harmless memoryBackend) (fun _ _ _ => rfl) danglingLink ⟨"/link"⟩
    .createTruncate ⟨0o644⟩ _ _ (Prod.ext rfl rfl)
  have faces := congrArg (fun root => root.faceAt ["target"]) same
  exact absurd faces (by decide +kernel)

end AclFiles

end ModeAcl
