import ModeAcl.Native
import ModeAcl.Proofs.SameShape
import ModeAcl.Proofs.WriteThenRead

/-!
# Lists and modes agree

The same calls are made of files whose permissions are access control lists and
of files whose permissions are modes. `Agree` relates the two states: the trees
have the same shape, and the list under the key of every object below some
directory stands for the mode that the system keeps for it. Each operation
succeeds in both or fails in both and leaves states that agree (`Simulates`), so
whole runs give the same answers (`runs_agree`).
-/

namespace ModeAcl

/-! ## Bits of modes -/

namespace Mode

theorem and_and (m a b : Mode) : m &&& a &&& b = m &&& (a &&& b) :=
  congrArg Mode.mk (BitVec.and_assoc m.bits a.bits b.bits)

theorem or_and (m n a : Mode) : (m ||| n) &&& a = m &&& a ||| n &&& a :=
  congrArg Mode.mk BitVec.and_or_distrib_right

theorem and_zero (m : Mode) : m &&& ⟨0⟩ = ⟨0⟩ := congrArg Mode.mk BitVec.and_zero

theorem zero_or (m : Mode) : ⟨0⟩ ||| m = m := congrArg Mode.mk BitVec.zero_or

theorem perm_modeBits (m : Mode) : m.modeBits.perm = m.perm := by
  rw [perm, modeBits, and_and]
  rfl

theorem untyped_modeBits (m : Mode) : m.modeBits &&& typeMask = ⟨0⟩ := by
  have apart : modeMask &&& typeMask = ⟨0⟩ := by decide
  rw [modeBits, and_and, apart, and_zero]

theorem perm_perm (m : Mode) : m.perm.perm = m.perm := by
  rw [perm, perm, and_and]
  rfl

end Mode

namespace FileSystem

variable {fs : FileSystem}

theorem maskMode_of_unmasked (unmasked : fs.umask.perm = ⟨0⟩) (mode : Mode) :
    fs.maskMode mode = mode := by
  have all : ~~~(⟨0⟩ : Mode) = ⟨BitVec.allOnes 32⟩ := by decide
  rw [maskMode, unmasked, all]
  exact congrArg Mode.mk BitVec.and_allOnes

/-- A new directory has the triads that were asked for, and no type. -/
theorem newDirectoryMode_of_unmasked (unmasked : fs.umask.perm = ⟨0⟩) (dir : Location)
    (mode : Mode) :
    (fs.newDirectoryMode dir mode).perm = mode.perm ∧
      fs.newDirectoryMode dir mode &&& .typeMask = ⟨0⟩ := by
  have kept : (Mode.permMask ||| .sticky) &&& .permMask = .permMask := by decide
  have untyped : (Mode.permMask ||| .sticky) &&& .typeMask = ⟨0⟩ := by decide
  have group : Mode.setGroup &&& .permMask = ⟨0⟩ := by decide
  have group' : Mode.setGroup &&& .typeMask = ⟨0⟩ := by decide
  rw [newDirectoryMode, maskMode_of_unmasked unmasked, Mode.perm, Mode.or_and, Mode.or_and,
    Mode.and_and, Mode.and_and, kept, untyped, Mode.and_zero, Mode.zero_or]
  rcases fs.root.get? dir with _ | node
  · exact ⟨Mode.or_zero _, by decide⟩
  · dsimp only
    rw [Mode.and_and, Mode.and_and, group, group', Mode.and_zero]
    exact ⟨Mode.or_zero _, rfl⟩

end FileSystem

/-! ## States that agree -/

/-- The key of the paths that lead to a location. -/
def Location.key (loc : Location) : Path.Key := .root :: loc.map .name

theorem Location.key_inj {loc other : Location} (same : Location.key loc = Location.key other) :
    loc = other := by
  rw [Location.key, Location.key, List.cons.injEq] at same
  exact List.map_injective_iff.mpr (fun _ _ eq => Path.Component.name.inj eq) same.2

/-- The list of a file or directory stands for the mode that the system keeps for it. -/
structure Listed (store : ListStore) (loc : Location) (f : Face) : Prop where
  common : f.Common
  untyped : f.mode &&& .typeMask = ⟨0⟩
  list : ∃ mode isDirectory trustees,
    store.get? (Location.key loc) = some (modeAces mode isDirectory trustees) ∧
      mode.perm = f.mode.perm

/-- A world with lists and a file system with modes, which differ in how they keep permissions
below the directory `loc`. -/
structure Agree (loc : Location) (w : MemoryWorld) (fs : FileSystem) : Prop where
  shape : w.files.root.SameShape fs.root
  top : ∃ mode, fs.root.faceAt loc = some (.directory mode)
  unmasked : fs.umask.perm = ⟨0⟩
  calm : w.backend.faults = .none
  owned : w.backend.owner = MemoryBackend.userSid
  grouped : w.backend.group = MemoryBackend.groupSid
  listed : ∀ rest f, rest ≠ [] → fs.root.faceAt (loc ++ rest) = some f →
    Listed w.backend.store (loc ++ rest) f

/-- A location above or below another, or the same. -/
def Along (loc other : Location) : Prop := other <+: loc ∨ loc <+: other

theorem Along.up {loc names init : Location} (along : Along loc names)
    (inside : init <+: names) : Along loc init := by
  rcases along with above | below
  · exact Or.inl (inside.trans above)
  · exact List.prefix_or_prefix_of_prefix inside below

/-- A plain path to a location below a directory. -/
structure Path.Below (loc : Location) (p : Path) : Prop where
  plain : p.Plain
  below : ∃ rest, rest ≠ [] ∧ p.names = loc ++ rest

theorem Path.Below.along {loc : Location} {p : Path} (below : p.Below loc) : Along loc p.names := by
  obtain ⟨rest, -, names⟩ := below.below
  exact Or.inr ⟨rest, names.symm⟩

namespace Agree

variable {loc : Location} {w : MemoryWorld} {fs : FileSystem}

/-- What is above the directory is there, and all else is below it. -/
theorem directory_or_below (agree : Agree loc w fs) {names : Location} (along : Along loc names) :
    (∃ mode, fs.root.faceAt names = some (.directory mode)) ∨
      ∃ rest, rest ≠ [] ∧ names = loc ++ rest := by
  obtain ⟨mode, top⟩ := agree.top
  rcases along with ⟨rest, split⟩ | ⟨rest, split⟩ <;> by_cases here : rest = []
  · rw [here, List.append_nil] at split
    exact Or.inl ⟨mode, split ▸ top⟩
  · rw [← split] at top
    exact Or.inl (Node.directory_of_faceAt_append here top)
  · rw [here, List.append_nil] at split
    exact Or.inl ⟨mode, split ▸ top⟩
  · exact Or.inr ⟨rest, here, split.symm⟩

theorem inside (agree : Agree loc w fs) : ∃ mode, fs.root.faceAt [] = some (.directory mode) := by
  rcases agree.directory_or_below (Or.inl List.nil_prefix) with found | ⟨rest, some_, none⟩
  · exact found
  · exact absurd (List.append_eq_nil_iff.mp none.symm).2 some_

theorem inside_lists (agree : Agree loc w fs) :
    ∃ mode, w.files.root.faceAt [] = some (.directory mode) :=
  agree.shape.symm.directory agree.inside

theorem not_symlink (agree : Agree loc w fs) {names : Location} (along : Along loc names)
    (target : String) : fs.root.faceAt names ≠ some (.symlink target) := by
  intro link
  rcases agree.directory_or_below along with ⟨mode, found⟩ | ⟨rest, some_, rfl⟩
  · rw [link] at found
    cases found
  · exact (agree.listed rest _ some_ link).common

/-- No links are met on the way to what is below the directory. -/
theorem linkFree (agree : Agree loc w fs) {names : Location} (along : Along loc names) :
    LinkFree fs.root [] names :=
  fun _ before target => agree.not_symlink (along.up before) target

theorem linkFree_lists (agree : Agree loc w fs) {names : Location} (along : Along loc names) :
    LinkFree w.files.root [] names :=
  linkFree_congr agree.shape (agree.linkFree along)

/-! ### What leaves states in agreement -/

/-- New contents of files. -/
theorem keep (agree : Agree loc w fs) {files fs' : FileSystem}
    (rewritten : FileSystem.Rewritten fs files fs') :
    Agree loc { w with files := files } fs' := by
  obtain ⟨shape, keeps, umask⟩ := rewritten
  have hull : ∀ {other f}, fs'.root.faceAt other = some f →
      ∃ g, fs.root.faceAt other = some g ∧ f.hull = g.hull := by
    intro other f found
    have kept := keeps other
    rw [found] at kept
    obtain ⟨g, there, same⟩ := Option.map_eq_some_iff.mp kept.symm
    exact ⟨g, there, same.symm⟩
  refine ⟨shape, ?_, umask ▸ agree.unmasked, agree.calm, agree.owned, agree.grouped, ?_⟩
  · obtain ⟨mode, top⟩ := agree.top
    have kept := keeps loc
    rw [top] at kept
    obtain ⟨f, there, same⟩ := Option.map_eq_some_iff.mp kept
    cases f with
    | directory mode' => exact ⟨mode', there⟩
    | _ => cases same
  · intro rest f some_ found
    obtain ⟨g, there, same⟩ := hull found
    obtain ⟨common, untyped, list⟩ := agree.listed rest g some_ there
    have mode : f.mode = g.mode := by cases f <;> cases g <;> cases same <;> rfl
    refine ⟨?_, mode ▸ untyped, mode ▸ list⟩
    cases f <;> cases g <;> cases same <;> exact common

/-- A new face with a list that stands for it. -/
theorem put (agree : Agree loc w fs) {files fs' : FileSystem} {rest : Location}
    (some_ : rest ≠ []) {f : Face} (shape : files.root.SameShape fs'.root)
    (faces : ∀ other, fs'.root.faceAt other =
      if other = loc ++ rest then some f else fs.root.faceAt other)
    (umask : fs'.umask = fs.umask) (common : f.Common) (untyped : f.mode &&& .typeMask = ⟨0⟩)
    {mode : Mode} (perm : mode.perm = f.mode.perm) (isDirectory : Bool) (trustees : Trustees) :
    Agree loc (MemoryWorld.put { w with files := files } (Location.key (loc ++ rest))
      (modeAces mode isDirectory trustees)) fs' := by
  refine ⟨shape, ?_, umask ▸ agree.unmasked, agree.calm, agree.owned, agree.grouped, ?_⟩
  · obtain ⟨top, found⟩ := agree.top
    refine ⟨top, ?_⟩
    rw [faces, if_neg]
    · exact found
    · intro same
      exact some_ (List.append_right_eq_self.mp same.symm)
  · intro other g below found
    have stored := w.backend.store.get?_put (Location.key (loc ++ rest))
      (Location.key (loc ++ other)) (modeAces mode isDirectory trustees)
    rw [faces] at found
    split at found
    · rename_i here
      cases found
      rw [here, if_pos rfl] at stored
      exact ⟨common, untyped, mode, isDirectory, trustees, here ▸ stored, perm⟩
    · rename_i elsewhere
      rw [if_neg fun same => elsewhere (Location.key_inj same)] at stored
      obtain ⟨common', untyped', list⟩ := agree.listed other g below found
      rw [← stored] at list
      exact ⟨common', untyped', list⟩

end Agree

/-! ## Operations -/

/-- Both results are successes that `R` relates, or both are failures. -/
def Alike {α β : Type} (R : α → β → Prop) : Except Error α → Except Error β → Prop
  | .ok a, .ok b => R a b
  | .error _, .error _ => True
  | _, _ => False

/-- An operation on lists and one on modes have results that `R` relates, and leave states that
agree. -/
structure Simulates {α β : Type} (loc : Location) (R : α → β → Prop)
    (lists : Except Error α × MemoryWorld) (modes : Except Error β × FileSystem) : Prop where
  results : Alike R lists.1 modes.1
  states : Agree loc lists.2 modes.2

/-- A directory that could be created gets its list. -/
theorem AclFiles.run_mkdir_calm {w : MemoryWorld} (calm : w.backend.faults = .none)
    {p whole : Path} (absolute : w.files.absolute p = .ok whole) {files : FileSystem}
    (ok : w.files.createDirectory whole FileSystem.defaultDirectoryMode = .ok files)
    (found : files.isDirectory whole = true) (mode : Mode) :
    (mkdir p mode).run memoryBackend w =
      (.ok (), MemoryWorld.put ⟨files, w.backend⟩ whole.key
        (modeAces mode true .currentUser)) := by
  let made : MemoryWorld := ⟨files, w.backend⟩
  have calm' : made.backend.faults = .none := calm
  have there := FileSystem.hasObject_of_isDirectory found
  rw [run_mkdir, absolute]
  dsimp only
  rw [ok]
  exact run_applyOrRemove_of_ok _ (applyMode_calm calm' there mode true .currentUser)

namespace Agree

variable {loc : Location} {w : MemoryWorld} {fs : FileSystem} {p : Path}

theorem failed {α β : Type} {R : α → β → Prop} (agree : Agree loc w fs) {e e' : Error} :
    Simulates loc R (.error e, w) (.error e', fs) := ⟨trivial, agree⟩

/-- The object that a path below the directory leads to has its list. -/
theorem listed_of_get? (agree : Agree loc w fs) (below : p.Below loc) {node : Node}
    (found : fs.root.get? p.names = some node) : Listed w.backend.store p.names node.face := by
  obtain ⟨rest, some_, names⟩ := below.below
  rw [names] at found ⊢
  exact agree.listed rest node.face some_ (congrArg (Option.map Node.face) found)

theorem key_eq (plain : p.Plain) : p.key = Location.key p.names := plain.key_eq

/-- What is told of a path below the directory, in both. -/
theorem metadata (agree : Agree loc w fs) (below : p.Below loc) :
    (∃ e, w.files.metadata p = .error e ∧ fs.metadata p = .error e) ∨
    ∃ node node' : Node, fs.walk .follow p = .ok (.object p.names) ∧
      fs.root.get? p.names = some node' ∧ node.face.shape = node'.face.shape ∧
      w.files.metadata p = .ok node.metadata ∧ fs.metadata p = .ok node'.metadata := by
  rcases FileSystem.metadata_congr agree.shape below.plain.rooted with
    errors | ⟨spot, node, node', walked, -, found, shape, told, told'⟩
  · exact Or.inl errors
  · rcases FileSystem.location_of_walk below.plain (agree.linkFree_lists below.along) walked with
      here | ⟨inner, name, free, -⟩
    · cases here
      rw [FileSystem.walk_congr agree.shape below.plain.rooted] at walked
      exact Or.inr ⟨node, node', walked, found, shape, told, told'⟩
    · cases free

theorem chmod (agree : Agree loc w fs) (below : p.Below loc) (mode : Mode) :
    Simulates loc (fun _ _ => True) ((AclFiles.chmod p mode).run memoryBackend w)
      (Native.chmod p mode fs) := by
  rw [AclFiles.run_chmod, Native.chmod]
  rcases agree.metadata below with ⟨e, told, told'⟩ | ⟨node, node', walked, found, -, told, told'⟩
  · rw [told, FileSystem.setMode_of_metadata_error told']
    exact agree.failed
  have there : w.files.hasObject p = true := by
    rw [FileSystem.hasObject, told]
    rfl
  obtain ⟨common, -, -⟩ := agree.listed_of_get? below found
  rw [told, FileSystem.setMode_of_walk walked found, Native.changing]
  dsimp only
  rw [applyMode_calm agree.calm there, key_eq below.plain]
  refine ⟨trivial, ?_⟩
  obtain ⟨rest, some_, names⟩ := below.below
  have faces := fun other =>
    Node.faceAt_update (FileSystem.get?_withMode mode.modeBits) fs.root p.names other
  simp only [found, Option.map_some] at faces
  rw [names] at faces ⊢
  have kept : (node'.withMode mode.modeBits).face.mode = mode.modeBits ∧
      (node'.withMode mode.modeBits).face.Common := by
    cases node' with
    | file => exact ⟨rfl, trivial⟩
    | directory => exact ⟨rfl, trivial⟩
    | symlink => cases common
    | socket => cases common
  let fs' : FileSystem :=
    { fs with root := fs.root.update (loc ++ rest) (Node.withMode mode.modeBits) }
  have umask : fs'.umask = fs.umask := rfl
  refine agree.put some_ (FileSystem.withMode_shape agree.shape _ _) faces umask kept.2 ?_ ?_ _ _
  · rw [kept.1, Mode.untyped_modeBits]
  · rw [kept.1, Mode.perm_modeBits]

/-- A file that has been created is left with a list for its mode. -/
theorem create (agree : Agree loc w fs) (below : p.Below loc) {flags : OpenFlags}
    {free : Location} {name : String} (creates : w.files.CreatesAt p flags free name)
    (mode : Mode) :
    Simulates loc Eq ((AclFiles.openFile p flags mode).run memoryBackend w)
      (Native.openFile p flags mode fs) := by
  have rooted := below.plain.rooted
  have creates' := FileSystem.createsAt_congr agree.shape rooted creates
  rw [AclFiles.run_openFile_of_createsAt creates, Native.openFile,
    FileSystem.openFile_of_createsAt creates', AclFiles.run_applyOrRemoveFile, applyMode_calm]
  rotate_left
  · exact agree.calm
  · exact FileSystem.hasObject_insert_of_createsAt creates _
  refine ⟨rfl, ?_⟩
  have place : free ++ [name] = p.names := by
    rcases FileSystem.location_of_walk below.plain (agree.linkFree_lists below.along)
      creates.2.2 with here | ⟨inner, own, free, place⟩
    · cases here
    · cases free
      exact place
  obtain ⟨⟨m, inside⟩, vacant⟩ := FileSystem.free_of_createsAt creates
  obtain ⟨⟨m', inside'⟩, -⟩ := FileSystem.free_of_createsAt creates'
  have shape := agree.shape.insert inside inside' vacant
    (Node.isLeaf_file (w.files.maskMode FileSystem.defaultFileMode.modeBits) [])
    (Node.isLeaf_file (fs.maskMode mode.modeBits.modeBits) []) rfl
  have faces := FileSystem.faceAt_insert_of_createsAt creates' (fs.maskMode mode.modeBits.modeBits)
  obtain ⟨rest, some_, names⟩ := below.below
  rw [place, names] at faces
  rw [key_eq below.plain, names]
  refine agree.put some_ shape faces rfl trivial ?_ ?_ _ _
  · rw [FileSystem.maskMode_of_unmasked agree.unmasked]
    exact Mode.untyped_modeBits _
  · rw [FileSystem.maskMode_of_unmasked agree.unmasked]
    exact ((Mode.perm_modeBits _).trans (Mode.perm_modeBits _)).symm

theorem openFile (agree : Agree loc w fs) (below : p.Below loc) (flags : OpenFlags)
    (mode : Mode) :
    Simulates loc Eq ((AclFiles.openFile p flags mode).run memoryBackend w)
      (Native.openFile p flags mode fs) := by
  have rooted := below.plain.rooted
  rcases FileSystem.openFile_congr agree.shape rooted flags FileSystem.defaultFileMode
    mode.modeBits with ⟨e, refused, refused'⟩ | ⟨free, name, creates⟩ |
      ⟨handle, opened, opened', ok, ok', rewritten⟩
  · obtain ⟨e', failed⟩ := AclFiles.run_openFile_of_refused (b := memoryBackend) refused mode
    rw [failed, Native.openFile, refused']
    exact agree.failed
  · exact agree.create below creates mode
  · by_cases created : ∃ free name, w.files.CreatesAt p flags free name
    · obtain ⟨free, name, creates⟩ := created
      exact agree.create below creates mode
    · rw [AclFiles.run_openFile_of_opened ok created, Native.openFile, ok']
      exact ⟨rfl, agree.keep rewritten⟩

theorem writeFile (agree : Agree loc w fs) (below : p.Below loc) (bytes : List UInt8)
    (mode : Mode) :
    Simulates loc (fun _ _ => True) ((AclFiles.writeFile p bytes mode).run memoryBackend w)
      (Native.writeFile p bytes mode fs) := by
  obtain ⟨results, states⟩ := agree.openFile below .createTruncate mode
  rw [AclFiles.run_writeFile, Native.writeFile]
  revert results states
  rcases (AclFiles.openFile p .createTruncate mode).run memoryBackend w with ⟨e | handle, w'⟩ <;>
    rcases Native.openFile p .createTruncate mode fs with ⟨e' | handle', fs'⟩ <;>
    intro results states
  · exact states.failed
  · cases results
  · cases results
  · obtain rfl : handle = handle' := results
    dsimp only at states ⊢
    rcases FileSystem.write_congr states.shape handle bytes with ⟨e, refused, refused'⟩ |
      ⟨next, written, written', ok, ok', rewritten⟩
    · rw [refused, refused']
      exact states.failed
    · rw [ok, ok']
      exact ⟨trivial, states.keep rewritten⟩

/-- A directory is created in both, or refused in both by the same call. -/
theorem createDirectory (agree : Agree loc w fs) (plain : p.Plain) (along : Along loc p.names)
    (some_ : p.names ≠ []) (checked : p.check = .ok ()) (mode : Mode) :
    (∃ e, (AclFiles.mkdir p mode).run memoryBackend w = (.error (.io e), w) ∧
      fs.createDirectory p mode.modeBits = .error e) ∨
    ∃ w' fs', (AclFiles.mkdir p mode).run memoryBackend w = (.ok (), w') ∧
      fs.createDirectory p mode.modeBits = .ok fs' ∧ Agree loc w' fs' := by
  obtain ⟨whole, absolute, respells⟩ := plain.absolute some_
  have plain' := respells.plain
  have names := respells.names
  have checked' := respells.checked checked
  have free := agree.linkFree_lists along
  have inside := agree.inside_lists
  rcases FileSystem.createDirectory_congr agree.shape plain plain' names checked checked' free
    (agree.linkFree along) inside FileSystem.defaultDirectoryMode mode.modeBits with
      ⟨e, refused, refused'⟩ | ⟨init, name, split, looked, short, absent, ok, ok'⟩
  · exact Or.inl ⟨e, AclFiles.run_mkdir_of_refused (absolute _) refused mode, refused'⟩
  have found := FileSystem.isDirectory_insert plain' (names ▸ free) inside checked'
    (names.trans split) looked short absent
      (w.files.newDirectoryMode init FileSystem.defaultDirectoryMode)
  refine Or.inr ⟨_, _, AclFiles.run_mkdir_calm agree.calm (absolute _) ok found mode, ok', ?_⟩
  have absent' := (agree.shape.none_iff _).mp absent
  obtain ⟨rest, some', below⟩ : ∃ rest, rest ≠ [] ∧ p.names = loc ++ rest := by
    refine (agree.directory_or_below along).resolve_left ?_
    rintro ⟨mode', found⟩
    rw [split, absent'] at found
    cases found
  obtain ⟨m, there⟩ := directory_of_lookIn inside looked
  obtain ⟨m', there'⟩ := agree.shape.directory ⟨m, there⟩
  have shape := agree.shape.insert there there' absent
    (Node.isLeaf_directory (w.files.newDirectoryMode init FileSystem.defaultDirectoryMode))
    (Node.isLeaf_directory (fs.newDirectoryMode init mode.modeBits)) rfl
  have faces := Node.faceAt_insert there' absent'
    (Node.isLeaf_directory (fs.newDirectoryMode init mode.modeBits))
  obtain ⟨perm, untyped⟩ := fs.newDirectoryMode_of_unmasked agree.unmasked init mode.modeBits
  rw [List.nil_append, ← split, below] at faces
  rw [key_eq plain', names, below]
  let fs' : FileSystem :=
    fs.insert init name (.directory (fs.newDirectoryMode init mode.modeBits) [])
  have umask : fs'.umask = fs.umask := rfl
  let face : Face := .directory (fs.newDirectoryMode init mode.modeBits)
  have common : face.Common := trivial
  exact agree.put some' shape faces umask common untyped
    ((Mode.perm_modeBits mode).symm.trans perm.symm) _ _

/-- A path that is too long must not be given to `mkdir` if its absolute path is not: that is the
one that is given to the system. -/
theorem mkdir (agree : Agree loc w fs) (below : p.Below loc)
    (fits : ∀ workingDirectory whole, p.absolute workingDirectory = .ok whole →
      whole.text.utf8ByteSize < maxPathLength → p.text.utf8ByteSize < maxPathLength)
    (mode : Mode) :
    Simulates loc (fun _ _ => True) ((AclFiles.mkdir p mode).run memoryBackend w)
      (Native.mkdir p mode fs) := by
  have some_ : p.names ≠ [] := by
    obtain ⟨rest, some_, names⟩ := below.below
    rw [names]
    exact List.append_ne_nil_of_right_ne_nil _ some_
  rw [Native.mkdir]
  rcases checked : p.check with e | _
  · obtain ⟨whole, absolute, respells⟩ := below.plain.absolute some_
    rcases checked' : whole.check with e' | _
    · rw [AclFiles.run_mkdir_of_refused (absolute _) (FileSystem.createDirectory_of_check checked' _),
        FileSystem.createDirectory_of_check checked]
      exact agree.failed
    · obtain ⟨nul, short⟩ := respells.check_iff.mp checked'
      rw [Path.check_eq_ok_iff.mpr ⟨nul, Path.text_ne_empty_of_rooted below.plain.rooted,
        fits _ _ (absolute fs.workingPath) short⟩] at checked
      cases checked
  · rcases agree.createDirectory below.plain below.along some_ checked mode with
      ⟨e, refused, refused'⟩ | ⟨w', fs', ok, ok', states⟩
    · rw [refused, refused']
      exact agree.failed
    · rw [ok, ok']
      exact ⟨trivial, states⟩

end Agree

end ModeAcl
