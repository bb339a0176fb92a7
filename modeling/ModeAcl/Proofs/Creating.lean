import ModeAcl.Proofs.Arriving
import ModeAcl.Proofs.OpenUndone

/-!
# New directories

A directory is created at a plain path exactly if the path is vacant
(`createDirectory_eq_ok_iff`): all of its names but the last lead to a directory
that has no entry of the last name. A new directory is empty, and removing it, by
the system or by the backend in memory, gives back the very same file system.
`createAll` creates several directories, one after the other.
-/

namespace ModeAcl

open FileSystem

variable {fs fs' : FileSystem} {p : Path} {init : List String} {name : String} {inner : Location}

/-- What is removed is not above the working directory. -/
theorem WorkingDirectory.afterErase_of_outside {workingDirectory : WorkingDirectory}
    (apart : ¬ inner ++ [name] <+: workingDirectory.base) (root : Node) :
    workingDirectory.afterErase root inner name = workingDirectory := by
  induction workingDirectory with
  | linked loc =>
    rw [afterErase, if_neg]
    rw [List.isPrefixOf_iff_prefix]
    exact apart
  | detached mode parent ih => rw [afterErase, ih apart]

namespace FileSystem

/-! ## Vacant places -/

/-- A plain path whose last name is free in the directory that its other names lead to. -/
structure Vacant (fs : FileSystem) (p : Path) (init : List String) (name : String)
    (inner : Location) : Prop where
  plain : p.Plain
  named : p.names = init ++ [name]
  checked : p.check = .ok ()
  short : ¬ maxNameLength < name.utf8ByteSize
  arrives : fs.root.Arrives init inner
  free : fs.root.faceAt (inner ++ [name]) = none

/-- The file system with an empty directory in a vacant place. -/
def withDirectory (fs : FileSystem) (inner : Location) (name : String) (mode : Mode) :
    FileSystem :=
  fs.insert inner name (.directory (fs.newDirectoryMode inner mode) [])

/-- A directory is created at a plain path exactly if there is a vacant place for it. -/
theorem createDirectory_eq_ok_iff {mode : Mode} (plain : p.Plain)
    (top : ∃ mode, fs.root.faceAt [] = some (.directory mode)) :
    fs.createDirectory p mode = .ok fs' ↔
      ∃ init name inner, fs.Vacant p init name inner ∧ fs' = fs.withDirectory inner name mode := by
  constructor
  · intro created
    rcases List.eq_nil_or_concat p.names with none | ⟨init, name, named⟩
    · rcases checked : p.check with e | _
      · rw [createDirectory_of_check checked] at created
        cases created
      · rw [createDirectory_of_top plain none checked] at created
        cases created
    rw [List.concat_eq_append] at named
    rw [createDirectory] at created
    rcases placed : fs.slot p with e | slot
    · rw [placed] at created
      cases created
    obtain ⟨checked, short, inner, slash, rfl, arrives⟩ := arrives_of_slot plain named top placed
    rw [placed] at created
    dsimp only at created
    rw [FileSystem.entry?_eq_get?] at created
    rcases found : fs.root.get? (inner ++ [name]) with _ | node
    · rw [found] at created
      cases created
      exact ⟨init, name, inner,
        ⟨plain, named, checked, short, arrives, Node.faceAt_eq_none.mpr found⟩, rfl⟩
    · rw [found] at created
      cases created
  · rintro ⟨init, name, inner, vacant, rfl⟩
    obtain ⟨slash, placed⟩ :=
      slot_of_arrives plain vacant.named vacant.checked vacant.arrives vacant.short
    rw [createDirectory, placed]
    dsimp only
    rw [FileSystem.entry?_eq_get?, Node.faceAt_eq_none.mp vacant.free]
    rfl

/-- Where a plain path names something, no directory is created. -/
theorem createDirectory_of_taken (plain : p.Plain) (named : p.names = init ++ [name])
    (checked : p.check = .ok ()) (arrives : fs.root.Arrives init inner)
    (short : ¬ maxNameLength < name.utf8ByteSize)
    (taken : fs.root.faceAt (inner ++ [name]) ≠ none) (mode : Mode) :
    fs.createDirectory p mode = .error (.os .EEXIST) := by
  obtain ⟨slash, placed⟩ := slot_of_arrives plain named checked arrives short
  rw [createDirectory, placed]
  dsimp only
  rw [FileSystem.entry?_eq_get?]
  rcases found : fs.root.get? (inner ++ [name]) with _ | node
  · exact absurd (Node.faceAt_eq_none.mpr found) taken
  · rfl

namespace Vacant

variable {mode : Mode}

theorem isName (vacant : fs.Vacant p init name inner) : IsName name :=
  vacant.plain.isName (by rw [vacant.named]; simp)

/-- Nothing is below a place where nothing is. -/
theorem free_below (vacant : fs.Vacant p init name inner) (rest : Location) :
    fs.root.faceAt ((inner ++ [name]) ++ rest) = none := by
  rw [Node.faceAt_eq_none, Node.get?_append, Node.faceAt_eq_none.mp vacant.free]
  rfl

/-- Only the new directory is new. -/
theorem faceAt (vacant : fs.Vacant p init name inner) (mode : Mode) (loc : Location) :
    (fs.withDirectory inner name mode).root.faceAt loc =
      if loc = inner ++ [name] then some (.directory (fs.newDirectoryMode inner mode))
      else fs.root.faceAt loc := by
  obtain ⟨bits, inside⟩ := vacant.arrives.inside
  exact Node.faceAt_insert inside vacant.free (Node.isLeaf_directory _) loc

theorem keeps (vacant : fs.Vacant p init name inner) (mode : Mode) :
    fs.Keeps (fs.withDirectory inner name mode) := by
  refine ⟨rfl, fun loc f found => ?_⟩
  rw [vacant.faceAt, if_neg]
  · exact found
  · rintro rfl
    rw [vacant.free] at found
    cases found

/-- The names lead to the new directory. -/
theorem arrives_new (vacant : fs.Vacant p init name inner) (mode : Mode) :
    (fs.withDirectory inner name mode).root.Arrives p.names (inner ++ [name]) := by
  rw [vacant.named]
  refine (vacant.arrives.mono (vacant.keeps mode).faces).enter vacant.isName vacant.short ?_
  exact ⟨_, by rw [vacant.faceAt, if_pos rfl]⟩

theorem empty (vacant : fs.Vacant p init name inner) (mode : Mode) {rest : Location}
    (below : rest ≠ []) :
    (fs.withDirectory inner name mode).root.faceAt ((inner ++ [name]) ++ rest) = none := by
  rw [vacant.faceAt, if_neg (by simpa using below), vacant.free_below]

theorem get?_new (vacant : fs.Vacant p init name inner) (mode : Mode) :
    (fs.withDirectory inner name mode).root.get? (inner ++ [name]) =
      some (.directory (fs.newDirectoryMode inner mode) []) := by
  obtain ⟨bits, inside⟩ := vacant.arrives.inside
  obtain ⟨entries, found⟩ := Node.faceAt_directory.mp inside
  show (fs.root.insert inner name _).get? _ = _
  rw [Node.insert, Node.get?_update_append, found]
  simp [Node.mapEntries, Node.get?]

theorem slot_new (vacant : fs.Vacant p init name inner) (mode : Mode) :
    ∃ slash, (fs.withDirectory inner name mode).slot p = .ok (.entry inner name slash) :=
  slot_of_arrives vacant.plain vacant.named vacant.checked
    (vacant.arrives.mono (vacant.keeps mode).faces) vacant.short

theorem isDirectory_new (vacant : fs.Vacant p init name inner) (sound : fs.Sound) (mode : Mode) :
    (fs.withDirectory inner name mode).isDirectory p = true := by
  have from_ : (fs.withDirectory inner name mode).start? p = some [] := by
    rw [start?, vacant.plain.rooted]
    rfl
  rw [isDirectory_iff_arrives ((vacant.keeps mode).sound sound) from_]
  exact ⟨vacant.checked, _, vacant.arrives_new mode⟩

end Vacant

/-! ## Removing a new directory -/

theorem erase_new {mode : Mode} (vacant : fs.Vacant p init name inner) (sound : fs.Sound) :
    (fs.withDirectory inner name mode).erase inner name = fs := by
  have apart : ¬ inner ++ [name] <+: fs.workingDirectory.base := by
    rintro ⟨rest, below⟩
    obtain ⟨bits, found⟩ := sound.inside
    rw [← below, vacant.free_below] at found
    cases found
  have tree : (fs.withDirectory inner name mode).root.erase inner name = fs.root :=
    Node.erase_insert _ _ _ _
  rw [erase, tree]
  have directory : (fs.withDirectory inner name mode).workingDirectory.afterErase
      (fs.withDirectory inner name mode).root inner name = fs.workingDirectory :=
    WorkingDirectory.afterErase_of_outside apart _
  rw [directory]
  rfl

namespace Vacant

variable {mode : Mode}

/-- An empty directory that was created is removed without a trace. -/
theorem removeDirectory_new (vacant : fs.Vacant p init name inner) (sound : fs.Sound) :
    (fs.withDirectory inner name mode).removeDirectory p = .ok fs := by
  obtain ⟨slash, placed⟩ := vacant.slot_new mode
  rw [removeDirectory, placed]
  dsimp only
  rw [FileSystem.entry?_eq_get?, vacant.get?_new]
  exact congrArg Except.ok (erase_new vacant sound)

/-- What is not there cannot be removed. -/
theorem removeDirectory_free (vacant : fs.Vacant p init name inner) :
    fs.removeDirectory p = .error (.os .ENOENT) := by
  obtain ⟨slash, placed⟩ :=
    slot_of_arrives vacant.plain vacant.named vacant.checked vacant.arrives vacant.short
  rw [removeDirectory, placed]
  dsimp only
  rw [FileSystem.entry?_eq_get?, Node.faceAt_eq_none.mp vacant.free]

theorem walk_new (vacant : fs.Vacant p init name inner) :
    (fs.withDirectory inner name mode).walk .follow p = .ok (.object (inner ++ [name])) := by
  have arrives := vacant.arrives_new mode
  have walks := arrives.walks.respell arrives.inside (solid_solid p.pieces).symm
  rw [walk_of_rooted vacant.plain.rooted, vacant.checked, walks.walkFrom_eq]
  rfl

/-- Nor is there one of a new directory that is discarded with all it holds. -/
theorem discard_new (vacant : fs.Vacant p init name inner) (sound : fs.Sound) :
    (fs.withDirectory inner name mode).discard p = fs := by
  have found := vacant.get?_new mode
  have cleared : (fs.withDirectory inner name mode).clear (inner ++ [name]) =
      fs.withDirectory inner name mode := by
    rw [clear, found]
    rfl
  obtain ⟨slash, placed⟩ := vacant.slot_new mode
  rw [discard, vacant.walk_new]
  dsimp only
  rw [found]
  dsimp only
  rw [cleared, placed, List.getLast?_concat]
  dsimp only
  rw [List.dropLast_concat]
  exact erase_new vacant sound

end Vacant

end FileSystem

/-! ## Litter in a new directory -/

namespace Path

/-- The pieces of a path and one more. -/
theorem join_pieces {piece : String} (clean : Slashless piece) (p : Path) :
    ∃ before, (p.join piece).pieces = before ++ [piece] ∧
      (before = p.pieces ∨ before ++ [""] = p.pieces) := by
  obtain ⟨start, last, parts⟩ : ∃ start last, p.pieces = start ++ [last] :=
    ⟨_, _, (List.dropLast_append_getLast p.pieces_ne_nil).symm⟩
  have text : p.text = "/".intercalate (start ++ [last]) := by
    rw [← parts]
    exact congrArg Path.text (ofFields_pieces p).symm
  have cleans : ∀ piece ∈ start ++ [last], Slashless piece := fun piece member =>
    slashless_of_mem_pieces (parts ▸ member)
  have spelled : ∀ before : List String, (∀ piece ∈ before, Slashless piece) →
      (ofFields (before ++ [piece])).pieces = before ++ [piece] := fun before others =>
    pieces_ofFields (by simp) fun other member => by
      rcases List.mem_append.mp member with here | final
      · exact others other here
      · rw [List.mem_singleton.mp final]
        exact clean
  by_cases slash : last = ""
  · subst slash
    refine ⟨start, ?_, Or.inr parts.symm⟩
    rw [join, text, push_of_slash]
    exact spelled start fun piece member => cleans piece (List.mem_append_left _ member)
  · refine ⟨start ++ [last], ?_, Or.inl parts.symm⟩
    rw [join, text, push_of_name start slash (cleans last (by simp))]
    exact spelled (start ++ [last]) cleans

theorem Plain.join {p : Path} (plain : p.Plain) {piece : String} (clean : Slashless piece)
    (named : IsName piece) : ∃ before, (p.join piece).pieces = before ++ [piece] ∧
      solid before = p.names ∧ (p.join piece).Plain ∧
        (p.join piece).names = p.names ++ [piece] := by
  obtain ⟨before, parts, from_⟩ := join_pieces clean p
  have names_ : solid before = p.names := by
    rcases from_ with rfl | more
    · rfl
    · rw [Path.names, ← more, List.filter_append]
      exact (List.append_nil _).symm
  have inside : ∀ other ∈ before, other ∈ p.pieces := by
    rcases from_ with rfl | more
    · exact fun _ member => member
    · exact fun other member => more ▸ List.mem_append_left _ member
  have own : piece ≠ "." ∧ piece ≠ ".." := by
    constructor <;> rintro rfl
    · exact absurd named.notFiller (by decide)
    · exact absurd named.notUp (by decide)
  refine ⟨before, parts, names_, ⟨?_, ?_, ?_⟩, ?_⟩
  · obtain ⟨next, rest, front⟩ := pieces_of_rooted plain.rooted
    rcases from_ with rfl | more
    · rw [front] at parts
      exact rooted_of_pieces parts
    · cases before with
      | nil =>
        rw [front] at more
        cases more
      | cons first others =>
        rw [front, List.cons_append] at more
        rw [(List.cons.inj more).1] at parts
        obtain ⟨second, rest', split⟩ := List.exists_cons_of_ne_nil
          (show others ++ [piece] ≠ [] by simp)
        rw [List.cons_append, split] at parts
        exact rooted_of_pieces parts
  · rw [parts, List.mem_append, List.mem_singleton]
    rintro (here | same)
    · exact plain.noHere (inside _ here)
    · exact own.1 same.symm
  · rw [parts, List.mem_append, List.mem_singleton]
    rintro (up | same)
    · exact plain.noUp (inside _ up)
    · exact own.2 same.symm
  · rw [Path.names, parts, List.filter_append]
    have last : List.filter (fun piece => !isFiller piece) [piece] = [piece] := by
      simp [named.notFiller]
    rw [last]
    exact congrArg (· ++ [piece]) names_

end Path

/-- What the backend leaves in a new directory is one empty file. -/
theorem FileSystem.Vacant.litter_new {mode : Mode} {littered : FileSystem}
    (vacant : fs.Vacant p init name inner)
    (sound : fs.Sound) (left : MemoryBackend.litter (fs.withDirectory inner name mode) p =
      .ok littered) :
    ∃ bits, littered =
      (fs.withDirectory inner name mode).insert (inner ++ [name]) "litter" (.file bits []) := by
  have named : IsName "litter" := ⟨by decide, by decide⟩
  have clean : Path.Slashless "litter" := by simp [Path.Slashless]
  obtain ⟨before, parts, names_, plain, joined⟩ := vacant.plain.join clean named
  have arrives := vacant.arrives_new mode
  have top := ((vacant.keeps mode).sound sound).top
  have nothing : (fs.withDirectory inner name mode).root.faceAt
      ((inner ++ [name]) ++ ["litter"]) = none := vacant.empty mode (by simp)
  rw [MemoryBackend.litter] at left
  rcases opened : (fs.withDirectory inner name mode).openFile (p.join "litter") .createTruncate
    defaultFileMode with e | ⟨handle, fs'⟩
  · rw [opened] at left
    cases left
  rw [opened] at left
  cases left
  rcases createsAt_or_found rfl opened with
    ⟨free, own, creates⟩ | ⟨loc, bits, data, walked, found, -⟩
  · have made := openFile_of_createsAt creates defaultFileMode
    rw [opened] at made
    obtain ⟨dir, last, placed, -, place⟩ := slot_of_createsAt creates ⟨0⟩
    obtain ⟨-, -, inner', slash, same, there⟩ := arrives_of_slot plain joined top placed
    cases same
    cases there.unique arrives
    rw [FileSystem.entry?_eq_get?] at place
    rcases place with ⟨rfl, rfl, -⟩ | ⟨target, link⟩
    · cases made
      exact ⟨_, rfl⟩
    · rw [← Node.faceAt_symlink, nothing] at link
      cases link
  · exfalso
    have walks := walks_of_walk plain.rooted (walk_follow_all walked (Or.inl rfl))
    rw [parts] at walks
    obtain ⟨inner', reached, inside, -, place⟩ := walks.last_name named
    have there : (fs.withDirectory inner name mode).root.Arrives p.names inner' :=
      ⟨reached.respell inside (by rw [names_, Path.names, solid_solid]), inside⟩
    cases there.unique arrives
    rcases place with ⟨rfl, found⟩ | ⟨target, link⟩
    · exact found nothing
    · rw [nothing] at link
      cases link

namespace FileSystem

/-- A directory has been created at a vacant place, and in it the file of the backend. -/
def Littered (fs : FileSystem) (p : Path) (fs' : FileSystem) : Prop :=
  ∃ init name inner bits, fs.Vacant p init name inner ∧
    fs' = (fs.withDirectory inner name defaultDirectoryMode).insert (inner ++ [name]) "litter"
      (.file bits [])

/-- The new directory and the file in it are all that is new. -/
theorem Vacant.faceAt_littered (vacant : fs.Vacant p init name inner) (mode bits : Mode)
    (loc : Location) :
    ((fs.withDirectory inner name mode).insert (inner ++ [name]) "litter"
        (.file bits [])).root.faceAt loc =
      if loc = (inner ++ [name]) ++ ["litter"] then some (.file bits [])
      else (fs.withDirectory inner name mode).root.faceAt loc := by
  have inside := vacant.faceAt mode (inner ++ [name])
  rw [if_pos rfl] at inside
  exact Node.faceAt_insert inside (vacant.empty mode (by simp)) (Node.isLeaf_file bits []) loc

namespace Littered

theorem keeps (littered : fs.Littered p fs') : fs.Keeps fs' := by
  obtain ⟨init, name, inner, bits, vacant, rfl⟩ := littered
  refine (vacant.keeps defaultDirectoryMode).trans ⟨rfl, fun loc f found => ?_⟩
  rw [vacant.faceAt_littered, if_neg]
  · exact found
  · rintro rfl
    rw [vacant.empty _ (by simp)] at found
    cases found

/-- A directory with litter cannot be removed. -/
theorem removeDirectory (littered : fs.Littered p fs') :
    fs'.removeDirectory p = .error (.os .ENOTEMPTY) := by
  have keeps := littered.keeps
  obtain ⟨init, name, inner, bits, vacant, rfl⟩ := littered
  obtain ⟨slash, placed⟩ := slot_of_arrives vacant.plain vacant.named vacant.checked
    (vacant.arrives.mono keeps.faces) vacant.short
  have found := Node.get?_update_append (fs.withDirectory inner name defaultDirectoryMode).root
    (inner ++ [name]) [] (Node.mapEntries (("litter", .file bits []) :: ·))
  rw [vacant.get?_new, List.append_nil, Option.bind_some, Node.mapEntries, Node.get?_nil] at found
  have entry := FileSystem.entry?_eq_get? ((fs.withDirectory inner name defaultDirectoryMode).insert
    (inner ++ [name]) "litter" (.file bits [])) inner name
  rw [FileSystem.removeDirectory, placed]
  dsimp only
  rw [entry.trans found]

/-- There is no directory in a directory with litter. -/
theorem not_below {own : String} {loc : Location} (littered : fs.Littered p fs')
    (named : IsName own) : ¬ fs'.root.Arrives (p.names ++ [own]) loc := by
  have keeps := littered.keeps
  obtain ⟨init, name, inner, bits, vacant, rfl⟩ := littered
  intro below
  obtain ⟨inner', above, -, place⟩ := below.parent named
  have there : ((fs.withDirectory inner name defaultDirectoryMode).insert (inner ++ [name]) "litter"
      (.file bits [])).root.Arrives p.names (inner ++ [name]) := by
    have inside := vacant.faceAt_littered defaultDirectoryMode bits (inner ++ [name])
    rw [if_neg (by simp), vacant.faceAt, if_pos rfl] at inside
    rw [vacant.named]
    exact (vacant.arrives.mono keeps.faces).enter vacant.isName vacant.short ⟨_, inside⟩
  cases above.unique there
  -- what is there is the file, or nothing
  have face := vacant.faceAt_littered defaultDirectoryMode bits ((inner ++ [name]) ++ [own])
  rw [vacant.empty _ (by simp)] at face
  obtain ⟨mode, inside⟩ := below.inside
  rcases place with rfl | ⟨target, link⟩
  · rw [face] at inside
    split at inside <;> cases inside
  · rw [face] at link
    split at link <;> cases link

end Littered

end FileSystem

/-! ## Several directories -/

namespace FileSystem

/-- Create several directories, one after the other. -/
def createAll (fs : FileSystem) (paths : List Path) : Except CallError FileSystem :=
  paths.foldlM (fun fs path => fs.createDirectory path defaultDirectoryMode) fs

theorem createAll_append {first second : List Path} {mid : FileSystem}
    (created : fs.createAll first = .ok mid) :
    fs.createAll (first ++ second) = mid.createAll second := by
  rw [createAll, List.foldlM_append]
  rw [createAll] at created
  rw [created]
  rfl

theorem createAll_cons_eq_ok_iff {path : Path} {paths : List Path} :
    fs.createAll (path :: paths) = .ok fs' ↔
      ∃ mid, fs.createDirectory path defaultDirectoryMode = .ok mid ∧
        mid.createAll paths = .ok fs' := by
  rw [createAll, List.foldlM_cons]
  rcases fs.createDirectory path defaultDirectoryMode with e | mid
  · exact iff_of_false (by rintro ⟨⟩) (by rintro ⟨mid, ⟨⟩, -⟩)
  · constructor
    · exact fun rest => ⟨mid, rfl, rest⟩
    · rintro ⟨mid', ⟨⟩, rest⟩
      exact rest

/-- Nothing is lost when directories are created, and all of them are there at the end. -/
theorem createAll_spec {paths : List Path} (plain : ∀ path ∈ paths, path.Plain)
    (sound : fs.Sound) (created : fs.createAll paths = .ok fs') :
    fs.Keeps fs' ∧ ∀ path ∈ paths, fs'.isDirectory path = true := by
  induction paths generalizing fs with
  | nil =>
    cases created
    exact ⟨.refl _, by simp⟩
  | cons path paths ih =>
    obtain ⟨mid, first, rest⟩ := createAll_cons_eq_ok_iff.mp created
    have own := plain path List.mem_cons_self
    obtain ⟨init, name, inner, vacant, rfl⟩ :=
      (createDirectory_eq_ok_iff own sound.top).mp first
    have keeps := vacant.keeps defaultDirectoryMode
    obtain ⟨onward, there⟩ :=
      ih (fun other member => plain other (List.mem_cons_of_mem _ member)) (keeps.sound sound) rest
    refine ⟨keeps.trans onward, fun other member => ?_⟩
    rcases List.mem_cons.mp member with rfl | later
    · exact onward.isDirectory (keeps.sound sound) own.straight (vacant.isDirectory_new sound _)
    · exact there other later

end FileSystem

end ModeAcl
