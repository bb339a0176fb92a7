import ModeAcl.Proofs.SameShape

/-!
# The contents of a file

`FileSystem.HoldsAt` says which file a path leads to and what is in it. Opening a
file anew leaves it empty, whether it was created or was there before
(`holdsAt_of_openFile`). Writing to an empty file leaves exactly what was written
(`HoldsAt.write`), and this is so for no other file (`holdsAt_of_writes`). Neither
the modes nor the contents of files are in the way of a path, so afterwards it
still leads there.
-/

namespace ModeAcl

/-! ## Walks past files -/

section

variable {root root' : Node} {last : Last} {n : Nat} {dir : Location} {pieces : List String}
  {spot : Spot}

namespace Node.KeepsModes

theorem face (keeps : root.KeepsModes root') {loc : Location} {f : Face}
    (found : root.faceAt loc = some f) : ∃ g, root'.faceAt loc = some g ∧ g.hull = f.hull := by
  have at_ := keeps loc
  rw [found] at at_
  exact Option.map_eq_some_iff.mp at_

theorem directory (keeps : root.KeepsModes root') {loc : Location} {mode : Mode}
    (found : root.faceAt loc = some (.directory mode)) :
    root'.faceAt loc = some (.directory mode) := by
  obtain ⟨g, there, same⟩ := keeps.face found
  cases g <;> cases same
  exact there

theorem symlink (keeps : root.KeepsModes root') {loc : Location} {target : String}
    (found : root.faceAt loc = some (.symlink target)) :
    root'.faceAt loc = some (.symlink target) := by
  obtain ⟨g, there, same⟩ := keeps.face found
  cases g <;> cases same
  exact there

theorem none (keeps : root.KeepsModes root') {loc : Location} (free : root.faceAt loc = .none) :
    root'.faceAt loc = .none := by
  have at_ := keeps loc
  rw [free] at at_
  exact Option.map_eq_none_iff.mp at_

end Node.KeepsModes

theorem Face.Ends.of_hull {f g : Face} (same : g.hull = f.hull) (ends : f.Ends last) :
    g.Ends last := by
  cases f <;> cases g <;> cases same <;> exact ends

theorem LooksUp.of_keepsModes (keeps : root.KeepsModes root') {piece : String}
    {rest : List String} (looks : LooksUp root last dir piece rest) :
    LooksUp root' last dir piece rest := by
  obtain ⟨mode, inside⟩ := looks.inside
  exact ⟨looks.named, ⟨mode, keeps.directory inside⟩, looks.slash, looks.short⟩

/-- A walk looks at no contents of files. -/
theorem Walks.of_keepsModes (keeps : root.KeepsModes root')
    (walks : Walks root last n dir pieces spot) : Walks root' last n dir pieces spot := by
  induction walks with
  | arrive => exact .arrive
  | filler filler _ ih => exact .filler filler ih
  | up _ ih => exact .up ih
  | enter looks found _ ih => exact .enter (looks.of_keepsModes keeps) (keeps.directory found) ih
  | follow looks found goes _ ih =>
    exact .follow (looks.of_keepsModes keeps) (keeps.symlink found) goes ih
  | find looks found ends =>
    obtain ⟨g, there, same⟩ := keeps.face found
    exact .find (looks.of_keepsModes keeps) there (ends.of_hull same)
  | vacant looks free ending => exact .vacant (looks.of_keepsModes keeps) (keeps.none free) ending

end

namespace FileSystem

variable {fs fs' : FileSystem} {path : Path} {loc : Location} {bytes : List UInt8}

theorem walk_object_of_keepsModes (keeps : fs.root.KeepsModes fs'.root)
    (working : fs'.workingDirectory = fs.workingDirectory) {last : Last}
    (walked : fs.walk last path = .ok (.object loc)) : fs'.walk last path = .ok (.object loc) := by
  obtain ⟨checked, pieces⟩ := walk_eq_ok walked
  obtain ⟨passed, rest, start, split, walks, again⟩ :=
    walkPieces_start pieces fun depth same => by cases same
  rw [walkFrom_eq_ok_iff] at walks
  rw [walk, checked, split]
  dsimp only
  rw [again fs' working, walkFrom_eq_ok_iff.mpr (walks.of_keepsModes keeps)]
  rfl

/-! ## What a file holds -/

/-- The path leads to a file at this location, with these contents. -/
def HoldsAt (fs : FileSystem) (path : Path) (loc : Location) (bytes : List UInt8) : Prop :=
  fs.walk .follow path = .ok (.object loc) ∧ ∃ mode, fs.root.get? loc = some (.file mode bytes)

/-- The path leads to a file with these contents. -/
def Holds (fs : FileSystem) (path : Path) (bytes : List UInt8) : Prop :=
  ∃ loc, fs.HoldsAt path loc bytes

/-- The contents are changed by what changes the file. -/
theorem HoldsAt.update (holds : fs.HoldsAt path loc bytes) {change : Node → Node}
    (g : List UInt8 → List UInt8) (only : ∀ node, change node = node.mapData g) :
    HoldsAt { fs with root := fs.root.update loc change } path loc (g bytes) := by
  obtain ⟨walked, mode, found⟩ := holds
  have same : fs.root.SameShape fs.root := fun _ => rfl
  have keeps := (rewritten_update same loc g only).keeps
  have there := Node.get?_update_append fs.root loc [] change
  rw [List.append_nil, found, Option.bind_some, only, Node.get?_nil] at there
  exact ⟨walk_object_of_keepsModes keeps rfl walked, mode, there⟩

/-! ## Writing a file anew -/

/-- A file that is opened anew is empty. -/
theorem holdsAt_of_openFile {mode : Mode} {handle : Handle}
    (opened : fs.openFile path .createTruncate mode = .ok (handle, fs')) :
    ∃ loc, handle = handleFor .createTruncate (some loc) ∧ fs'.HoldsAt path loc [] := by
  rcases createsAt_or_found rfl opened with
    ⟨free, name, creates⟩ | ⟨loc, bits, data, walked, found, -⟩
  · rw [openFile_of_createsAt creates] at opened
    cases opened
    exact ⟨free ++ [name], rfl, walk_insert_of_createsAt creates _, _,
      get?_insert_of_createsAt creates _⟩
  · have holds : fs.HoldsAt path loc data := ⟨walk_follow_all walked (Or.inl rfl), bits, found⟩
    rw [openFile_of_found walked found] at opened
    cases opened
    exact ⟨loc, rfl, holds.update (fun _ => []) fun node => by cases node <;> rfl⟩

/-- A handle of a file that was opened anew does not append: it writes at the beginning. -/
theorem write_anew (fs : FileSystem) (loc : Location) (some_ : bytes ≠ []) : ∃ next change,
    fs.write (handleFor .createTruncate (some loc)) bytes =
      .ok (next, { fs with root := fs.root.update loc change }) ∧
    ∀ node, change node = node.mapData fun data => overwrite data 0 bytes := by
  rw [FileSystem.write, if_neg (by simpa using some_)]
  refine ⟨_, _, rfl, fun node => ?_⟩
  cases node <;> rfl

/-- What is written to an empty file is all that it holds. -/
theorem HoldsAt.write (holds : fs.HoldsAt path loc []) (bytes : List UInt8) :
    ∃ next fs', fs.write (handleFor .createTruncate (some loc)) bytes = .ok (next, fs') ∧
      fs'.HoldsAt path loc bytes := by
  by_cases nothing : bytes = []
  · subst nothing
    exact ⟨_, fs, rfl, holds⟩
  obtain ⟨next, change, written, only⟩ := write_anew fs loc nothing
  have whole : overwrite [] 0 bytes = bytes := by simp [overwrite]
  refine ⟨next, _, written, (congrArg (HoldsAt _ path loc) whole).mp ?_⟩
  exact holds.update (fun data => overwrite data 0 bytes) only

/-- If whatever is written to a file is then all that the path leads to, the path leads to this file,
and the file was empty. -/
theorem holdsAt_of_writes
    (all : ∀ bytes next fs', fs.write (handleFor .createTruncate (some loc)) bytes =
      .ok (next, fs') → fs'.Holds path bytes) : fs.HoldsAt path loc [] := by
  -- after nothing was written, the path leads to an empty file
  obtain ⟨other, walked, mode, found⟩ := all [] _ fs rfl
  by_cases here : other = loc
  · subst here
    exact ⟨walked, mode, found⟩
  -- after a byte was written, this file is still empty if it is another one
  obtain ⟨next, change, written, only⟩ := write_anew fs loc (List.cons_ne_nil 0 [])
  obtain ⟨other', walked', mode', holds⟩ := all [0] next _ written
  have same : fs.root.SameShape fs.root := fun _ => rfl
  have keeps := (rewritten_update same loc _ only).keeps
  cases walked'.symm.trans (walk_object_of_keepsModes keeps rfl walked)
  obtain rfl : change = Node.mapData _ := funext only
  have untouched := Node.faceAt_update (Node.get?_mapData fun data => overwrite data 0 [0])
    fs.root loc other
  rw [if_neg here, Node.faceAt_file.mpr found, Node.faceAt_file.mpr holds] at untouched
  cases untouched

end FileSystem

end ModeAcl
