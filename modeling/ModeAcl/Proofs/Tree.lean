import Mathlib.Tactic.Common
import ModeAcl.FileSystem.Directory

/-!
# Trees, location by location

`Node.faceAt` shows of the object at a location all but what is below it. Two
trees with the same faces everywhere hold the same objects, whatever the order
of their entries. A change at one location leaves the faces of all others as
they are, except for those below it (`faceAt_update_of_outside`); a new leaf
adds one face (`faceAt_insert`).
-/

namespace ModeAcl

/-- An object without what is below it. -/
inductive Face
  | file (mode : Mode) (data : List UInt8)
  | directory (mode : Mode)
  | symlink (target : String)
  | socket (mode : Mode)
  deriving DecidableEq

namespace Node

def face : Node → Face
  | file mode data => .file mode data
  | directory mode _ => .directory mode
  | symlink target => .symlink target
  | socket mode => .socket mode

def faceAt (tree : Node) (loc : Location) : Option Face := (tree.get? loc).map face

/-! ## Locations -/

@[simp] theorem get?_nil (tree : Node) : tree.get? [] = some tree := by
  cases tree <;> rfl

theorem get?_append (tree : Node) (loc rest : Location) :
    tree.get? (loc ++ rest) = (tree.get? loc).bind (·.get? rest) := by
  induction loc generalizing tree with
  | nil => cases tree <;> rfl
  | cons name names ih =>
    cases tree with
    | directory mode entries =>
      simp only [List.cons_append, get?]
      cases entries.lookup name with
      | none => rfl
      | some node => exact ih node
    | _ => rfl

/-- What a directory holds under a name. -/
theorem get?_child {tree : Node} {dir : Location} {mode : Mode}
    {entries : List (String × Node)} (found : tree.get? dir = some (directory mode entries))
    (name : String) : tree.get? (dir ++ [name]) = entries.lookup name := by
  rw [get?_append, found, Option.bind_some, get?]
  cases entries.lookup name with
  | none => rfl
  | some node => exact get?_nil node

theorem faceAt_eq_none {tree : Node} {loc : Location} :
    tree.faceAt loc = none ↔ tree.get? loc = none := Option.map_eq_none_iff

theorem faceAt_directory {tree : Node} {loc : Location} {mode : Mode} :
    tree.faceAt loc = some (.directory mode) ↔
      ∃ entries, tree.get? loc = some (directory mode entries) := by
  rw [faceAt, Option.map_eq_some_iff]
  constructor
  · rintro ⟨node, found, shown⟩
    cases node with
    | directory mode' entries => cases shown; exact ⟨entries, found⟩
    | _ => cases shown
  · rintro ⟨entries, found⟩
    exact ⟨_, found, rfl⟩

theorem faceAt_file {tree : Node} {loc : Location} {mode : Mode} {data : List UInt8} :
    tree.faceAt loc = some (.file mode data) ↔ tree.get? loc = some (file mode data) := by
  rw [faceAt, Option.map_eq_some_iff]
  constructor
  · rintro ⟨node, found, shown⟩
    cases node with
    | file mode' data' => cases shown; exact found
    | _ => cases shown
  · intro found
    exact ⟨_, found, rfl⟩

theorem faceAt_symlink {tree : Node} {loc : Location} {target : String} :
    tree.faceAt loc = some (.symlink target) ↔ tree.get? loc = some (symlink target) := by
  rw [faceAt, Option.map_eq_some_iff]
  constructor
  · rintro ⟨node, found, shown⟩
    cases node with
    | symlink target' => cases shown; exact found
    | _ => cases shown
  · intro found
    exact ⟨_, found, rfl⟩

/-- Whatever is below something is below a directory. -/
theorem directory_of_faceAt_append {tree : Node} {loc rest : Location} (below : rest ≠ [])
    {f : Face} (found : tree.faceAt (loc ++ rest) = some f) :
    ∃ mode, tree.faceAt loc = some (.directory mode) := by
  rw [faceAt, get?_append] at found
  rcases at_ : tree.get? loc with _ | node
  · rw [at_] at found
    cases found
  rw [at_, Option.bind_some] at found
  cases node with
  | directory mode entries => exact ⟨mode, faceAt_directory.mpr ⟨entries, at_⟩⟩
  | _ =>
    cases rest with
    | nil => exact absurd rfl below
    | cons name rest => cases found

/-! ## Changes -/

theorem lookup_updateEntry (name : String) (change : Node → Node)
    (entries : List (String × Node)) (other : String) :
    (updateEntry name change entries).lookup other =
      if other = name then (entries.lookup other).map change else entries.lookup other := by
  induction entries with
  | nil => simp [updateEntry]
  | cons entry entries ih =>
    obtain ⟨n, node⟩ := entry
    by_cases first : n = name
    · subst first
      by_cases same : other = n
      · simp [updateEntry, same]
      · simp [updateEntry, List.lookup_cons, beq_false_of_ne same, same]
    · by_cases same : other = n
      · subst same
        simp [updateEntry, first]
      · simp [updateEntry, first, List.lookup_cons, beq_false_of_ne same, ih]

theorem lookup_eraseEntry_of_ne {name other : String} (ne : other ≠ name)
    (entries : List (String × Node)) :
    (eraseEntry name entries).lookup other = entries.lookup other := by
  induction entries with
  | nil => rfl
  | cons entry entries ih =>
    obtain ⟨n, node⟩ := entry
    by_cases first : n = name
    · subst first
      simp [eraseEntry, List.lookup_cons, beq_false_of_ne ne]
    · by_cases same : other = n
      · subst same
        simp [eraseEntry, first]
      · simp [eraseEntry, first, List.lookup_cons, beq_false_of_ne same, ih]

/-- What is found at or below a location that was changed. -/
theorem get?_update_append (tree : Node) (loc rest : Location) (change : Node → Node) :
    (tree.update loc change).get? (loc ++ rest) =
      (tree.get? loc).bind fun node => (change node).get? rest := by
  induction loc generalizing tree with
  | nil => cases tree <;> rfl
  | cons name names ih =>
    cases tree with
    | directory mode entries =>
      simp only [update, List.cons_append, get?, lookup_updateEntry, if_true]
      cases entries.lookup name with
      | none => rfl
      | some node => exact ih node
    | _ => rfl

/-- A change leaves the faces of what is not at or below its location. -/
theorem faceAt_update_of_outside {loc other : Location} (apart : ¬ loc <+: other)
    (change : Node → Node) (tree : Node) :
    (tree.update loc change).faceAt other = tree.faceAt other := by
  induction loc generalizing tree other with
  | nil => exact absurd (List.nil_prefix) apart
  | cons name names ih =>
    cases tree with
    | directory mode entries =>
      cases other with
      | nil => rfl
      | cons n ns =>
        simp only [update, faceAt, get?, lookup_updateEntry]
        by_cases same : n = name
        · subst same
          have below : ¬ names <+: ns := fun inside => apart (List.cons_prefix_cons.mpr ⟨rfl, inside⟩)
          simp only [if_true]
          cases entries.lookup n with
          | none => rfl
          | some node => exact ih below node
        · simp only [if_neg same]
    | _ => rfl

/-- A change that keeps what is below leaves all faces but that of its own location. -/
theorem faceAt_update {change : Node → Node}
    (keeps : ∀ node name rest, (change node).get? (name :: rest) = node.get? (name :: rest))
    (tree : Node) (loc other : Location) :
    (tree.update loc change).faceAt other =
      if other = loc then (tree.get? loc).map fun node => (change node).face
      else tree.faceAt other := by
  by_cases inside : loc <+: other
  · obtain ⟨rest, rfl⟩ := inside
    rw [faceAt, get?_update_append]
    cases rest with
    | nil =>
      rw [List.append_nil, if_pos rfl]
      cases tree.get? loc with
      | none => rfl
      | some node => exact congrArg (Option.map face) (get?_nil (change node))
    | cons name rest =>
      rw [if_neg (by simp), faceAt, get?_append]
      cases tree.get? loc with
      | none => rfl
      | some node => exact congrArg (·.map face) (keeps node name rest)
  · rw [faceAt_update_of_outside inside, if_neg]
    rintro rfl
    exact inside (List.prefix_refl _)

/-- Erasing an entry leaves the faces of what is not at or below it. -/
theorem faceAt_erase_of_outside {tree : Node} {dir other : Location} {name : String}
    (apart : ¬ dir ++ [name] <+: other) : (tree.erase dir name).faceAt other = tree.faceAt other := by
  by_cases inside : dir <+: other
  · obtain ⟨rest, rfl⟩ := inside
    rw [faceAt, faceAt, erase, get?_update_append, get?_append]
    cases tree.get? dir with
    | none => rfl
    | some node =>
      cases rest with
      | nil => cases node <;> rfl
      | cons n rest =>
        have ne : n ≠ name := by
          rintro rfl
          exact apart ⟨rest, by simp⟩
        cases node with
        | directory mode entries =>
          simp only [Option.bind_some, mapEntries, get?, lookup_eraseEntry_of_ne ne]
        | _ => rfl
  · exact faceAt_update_of_outside inside _ _

/-! ## Leaves -/

/-- An object with nothing below it. -/
def IsLeaf (node : Node) : Prop := ∀ name rest, node.get? (name :: rest) = none

theorem isLeaf_file (mode : Mode) (data : List UInt8) : (file mode data).IsLeaf := fun _ _ => rfl

theorem isLeaf_directory (mode : Mode) : (directory mode []).IsLeaf := fun _ _ => rfl

/-- A new leaf in a place that was free is the only new face. -/
theorem faceAt_insert {tree new : Node} {dir : Location} {name : String} {mode : Mode}
    (inside : tree.faceAt dir = some (.directory mode))
    (free : tree.faceAt (dir ++ [name]) = none) (leaf : new.IsLeaf) (other : Location) :
    (tree.insert dir name new).faceAt other =
      if other = dir ++ [name] then some new.face else tree.faceAt other := by
  obtain ⟨entries, found⟩ := faceAt_directory.mp inside
  rw [faceAt_eq_none, get?_child found] at free
  by_cases below : dir <+: other
  · obtain ⟨rest, rfl⟩ := below
    rw [faceAt, faceAt, insert, get?_update_append, get?_append, found]
    cases rest with
    | nil => simp [mapEntries, get?, face]
    | cons n rest =>
      simp only [Option.bind_some, mapEntries, get?]
      by_cases same : n = name
      · subst same
        simp only [List.lookup_cons_self, free]
        cases rest with
        | nil => simp
        | cons m rest => simp [leaf m rest]
      · rw [if_neg (by simp [same])]
        simp [List.lookup_cons, beq_false_of_ne same]
  · rw [insert, faceAt_update_of_outside below, if_neg]
    rintro rfl
    exact below ⟨[name], rfl⟩

/-- A new leaf in a free place is in nobody's way. -/
theorem faceAt_insert_of_found {tree new : Node} {dir : Location} {name : String} {mode : Mode}
    (inside : tree.faceAt dir = some (.directory mode))
    (free : tree.faceAt (dir ++ [name]) = none) (leaf : new.IsLeaf) (loc : Location) (f : Face)
    (found : tree.faceAt loc = some f) : (tree.insert dir name new).faceAt loc = some f := by
  rw [faceAt_insert inside free leaf, if_neg]
  · exact found
  · rintro rfl
    rw [free] at found
    cases found

end Node

/-- What a directory has under a name is what is found there. -/
theorem FileSystem.entry?_eq_get? (fs : FileSystem) (dir : Location) (name : String) :
    fs.entry? dir name = fs.root.get? (dir ++ [name]) := by
  rw [FileSystem.entry?, Node.get?_append]
  rcases fs.root.get? dir with _ | node
  · rfl
  cases node with
  | directory mode entries =>
    simp only [Option.bind_some, Node.get?]
    cases entries.lookup name with
    | none => rfl
    | some node => exact (Node.get?_nil node).symm
  | _ => rfl

end ModeAcl
