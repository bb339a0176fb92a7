import ModeAcl.Mode

/-!
# Trees of objects

A node is an object with everything below it. `get?` looks an object up by its
location, and `update` changes the one object at a location; `insert` and
`erase` do so to the entries of a directory. Inserting an entry and erasing it
again gives back the very same tree.

There are no devices and no pipes in a tree, and no object has a second name. Modes
are kept, but nobody is ever refused anything because of them.
-/

namespace ModeAcl

/-- Where an object is: the names on the way to it from the root. -/
abbrev Location := List String

/-- A file, a directory with what it holds, a symbolic link or a socket. The modes hold
triads and special bits only. -/
inductive Node
  | file (mode : Mode) (data : List UInt8)
  | directory (mode : Mode) (entries : List (String × Node))
  | symlink (target : String)
  | socket (mode : Mode)

instance : Inhabited Node := ⟨.directory ⟨0⟩ []⟩

namespace Node

def type : Node → ObjectType
  | file .. => .file
  | directory .. => .directory
  | symlink .. => .symlink
  | socket .. => .socket

/-- The triads and special bits; a link always has all of its triads set. -/
def mode : Node → Mode
  | file mode _ => mode
  | directory mode _ => mode
  | symlink _ => .permMask
  | socket mode => mode

def withMode (mode : Mode) : Node → Node
  | file _ data => file mode data
  | directory _ entries => directory mode entries
  | symlink target => symlink target
  | socket _ => socket mode

/-! ## Looking up -/

/-- The object at a location. -/
def get? : Node → Location → Option Node
  | node, [] => some node
  | directory _ entries, name :: names =>
    match entries.lookup name with
    | some node => node.get? names
    | none => none
  | _, _ :: _ => none

/-! ## Changing -/

/-- Change the entry of a name. -/
def updateEntry (name : String) (change : Node → Node) :
    List (String × Node) → List (String × Node)
  | [] => []
  | (n, node) :: entries =>
    if n == name then (n, change node) :: entries
    else (n, node) :: updateEntry name change entries

/-- Drop the entry of a name. -/
def eraseEntry (name : String) : List (String × Node) → List (String × Node)
  | [] => []
  | (n, node) :: entries => if n == name then entries else (n, node) :: eraseEntry name entries

/-- Change the object at a location. -/
def update : Location → (Node → Node) → Node → Node
  | [], change, node => change node
  | name :: names, change, directory mode entries =>
    directory mode (updateEntry name (update names change) entries)
  | _ :: _, _, node => node

/-- Change the entries of a directory; other objects have none. -/
def mapEntries (change : List (String × Node) → List (String × Node)) : Node → Node
  | directory mode entries => directory mode (change entries)
  | node => node

/-- Add an entry to the directory at a location. -/
def insert (tree : Node) (dir : Location) (name : String) (new : Node) : Node :=
  tree.update dir (mapEntries ((name, new) :: ·))

/-- Drop an entry of the directory at a location. -/
def erase (tree : Node) (dir : Location) (name : String) : Node :=
  tree.update dir (mapEntries (eraseEntry name))

theorem updateEntry_updateEntry (name : String) (f g : Node → Node)
    (entries : List (String × Node)) :
    updateEntry name g (updateEntry name f entries) = updateEntry name (g ∘ f) entries := by
  induction entries with
  | nil => rfl
  | cons entry entries ih =>
    obtain ⟨n, node⟩ := entry
    by_cases h : n == name <;> simp [updateEntry, h, ih]

theorem updateEntry_id (name : String) (entries : List (String × Node)) :
    updateEntry name id entries = entries := by
  induction entries with
  | nil => rfl
  | cons entry entries ih =>
    obtain ⟨n, node⟩ := entry
    by_cases h : n == name <;> simp [updateEntry, h, ih]

theorem update_update (loc : Location) (f g : Node → Node) (tree : Node) :
    update loc g (update loc f tree) = update loc (g ∘ f) tree := by
  induction loc generalizing tree with
  | nil => rfl
  | cons name names ih =>
    cases tree with
    | directory mode entries =>
      simp only [update, updateEntry_updateEntry]
      congr 2
      funext node
      exact ih node
    | _ => rfl

theorem update_id (loc : Location) (tree : Node) : update loc id tree = tree := by
  induction loc generalizing tree with
  | nil => rfl
  | cons name names ih =>
    cases tree with
    | directory mode entries =>
      have same : update names id = id := funext ih
      simp only [update, same, updateEntry_id]
    | _ => rfl

/-- An entry that is erased again leaves nothing behind. -/
theorem erase_insert (tree : Node) (dir : Location) (name : String) (new : Node) :
    (tree.insert dir name new).erase dir name = tree := by
  have undone : mapEntries (eraseEntry name) ∘ mapEntries ((name, new) :: ·) = id := by
    funext node
    cases node <;> simp [mapEntries, eraseEntry]
  rw [erase, insert, update_update, undone, update_id]

/-! ## Listing -/

mutual

/-- Everything below a node, each object with the text of its path from there. -/
def descendants : Node → List (String × Node)
  | directory _ entries => entryDescendants entries
  | _ => []

def entryDescendants : List (String × Node) → List (String × Node)
  | [] => []
  | (name, node) :: entries =>
    (name, node) :: (node.descendants.map fun (path, n) => (name ++ "/" ++ path, n))
      ++ entryDescendants entries

end

end Node

end ModeAcl
