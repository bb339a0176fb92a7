import ModeAcl.Proofs.Harm

/-!
# New directories that come to harm

A directory is created at a path from the root, which may go up and down, if the last
name is free in the directory that the pieces before it lead to (`Fresh`). What harm
makes of the new directory is one that holds files and nothing else, or nothing at all
(`Remains`). From what remains, removing the directory either fails or gives back the
file system as it was before the directory was created.
-/

namespace ModeAcl

open FileSystem

/-! ## Trees -/

namespace Node

theorem update_nil (change : Node → Node) (tree : Node) : tree.update [] change = change tree := by
  cases tree <;> rfl

theorem update_append (loc rest : Location) (change : Node → Node) (tree : Node) :
    tree.update (loc ++ rest) change = tree.update loc fun node => node.update rest change := by
  induction loc generalizing tree with
  | nil => rfl
  | cons name names ih =>
    cases tree with
    | directory mode entries =>
      have inside : update (names ++ rest) change =
          update names fun node => node.update rest change := funext ih
      rw [List.cons_append, update, update, inside]
    | _ => rfl

/-- A change at or below a new entry is a change of the entry. -/
theorem update_insert (tree new : Node) (dir rest : Location) (name : String)
    (change : Node → Node) :
    (tree.insert dir name new).update ((dir ++ [name]) ++ rest) change =
      tree.insert dir name (new.update rest change) := by
  have merged : (fun node => Node.update ([name] ++ rest) change node) ∘
      mapEntries ((name, new) :: ·) = mapEntries ((name, new.update rest change) :: ·) := by
    funext node
    cases node <;> simp [mapEntries, update, updateEntry]
  rw [insert, List.append_assoc, update_append, update_update, merged, insert]

theorem get?_insert (tree new : Node) (dir rest : Location) (name : String) {mode : Mode}
    (inside : tree.faceAt dir = some (.directory mode)) :
    (tree.insert dir name new).get? ((dir ++ [name]) ++ rest) = new.get? rest := by
  obtain ⟨entries, found⟩ := faceAt_directory.mp inside
  rw [insert, List.append_assoc, get?_update_append, found]
  simp [mapEntries, get?]

/-- Whatever is put in a free place, it is in nobody's way. -/
theorem faceAt_insert_of_free {tree new : Node} {dir : Location} {name : String}
    (free : tree.faceAt (dir ++ [name]) = none) {loc : Location} {f : Face}
    (found : tree.faceAt loc = some f) : (tree.insert dir name new).faceAt loc = some f := by
  by_cases below : dir <+: loc
  · obtain ⟨rest, rfl⟩ := below
    rw [faceAt, get?_append] at found
    rw [faceAt, insert, get?_update_append]
    rcases at_ : tree.get? dir with _ | node
    · rw [at_] at found
      cases found
    rw [at_, Option.bind_some] at found
    cases rest with
    | nil => cases node <;> exact found
    | cons n rest =>
      cases node with
      | directory mode entries =>
        have ne : n ≠ name := by
          rintro rfl
          rw [faceAt_eq_none, get?_child at_] at free
          rw [get?, free] at found
          cases found
        rw [Option.bind_some, mapEntries, get?, List.lookup_cons, beq_false_of_ne ne]
        exact found
      | _ => exact found
  · rwa [insert, faceAt_update_of_outside below]

end Node

/-! ## Paths from the root -/

namespace Path

theorem isAbsolute_iff {text : String} :
    Path.isAbsolute ⟨text⟩ = true ↔ text.toList.head? = some '/' := by
  rw [isAbsolute, leadingSlashes]
  cases text.toList with
  | nil => simp
  | cons c cs => by_cases slash : c = '/' <;> simp [slash]

theorem isAbsolute_push {base : String} (rooted : Path.isAbsolute ⟨base⟩ = true) (piece : String) :
    Path.isAbsolute ⟨push base piece⟩ = true := by
  rw [isAbsolute_iff] at rooted ⊢
  obtain ⟨rest, text⟩ := List.head?_eq_some_iff.mp rooted
  rw [push]
  split
  · rename_i none
    rw [text] at none
    simp at none
  · split <;> simp [String.toList_append, text]

theorem isAbsolute_foldl_push (pieces : List String) {base : String}
    (rooted : Path.isAbsolute ⟨base⟩ = true) :
    Path.isAbsolute ⟨pieces.foldl push base⟩ = true := by
  induction pieces generalizing base with
  | nil => exact rooted
  | cons piece pieces ih => exact ih (isAbsolute_push rooted piece)

end Path

/-- An absolute path starts at the root. -/
theorem FileSystem.isAbsolute_of_absolute {fs : FileSystem} {p whole : Path}
    (absolute : fs.absolute p = .ok whole) : whole.isAbsolute = true := by
  rw [FileSystem.absolute, Path.absolute] at absolute
  split at absolute
  · cases absolute
  dsimp only at absolute
  split at absolute
  · cases absolute
    exact Path.isAbsolute_foldl_push _ (by decide)
  split at absolute
  · cases absolute
    exact Path.isAbsolute_foldl_push _ (by decide)
  rcases linked : fs.workingDirectory with loc | ⟨mode, parent⟩ <;>
    rw [workingPath, linked] at absolute <;> cases absolute
  refine Path.isAbsolute_foldl_push _ (Path.isAbsolute_iff.mpr ?_)
  simp [String.toList_append]

/-- The last piece of a path is parted from those before it and from the slashes behind it. -/
theorem FileSystem.pieces_of_partLast {pieces before : List String} {name : String} {slash : Bool}
    (parted : partLast pieces = (before, name, slash)) (some_ : name ≠ "") :
    ∃ slashes, pieces = before ++ name :: slashes ∧ slashes.all (· == "") = true := by
  have parts := List.takeWhile_append_dropWhile (p := (· == "")) (l := pieces.reverse)
  rw [partLast] at parted
  rcases left : pieces.reverse.dropWhile (· == "") with _ | ⟨last, others⟩
  · rw [left] at parted
    cases parted
    exact absurd rfl some_
  · rw [left] at parted parts
    cases parted
    refine ⟨(pieces.reverse.takeWhile (· == "")).reverse, ?_, ?_⟩
    · have turned := congrArg List.reverse parts.symm
      simpa using turned
    · rw [List.all_reverse]
      exact List.all_takeWhile

namespace FileSystem

variable {fs fs' mid : FileSystem} {p : Path} {before : List String} {name : String}
  {inner : Location}

/-! ## Free places -/

/-- A path from the root whose last name is free in the directory that the pieces before it lead
to. -/
structure Fresh (fs : FileSystem) (p : Path) (before : List String) (name : String)
    (inner : Location) : Prop where
  rooted : p.isAbsolute = true
  checked : p.check = .ok ()
  parted : ∃ slash, partLast p.pieces = (before, name, slash)
  named : IsName name
  short : ¬ maxNameLength < name.utf8ByteSize
  arrives : fs.root.Arrives before inner
  free : fs.root.faceAt (inner ++ [name]) = none

/-- A path from the root has its last name in the directory that the pieces before it lead to. -/
theorem arrives_of_entry {slash : Bool} (rooted : p.isAbsolute = true)
    (top : ∃ mode, fs.root.faceAt [] = some (.directory mode))
    (placed : fs.slot p = .ok (.entry inner name slash)) :
    p.check = .ok () ∧ IsName name ∧ ¬ maxNameLength < name.utf8ByteSize ∧
      ∃ before, partLast p.pieces = (before, name, slash) ∧ fs.root.Arrives before inner := by
  rw [slot] at placed
  rcases checked : p.check with e | _ <;> rw [checked] at placed
  · cases placed
  dsimp only at placed
  rcases parted : partLast p.pieces with ⟨before, last, behind⟩
  rw [parted] at placed
  simp only [walkPieces, rooted, if_true] at placed
  rcases walked : walkFrom fs.root .follow maxLinks [] (before ++ [""]) with
    e | dir | ⟨dir, own⟩ | depth <;> rw [walked] at placed
  · cases placed
  · dsimp only at placed
    split at placed
    · cases placed
    split at placed
    · cases placed
    rename_i proper short
    cases placed
    rw [Bool.or_eq_true, not_or] at proper
    have walks := walkFrom_eq_ok_iff.mp walked
    have inside := walks.directory_of_slash top
    exact ⟨rfl, ⟨Bool.eq_false_iff.mpr proper.1, Bool.eq_false_iff.mpr proper.2⟩, short, before,
      rfl, walks.respell inside (by simp [solid, Path.isFiller]), inside⟩
  · cases placed
  · exact absurd rfl ((walkFrom_eq_ok_iff.mp walked).linked depth)

/-- Where a directory is created, there was a free place. -/
theorem fresh_of_createDirectory {mode : Mode} (rooted : p.isAbsolute = true)
    (top : ∃ mode, fs.root.faceAt [] = some (.directory mode))
    (created : fs.createDirectory p mode = .ok fs') :
    ∃ before name inner, fs.Fresh p before name inner ∧
      fs' = fs.withDirectory inner name mode := by
  rw [createDirectory] at created
  rcases placed : fs.slot p with e | ⟨inner, name, slash⟩ | piece | _ <;>
    rw [placed] at created
  · cases created
  · obtain ⟨checked, named, short, before, parted, arrives⟩ := arrives_of_entry rooted top placed
    dsimp only at created
    rcases found : fs.entry? inner name with _ | node <;> rw [found] at created <;> cases created
    rw [entry?_eq_get?] at found
    exact ⟨before, name, inner, ⟨rooted, checked, ⟨slash, parted⟩, named, short, arrives,
      Node.faceAt_eq_none.mpr found⟩, rfl⟩
  · cases created
  · cases created

namespace Fresh

theorem name_ne_empty (fresh : fs.Fresh p before name inner) : name ≠ "" := by
  rintro rfl
  exact absurd fresh.named.notFiller (by decide)

theorem exists_pieces (fresh : fs.Fresh p before name inner) :
    ∃ slashes, p.pieces = before ++ name :: slashes ∧ slashes.all (· == "") = true := by
  obtain ⟨slash, parted⟩ := fresh.parted
  exact pieces_of_partLast parted fresh.name_ne_empty

theorem solid_pieces (fresh : fs.Fresh p before name inner) :
    solid p.pieces = solid (before ++ [name]) := by
  obtain ⟨slashes, parts, empty⟩ := fresh.exists_pieces
  have fillers : solid slashes = [] := by
    rw [solid, List.filter_eq_nil_iff]
    intro piece member
    rw [List.all_eq_true] at empty
    simp [Path.isFiller, empty piece member]
  rw [parts, solid, List.filter_append, ← List.singleton_append, List.filter_append]
  exact (congrArg (fun rest => _ ++ (_ ++ rest)) fillers).trans (by simp [solid])

/-- The last name is found wherever the pieces before it still lead to the same directory. -/
theorem slot (fresh : fs.Fresh p before name inner) (arrives : fs'.root.Arrives before inner) :
    ∃ slash, fs'.slot p = .ok (.entry inner name slash) := by
  obtain ⟨slash, parted⟩ := fresh.parted
  have proper : (Path.isFiller name || name == "..") = false := by
    rw [fresh.named.notFiller, fresh.named.notUp]
    rfl
  have same : solid (before ++ [""]) = solid before := by simp [solid, Path.isFiller]
  have walked := (arrives.walks.respell arrives.inside same).walkFrom_eq
  refine ⟨slash, ?_⟩
  rw [FileSystem.slot, fresh.checked]
  simp only [parted, walkPieces, fresh.rooted, if_true, walked, proper, Bool.false_eq_true,
    if_false, if_neg fresh.short]

/-- The new place is not above the working directory. -/
theorem outside (fresh : fs.Fresh p before name inner) (sound : fs.Sound) (rest : Location) :
    ¬ (inner ++ [name]) ++ rest <+: fs.workingDirectory.base := by
  rintro ⟨more, below⟩
  obtain ⟨bits, found⟩ := sound.inside
  rw [← below, List.append_assoc, Node.faceAt, Node.get?_append,
    Node.faceAt_eq_none.mp fresh.free] at found
  cases found

end Fresh

/-! ## What remains -/

/-- The file system with one more directory, which holds some entries. -/
def holding (fs : FileSystem) (inner : Location) (name : String) (bits : Mode)
    (entries : List (String × Node)) : FileSystem :=
  fs.insert inner name (.directory bits entries)

/-- Of a new directory there remains one that holds nothing but files, or nothing. -/
inductive Remains (fs : FileSystem) (inner : Location) (name : String) : FileSystem → Prop
  | kept (bits : Mode) {entries : List (String × Node)} :
      (∀ entry ∈ entries, entry.2.type = .file) →
        Remains fs inner name (fs.holding inner name bits entries)
  | gone : Remains fs inner name fs

section

variable {bits : Mode} {entries : List (String × Node)}

/-- A change of the directory. -/
theorem update_holding (change : Node → Node) :
    (fs.holding inner name bits entries).root.update (inner ++ [name]) change =
      fs.root.insert inner name (change (.directory bits entries)) := by
  have changed := Node.update_insert fs.root (.directory bits entries) inner [] name change
  rwa [List.append_nil, Node.update_nil] at changed

theorem insert_holding (own : String) (new : Node) :
    (fs.holding inner name bits entries).insert (inner ++ [name]) own new =
      fs.holding inner name bits ((own, new) :: entries) :=
  congrArg (fun root => { fs with root := root })
    (update_holding (Node.mapEntries ((own, new) :: ·)))

/-- A change of a file in the directory. -/
theorem update_holding_entry (own : String) (change : Node → Node) :
    { fs.holding inner name bits entries with
      root := (fs.holding inner name bits entries).root.update ((inner ++ [name]) ++ [own])
        change } =
      fs.holding inner name bits (Node.updateEntry own change entries) := by
  have tree := Node.update_insert fs.root (.directory bits entries) inner [own] name change
  rw [Node.update, funext (Node.update_nil change)] at tree
  exact congrArg (fun root => { fs with root := root }) tree

end

namespace Fresh

variable {bits : Mode} {entries : List (String × Node)}

theorem get?_holding (fresh : fs.Fresh p before name inner) (rest : Location) :
    (fs.holding inner name bits entries).root.get? ((inner ++ [name]) ++ rest) =
      (Node.directory bits entries).get? rest := by
  obtain ⟨mode, inside⟩ := fresh.arrives.inside
  exact Node.get?_insert _ _ _ _ _ inside

/-- The directory is found at its place. -/
theorem get?_place (fresh : fs.Fresh p before name inner) :
    (fs.holding inner name bits entries).root.get? (inner ++ [name]) =
      some (.directory bits entries) := by
  rw [← List.append_nil (inner ++ [name]), fresh.get?_holding, Node.get?_nil]

theorem arrives_holding (fresh : fs.Fresh p before name inner) :
    (fs.holding inner name bits entries).root.Arrives before inner :=
  fresh.arrives.mono fun _ _ => Node.faceAt_insert_of_free fresh.free

theorem slot_holding (fresh : fs.Fresh p before name inner) (bits : Mode)
    (entries : List (String × Node)) :
    ∃ slash, (fs.holding inner name bits entries).slot p = .ok (.entry inner name slash) :=
  fresh.slot fresh.arrives_holding

/-- The path leads to the directory. -/
theorem reaches (fresh : fs.Fresh p before name inner) :
    (fs.holding inner name bits entries).root.Arrives p.pieces (inner ++ [name]) := by
  have there := fresh.arrives_holding.enter fresh.named fresh.short
    ⟨bits, Node.faceAt_directory.mpr ⟨entries, fresh.get?_place⟩⟩
  exact ⟨there.walks.respell there.inside fresh.solid_pieces, there.inside⟩

/-- If nothing remains, the path leads to no directory. -/
theorem not_reaches (fresh : fs.Fresh p before name inner) (loc : Location) :
    ¬ fs.root.Arrives p.pieces loc := by
  intro arrives
  have there : fs.root.Arrives (before ++ [name]) loc :=
    ⟨arrives.walks.respell arrives.inside fresh.solid_pieces.symm, arrives.inside⟩
  exact fresh.arrives.not_below fresh.named fresh.free there

theorem erase_holding (fresh : fs.Fresh p before name inner) (sound : fs.Sound) :
    (fs.holding inner name bits entries).erase inner name = fs := by
  have tree : (fs.holding inner name bits entries).root.erase inner name = fs.root :=
    Node.erase_insert _ _ _ _
  have apart := fresh.outside sound []
  rw [List.append_nil] at apart
  have directory : (fs.holding inner name bits entries).workingDirectory.afterErase
      (fs.holding inner name bits entries).root inner name = fs.workingDirectory :=
    WorkingDirectory.afterErase_of_outside apart _
  rw [erase, tree, directory]
  rfl

theorem erase_holding_entry (fresh : fs.Fresh p before name inner) (sound : fs.Sound)
    (own : String) :
    (fs.holding inner name bits entries).erase (inner ++ [name]) own =
      fs.holding inner name bits (Node.eraseEntry own entries) := by
  have directory : (fs.holding inner name bits entries).workingDirectory.afterErase
      (fs.holding inner name bits entries).root (inner ++ [name]) own = fs.workingDirectory :=
    WorkingDirectory.afterErase_of_outside (fresh.outside sound [own]) _
  rw [erase, directory, Node.erase, update_holding]
  rfl

/-- Removing everything in the directory leaves it empty. -/
theorem clear_holding (fresh : fs.Fresh p before name inner) (sound : fs.Sound) :
    (fs.holding inner name bits entries).clear (inner ++ [name]) =
      fs.holding inner name bits [] := by
  have emptied : ∀ entries : List (String × Node),
      entries.foldl (fun fs (entry : String × Node) => fs.erase (inner ++ [name]) entry.1)
        (fs.holding inner name bits entries) = fs.holding inner name bits [] := by
    intro entries
    induction entries with
    | nil => rfl
    | cons entry entries ih =>
      rw [List.foldl_cons, fresh.erase_holding_entry sound, Node.eraseEntry]
      simpa using ih
  rw [clear, fresh.get?_place]
  exact emptied entries

/-! ## Removing what remains -/

/-- The directory is removed only if it is there and empty, and then the file system is as it was
before. -/
theorem eq_of_removeDirectory (fresh : fs.Fresh p before name inner) (sound : fs.Sound)
    (remains : fs.Remains inner name mid) (removed : mid.removeDirectory p = .ok fs') :
    fs' = fs := by
  cases remains with
  | @kept bits entries _ =>
    obtain ⟨slash, placed⟩ := fresh.slot_holding bits entries
    rw [removeDirectory, placed] at removed
    dsimp only at removed
    rw [entry?_eq_get?, fresh.get?_place] at removed
    cases entries with
    | nil =>
      cases removed
      exact fresh.erase_holding sound
    | cons entry entries => cases removed
  | gone =>
    obtain ⟨slash, placed⟩ := fresh.slot fresh.arrives
    rw [removeDirectory, placed] at removed
    dsimp only at removed
    rw [entry?_eq_get?, Node.faceAt_eq_none.mp fresh.free] at removed
    cases removed

theorem discard_holding (fresh : fs.Fresh p before name inner) (sound : fs.Sound) :
    (fs.holding inner name bits entries).discard p = fs := by
  have walked : (fs.holding inner name bits entries).walk .follow p =
      .ok (.object (inner ++ [name])) := by
    rw [walk_of_rooted fresh.rooted, fresh.checked, fresh.reaches.walks.walkFrom_eq]
    rfl
  obtain ⟨slash, placed⟩ := fresh.slot_holding bits []
  rw [discard, walked]
  dsimp only
  rw [fresh.get?_place]
  dsimp only
  rw [fresh.clear_holding sound, placed, List.getLast?_concat]
  dsimp only
  rw [List.dropLast_concat]
  exact fresh.erase_holding sound

/-- Where nothing is, nothing is discarded. -/
theorem discard_free (fresh : fs.Fresh p before name inner) : fs.discard p = fs := by
  obtain ⟨slashes, parts, empty⟩ := fresh.exists_pieces
  have vacant : Walks fs.root .follow maxLinks [] p.pieces (.vacant inner name) := by
    rw [parts]
    exact fresh.arrives.walks.append fresh.arrives.inside fun m =>
      .vacant ⟨fresh.named, fresh.arrives.inside, rfl, fresh.short⟩ fresh.free empty
  have walked : fs.walk .follow p = .ok (.vacant inner name) := by
    rw [walk_of_rooted fresh.rooted, fresh.checked, vacant.walkFrom_eq]
    rfl
  obtain ⟨slash, placed⟩ := fresh.slot fresh.arrives
  rw [discard, walked]
  dsimp only
  rw [removeFile, placed]
  dsimp only
  rw [entry?_eq_get?, Node.faceAt_eq_none.mp fresh.free]
  rfl

end Fresh

/-! ## Files left in what remains -/

/-- A file is opened anew in the directory of a path only if the path leads to a directory. If
there is no link in the way, the file is created in this directory, or it is there and emptied. -/
theorem openFile_join (rooted : p.isAbsolute = true)
    (top : ∃ mode, fs.root.faceAt [] = some (.directory mode)) (file : FileName) {mode : Mode}
    {handle : Handle}
    (opening : fs.openFile (p.join file.text) .createTruncate mode = .ok (handle, fs')) :
    ∃ dir, fs.root.Arrives p.pieces dir ∧
      ((∃ target, fs.root.faceAt (dir ++ [file.text]) = some (.symlink target)) ∨
        handle = handleFor .createTruncate (some (dir ++ [file.text])) ∧
          ((∃ bits, fs' = fs.insert dir file.text (.file bits [])) ∨
            fs' = fs.truncate (dir ++ [file.text]))) := by
  have rooted' : (p.join file.text).isAbsolute = true := Path.isAbsolute_push rooted file.text
  obtain ⟨front, parts, from_⟩ := Path.join_pieces file.clean p
  have spelled : solid p.pieces = solid front := by
    rcases from_ with rfl | more
    · rfl
    · rw [← more]
      simp [solid, Path.isFiller]
  rcases createsAt_or_found rfl opening with
    ⟨free, own, creates⟩ | ⟨loc, bits, data, walked, found, -⟩
  · -- a link as the last name may lead the new file elsewhere, so where it comes to is left open
    have walks := walks_of_walk rooted' creates.2.2
    rw [parts] at walks
    obtain ⟨front', own', dir, split, -, -, reached, place⟩ :=
      walks.slot_of_vacant (refusesSlash_lastFor rfl)
    obtain ⟨rfl, same⟩ := List.append_inj' split rfl
    cases same
    have inside := reached.directory_of_slash top
    refine ⟨dir, ⟨reached.respell inside ?_, inside⟩, ?_⟩
    · rw [spelled]
      simp [solid, Path.isFiller]
    · rcases place with ⟨-, rfl, rfl⟩ | ⟨-, target, link⟩
      · rw [openFile_of_createsAt creates] at opening
        cases opening
        exact Or.inr ⟨rfl, Or.inl ⟨_, rfl⟩⟩
      · exact Or.inl ⟨target, link⟩
  · have walks := walks_of_walk rooted' (walk_follow_all walked (Or.inl rfl))
    rw [parts] at walks
    obtain ⟨dir, reached, inside, -, place⟩ := walks.last_name file.named
    refine ⟨dir, ⟨reached.respell inside spelled, inside⟩, ?_⟩
    rcases place with ⟨rfl, -⟩ | link
    · rw [openFile_of_found walked found] at opening
      cases opening
      exact Or.inr ⟨rfl, Or.inr rfl⟩
    · exact Or.inl link

namespace Fresh

variable {bits : Mode} {entries : List (String × Node)}

/-- A change that turns files into files. -/
theorem type_updateEntry {own : String} {change : Node → Node}
    (files : ∀ node, node.type = .file → (change node).type = .file)
    (all : ∀ entry ∈ entries, entry.2.type = .file) :
    ∀ entry ∈ Node.updateEntry own change entries, entry.2.type = .file := by
  induction entries with
  | nil => exact all
  | cons entry entries ih =>
    obtain ⟨first, others⟩ := List.forall_mem_cons.mp all
    rw [Node.updateEntry]
    split
    · exact List.forall_mem_cons.mpr ⟨files _ first, others⟩
    · exact List.forall_mem_cons.mpr ⟨first, ih others⟩

/-- Writing into a file of the directory changes this file. -/
theorem remains_write (all : ∀ entry ∈ entries, entry.2.type = .file) {own : String}
    {bytes : List UInt8} {handle : Handle} {fs' : FileSystem}
    (written : (fs.holding inner name bits entries).write
      (handleFor .createTruncate (some ((inner ++ [name]) ++ [own]))) bytes = .ok (handle, fs')) :
    fs.Remains inner name fs' := by
  rw [FileSystem.write] at written
  split at written
  · cases written
    exact .kept bits all
  · cases written
    rw [update_holding_entry]
    refine .kept bits (type_updateEntry (fun node file => ?_) all)
    cases node <;> first | rfl | exact file

/-- A directory of files holds no links. -/
theorem not_symlink_holding (fresh : fs.Fresh p before name inner)
    (all : ∀ entry ∈ entries, entry.2.type = .file) (own target : String) :
    (fs.holding inner name bits entries).root.faceAt ((inner ++ [name]) ++ [own]) ≠
      some (.symlink target) := by
  intro link
  rw [Node.faceAt_symlink, fresh.get?_holding, Node.get?] at link
  rcases there : entries.lookup own with _ | node <;> rw [there] at link
  · cases link
  · dsimp only at link
    rw [Node.get?_nil] at link
    cases link
    obtain ⟨front, behind, rfl, -⟩ := List.lookup_eq_some_iff.mp there
    cases all (own, .symlink target) (by simp)

/-- Leaving a file where something may remain leaves something that may remain. -/
theorem remains_leaves (fresh : fs.Fresh p before name inner) (sound : fs.Sound)
    (remains : fs.Remains inner name mid) (file : FileName) (bytes : List UInt8) :
    fs.Remains inner name (Harm.to p mid (.leaves file bytes)) := by
  rw [Harm.to]
  rcases opening : mid.openFile (p.join file.text) .createTruncate defaultFileMode with
    e | ⟨handle, opened⟩
  · exact remains
  dsimp only
  cases remains with
  | gone =>
    -- the path of the file goes through the directory, which is not there
    obtain ⟨dir, arrives, -⟩ := openFile_join fresh.rooted sound.top file opening
    exact absurd arrives (fresh.not_reaches dir)
  | @kept bits entries all =>
    have reaches : (fs.holding inner name bits entries).root.Arrives p.pieces (inner ++ [name]) :=
      fresh.reaches
    obtain ⟨dir, arrives, place⟩ := openFile_join fresh.rooted
      (directory_top reaches.inside) file opening
    obtain rfl := arrives.unique reaches
    rcases place with ⟨target, link⟩ | ⟨rfl, place⟩
    · exact absurd link (fresh.not_symlink_holding all file.text target)
    · have left : ∃ entries, opened = fs.holding inner name bits entries ∧
          ∀ entry ∈ entries, entry.2.type = .file := by
        rcases place with ⟨mode, rfl⟩ | rfl
        · exact ⟨_, insert_holding _ _, List.forall_mem_cons.mpr ⟨rfl, all⟩⟩
        · refine ⟨_, update_holding_entry _ _, type_updateEntry (fun node file => ?_) all⟩
          cases node <;> first | rfl | exact file
      obtain ⟨others, rfl, all⟩ := left
      rcases writing : (fs.holding inner name bits others).write _ bytes with e | ⟨after, written⟩
      · exact .kept bits all
      · exact remains_write all writing

/-- Harm to a new directory leaves something that may remain of it. -/
theorem remains_of_harmed (fresh : fs.Fresh p before name inner) (sound : fs.Sound) {mode : Mode}
    (harmed : Harmed p (fs.withDirectory inner name mode) fs') : fs.Remains inner name fs' := by
  refine harmed.preserves (P := fs.Remains inner name) (fun mid remains harm => ?_)
    (.kept (fs.newDirectoryMode inner mode) fun entry member => by cases member)
  cases harm with
  | leaves file bytes => exact fresh.remains_leaves sound remains file bytes
  | removes =>
    cases remains with
    | kept bits all =>
      rw [Harm.to, fresh.discard_holding sound]
      exact .gone
    | gone =>
      rw [Harm.to, fresh.discard_free]
      exact .gone

end Fresh

end FileSystem

end ModeAcl
