import ModeAcl.Proofs.OpenUndone
import ModeAcl.Proofs.PlainWalks

/-!
# Trees that differ in modes only

`Node.SameShape` says that two trees hold the same objects with the same
contents, whatever their modes. The system finds its way through both alike, so
calls for a path from the root succeed in both or fail in both, and leave them
with the same shape (`openFile_congr`, `write_congr`). `Node.KeepsModes` says
that a call has changed nothing but the contents of files.
-/

namespace ModeAcl

/-! ## Shapes -/

/-- A face without its mode. -/
def Face.shape : Face → Face
  | file _ data => file ⟨0⟩ data
  | directory _ => directory ⟨0⟩
  | symlink target => symlink target
  | socket _ => socket ⟨0⟩

def Face.mode : Face → Mode
  | file mode _ | directory mode | socket mode => mode
  | symlink _ => .permMask

/-- A file or a directory. -/
def Face.Common : Face → Prop
  | file _ _ | directory _ => True
  | symlink _ | socket _ => False

theorem Node.mode_face (node : Node) : node.face.mode = node.mode := by
  cases node <;> rfl

/-- The same objects with the same contents in the same places. -/
def Node.SameShape (tree tree' : Node) : Prop :=
  ∀ loc, (tree.faceAt loc).map Face.shape = (tree'.faceAt loc).map Face.shape

/-- A face without contents. -/
def Face.hull : Face → Face
  | file mode _ => file mode []
  | f => f

/-- Nothing but the contents of files was changed. -/
def Node.KeepsModes (before after : Node) : Prop :=
  ∀ loc, (after.faceAt loc).map Face.hull = (before.faceAt loc).map Face.hull

variable {root root' : Node}

theorem Node.SameShape.symm (same : root.SameShape root') : root'.SameShape root :=
  fun loc => (same loc).symm

theorem Node.SameShape.none_iff (same : root.SameShape root') (loc : Location) :
    root.faceAt loc = none ↔ root'.faceAt loc = none := by
  rw [← Option.map_eq_none_iff (f := Face.shape), same loc, Option.map_eq_none_iff]

theorem Node.SameShape.get? (same : root.SameShape root') (loc : Location) :
    root.get? loc = none ∧ root'.get? loc = none ∨
      ∃ node node', root.get? loc = some node ∧ root'.get? loc = some node' ∧
        node.face.shape = node'.face.shape := by
  have at_ := same loc
  rw [Node.faceAt, Node.faceAt] at at_
  revert at_
  rcases root.get? loc with _ | node <;> rcases root'.get? loc with _ | node' <;> intro at_
  · exact Or.inl ⟨rfl, rfl⟩
  · cases at_
  · cases at_
  · exact Or.inr ⟨node, node', rfl, rfl, Option.some.inj at_⟩

theorem Node.SameShape.face (same : root.SameShape root') {loc : Location} {f : Face}
    (found : root.faceAt loc = some f) :
    ∃ g, root'.faceAt loc = some g ∧ f.shape = g.shape := by
  have at_ := same loc
  rw [found] at at_
  rcases other : root'.faceAt loc with _ | g
  · rw [other] at at_
    cases at_
  · rw [other] at at_
    exact ⟨g, rfl, Option.some.inj at_⟩

theorem Node.SameShape.directory (same : root.SameShape root') {loc : Location}
    (found : ∃ mode, root.faceAt loc = some (.directory mode)) :
    ∃ mode, root'.faceAt loc = some (.directory mode) := by
  obtain ⟨mode, found⟩ := found
  obtain ⟨g, there, shape⟩ := same.face found
  cases g with
  | directory mode' => exact ⟨mode', there⟩
  | _ => cases shape

/-- A change that does the same to shapes, and nothing to what is below. -/
theorem Node.SameShape.update (same : root.SameShape root') {change change' : Node → Node}
    (keeps : ∀ node name rest, (change node).get? (name :: rest) = node.get? (name :: rest))
    (keeps' : ∀ node name rest, (change' node).get? (name :: rest) = node.get? (name :: rest))
    (alike : ∀ node node' : Node, node.face.shape = node'.face.shape →
      (change node).face.shape = (change' node').face.shape) (loc : Location) :
    (root.update loc change).SameShape (root'.update loc change') := by
  intro other
  rw [Node.faceAt_update keeps, Node.faceAt_update keeps']
  by_cases here : other = loc
  · rw [if_pos here, if_pos here]
    rcases same.get? loc with ⟨none, none'⟩ | ⟨node, node', found, found', shape⟩
    · rw [none, none']
      rfl
    · rw [found, found']
      exact congrArg some (alike node node' shape)
  · rw [if_neg here, if_neg here]
    exact same other

theorem Node.keepsModes_update {change : Node → Node}
    (keeps : ∀ node name rest, (change node).get? (name :: rest) = node.get? (name :: rest))
    (alike : ∀ node : Node, (change node).face.hull = node.face.hull) (loc : Location) :
    root.KeepsModes (root.update loc change) := by
  intro other
  rw [Node.faceAt_update keeps]
  split
  · rename_i here
    rw [here, Node.faceAt, Option.map_map, Option.map_map]
    exact congrArg (Option.map · (root.get? loc)) (funext alike)
  · rfl

/-- Other contents, if the object is a file. -/
def Node.mapData (change : List UInt8 → List UInt8) : Node → Node
  | file mode data => file mode (change data)
  | node => node

theorem Node.get?_mapData (change : List UInt8 → List UInt8) (node : Node) (name : String)
    (rest : Location) : (node.mapData change).get? (name :: rest) = node.get? (name :: rest) := by
  cases node <;> rfl

/-- The same new leaf in the same free place. -/
theorem Node.SameShape.insert (same : root.SameShape root') {dir : Location} {name : String}
    {mode mode' : Mode} (inside : root.faceAt dir = some (.directory mode))
    (inside' : root'.faceAt dir = some (.directory mode'))
    (free : root.faceAt (dir ++ [name]) = none) {new new' : Node} (leaf : new.IsLeaf)
    (leaf' : new'.IsLeaf) (alike : new.face.shape = new'.face.shape) :
    (root.insert dir name new).SameShape (root'.insert dir name new') := by
  intro other
  rw [Node.faceAt_insert inside free leaf,
    Node.faceAt_insert inside' ((same.none_iff _).mp free) leaf']
  by_cases here : other = dir ++ [name]
  · rw [if_pos here, if_pos here]
    exact congrArg some alike
  · rw [if_neg here, if_neg here]
    exact same other

/-! ## Walks -/

namespace FileSystem

variable {last : Last} {n : Nat} {onLink : Location → List String → Except Errno Spot}

/-- One name, by the shapes of the tree. -/
theorem walkWith_name_shape {piece : String} (named : IsName piece) (dir : Location)
    (rest : List String) :
    walkWith root last onLink dir (piece :: rest) =
      match (root.faceAt dir).map Face.shape with
      | none => .error .ENOENT
      | some (.directory _) =>
        if last.refusesSlash && rest.all (· == "") && !rest.isEmpty then .error .EISDIR
        else if maxNameLength < piece.utf8ByteSize then .error .ENAMETOOLONG
        else
          match (root.faceAt (dir ++ [piece])).map Face.shape with
          | none => if rest.all (· == "") then .ok (.vacant dir piece) else .error .ENOENT
          | some (.directory _) => walkWith root last onLink (dir ++ [piece]) rest
          | some (.symlink target) =>
            if rest.isEmpty && !last.follows then .ok (.object (dir ++ [piece]))
            else onLink (linkStart target dir rest).1 (linkStart target dir rest).2
          | some _ => if rest.isEmpty then .ok (.object (dir ++ [piece])) else .error .ENOTDIR
      | some _ => .error .ENOTDIR := by
  rw [walkWith_name named]
  rcases root.faceAt dir with _ | ⟨_ | _ | _ | _⟩
  · rfl
  · rfl
  · rcases root.faceAt (dir ++ [piece]) with _ | ⟨_ | _ | _ | _⟩ <;> rfl
  · rfl
  · rfl

theorem walkWith_congr (same : root.SameShape root') (last : Last)
    (onLink : Location → List String → Except Errno Spot) (dir : Location)
    (pieces : List String) :
    walkWith root last onLink dir pieces = walkWith root' last onLink dir pieces := by
  induction pieces generalizing dir with
  | nil => rfl
  | cons piece rest ih =>
    by_cases filler : Path.isFiller piece = true
    · rw [walkWith_filler filler, walkWith_filler filler, ih]
    by_cases up : piece = ".."
    · subst up
      rw [walkWith_up, walkWith_up, ih]
    have named : IsName piece := ⟨Bool.eq_false_iff.mpr filler, beq_false_of_ne up⟩
    rw [walkWith_name_shape named, walkWith_name_shape named, same, same, ih]

/-- Walks through trees of one shape end alike. -/
theorem walkFrom_congr (same : root.SameShape root') (last : Last) (n : Nat) :
    walkFrom root last n = walkFrom root' last n := by
  induction n with
  | zero =>
    funext dir pieces
    exact walkWith_congr same last _ dir pieces
  | succ n ih =>
    funext dir pieces
    rw [walkFrom, walkFrom, ih]
    exact walkWith_congr same last _ dir pieces

end FileSystem

theorem linkFree_congr (same : root.SameShape root') {dir : Location} {names : List String}
    (free : LinkFree root' dir names) : LinkFree root dir names := by
  intro init inside target link
  obtain ⟨g, found, shape⟩ := same.face link
  cases g with
  | symlink target' => exact free init inside target' found
  | _ => cases shape

theorem lookIn_congr (same : root.SameShape root') (dir : Location) (names : List String) :
    lookIn root dir names = lookIn root' dir names := by
  induction names generalizing dir with
  | nil => rfl
  | cons name names ih =>
    have at_ := same (dir ++ [name])
    rw [lookIn, lookIn, ih]
    revert at_
    rcases root.faceAt (dir ++ [name]) with _ | ⟨_ | _ | _ | _⟩ <;>
      rcases root'.faceAt (dir ++ [name]) with _ | ⟨_ | _ | _ | _⟩ <;> intro at_ <;>
      first | rfl | cases at_

/-! ## Calls -/

namespace FileSystem

variable {fs fs' : FileSystem} {p : Path}

theorem walk_congr (same : fs.root.SameShape fs'.root) (rooted : p.isAbsolute = true)
    (last : Last) : fs.walk last p = fs'.walk last p := by
  rw [walk_of_rooted rooted, walk_of_rooted rooted, walkFrom_congr same]

theorem isDirectory_congr (same : fs.root.SameShape fs'.root) (rooted : p.isAbsolute = true) :
    fs.isDirectory p = fs'.isDirectory p := by
  rw [Bool.eq_iff_iff, isDirectory_iff_walk rooted, isDirectory_iff_walk rooted,
    walk_congr same rooted]
  constructor
  · rintro ⟨loc, mode, walked, found⟩
    obtain ⟨mode', found'⟩ := same.directory ⟨mode, found⟩
    exact ⟨loc, mode', walked, found'⟩
  · rintro ⟨loc, mode, walked, found⟩
    obtain ⟨mode', found'⟩ := same.symm.directory ⟨mode, found⟩
    exact ⟨loc, mode', walked, found'⟩

/-- What is told about an object but for its mode is the same. -/
theorem metadata_congr (same : fs.root.SameShape fs'.root) (rooted : p.isAbsolute = true) :
    (∃ e, fs.metadata p = .error e ∧ fs'.metadata p = .error e) ∨
    ∃ loc node node', fs.walk .follow p = .ok (.object loc) ∧ fs.root.get? loc = some node ∧
      fs'.root.get? loc = some node' ∧ node.face.shape = node'.face.shape ∧
      fs.metadata p = .ok node.metadata ∧ fs'.metadata p = .ok node'.metadata := by
  rw [metadata, metadata, ← walk_congr same rooted]
  rcases walked : fs.walk .follow p with e | loc | ⟨inner, name⟩ | depth
  · exact Or.inl ⟨e, rfl, rfl⟩
  · rcases same.get? loc with ⟨none, none'⟩ | ⟨node, node', found, found', shape⟩
    · exact Or.inl ⟨.os .ENOENT, by dsimp only; rw [none], by dsimp only; rw [none']⟩
    · exact Or.inr ⟨loc, node, node', rfl, found, found', shape, by dsimp only; rw [found],
        by dsimp only; rw [found']⟩
  · exact Or.inl ⟨_, rfl, rfl⟩
  · exact absurd walked (walk_ne_detached rooted depth)

theorem createsAt_congr (same : fs.root.SameShape fs'.root) (rooted : p.isAbsolute = true)
    {flags : OpenFlags} {free : Location} {name : String}
    (creates : fs.CreatesAt p flags free name) : fs'.CreatesAt p flags free name :=
  ⟨creates.1, creates.2.1, (walk_congr same rooted _).symm.trans creates.2.2⟩

/-- Two file systems after a call that has changed contents only; the second was `before`. -/
structure Rewritten (before after after' : FileSystem) : Prop where
  shape : after.root.SameShape after'.root
  keeps : before.root.KeepsModes after'.root
  umask : after'.umask = before.umask

theorem Rewritten.refl (same : fs.root.SameShape fs'.root) : Rewritten fs' fs fs' :=
  ⟨same, fun _ => rfl, rfl⟩

theorem rewritten_update (same : fs.root.SameShape fs'.root) (loc : Location)
    {change : Node → Node} (g : List UInt8 → List UInt8)
    (only : ∀ node, change node = node.mapData g) :
    Rewritten fs' { fs with root := fs.root.update loc change }
      { fs' with root := fs'.root.update loc change } := by
  obtain rfl : change = Node.mapData g := funext only
  have keeps := Node.get?_mapData g
  refine ⟨same.update keeps keeps ?_ loc, Node.keepsModes_update keeps ?_ loc, rfl⟩
  · intro node node' shape
    cases node <;> cases node' <;> cases shape <;> rfl
  · intro node
    cases node <;> rfl

/-- A file is opened in both or in neither; it is created in both or found in both. -/
theorem openFile_congr (same : fs.root.SameShape fs'.root) (rooted : p.isAbsolute = true)
    (flags : OpenFlags) (mode mode' : Mode) :
    (∃ e, fs.openFile p flags mode = .error e ∧ fs'.openFile p flags mode' = .error e) ∨
    (∃ free name, fs.CreatesAt p flags free name) ∨
    ∃ handle opened opened', fs.openFile p flags mode = .ok (handle, opened) ∧
      fs'.openFile p flags mode' = .ok (handle, opened') ∧ Rewritten fs' opened opened' := by
  have directories : (∃ e, fs.openDirectory flags = .error e ∧ fs'.openDirectory flags = .error e) ∨
      fs.openDirectory flags = .ok (handleFor flags none, fs) ∧
        fs'.openDirectory flags = .ok (handleFor flags none, fs') := by
    rw [openDirectory, openDirectory]
    split
    · exact Or.inl ⟨_, rfl, rfl⟩
    · split
      · exact Or.inl ⟨_, rfl, rfl⟩
      · exact Or.inr ⟨rfl, rfl⟩
  by_cases created : ∃ free name, fs.CreatesAt p flags free name
  · exact Or.inr (Or.inl created)
  rw [openFile, openFile, ← walk_congr same rooted]
  split
  · exact Or.inl ⟨_, rfl, rfl⟩
  rcases sound : flags.contradiction? with _ | text
  · rcases walked : fs.walk (lastFor flags) p with e | loc | ⟨free, name⟩ | depth
    · exact Or.inl ⟨e, rfl, rfl⟩
    · dsimp only
      rcases same.get? loc with ⟨none, none'⟩ | ⟨node, node', found, found', shape⟩
      · rw [none, none']
        exact Or.inl ⟨_, rfl, rfl⟩
      · rw [found, found']
        cases node <;> cases node' <;> first | cases shape; done | skip
        · dsimp only
          split
          · exact Or.inl ⟨_, rfl, rfl⟩
          · refine Or.inr (Or.inr ⟨_, _, _, rfl, rfl, ?_⟩)
            split
            · exact rewritten_update same loc (fun _ => []) fun node => by cases node <;> rfl
            · exact .refl same
        · rcases directories with ⟨e, refused, refused'⟩ | ⟨opened, opened'⟩
          · exact Or.inl ⟨e, refused, refused'⟩
          · exact Or.inr (Or.inr ⟨_, _, _, opened, opened', .refl same⟩)
        · dsimp only
          split
          · exact Or.inl ⟨_, rfl, rfl⟩
          · exact Or.inl ⟨_, rfl, rfl⟩
        · dsimp only
          split
          · exact Or.inl ⟨_, rfl, rfl⟩
          · exact Or.inl ⟨_, rfl, rfl⟩
    · dsimp only
      split
      · exact absurd ⟨free, name, ‹_›, sound, walked⟩ created
      · exact Or.inl ⟨_, rfl, rfl⟩
    · exact absurd walked (walk_ne_detached rooted depth)
  · exact Or.inl ⟨_, rfl, rfl⟩

theorem write_congr (same : fs.root.SameShape fs'.root) (handle : Handle) (bytes : List UInt8) :
    (∃ e, fs.write handle bytes = .error e ∧ fs'.write handle bytes = .error e) ∨
    ∃ next written written', fs.write handle bytes = .ok (next, written) ∧
      fs'.write handle bytes = .ok (next, written') ∧ Rewritten fs' written written' := by
  rw [write, write]
  split
  · exact Or.inr ⟨_, _, _, rfl, rfl, .refl same⟩
  split
  · rename_i loc _ _
    have position : fs.writePosition handle loc = fs'.writePosition handle loc := by
      rw [writePosition, writePosition]
      rcases same.get? loc with ⟨none, none'⟩ | ⟨node, node', found, found', shape⟩
      · rw [none, none']
      · rw [found, found']
        rcases handle.append with _ | _ <;> cases node <;> cases node' <;> cases shape <;> rfl
    rw [position]
    exact Or.inr ⟨_, _, _, rfl, rfl, rewritten_update same loc
      (fun data => overwrite data (fs'.writePosition handle loc) bytes)
        fun node => by cases node <;> rfl⟩
  · exact Or.inl ⟨_, rfl, rfl⟩

/-- A mode is set where there is an object, and nothing else is changed. -/
theorem setMode_of_walk {loc : Location} {node : Node}
    (walked : fs.walk .follow p = .ok (.object loc)) (found : fs.root.get? loc = some node)
    (mode : Mode) :
    fs.setMode p mode =
      .ok { fs with root := fs.root.update loc (Node.withMode mode.modeBits) } := by
  rw [setMode, walked]
  dsimp only
  rw [found]

theorem setMode_of_metadata_error {e : CallError} (hidden : fs.metadata p = .error e)
    (mode : Mode) : fs.setMode p mode = .error e := by
  rw [metadata] at hidden
  rw [setMode]
  revert hidden
  rcases fs.walk .follow p with e' | loc | ⟨inner, name⟩ | depth <;> intro hidden
  · cases hidden
    rfl
  · dsimp only at hidden ⊢
    rcases found : fs.root.get? loc with _ | node
    · rw [found] at hidden
      cases hidden
      rfl
    · rw [found] at hidden
      cases hidden
  · cases hidden
    rfl
  · cases hidden

theorem get?_withMode (mode : Mode) (node : Node) (name : String) (rest : Location) :
    (node.withMode mode).get? (name :: rest) = node.get? (name :: rest) := by
  cases node <;> rfl

theorem withMode_shape (same : root.SameShape root') (loc : Location) (mode : Mode) :
    root.SameShape (root'.update loc (Node.withMode mode)) := by
  have alike : ∀ node node' : Node, node.face.shape = node'.face.shape →
      (id node).face.shape = (Node.withMode mode node').face.shape := by
    intro node node' shape
    cases node <;> cases node' <;> cases shape <;> rfl
  have changed : (root.update loc id).SameShape (root'.update loc (Node.withMode mode)) :=
    same.update (fun _ _ _ => rfl) (get?_withMode mode) alike loc
  rwa [Node.update_id] at changed

/-- A directory is created in both or in neither, whatever the modes and the spellings are. -/
theorem createDirectory_congr (same : fs.root.SameShape fs'.root) {q : Path} (plain : p.Plain)
    (plain' : q.Plain) (names : q.names = p.names) (checked : p.check = .ok ())
    (checked' : q.check = .ok ()) (free : LinkFree fs.root [] p.names)
    (free' : LinkFree fs'.root [] p.names)
    (inside : ∃ mode, fs.root.faceAt [] = some (.directory mode)) (mode mode' : Mode) :
    (∃ e, fs.createDirectory q mode = .error e ∧ fs'.createDirectory p mode' = .error e) ∨
    ∃ init name, p.names = init ++ [name] ∧ lookIn fs.root [] init = .ok () ∧
      ¬ maxNameLength < name.utf8ByteSize ∧ fs.root.faceAt (init ++ [name]) = none ∧
      fs.createDirectory q mode =
        .ok (fs.insert init name (.directory (fs.newDirectoryMode init mode) [])) ∧
      fs'.createDirectory p mode' =
        .ok (fs'.insert init name (.directory (fs'.newDirectoryMode init mode') [])) := by
  have inside' := same.directory inside
  rcases List.eq_nil_or_concat p.names with top | ⟨init, name, split⟩
  · exact Or.inl ⟨_, createDirectory_of_top plain' (names.trans top) checked' mode,
      createDirectory_of_top plain top checked mode'⟩
  rw [List.concat_eq_append] at split
  rw [← names] at free
  rw [createDirectory_eq plain' free inside (names.trans split) checked',
    createDirectory_eq plain free' inside' split checked, ← lookIn_congr same]
  rcases looked : lookIn fs.root [] init with e | _
  · exact Or.inl ⟨_, rfl, rfl⟩
  dsimp only
  split
  · exact Or.inl ⟨_, rfl, rfl⟩
  rcases found : fs.root.faceAt (init ++ [name]) with _ | f
  · rw [(same.none_iff _).mp found]
    exact Or.inr ⟨init, name, split, looked, ‹_›, found, rfl, rfl⟩
  · obtain ⟨g, found', -⟩ := same.face found
    rw [found']
    exact Or.inl ⟨_, rfl, rfl⟩

end FileSystem

end ModeAcl
