import ModeAcl.FileSystem.Metadata
import ModeAcl.Proofs.PlainPaths
import ModeAcl.Proofs.Walking

/-!
# Plain paths in trees without links

Where there are no links, a plain path leads to the location that its names
spell (`Walks.location`), and `lookIn` says how far: it looks up one name after
the other, each of which must be a directory. With it, whether a plain path is a
directory and what creating one there does depend on the names alone
(`isDirectory_iff`, `createDirectory_eq`).
-/

namespace ModeAcl

open FileSystem

variable {root : Node} {last : Last} {n : Nat} {dir : Location} {pieces : List String}

/-- The pieces that are names. -/
abbrev solid (pieces : List String) : List String := pieces.filter fun piece => !Path.isFiller piece

/-- No link is met on the way from `dir` along some names. -/
def LinkFree (root : Node) (dir : Location) (names : List String) : Prop :=
  ∀ init, init <+: names → ∀ target, root.faceAt (dir ++ init) ≠ some (.symlink target)

theorem LinkFree.head {name : String} {names : List String}
    (free : LinkFree root dir (name :: names)) (target : String) :
    root.faceAt (dir ++ [name]) ≠ some (.symlink target) :=
  free [name] ⟨names, rfl⟩ target

theorem LinkFree.tail {name : String} {names : List String}
    (free : LinkFree root dir (name :: names)) : LinkFree root (dir ++ [name]) names := by
  intro init inside target
  rw [List.append_assoc]
  exact free (name :: init) (List.cons_prefix_cons.mpr ⟨rfl, inside⟩) target

theorem LinkFree.up {init names : List String} (free : LinkFree root dir names)
    (above : init <+: names) : LinkFree root dir init :=
  fun inside before => free inside (before.trans above)

theorem solid_cons_of_filler {piece : String} (filler : Path.isFiller piece = true)
    (rest : List String) : solid (piece :: rest) = solid rest := by
  simp [solid, filler]

theorem solid_cons_of_named {piece : String} (named : IsName piece) (rest : List String) :
    solid (piece :: rest) = piece :: solid rest := by
  simp [solid, named.notFiller]

/-! ## Locations -/

/-- Without links and dots, a walk arrives at the location of its names. -/
theorem Walks.location {spot : Spot} (walks : Walks root last n dir pieces spot)
    (noUp : ".." ∉ pieces) (free : LinkFree root dir (solid pieces)) :
    (∀ loc, spot = .object loc → loc = dir ++ solid pieces) ∧
      ∀ inner name, spot = .vacant inner name → inner ++ [name] = dir ++ solid pieces := by
  induction walks with
  | arrive =>
    refine ⟨fun loc same => ?_, fun inner name same => by cases same⟩
    cases same
    simp
  | @filler n dir piece rest spot filler _ ih =>
    rw [List.mem_cons, not_or] at noUp
    rw [solid_cons_of_filler filler] at free ⊢
    exact ih noUp.2 free
  | up => exact absurd List.mem_cons_self noUp
  | @enter n dir piece rest spot mode looks found _ ih =>
    rw [List.mem_cons, not_or] at noUp
    rw [solid_cons_of_named looks.named] at free ⊢
    have onward := ih noUp.2 free.tail
    simp only [List.append_assoc, List.singleton_append] at onward
    exact onward
  | @follow n dir piece rest spot target looks found =>
    rw [solid_cons_of_named looks.named] at free
    exact absurd found (free.head target)
  | @find n dir piece face looks found ends =>
    rw [solid_cons_of_named looks.named]
    refine ⟨fun loc same => ?_, fun inner name same => by cases same⟩
    cases same
    rfl
  | @vacant n dir piece rest looks absent ending =>
    rw [solid_cons_of_named looks.named]
    have fillers : solid rest = [] := by
      rw [solid, List.filter_eq_nil_iff]
      intro piece member
      rw [List.all_eq_true] at ending
      simp [Path.isFiller, ending piece member]
    refine ⟨fun loc same => (by cases same), fun inner name same => ?_⟩
    cases same
    rw [fillers]

theorem Walks.linked {spot : Spot} (walks : Walks root last n dir pieces spot) (depth : Nat) :
    spot ≠ .detached depth := by
  induction walks with
  | filler _ _ ih | up _ ih | enter _ _ _ ih | follow _ _ _ _ ih => exact ih
  | _ => simp

/-! ## Looking up -/

/-- Look up names one after the other, each a directory in the one before. -/
def lookIn (root : Node) : Location → List String → Except Errno Unit
  | _, [] => .ok ()
  | dir, name :: names =>
    if maxNameLength < name.utf8ByteSize then .error .ENAMETOOLONG
    else
      match root.faceAt (dir ++ [name]) with
      | none => .error .ENOENT
      | some (.directory _) => lookIn root (dir ++ [name]) names
      | some _ => .error .ENOTDIR

/-- All names could be looked up if the first one is a directory where the others could be. -/
theorem lookIn_cons_eq_ok_iff {name : String} {names : List String} :
    lookIn root dir (name :: names) = .ok () ↔
      ¬ maxNameLength < name.utf8ByteSize ∧
        (∃ mode, root.faceAt (dir ++ [name]) = some (.directory mode)) ∧
          lookIn root (dir ++ [name]) names = .ok () := by
  rw [lookIn]
  by_cases long : maxNameLength < name.utf8ByteSize
  · simp [long]
  · rw [if_neg long]
    rcases root.faceAt (dir ++ [name]) with _ | ⟨_ | _ | _ | _⟩ <;> simp [long]

theorem lookIn_append (names : List String) (name : String) :
    lookIn root dir (names ++ [name]) =
      match lookIn root dir names with
      | .error e => .error e
      | .ok () => lookIn root (dir ++ names) [name] := by
  induction names generalizing dir with
  | nil => simp [lookIn]
  | cons first names ih =>
    rw [List.cons_append, lookIn, lookIn]
    split
    · rfl
    · have onward := @ih (dir ++ [first])
      rw [List.append_assoc, List.singleton_append] at onward
      rcases root.faceAt (dir ++ [first]) with _ | ⟨_ | _ | _ | _⟩
      · rfl
      · rfl
      · exact onward
      · rfl
      · rfl

/-- Where all names could be looked up, there is a directory. -/
theorem directory_of_lookIn {names : List String}
    (inside : ∃ mode, root.faceAt dir = some (.directory mode))
    (looked : lookIn root dir names = .ok ()) :
    ∃ mode, root.faceAt (dir ++ names) = some (.directory mode) := by
  induction names generalizing dir with
  | nil =>
    rw [List.append_nil]
    exact inside
  | cons name names ih =>
    obtain ⟨-, found, onward⟩ := lookIn_cons_eq_ok_iff.mp looked
    have there := ih found onward
    rwa [List.append_assoc, List.singleton_append] at there

theorem lookIn_mono {root' : Node}
    (grows : ∀ loc f, root.faceAt loc = some f → root'.faceAt loc = some f) {names : List String}
    (looked : lookIn root dir names = .ok ()) : lookIn root' dir names = .ok () := by
  induction names generalizing dir with
  | nil => rfl
  | cons name names ih =>
    obtain ⟨short, ⟨mode, found⟩, onward⟩ := lookIn_cons_eq_ok_iff.mp looked
    exact lookIn_cons_eq_ok_iff.mpr ⟨short, ⟨mode, grows _ _ found⟩, ih onward⟩

/-- One name of a walk that follows links and allows slashes. -/
theorem walkFrom_follow {piece : String} (named : IsName piece)
    (inside : ∃ mode, root.faceAt dir = some (.directory mode)) (rest : List String) :
    walkFrom root .follow n dir (piece :: rest) =
      if maxNameLength < piece.utf8ByteSize then .error .ENAMETOOLONG
      else
        match root.faceAt (dir ++ [piece]) with
        | none => if rest.all (· == "") then .ok (.vacant dir piece) else .error .ENOENT
        | some (.directory _) => walkFrom root .follow n (dir ++ [piece]) rest
        | some (.symlink target) =>
          walkLink root .follow n (linkStart target dir rest).1 (linkStart target dir rest).2
        | some _ => if rest.isEmpty then .ok (.object (dir ++ [piece])) else .error .ENOTDIR := by
  by_cases long : maxNameLength < piece.utf8ByteSize
  · obtain ⟨mode, inside⟩ := inside
    rw [FileSystem.walkFrom_eq, walkWith_name named, inside]
    simp [Last.refusesSlash, long]
  · have looks : LooksUp root .follow dir piece rest := ⟨named, inside, rfl, long⟩
    rw [looks.walkFrom_eq, if_neg long]
    rcases root.faceAt (dir ++ [piece]) with _ | ⟨_ | _ | _ | _⟩ <;> simp [Last.follows]

theorem walkFrom_filler {piece : String} (filler : Path.isFiller piece = true)
    (rest : List String) :
    walkFrom root last n dir (piece :: rest) = walkFrom root last n dir rest := by
  rw [FileSystem.walkFrom_eq, walkWith_filler filler]

/-- With a slash at the end, a walk looks up all of its names. -/
theorem walkFrom_slash (noUp : ".." ∉ pieces) (free : LinkFree root dir (solid pieces))
    (inside : ∃ mode, root.faceAt dir = some (.directory mode)) :
    (∃ e, walkFrom root .follow n dir (pieces ++ [""]) = .error e ∧
      lookIn root dir (solid pieces) = .error e) ∨
    (∃ inner name, walkFrom root .follow n dir (pieces ++ [""]) = .ok (.vacant inner name) ∧
      lookIn root dir (solid pieces) = .error .ENOENT) ∨
    walkFrom root .follow n dir (pieces ++ [""]) = .ok (.object (dir ++ solid pieces)) ∧
      lookIn root dir (solid pieces) = .ok () := by
  induction pieces generalizing dir with
  | nil =>
    refine Or.inr (Or.inr ⟨?_, rfl⟩)
    rw [List.nil_append, walkFrom_filler rfl, FileSystem.walkFrom_eq, walkWith]
    simp
  | cons piece rest ih =>
    rw [List.mem_cons, not_or] at noUp
    rw [List.cons_append]
    by_cases filler : Path.isFiller piece = true
    · rw [walkFrom_filler filler, solid_cons_of_filler filler] at *
      exact ih noUp.2 free inside
    have named : IsName piece := ⟨Bool.eq_false_iff.mpr filler, beq_false_of_ne (Ne.symm noUp.1)⟩
    rw [solid_cons_of_named named] at free ⊢
    rw [walkFrom_follow named inside, lookIn]
    by_cases long : maxNameLength < piece.utf8ByteSize
    · exact Or.inl ⟨.ENAMETOOLONG, by rw [if_pos long], by rw [if_pos long]⟩
    rw [if_neg long, if_neg long]
    rcases found : root.faceAt (dir ++ [piece]) with _ | ⟨_ | mode | target | _⟩
    · by_cases ending : (rest ++ [""]).all (· == "") = true
      · exact Or.inr (Or.inl ⟨dir, piece, by rw [if_pos ending], rfl⟩)
      · exact Or.inl ⟨.ENOENT, by rw [if_neg ending], rfl⟩
    · exact Or.inl ⟨.ENOTDIR, by simp, rfl⟩
    · have onward := ih noUp.2 free.tail ⟨mode, found⟩
      rwa [List.append_assoc, List.singleton_append] at onward
    · exact absurd found (free.head target)
    · exact Or.inl ⟨.ENOTDIR, by simp, rfl⟩

/-- A walk arrives at a directory exactly if all of its names can be looked up. -/
theorem walkFrom_directory_iff (noUp : ".." ∉ pieces) (free : LinkFree root dir (solid pieces))
    (inside : ∃ mode, root.faceAt dir = some (.directory mode)) :
    (∃ loc mode, walkFrom root .follow n dir pieces = .ok (.object loc) ∧
      root.faceAt loc = some (.directory mode)) ↔ lookIn root dir (solid pieces) = .ok () := by
  induction pieces generalizing dir with
  | nil =>
    obtain ⟨mode, inside⟩ := inside
    refine iff_of_true ⟨dir, mode, ?_, inside⟩ rfl
    rw [FileSystem.walkFrom_eq, walkWith]
  | cons piece rest ih =>
    rw [List.mem_cons, not_or] at noUp
    by_cases filler : Path.isFiller piece = true
    · rw [walkFrom_filler filler]
      rw [solid_cons_of_filler filler] at free ⊢
      exact ih noUp.2 free inside
    have named : IsName piece := ⟨Bool.eq_false_iff.mpr filler, beq_false_of_ne (Ne.symm noUp.1)⟩
    rw [solid_cons_of_named named] at free ⊢
    rw [walkFrom_follow named inside, lookIn]
    by_cases long : maxNameLength < piece.utf8ByteSize
    · simp [long]
    rw [if_neg long, if_neg long]
    rcases found : root.faceAt (dir ++ [piece]) with _ | ⟨_ | mode | target | _⟩
    · by_cases ending : rest.all (· == "") = true <;> simp [ending]
    · by_cases none : rest.isEmpty = true <;> simp [none, found]
    · exact ih noUp.2 free.tail ⟨mode, found⟩
    · exact absurd found (free.head target)
    · by_cases none : rest.isEmpty = true <;> simp [none, found]

/-! ## Plain paths -/

theorem Path.Plain.isName {p : Path} (plain : p.Plain) {name : String} (member : name ∈ p.names) :
    IsName name := by
  obtain ⟨notEmpty, notHere, notUp, -⟩ := plain.proper member
  refine ⟨?_, beq_false_of_ne notUp⟩
  rw [Path.isFiller, Bool.or_eq_false_iff]
  exact ⟨beq_false_of_ne notEmpty, beq_false_of_ne notHere⟩

/-- The last piece of a plain path is its last name, but for a slash. -/
theorem partLast_plain {p : Path} (plain : p.Plain) {init : List String} {name : String}
    (named : p.names = init ++ [name]) :
    ∃ before slash, partLast p.pieces = (before, name, slash) ∧ solid before = init ∧
      ".." ∉ before := by
  have parts := List.takeWhile_append_dropWhile (p := (· == "")) (l := p.pieces.reverse)
  have empty : solid (p.pieces.reverse.takeWhile (· == "")).reverse = [] := by
    rw [solid, List.filter_eq_nil_iff]
    intro piece member
    have all := List.all_eq_true.mp (List.all_takeWhile (p := (· == "")) (l := p.pieces.reverse))
    simp [Path.isFiller, all piece (List.mem_reverse.mp member)]
  rw [partLast]
  rcases left : p.pieces.reverse.dropWhile (· == "") with _ | ⟨last, before⟩
  · rw [left, List.append_nil] at parts
    have none : p.names = [] := by
      rw [Path.names, ← List.reverse_reverse p.pieces, ← parts]
      exact empty
    rw [none] at named
    simp at named
  · rw [left] at parts
    have whole : p.pieces = before.reverse ++ [last] ++
        (p.pieces.reverse.takeWhile (· == "")).reverse := by
      have turned := congrArg List.reverse parts.symm
      simpa using turned
    have proper : IsName last := by
      have notEmpty := List.head_dropWhile_not (· == "") (l := p.pieces.reverse)
        (by rw [left]; simp)
      simp only [left, List.head_cons] at notEmpty
      have member : last ∈ p.pieces := by
        rw [whole]
        simp
      refine ⟨?_, beq_false_of_ne fun up => plain.noUp (up ▸ member)⟩
      rw [Path.isFiller, notEmpty, Bool.false_or]
      exact beq_false_of_ne fun here => plain.noHere (here ▸ member)
    have names : p.names = solid before.reverse ++ [last] := by
      have filtered := congrArg solid whole
      rw [solid, solid, List.filter_append, List.filter_append] at filtered
      rw [Path.names, filtered]
      have none : List.filter (fun piece => !Path.isFiller piece)
        (p.pieces.reverse.takeWhile (· == "")).reverse = [] := empty
      rw [none]
      simp [solid, proper.notFiller]
    rw [names] at named
    obtain ⟨same, final⟩ := List.append_inj' named rfl
    cases final
    refine ⟨before.reverse, _, rfl, same, fun up => plain.noUp ?_⟩
    rw [whole]
    exact List.mem_append_left _ (List.mem_append_left _ up)

namespace FileSystem

variable {fs : FileSystem} {p : Path}

theorem walk_of_rooted (rooted : p.isAbsolute = true) :
    fs.walk last p =
      match p.check with
      | .error e => .error e
      | .ok () => (walkFrom fs.root last maxLinks [] p.pieces).mapError .os := by
  rw [walk, walkPieces, rooted]
  rfl

theorem walks_of_walk (rooted : p.isAbsolute = true) {spot : Spot}
    (walked : fs.walk last p = .ok spot) : Walks fs.root last maxLinks [] p.pieces spot := by
  obtain ⟨-, pieces⟩ := walk_eq_ok walked
  rwa [walkPieces, rooted, if_pos rfl, walkFrom_eq_ok_iff] at pieces

theorem walk_ne_detached (rooted : p.isAbsolute = true) (depth : Nat) :
    fs.walk last p ≠ .ok (.detached depth) := fun walked =>
  (walks_of_walk rooted walked).linked depth rfl

/-- A plain path leads to the location of its names, or to the free name there. -/
theorem location_of_walk (plain : p.Plain) (free : LinkFree fs.root [] p.names) {spot : Spot}
    (walked : fs.walk last p = .ok spot) :
    spot = .object p.names ∨ ∃ inner name, spot = .vacant inner name ∧ inner ++ [name] = p.names := by
  obtain ⟨object, vacant⟩ := (walks_of_walk plain.rooted walked).location plain.noUp free
  cases spot with
  | object loc => exact Or.inl (congrArg Spot.object (object loc rfl))
  | vacant inner name => exact Or.inr ⟨inner, name, rfl, vacant inner name rfl⟩
  | detached depth => exact absurd walked (walk_ne_detached plain.rooted depth)

theorem isDirectory_iff_walk (rooted : p.isAbsolute = true) :
    fs.isDirectory p = true ↔ ∃ loc mode, fs.walk .follow p = .ok (.object loc) ∧
      fs.root.faceAt loc = some (.directory mode) := by
  rw [isDirectory, metadata]
  rcases walked : fs.walk .follow p with e | loc | ⟨inner, name⟩ | depth
  · simp
  · simp only [Except.ok.injEq, Spot.object.injEq, Node.faceAt_directory]
    rcases found : fs.root.get? loc with _ | ⟨_ | _ | _ | _⟩ <;>
      simp [found, Node.metadata, Metadata.isDirectory, Node.type]
  · simp
  · exact absurd walked (walk_ne_detached rooted depth)

/-- Whether a plain path leads to a directory. -/
theorem isDirectory_iff (plain : p.Plain) (free : LinkFree fs.root [] p.names)
    (inside : ∃ mode, fs.root.faceAt [] = some (.directory mode)) :
    fs.isDirectory p = true ↔ p.check = .ok () ∧ lookIn fs.root [] p.names = .ok () := by
  have arrives := walkFrom_directory_iff (n := maxLinks) plain.noUp free inside
  rw [isDirectory_iff_walk plain.rooted, walk_of_rooted plain.rooted]
  rw [Path.names, ← arrives]
  rcases p.check with e | _
  · simp
  · rcases walkFrom fs.root .follow maxLinks [] p.pieces with e | spot <;> simp [Except.mapError]

/-- What comes of creating a directory at a plain path. -/
theorem createDirectory_eq (plain : p.Plain) (free : LinkFree fs.root [] p.names)
    (inside : ∃ mode, fs.root.faceAt [] = some (.directory mode)) {init : List String}
    {name : String} (named : p.names = init ++ [name]) (checked : p.check = .ok ()) (mode : Mode) :
    fs.createDirectory p mode =
      match lookIn fs.root [] init with
      | .error e => .error (.os e)
      | .ok () =>
        if maxNameLength < name.utf8ByteSize then .error (.os .ENAMETOOLONG)
        else
          match fs.root.faceAt (init ++ [name]) with
          | some _ => .error (.os .EEXIST)
          | none => .ok (fs.insert init name (.directory (fs.newDirectoryMode init mode) [])) := by
  obtain ⟨before, slash, parted, rfl, noUp⟩ := partLast_plain plain named
  have proper : IsName name := plain.isName (by rw [named]; simp)
  have ends : (Path.isFiller name || name == "..") = false := by
    rw [proper.notFiller, proper.notUp]
    rfl
  have free' : LinkFree fs.root [] (solid before) := free.up ⟨[name], named.symm⟩
  rw [createDirectory, slot, checked]
  simp only [parted, walkPieces, plain.rooted, if_true]
  rcases walkFrom_slash (n := maxLinks) noUp free' inside with
    ⟨e, walked, looked⟩ | ⟨inner, own, walked, looked⟩ | ⟨walked, looked⟩
  · rw [walked, looked]
  · rw [walked, looked]
  · rw [walked, looked, List.nil_append]
    simp only [ends, Bool.false_eq_true, if_false]
    by_cases long : maxNameLength < name.utf8ByteSize
    · simp [long]
    · simp only [if_neg long, entry?_eq_get?]
      rw [Node.faceAt]
      rcases fs.root.get? (solid before ++ [name]) with _ | node <;> rfl

theorem createDirectory_of_top (plain : p.Plain) (top : p.names = []) (checked : p.check = .ok ())
    (mode : Mode) : fs.createDirectory p mode = .error (.os .EEXIST) := by
  have slashes : p.pieces.reverse.dropWhile (· == "") = [] := by
    rw [List.dropWhile_eq_nil_iff]
    intro piece member
    rw [List.mem_reverse] at member
    have filler := List.filter_eq_nil_iff.mp top piece member
    rw [Bool.not_eq_true, Bool.not_eq_false', Path.isFiller, Bool.or_eq_true] at filler
    exact filler.resolve_right fun here => plain.noHere (beq_iff_eq.mp here ▸ member)
  have parted : partLast p.pieces = ([], "", true) := by
    rw [partLast, slashes]
  have walked : walkFrom fs.root .follow maxLinks [] [""] = .ok (.object []) := by
    rw [walkFrom_filler rfl, FileSystem.walkFrom_eq, walkWith]
  rw [createDirectory, slot, checked]
  simp only [parted, walkPieces, plain.rooted, if_true, List.nil_append, walked]
  rfl

theorem createDirectory_of_check {e : CallError} (refused : p.check = .error e) (mode : Mode) :
    fs.createDirectory p mode = .error e := by
  rw [createDirectory, slot, refused]

/-- Where a directory is, none can be created. -/
theorem createDirectory_of_isDirectory (plain : p.Plain) (free : LinkFree fs.root [] p.names)
    (inside : ∃ mode, fs.root.faceAt [] = some (.directory mode)) (mode : Mode)
    (found : fs.isDirectory p = true) : fs.createDirectory p mode = .error (.os .EEXIST) := by
  obtain ⟨checked, looked⟩ := (isDirectory_iff plain free inside).mp found
  rcases List.eq_nil_or_concat p.names with top | ⟨init, name, split⟩
  · exact createDirectory_of_top plain top checked mode
  rw [List.concat_eq_append] at split
  rw [createDirectory_eq plain free inside split checked]
  rw [split, lookIn_append] at looked
  rcases before : lookIn fs.root [] init with e | _
  · rw [before] at looked
    cases looked
  · rw [before] at looked
    obtain ⟨short, ⟨mode', there⟩, -⟩ := lookIn_cons_eq_ok_iff.mp looked
    rw [List.nil_append] at there
    dsimp only
    rw [if_neg short, there]

/-- None can be created either where names cannot be looked up for other reasons than that one is
missing. -/
theorem createDirectory_of_blocked (plain : p.Plain) (free : LinkFree fs.root [] p.names)
    (inside : ∃ mode, fs.root.faceAt [] = some (.directory mode)) (checked : p.check = .ok ())
    {e : Errno} (blocked : lookIn fs.root [] p.names = .error e) (other : e.kind ≠ .notFound)
    (mode : Mode) : ∃ e', fs.createDirectory p mode = .error e' := by
  rcases List.eq_nil_or_concat p.names with top | ⟨init, name, named⟩
  · exact ⟨_, createDirectory_of_top plain top checked mode⟩
  rw [List.concat_eq_append] at named
  rw [createDirectory_eq plain free inside named checked]
  rw [named, lookIn_append] at blocked
  rcases looked : lookIn fs.root [] init with e' | _
  · exact ⟨_, rfl⟩
  rw [looked] at blocked
  dsimp only at blocked ⊢
  rw [lookIn, List.nil_append] at blocked
  split at blocked
  · rw [if_pos ‹_›]
    exact ⟨_, rfl⟩
  · rw [if_neg ‹_›]
    rcases there : fs.root.faceAt (init ++ [name]) with _ | f
    · rw [there] at blocked
      cases blocked
      exact absurd rfl other
    · exact ⟨_, rfl⟩

/-- A plain path leads to the directory that was created for its names. -/
theorem isDirectory_insert (plain : p.Plain) (free : LinkFree fs.root [] p.names)
    (inside : ∃ mode, fs.root.faceAt [] = some (.directory mode)) (checked : p.check = .ok ())
    {init : List String} {name : String} (named : p.names = init ++ [name])
    (looked : lookIn fs.root [] init = .ok ()) (short : ¬ maxNameLength < name.utf8ByteSize)
    (absent : fs.root.faceAt (init ++ [name]) = none) (mode : Mode) :
    (fs.insert init name (.directory mode [])).isDirectory p = true := by
  obtain ⟨own, there⟩ := directory_of_lookIn inside looked
  have faces : ∀ loc, (fs.insert init name (.directory mode [])).root.faceAt loc =
      if loc = init ++ [name] then some (.directory mode) else fs.root.faceAt loc :=
    Node.faceAt_insert there absent (Node.isLeaf_directory mode)
  have grows : ∀ loc f, fs.root.faceAt loc = some f →
      (fs.insert init name (.directory mode [])).root.faceAt loc = some f :=
    Node.faceAt_insert_of_found there absent (Node.isLeaf_directory mode)
  have free' : LinkFree (fs.insert init name (.directory mode [])).root [] p.names := by
    intro names before target
    rw [faces]
    split
    · simp
    · exact free names before target
  obtain ⟨top, inside⟩ := inside
  refine (isDirectory_iff plain free' ⟨top, grows _ _ inside⟩).mpr ⟨checked, ?_⟩
  rw [named, lookIn_append, lookIn_mono grows looked]
  refine lookIn_cons_eq_ok_iff.mpr ⟨short, ⟨mode, ?_⟩, rfl⟩
  rw [faces, List.nil_append, if_pos rfl]

theorem hasObject_of_isDirectory (found : fs.isDirectory p = true) : fs.hasObject p = true := by
  rw [isDirectory] at found
  rw [hasObject]
  rcases told : fs.metadata p with e | m
  · rw [told] at found
    cases found
  · rfl

end FileSystem

end ModeAcl
