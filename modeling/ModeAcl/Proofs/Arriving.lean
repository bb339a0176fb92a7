import ModeAcl.Proofs.Ancestors
import ModeAcl.Proofs.PlainWalks

/-!
# Directories behind links

Names lead to a directory (`Node.Arrives`) if a walk along them, from the root
and through links, ends there. Whatever fillers a path has, it is a directory
exactly if the names of its absolute path lead to one (`isDirectory_iff_arrives`).
Directories that names lead to stay where they are as long as nothing is removed
(`Keeps`).
-/

namespace ModeAcl

open FileSystem

variable {root root' : Node} {last : Last} {n : Nat} {dir loc : Location}

theorem Path.Straight.isName {p : Path} (straight : p.Straight) {name : String}
    (member : name ∈ p.names) : IsName name := by
  obtain ⟨notEmpty, notHere, notUp, -⟩ := straight.proper member
  refine ⟨?_, beq_false_of_ne notUp⟩
  rw [Path.isFiller, Bool.or_eq_false_iff]
  exact ⟨beq_false_of_ne notEmpty, beq_false_of_ne notHere⟩

/-! ## Fillers -/

theorem Walks.fillers {ps rest : List String} {spot : Spot}
    (fillers : ∀ piece ∈ ps, Path.isFiller piece = true)
    (walks : Walks root last n dir rest spot) : Walks root last n dir (ps ++ rest) spot := by
  induction ps with
  | nil => exact walks
  | cons piece ps ih =>
    exact .filler (fillers piece List.mem_cons_self)
      (ih fun other member => fillers other (List.mem_cons_of_mem _ member))

theorem solid_solid (pieces : List String) : solid (solid pieces) = solid pieces := by
  simp [solid]

/-- A piece that is no filler, behind some fillers. -/
theorem split_of_solid {piece : String} {names qs : List String}
    (same : solid qs = piece :: names) :
    ∃ before rest, qs = before ++ piece :: rest ∧
      (∀ filler ∈ before, Path.isFiller filler = true) ∧ solid rest = names := by
  obtain ⟨before, rest, parts, fillers, -, others⟩ := List.filter_eq_cons_iff.mp same
  exact ⟨before, rest, parts, fun filler member => by simpa using fillers filler member, others⟩

theorem all_fillers_of_solid {qs : List String} (none : solid qs = []) :
    ∀ piece ∈ qs, Path.isFiller piece = true := by
  intro piece member
  simpa using List.filter_eq_nil_iff.mp none piece member

/-- A walk to a directory does not depend on the fillers among its pieces. -/
theorem Walks.respell {ps qs : List String} (walks : Walks root .follow n dir ps (.object loc))
    (inside : ∃ mode, root.faceAt loc = some (.directory mode)) (same : solid qs = solid ps) :
    Walks root .follow n dir qs (.object loc) := by
  generalize goal : Spot.object loc = spot at walks
  induction walks generalizing qs with
  | arrive =>
    rw [← List.append_nil qs]
    exact .fillers (all_fillers_of_solid same) (by cases goal; exact .arrive)
  | filler filler _ ih =>
    rw [solid_cons_of_filler filler] at same
    exact ih same goal
  | up _ ih =>
    obtain ⟨before, rest, rfl, fillers, others⟩ := split_of_solid (same.trans rfl)
    exact .fillers fillers (.up (ih others goal))
  | enter looks found _ ih =>
    rw [solid_cons_of_named looks.named] at same
    obtain ⟨before, rest, rfl, fillers, others⟩ := split_of_solid same
    exact .fillers fillers (.enter looks.ease found (ih others goal))
  | @follow n dir piece rest spot target looks found _ _ ih =>
    rw [solid_cons_of_named looks.named] at same
    obtain ⟨before, rest', rfl, fillers, others⟩ := split_of_solid same
    refine .fillers fillers (.follow looks.ease found (by simp [Last.follows]) (ih ?_ goal))
    simp only [linkStart, solid, List.filter_append]
    exact congrArg _ others
  | find looks found ends =>
    cases goal
    obtain ⟨mode, inside⟩ := inside
    rw [found] at inside
    cases inside
    exact absurd ends id
  | vacant => cases goal

/-! ## One more name -/

/-- A walk to an object through one more name has come through a directory that has an entry of this
name: the object itself, or a link. -/
theorem Walks.last_name {init : List String} {name : String} (named : IsName name)
    (walks : Walks root .follow n dir (init ++ [name]) (.object loc)) :
    ∃ inner, Walks root .follow n dir init (.object inner) ∧
      (∃ mode, root.faceAt inner = some (.directory mode)) ∧
      ¬ maxNameLength < name.utf8ByteSize ∧
      (loc = inner ++ [name] ∧ root.faceAt loc ≠ none ∨
        ∃ target, root.faceAt (inner ++ [name]) = some (.symlink target)) := by
  generalize goal : Spot.object loc = spot at walks
  generalize whole : init ++ [name] = pieces at walks
  induction walks generalizing init with
  | arrive => simp at whole
  | filler filler _ ih =>
    cases init with
    | nil =>
      cases whole
      rw [named.notFiller] at filler
      cases filler
    | cons piece init =>
      cases whole
      obtain ⟨inner, walks, rest⟩ := ih goal rfl
      exact ⟨inner, .filler filler walks, rest⟩
  | up _ ih =>
    cases init with
    | nil =>
      cases whole
      exact absurd named.notUp (by decide)
    | cons piece init =>
      cases whole
      obtain ⟨inner, walks, rest⟩ := ih goal rfl
      exact ⟨inner, .up walks, rest⟩
  | @enter n dir piece rest spot mode looks found walks ih =>
    cases init with
    | nil =>
      cases whole
      cases goal
      cases walks
      exact ⟨dir, .arrive, looks.inside, looks.short, Or.inl ⟨rfl, by rw [found]; simp⟩⟩
    | cons piece init =>
      cases whole
      obtain ⟨inner, walks, rest⟩ := ih goal rfl
      exact ⟨inner, .enter looks.ease found walks, rest⟩
  | @follow n dir piece rest spot target looks found _ walks ih =>
    cases init with
    | nil =>
      cases whole
      exact ⟨dir, .arrive, looks.inside, looks.short, Or.inr ⟨target, found⟩⟩
    | cons piece init =>
      cases whole
      obtain ⟨inner, walks, rest⟩ := @ih (Path.pieces ⟨target⟩ ++ init) goal (by simp [linkStart])
      exact ⟨inner, .follow looks.ease found (by simp [Last.follows]) walks, rest⟩
  | @find n dir piece face looks found ends =>
    cases init with
    | nil =>
      cases whole
      cases goal
      exact ⟨dir, .arrive, looks.inside, looks.short, Or.inl ⟨rfl, by rw [found]; simp⟩⟩
    | cons piece init => simp at whole
  | vacant => cases goal

/-- A walk to a directory can go on from there. -/
theorem Walks.append {ps tail : List String} {spot : Spot}
    (walks : Walks root .follow n dir ps (.object loc))
    (inside : ∃ mode, root.faceAt loc = some (.directory mode))
    (onward : ∀ m, Walks root .follow m loc tail spot) :
    Walks root .follow n dir (ps ++ tail) spot := by
  generalize goal : Spot.object loc = spot' at walks
  induction walks with
  | arrive => cases goal; exact onward _
  | filler filler _ ih => exact .filler filler (ih goal)
  | up _ ih => exact .up (ih goal)
  | enter looks found _ ih => exact .enter looks.ease found (ih goal)
  | @follow n dir piece rest spot' target looks found _ _ ih =>
    refine .follow looks.ease found (by simp [Last.follows]) ?_
    have later := ih goal
    rwa [linkStart, List.append_assoc] at later
  | find looks found ends =>
    cases goal
    obtain ⟨mode, inside⟩ := inside
    rw [found] at inside
    cases inside
    exact absurd ends id
  | vacant => cases goal

theorem directory_dropLast (inside : ∃ mode, root.faceAt dir = some (.directory mode)) :
    ∃ mode, root.faceAt dir.dropLast = some (.directory mode) := by
  rcases List.eq_nil_or_concat dir with rfl | ⟨init, name, rfl⟩
  · exact inside
  · obtain ⟨mode, inside⟩ := inside
    rw [List.concat_eq_append] at inside ⊢
    rw [List.dropLast_concat]
    exact Node.directory_of_faceAt_append (by simp) inside

theorem directory_top (inside : ∃ mode, root.faceAt dir = some (.directory mode)) :
    ∃ mode, root.faceAt [] = some (.directory mode) := by
  by_cases top : dir = []
  · rwa [top] at inside
  · obtain ⟨mode, inside⟩ := inside
    exact Node.directory_of_faceAt_append top inside

/-- With a slash at its end, a walk to an object ends at a directory. -/
theorem Walks.directory_of_slash {ps : List String}
    (walks : Walks root last n dir (ps ++ [""]) (.object loc))
    (inside : ∃ mode, root.faceAt dir = some (.directory mode)) :
    ∃ mode, root.faceAt loc = some (.directory mode) := by
  generalize goal : Spot.object loc = spot at walks
  generalize whole : ps ++ [""] = pieces at walks
  have slash : ∀ {piece : String}, IsName piece → piece ≠ "" := by
    rintro piece named rfl
    exact absurd named.notFiller (by decide)
  induction walks generalizing ps with
  | arrive => simp at whole
  | filler filler walks ih =>
    cases ps with
    | nil =>
      cases whole
      cases goal
      cases walks
      exact inside
    | cons piece ps =>
      cases whole
      exact ih inside goal rfl
  | up _ ih =>
    cases ps with
    | nil => simp at whole
    | cons piece ps =>
      cases whole
      exact ih (directory_dropLast inside) goal rfl
  | enter looks found _ ih =>
    cases ps with
    | nil => exact absurd (List.cons.inj whole).1.symm (slash looks.named)
    | cons piece ps =>
      cases whole
      exact ih ⟨_, found⟩ goal rfl
  | @follow n dir piece rest spot target looks found _ _ ih =>
    cases ps with
    | nil => exact absurd (List.cons.inj whole).1.symm (slash looks.named)
    | cons piece ps =>
      cases whole
      refine @ih (Path.pieces ⟨target⟩ ++ ps) ?_ goal (by simp [linkStart])
      rw [linkStart]
      dsimp only
      split
      · exact directory_top inside
      · exact inside
  | find looks found ends =>
    cases ps with
    | nil => exact absurd (List.cons.inj whole).1.symm (slash looks.named)
    | cons piece ps => simp at whole
  | vacant => cases goal

/-! ## Names that lead to a directory -/

/-- The names lead from the root, through links, to a directory. -/
structure Node.Arrives (root : Node) (names : List String) (loc : Location) : Prop where
  walks : Walks root .follow maxLinks [] names (.object loc)
  inside : ∃ mode, root.faceAt loc = some (.directory mode)

namespace Node.Arrives

variable {names init : List String} {name : String} {inner : Location}

theorem unique {loc' : Location} (arrives : root.Arrives names loc)
    (again : root.Arrives names loc') : loc = loc' := by
  have first := arrives.walks.walkFrom_eq
  rw [again.walks.walkFrom_eq] at first
  cases first
  rfl

theorem mono (grows : ∀ loc f, root.faceAt loc = some f → root'.faceAt loc = some f)
    (arrives : root.Arrives names loc) : root'.Arrives names loc :=
  ⟨arrives.walks.mono grows, arrives.inside.imp fun _ found => grows _ _ found⟩

theorem top (inside : ∃ mode, root.faceAt [] = some (.directory mode)) : root.Arrives [] [] :=
  ⟨.arrive, inside⟩

/-- Behind names that lead to a directory comes the name of a directory in it. -/
theorem enter (arrives : root.Arrives init inner) (named : IsName name)
    (short : ¬ maxNameLength < name.utf8ByteSize)
    (found : ∃ mode, root.faceAt (inner ++ [name]) = some (.directory mode)) :
    root.Arrives (init ++ [name]) (inner ++ [name]) := by
  obtain ⟨mode, there⟩ := found
  exact ⟨arrives.walks.append arrives.inside fun m =>
    .enter ⟨named, arrives.inside, rfl, short⟩ there .arrive, mode, there⟩

/-- All names but the last lead to a directory that has an entry of the last name: a directory or
a link. -/
theorem parent (named : IsName name) (arrives : root.Arrives (init ++ [name]) loc) :
    ∃ inner, root.Arrives init inner ∧ ¬ maxNameLength < name.utf8ByteSize ∧
      (loc = inner ++ [name] ∨
        ∃ target, root.faceAt (inner ++ [name]) = some (.symlink target)) := by
  obtain ⟨inner, walks, inside, short, place⟩ := arrives.walks.last_name named
  exact ⟨inner, ⟨walks, inside⟩, short, place.imp_left And.left⟩

/-- Nothing is behind an empty directory. -/
theorem not_below (arrives : root.Arrives init inner) (named : IsName name)
    (free : root.faceAt (inner ++ [name]) = none) : ¬ root.Arrives (init ++ [name]) loc := by
  intro below
  obtain ⟨inner', above, -, place⟩ := below.parent named
  rw [above.unique arrives] at place
  rcases place with rfl | ⟨target, found⟩
  · obtain ⟨mode, found⟩ := below.inside
    rw [free] at found
    cases found
  · rw [free] at found
    cases found

end Node.Arrives

/-- A directory is found along the names of its location. -/
theorem Node.arrives_location {base : Location}
    (inside : ∃ mode, root.faceAt base = some (.directory mode))
    (proper : ∀ name ∈ base, IsName name ∧ ¬ maxNameLength < name.utf8ByteSize) :
    root.Arrives base base := by
  induction base using List.reverseRecOn with
  | nil => exact .top inside
  | append_singleton init name ih =>
    obtain ⟨mode, found⟩ := inside
    have above := ih (Node.directory_of_faceAt_append (by simp) found)
      fun other member => proper other (List.mem_append_left _ member)
    obtain ⟨named, short⟩ := proper name (by simp)
    exact above.enter named short ⟨mode, found⟩

/-- A walk to a directory can begin at any directory on its way. -/
theorem walkFrom_base {base : Location} (arrives : root.Arrives base base)
    (proper : ∀ name ∈ base, IsName name ∧ ¬ maxNameLength < name.utf8ByteSize)
    (pieces : List String) :
    walkFrom root .follow n [] (base ++ pieces) = walkFrom root .follow n base pieces := by
  induction base using List.reverseRecOn generalizing pieces with
  | nil => rfl
  | append_singleton init name ih =>
    obtain ⟨named, short⟩ := proper name (by simp)
    have before : ∀ other ∈ init, IsName other ∧ ¬ maxNameLength < other.utf8ByteSize :=
      fun other member => proper other (List.mem_append_left _ member)
    obtain ⟨mode, found⟩ := arrives.inside
    have inside : ∃ mode, root.faceAt init = some (.directory mode) :=
      Node.directory_of_faceAt_append (List.cons_ne_nil name []) found
    rw [List.append_assoc, ih (Node.arrives_location inside before) before, List.singleton_append,
      walkFrom_follow named inside, if_neg short, found]

/-! ## Sound file systems -/

/-- The directory that a working directory is, or was removed from. -/
def WorkingDirectory.base : WorkingDirectory → Location
  | linked loc => loc
  | detached _ parent => parent.base

namespace FileSystem

/-- The working directory is where the tree has a directory. -/
structure Sound (fs : FileSystem) : Prop where
  inside : ∃ mode, fs.root.faceAt fs.workingDirectory.base = some (.directory mode)
  proper : ∀ name ∈ fs.workingDirectory.base,
    IsName name ∧ Path.Slashless name ∧ ¬ maxNameLength < name.utf8ByteSize

/-- The directory that a path starts from, unless it has been removed. -/
def start? (fs : FileSystem) (p : Path) : Option Location :=
  if p.isAbsolute then some []
  else
    match fs.workingDirectory with
    | .linked loc => some loc
    | .detached _ _ => none

variable {fs : FileSystem} {p : Path} {start : Location}

theorem Sound.top (sound : fs.Sound) : ∃ mode, fs.root.faceAt [] = some (.directory mode) :=
  directory_top sound.inside

theorem start?_cases (from_ : fs.start? p = some start) :
    p.isAbsolute = true ∧ start = [] ∨
      p.isAbsolute = false ∧ fs.workingDirectory = .linked start := by
  rw [start?] at from_
  split at from_
  · cases from_
    exact Or.inl ⟨‹_›, rfl⟩
  · rename_i relative
    split at from_
    · cases from_
      exact Or.inr ⟨Bool.eq_false_iff.mpr relative, ‹_›⟩
    · cases from_

theorem Sound.start_proper (sound : fs.Sound) (from_ : fs.start? p = some start) :
    ∀ name ∈ start, IsName name ∧ Path.Slashless name ∧ ¬ maxNameLength < name.utf8ByteSize := by
  rcases start?_cases from_ with ⟨-, rfl⟩ | ⟨-, linked⟩
  · simp
  · have proper := sound.proper
    rwa [linked] at proper

theorem Sound.start_arrives (sound : fs.Sound) (from_ : fs.start? p = some start) :
    fs.root.Arrives start start := by
  rcases start?_cases from_ with ⟨-, rfl⟩ | ⟨-, linked⟩
  · exact .top sound.top
  · have inside := sound.inside
    rw [linked] at inside
    exact Node.arrives_location inside fun name member =>
      ⟨(sound.start_proper from_ name member).1, (sound.start_proper from_ name member).2.2⟩

/-! ## What a path leads to -/

theorem walkPieces_of_start (sound : fs.Sound) (from_ : fs.start? p = some start)
    (pieces : List String) :
    fs.walkPieces .follow p.isAbsolute pieces =
      walkFrom fs.root .follow maxLinks [] (start ++ pieces) := by
  rw [walkFrom_base (sound.start_arrives from_) fun name member =>
    ⟨(sound.start_proper from_ name member).1, (sound.start_proper from_ name member).2.2⟩]
  rcases start?_cases from_ with ⟨rooted, rfl⟩ | ⟨relative, linked⟩
  · rw [rooted]
    rfl
  · rw [relative, walkPieces, linked]
    rfl

theorem solid_start (sound : fs.Sound) (from_ : fs.start? p = some start)
    (pieces : List String) : solid (start ++ pieces) = start ++ solid pieces := by
  have names : solid start = start := List.filter_eq_self.mpr fun name member => by
    rw [(sound.start_proper from_ name member).1.notFiller]
    rfl
  rw [solid, List.filter_append]
  exact congrArg (· ++ solid pieces) names

/-- Only what the system takes as a text can be a directory. -/
theorem check_of_isDirectory (found : fs.isDirectory p = true) : p.check = .ok () := by
  rw [isDirectory, metadata, walk] at found
  rcases checked : p.check with e | _
  · rw [checked] at found
    cases found
  · rfl

/-- A path is a directory exactly if the system takes its text and its names lead to one. -/
theorem isDirectory_iff_arrives (sound : fs.Sound) (from_ : fs.start? p = some start) :
    fs.isDirectory p = true ↔
      p.check = .ok () ∧ ∃ loc, fs.root.Arrives (start ++ p.names) loc := by
  have spelled : solid (start ++ p.pieces) = start ++ p.names := solid_start sound from_ _
  have again : solid (start ++ p.names) = start ++ p.names := by
    rw [solid_start sound from_, Path.names, solid_solid]
  rw [isDirectory, metadata, walk]
  rcases p.check with e | _
  · simp
  dsimp only
  rw [walkPieces_of_start sound from_]
  constructor
  · intro told
    rcases walked : walkFrom fs.root .follow maxLinks [] (start ++ p.pieces) with
      e | loc | ⟨inner, name⟩ | depth
    · rw [walked] at told
      cases told
    · rw [walked] at told
      rcases found : fs.root.get? loc with _ | ⟨_ | ⟨mode, entries⟩ | _ | _⟩
      · simp [Except.mapError, found] at told
      · simp [Except.mapError, found, Node.metadata, Metadata.isDirectory, Node.type] at told
      · have inside : ∃ mode, fs.root.faceAt loc = some (.directory mode) :=
          ⟨mode, Node.faceAt_directory.mpr ⟨entries, found⟩⟩
        exact ⟨rfl, loc, (walkFrom_eq_ok_iff.mp walked).respell inside (again.trans spelled.symm),
          inside⟩
      · simp [Except.mapError, found, Node.metadata, Metadata.isDirectory, Node.type] at told
      · simp [Except.mapError, found, Node.metadata, Metadata.isDirectory, Node.type] at told
    · rw [walked] at told
      cases told
    · exact absurd rfl ((walkFrom_eq_ok_iff.mp walked).linked depth)
  · rintro ⟨-, loc, walks, mode, inside⟩
    obtain ⟨entries, found⟩ := Node.faceAt_directory.mp inside
    rw [(walks.respell ⟨mode, inside⟩ (spelled.trans again.symm)).walkFrom_eq]
    simp [Except.mapError, found, Node.metadata, Metadata.isDirectory, Node.type]

/-- From a removed directory, a path leads nowhere but to this directory itself. -/
theorem isDirectory_iff_of_removed (straight : p.Straight) (removed : fs.start? p = none) :
    fs.isDirectory p = true ↔ p.check = .ok () ∧ p.names = [] := by
  rw [start?] at removed
  split at removed
  · cases removed
  rename_i relative
  have relative : p.isAbsolute = false := Bool.eq_false_iff.mpr relative
  split at removed
  · cases removed
  rename_i mode parent detached
  rw [isDirectory, metadata, walk]
  rcases p.check with e | _
  · simp
  dsimp only
  rw [walkPieces, relative, detached]
  simp only [Bool.false_eq_true, if_false, WorkingDirectory.depart]
  rcases left : p.pieces.dropWhile Path.isFiller with _ | ⟨piece, rest⟩
  · have none : p.names = [] := by
      rw [List.dropWhile_eq_nil_iff] at left
      rw [Path.names, List.filter_eq_nil_iff]
      intro piece member
      simp [left piece member]
    simp [none, Except.mapError, Metadata.isDirectory]
  · have member : piece ∈ p.pieces :=
      (List.dropWhile_suffix Path.isFiller).subset (left ▸ List.mem_cons_self)
    have notUp : (piece == "..") = false :=
      beq_false_of_ne fun up => straight.noUp (up ▸ member)
    have solid_ := List.head_dropWhile_not Path.isFiller (l := p.pieces) (by rw [left]; simp)
    simp only [left, List.head_cons] at solid_
    have named : p.names ≠ [] := by
      have mine : piece ∈ p.names := List.mem_filter.mpr ⟨member, by rw [solid_]; rfl⟩
      exact List.ne_nil_of_mem mine
    simp [notUp, named, Except.mapError]

/-! ## Absolute paths -/

theorem absolute_of_start (straight : p.Straight) (sound : fs.Sound)
    (from_ : fs.start? p = some start) :
    ∃ whole : Path, fs.absolute p = .ok whole ∧ whole.Plain ∧ whole.names = start ++ p.names := by
  refine straight.absolute ?_ fun name member => ?_
  · refine (start?_cases from_).imp_right fun ⟨relative, linked⟩ => ⟨relative, ?_⟩
    rw [workingPath, linked]
  · obtain ⟨named, clean, -⟩ := sound.start_proper from_ name member
    refine ⟨?_, ?_, ?_, clean⟩ <;> rintro rfl
    · exact absurd named.notFiller (by decide)
    · exact absurd named.notFiller (by decide)
    · exact absurd named.notUp (by decide)

theorem absolute_of_removed (straight : p.Straight) (removed : fs.start? p = none) :
    fs.absolute p = .error (.os .ENOENT) := by
  rw [start?] at removed
  split at removed
  · cases removed
  rename_i relative
  split at removed
  · cases removed
  rename_i mode parent detached
  have notTwo : ¬ (p.leadingSlashes == 2) = true := by
    intro two
    rw [Path.isAbsolute, beq_iff_eq.mp two] at relative
    exact relative rfl
  rw [absolute, Path.absolute, if_neg (by simpa using straight.filled)]
  simp only [if_neg notTwo, if_neg relative, workingPath, detached, Except.map]

/-- A relative path starts from the working directory, whatever has been created since. -/
theorem start?_congr {fs' : FileSystem} (same : fs'.workingDirectory = fs.workingDirectory) :
    fs'.start? p = fs.start? p := by
  rw [start?, start?, same]

theorem absolute_congr {fs' : FileSystem} (same : fs'.workingDirectory = fs.workingDirectory) :
    fs'.absolute p = fs.absolute p := by
  rw [absolute, absolute, workingPath, workingPath, same]

theorem start?_of_absolute {whole : Path} (straight : p.Straight) (sound : fs.Sound)
    (absolute : fs.absolute p = .ok whole) :
    ∃ start, fs.start? p = some start ∧ whole.Plain ∧ whole.names = start ++ p.names := by
  rcases from_ : fs.start? p with _ | start
  · rw [absolute_of_removed straight from_] at absolute
    cases absolute
  · obtain ⟨whole', absolute', plain, names⟩ := absolute_of_start straight sound from_
    rw [absolute'] at absolute
    cases absolute
    exact ⟨start, rfl, plain, names⟩

/-- A path that is short enough is a directory if its absolute path is one. -/
theorem isDirectory_of_absolute {whole : Path} (straight : p.Straight) (sound : fs.Sound)
    (absolute : fs.absolute p = .ok whole) (found : fs.isDirectory whole = true)
    (short : p.text.utf8ByteSize < maxPathLength) : fs.isDirectory p = true := by
  obtain ⟨start, from_, plain, names⟩ := start?_of_absolute straight sound absolute
  have top : fs.start? whole = some [] := by
    rw [start?, plain.rooted]
    rfl
  rw [isDirectory_iff_arrives sound top, names, List.nil_append] at found
  rw [isDirectory_iff_arrives sound from_]
  obtain ⟨checked, arrives⟩ := found
  refine ⟨Path.check_eq_ok_iff.mpr ⟨fun nul => ?_, straight.filled, short⟩, arrives⟩
  obtain ⟨name, member, inside⟩ := Path.nul_mem_text_iff.mp nul
  refine (Path.check_eq_ok_iff.mp checked).1 (Path.nul_mem_text_iff.mpr ⟨name, ?_, inside⟩)
  rw [names]
  exact List.mem_append_right _ member

/-! ## Children -/

/-- What is above a directory is a directory. -/
theorem isDirectory_of_child {q : Path} {name : String} (child : p.Child q name)
    (sound : fs.Sound) (found : fs.isDirectory p = true) : fs.isDirectory q = true := by
  have same : fs.start? q = fs.start? p := by rw [start?, start?, child.alike]
  rcases from_ : fs.start? p with _ | start
  · rw [isDirectory_iff_of_removed child.straight from_, child.named] at found
    simp at found
  · rw [isDirectory_iff_arrives sound from_, child.named, ← List.append_assoc] at found
    rw [isDirectory_iff_arrives sound (same.trans from_)]
    obtain ⟨checked, loc, arrives⟩ := found
    obtain ⟨inner, above, -⟩ :=
      arrives.parent (child.straight.isName (by rw [child.named]; simp))
    exact ⟨child.checks checked, inner, above⟩

theorem isDirectory_of_upward {q : Path} {above : List Path} (chain : Path.Upward (p :: above))
    (sound : fs.Sound) (found : fs.isDirectory p = true) (member : q ∈ above) :
    fs.isDirectory q = true := by
  induction above generalizing p with
  | nil => cases member
  | cons next above ih =>
    cases chain with
    | step child chain =>
      have here := isDirectory_of_child child sound found
      rcases List.mem_cons.mp member with rfl | higher
      · exact here
      · exact ih chain here higher

/-! ## The last name of a plain path -/

/-- The last name of a plain path, in the directory that the others lead to. -/
theorem slot_of_arrives {init : List String} {name : String} {inner : Location} (plain : p.Plain)
    (named : p.names = init ++ [name]) (checked : p.check = .ok ())
    (arrives : fs.root.Arrives init inner) (short : ¬ maxNameLength < name.utf8ByteSize) :
    ∃ slash, fs.slot p = .ok (.entry inner name slash) := by
  obtain ⟨before, slash, parted, rfl, noUp⟩ := partLast_plain plain named
  have proper : IsName name := plain.isName (by rw [named]; simp)
  have ends : (Path.isFiller name || name == "..") = false := by
    rw [proper.notFiller, proper.notUp]
    rfl
  have same : solid (before ++ [""]) = solid (solid before) := by
    simp [solid, Path.isFiller]
  have walked := (arrives.walks.respell arrives.inside same).walkFrom_eq
  refine ⟨slash, ?_⟩
  rw [slot, checked]
  simp only [parted, walkPieces, plain.rooted, if_true, walked, ends, Bool.false_eq_true, if_false,
    if_neg short]

theorem arrives_of_slot {init : List String} {name : String} (plain : p.Plain)
    (named : p.names = init ++ [name])
    (top : ∃ mode, fs.root.faceAt [] = some (.directory mode)) {slot : Slot}
    (placed : fs.slot p = .ok slot) :
    p.check = .ok () ∧ ¬ maxNameLength < name.utf8ByteSize ∧
      ∃ inner slash, slot = .entry inner name slash ∧ fs.root.Arrives init inner := by
  obtain ⟨before, slash, parted, rfl, noUp⟩ := partLast_plain plain named
  have proper : IsName name := plain.isName (by rw [named]; simp)
  have ends : (Path.isFiller name || name == "..") = false := by
    rw [proper.notFiller, proper.notUp]
    rfl
  have same : solid (solid before) = solid (before ++ [""]) := by
    simp [solid, Path.isFiller]
  rw [FileSystem.slot] at placed
  rcases checked : p.check with e | _
  · rw [checked] at placed
    cases placed
  rw [checked] at placed
  simp only [parted, walkPieces, plain.rooted, if_true, ends, Bool.false_eq_true, if_false]
    at placed
  rcases walked : walkFrom fs.root .follow maxLinks [] (before ++ [""]) with
    e | inner | ⟨inner, own⟩ | depth
  · rw [walked] at placed
    cases placed
  · rw [walked] at placed
    dsimp only at placed
    split at placed
    · cases placed
    · rename_i short
      cases placed
      have walks := walkFrom_eq_ok_iff.mp walked
      have inside := walks.directory_of_slash top
      exact ⟨rfl, short, inner, slash, rfl, walks.respell inside same, inside⟩
  · rw [walked] at placed
    cases placed
  · exact absurd rfl ((walkFrom_eq_ok_iff.mp walked).linked depth)

/-! ## More objects -/

/-- Everything is still there, and relative paths start where they did. -/
structure Keeps (fs fs' : FileSystem) : Prop where
  workingDirectory : fs'.workingDirectory = fs.workingDirectory
  faces : ∀ loc f, fs.root.faceAt loc = some f → fs'.root.faceAt loc = some f

namespace Keeps

variable {fs' fs'' : FileSystem}

theorem refl (fs : FileSystem) : fs.Keeps fs := ⟨rfl, fun _ _ found => found⟩

theorem trans (first : fs.Keeps fs') (second : fs'.Keeps fs'') : fs.Keeps fs'' :=
  ⟨second.workingDirectory.trans first.workingDirectory,
    fun loc f found => second.faces loc f (first.faces loc f found)⟩

theorem sound (keeps : fs.Keeps fs') (sound : fs.Sound) : fs'.Sound := by
  constructor <;> rw [keeps.workingDirectory]
  · exact sound.inside.imp fun mode found => keeps.faces _ _ found
  · exact sound.proper

theorem start? (keeps : fs.Keeps fs') (p : Path) : fs'.start? p = fs.start? p :=
  start?_congr keeps.workingDirectory

theorem absolute (keeps : fs.Keeps fs') (p : Path) : fs'.absolute p = fs.absolute p :=
  absolute_congr keeps.workingDirectory

/-- A directory stays one. -/
theorem isDirectory (keeps : fs.Keeps fs') (sound : fs.Sound) (straight : p.Straight)
    (found : fs.isDirectory p = true) : fs'.isDirectory p = true := by
  rcases from_ : fs.start? p with _ | start
  · rw [isDirectory_iff_of_removed straight from_] at found
    rwa [isDirectory_iff_of_removed straight ((keeps.start? p).trans from_)]
  · rw [isDirectory_iff_arrives sound from_] at found
    rw [isDirectory_iff_arrives (keeps.sound sound) ((keeps.start? p).trans from_)]
    exact ⟨found.1, found.2.imp fun _ arrives => arrives.mono keeps.faces⟩

end Keeps

end FileSystem

end ModeAcl
