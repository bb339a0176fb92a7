import Mathlib.Data.List.Induction
import ModeAcl.Proofs.Tree

/-!
# Walks that arrive

`Walks` says by which steps a walk gets to a spot; `walkFrom_eq_ok_iff` says that
these are the walks that `walkFrom` completes. What is proved by induction on
such a walk: it arrives in a larger tree as well (`Walks.mono`), one that follows
links arrives where a walk to create something does (`Walks.follow_all`), and one
that arrives at a free name has come through the directory that the last
name of the path is in (`Walks.slot_of_vacant`).
-/

namespace ModeAcl

/-- A piece that is the name of something. -/
structure IsName (piece : String) : Prop where
  notFiller : Path.isFiller piece = false
  notUp : (piece == "..") = false

/-- What is needed to look up the name `piece` in `dir` with `rest` behind it. -/
structure LooksUp (root : Node) (last : Last) (dir : Location) (piece : String)
    (rest : List String) : Prop where
  named : IsName piece
  inside : ∃ mode, root.faceAt dir = some (.directory mode)
  slash : (last.refusesSlash && rest.all (· == "") && !rest.isEmpty) = false
  short : ¬ maxNameLength < piece.utf8ByteSize

/-- An object at which a walk ends if nothing comes behind it. -/
def Face.Ends (last : Last) : Face → Prop
  | file _ _ | socket _ => True
  | symlink _ => last.follows = false
  | directory _ => False

/-- Where a link with `rest` behind it leads to: a directory and the pieces from there. -/
def linkStart (target : String) (dir : Location) (rest : List String) : Location × List String :=
  (if Path.isAbsolute ⟨target⟩ then [] else dir, Path.pieces ⟨target⟩ ++ rest)

/-- A walk from a directory along some pieces, over at most so many links, arrives at a spot. -/
inductive Walks (root : Node) (last : Last) : Nat → Location → List String → Spot → Prop
  | arrive {n : Nat} {dir : Location} : Walks root last n dir [] (.object dir)
  | filler {n : Nat} {dir : Location} {piece : String} {rest : List String} {spot : Spot} :
    Path.isFiller piece = true → Walks root last n dir rest spot →
      Walks root last n dir (piece :: rest) spot
  | up {n : Nat} {dir : Location} {rest : List String} {spot : Spot} :
    Walks root last n dir.dropLast rest spot → Walks root last n dir (".." :: rest) spot
  | enter {n : Nat} {dir : Location} {piece : String} {rest : List String} {spot : Spot}
    {mode : Mode} : LooksUp root last dir piece rest →
      root.faceAt (dir ++ [piece]) = some (.directory mode) →
      Walks root last n (dir ++ [piece]) rest spot → Walks root last n dir (piece :: rest) spot
  | follow {n : Nat} {dir : Location} {piece : String} {rest : List String} {spot : Spot}
    {target : String} : LooksUp root last dir piece rest →
      root.faceAt (dir ++ [piece]) = some (.symlink target) →
      (rest.isEmpty && !last.follows) = false →
      Walks root last n (linkStart target dir rest).1 (linkStart target dir rest).2 spot →
      Walks root last (n + 1) dir (piece :: rest) spot
  | find {n : Nat} {dir : Location} {piece : String} {face : Face} :
    LooksUp root last dir piece [] → root.faceAt (dir ++ [piece]) = some face → face.Ends last →
      Walks root last n dir [piece] (.object (dir ++ [piece]))
  | vacant {n : Nat} {dir : Location} {piece : String} {rest : List String} :
    LooksUp root last dir piece rest → root.faceAt (dir ++ [piece]) = none →
      rest.all (· == "") = true → Walks root last n dir (piece :: rest) (.vacant dir piece)

/-! ## The walks that are completed -/

namespace FileSystem

variable {root : Node} {last : Last} {onLink : Location → List String → Except Errno Spot}

theorem walkWith_filler {piece : String} (filler : Path.isFiller piece = true) (dir : Location)
    (rest : List String) :
    walkWith root last onLink dir (piece :: rest) = walkWith root last onLink dir rest := by
  rw [walkWith, if_pos filler]

theorem walkWith_up (dir : Location) (rest : List String) :
    walkWith root last onLink dir (".." :: rest) =
      walkWith root last onLink dir.dropLast rest := by
  rw [walkWith, if_neg (by decide), if_pos (by decide)]

/-- One name, by the faces of the tree. -/
theorem walkWith_name {piece : String} (named : IsName piece) (dir : Location)
    (rest : List String) :
    walkWith root last onLink dir (piece :: rest) =
      match root.faceAt dir with
      | none => .error .ENOENT
      | some (.directory _) =>
        if last.refusesSlash && rest.all (· == "") && !rest.isEmpty then .error .EISDIR
        else if maxNameLength < piece.utf8ByteSize then .error .ENAMETOOLONG
        else
          match root.faceAt (dir ++ [piece]) with
          | none => if rest.all (· == "") then .ok (.vacant dir piece) else .error .ENOENT
          | some (.directory _) => walkWith root last onLink (dir ++ [piece]) rest
          | some (.symlink target) =>
            if rest.isEmpty && !last.follows then .ok (.object (dir ++ [piece]))
            else onLink (linkStart target dir rest).1 (linkStart target dir rest).2
          | some _ => if rest.isEmpty then .ok (.object (dir ++ [piece])) else .error .ENOTDIR
      | some _ => .error .ENOTDIR := by
  have notUp : ¬ (piece == "..") = true := by rw [named.notUp]; decide
  rw [walkWith, named.notFiller, if_neg Bool.false_ne_true, if_neg notUp, Node.faceAt]
  rcases found : root.get? dir with _ | ⟨mode, data⟩ | ⟨mode, entries⟩ | target | mode
  · rfl
  · rfl
  · dsimp only
    rw [Node.faceAt, Node.get?_child found]
    rcases entries.lookup piece with _ | ⟨mode, data⟩ | ⟨mode, entries⟩ | target | mode <;> rfl
  · rfl
  · rfl

/-- How a walk goes on behind a link. -/
def walkLink (root : Node) (last : Last) : Nat → Location → List String → Except Errno Spot
  | 0 => fun _ _ => .error .ELOOP
  | links + 1 => walkFrom root last links

theorem walkFrom_eq (root : Node) (last : Last) (n : Nat) :
    walkFrom root last n = walkWith root last (walkLink root last n) := by
  cases n <;> rfl

end FileSystem

open FileSystem

section

variable {root root' : Node} {last : Last} {n : Nat} {dir : Location} {pieces : List String}
  {spot : Spot}

theorem LooksUp.walkFrom_eq {piece : String} {rest : List String}
    (looks : LooksUp root last dir piece rest) :
    walkFrom root last n dir (piece :: rest) =
      match root.faceAt (dir ++ [piece]) with
      | none => if rest.all (· == "") then .ok (.vacant dir piece) else .error .ENOENT
      | some (.directory _) => walkFrom root last n (dir ++ [piece]) rest
      | some (.symlink target) =>
        if rest.isEmpty && !last.follows then .ok (.object (dir ++ [piece]))
        else walkLink root last n (linkStart target dir rest).1 (linkStart target dir rest).2
      | some _ => if rest.isEmpty then .ok (.object (dir ++ [piece])) else .error .ENOTDIR := by
  obtain ⟨mode, inside⟩ := looks.inside
  rw [FileSystem.walkFrom_eq, walkWith_name looks.named, inside]
  dsimp only
  rw [looks.slash, if_neg Bool.false_ne_true, if_neg looks.short]

/-- A walk is completed only if the names on it can be looked up. -/
theorem looksUp_of_walkFrom {piece : String} {rest : List String} (named : IsName piece)
    (walked : walkFrom root last n dir (piece :: rest) = .ok spot) :
    LooksUp root last dir piece rest := by
  rw [FileSystem.walkFrom_eq, walkWith_name named] at walked
  rcases inside : root.faceAt dir with _ | _ | mode | _ | _
  · rw [inside] at walked; cases walked
  · rw [inside] at walked; cases walked
  · rw [inside] at walked
    dsimp only at walked
    split at walked
    · cases walked
    split at walked
    · cases walked
    · exact ⟨named, ⟨mode, inside⟩, by simp_all, ‹_›⟩
  · rw [inside] at walked; cases walked
  · rw [inside] at walked; cases walked

theorem Walks.walkFrom_eq (walks : Walks root last n dir pieces spot) :
    walkFrom root last n dir pieces = .ok spot := by
  induction walks with
  | arrive => rw [FileSystem.walkFrom_eq, walkWith]
  | filler filler _ ih =>
    rw [FileSystem.walkFrom_eq] at ih ⊢
    rw [walkWith_filler filler, ih]
  | up _ ih =>
    rw [FileSystem.walkFrom_eq] at ih ⊢
    rw [walkWith_up, ih]
  | enter looks found _ ih => rw [looks.walkFrom_eq, found]; exact ih
  | follow looks found goes _ ih =>
    rw [looks.walkFrom_eq, found]
    dsimp only
    rw [goes]
    exact ih
  | @find n dir piece face looks found ends =>
    rw [looks.walkFrom_eq, found]
    cases face with
    | directory mode => exact absurd ends id
    | symlink target =>
      have keeps : last.follows = false := ends
      simp [keeps]
    | _ => rfl
  | vacant looks free ending =>
    rw [looks.walkFrom_eq, free]
    exact if_pos ending

/-- One number of links: what comes behind a link is left to `links`. -/
theorem walks_of_links
    (links : ∀ {start : Location} {ps : List String} {spot : Spot},
      walkLink root last n start ps = .ok spot → ∃ m, n = m + 1 ∧ Walks root last m start ps spot)
    (walked : walkFrom root last n dir pieces = .ok spot) : Walks root last n dir pieces spot := by
  induction pieces generalizing dir with
  | nil =>
    rw [FileSystem.walkFrom_eq, walkWith] at walked
    cases walked
    exact .arrive
  | cons piece rest ih =>
    by_cases filler : Path.isFiller piece = true
    · rw [FileSystem.walkFrom_eq, walkWith_filler filler, ← FileSystem.walkFrom_eq] at walked
      exact .filler filler (ih walked)
    by_cases up : piece = ".."
    · subst up
      rw [FileSystem.walkFrom_eq, walkWith_up, ← FileSystem.walkFrom_eq] at walked
      exact .up (ih walked)
    have named : IsName piece := ⟨Bool.eq_false_iff.mpr filler, beq_false_of_ne up⟩
    have looks := looksUp_of_walkFrom named walked
    rw [looks.walkFrom_eq] at walked
    rcases found : root.faceAt (dir ++ [piece]) with _ | ⟨mode, data⟩ | mode | target | mode
    · rw [found] at walked
      dsimp only at walked
      split at walked
      · cases walked
        exact .vacant looks found ‹_›
      · cases walked
    · rw [found] at walked
      cases rest with
      | nil => cases walked; exact .find looks found trivial
      | cons next rest => cases walked
    · rw [found] at walked
      exact .enter looks found (ih walked)
    · rw [found] at walked
      dsimp only at walked
      split at walked
      · rename_i kept
        cases walked
        obtain ⟨none, keeps⟩ := Bool.and_eq_true_iff.mp kept
        rw [List.isEmpty_iff] at none
        subst none
        exact .find looks found (by simpa [Face.Ends] using keeps)
      · rename_i goes
        obtain ⟨m, rfl, walks⟩ := links walked
        exact .follow looks found (Bool.eq_false_iff.mpr goes) walks
    · rw [found] at walked
      cases rest with
      | nil => cases walked; exact .find looks found trivial
      | cons next rest => cases walked

/-- The walks are those that `walkFrom` completes. -/
theorem walkFrom_eq_ok_iff :
    walkFrom root last n dir pieces = .ok spot ↔ Walks root last n dir pieces spot := by
  refine ⟨fun walked => ?_, Walks.walkFrom_eq⟩
  induction n generalizing dir pieces spot with
  | zero => exact walks_of_links (fun walked => by cases walked) walked
  | succ n ih => exact walks_of_links (fun walked => ⟨n, rfl, ih walked⟩) walked

/-! ## Other trees and other ends -/

theorem LooksUp.mono (grows : ∀ loc f, root.faceAt loc = some f → root'.faceAt loc = some f)
    {piece : String} {rest : List String} (looks : LooksUp root last dir piece rest) :
    LooksUp root' last dir piece rest := by
  obtain ⟨mode, inside⟩ := looks.inside
  exact ⟨looks.named, ⟨mode, grows _ _ inside⟩, looks.slash, looks.short⟩

/-- Following links and allowing slashes makes nothing harder to look up. -/
theorem LooksUp.ease {piece : String} {rest rest' : List String}
    (looks : LooksUp root last dir piece rest) : LooksUp root .follow dir piece rest' :=
  ⟨looks.named, looks.inside, rfl, looks.short⟩

/-- A walk to an object gets there in a tree with more objects as well. -/
theorem Walks.mono (grows : ∀ loc f, root.faceAt loc = some f → root'.faceAt loc = some f)
    {loc : Location} (walks : Walks root last n dir pieces (.object loc)) :
    Walks root' last n dir pieces (.object loc) := by
  generalize goal : Spot.object loc = spot at walks
  induction walks with
  | arrive => exact .arrive
  | filler filler _ ih => exact .filler filler (ih goal)
  | up _ ih => exact .up (ih goal)
  | enter looks found _ ih => exact .enter (looks.mono grows) (grows _ _ found) (ih goal)
  | follow looks found goes _ ih =>
    exact .follow (looks.mono grows) (grows _ _ found) goes (ih goal)
  | find looks found ends => exact .find (looks.mono grows) (grows _ _ found) ends
  | vacant => cases goal

/-- Where a walk arrives that follows links or finds a free name, one that follows links and allows
slashes arrives as well. -/
theorem Walks.follow_all (walks : Walks root last n dir pieces spot)
    (ends : last.follows = true ∨ ∃ free name, spot = .vacant free name) :
    Walks root .follow n dir pieces spot := by
  induction walks with
  | arrive => exact .arrive
  | filler filler _ ih => exact .filler filler (ih ends)
  | up _ ih => exact .up (ih ends)
  | enter looks found _ ih => exact .enter looks.ease found (ih ends)
  | follow looks found _ _ ih => exact .follow looks.ease found (by simp [Last.follows]) (ih ends)
  | @find n dir piece face looks found stops =>
    refine .find looks.ease found ?_
    rcases ends with follows | ⟨free, name, same⟩
    · cases face with
      | symlink target => exact absurd follows (by rw [stops]; decide)
      | _ => exact stops
    · cases same
  | vacant looks free ending => exact .vacant looks.ease free ending

/-- A walk that arrives at a free name and takes no slash behind it has a name as its last piece.
The pieces before lead to a directory; there, the last name is the free one itself, or a link that
was followed. -/
theorem Walks.slot_of_vacant (strict : last.refusesSlash = true) {free : Location}
    {name : String} (walks : Walks root last n dir pieces (.vacant free name)) :
    ∃ before own inner, pieces = before ++ [own] ∧ IsName own ∧
      ¬ maxNameLength < own.utf8ByteSize ∧
      Walks root .follow n dir (before ++ [""]) (.object inner) ∧
      (root.faceAt (inner ++ [own]) = none ∧ free = inner ∧ name = own ∨
        last.follows = true ∧ ∃ target, root.faceAt (inner ++ [own]) = some (.symlink target)) := by
  generalize goal : Spot.vacant free name = spot at walks
  induction walks with
  | arrive => cases goal
  | @filler n dir piece rest spot filler _ ih =>
    obtain ⟨before, own, inner, rfl, named, short, walked, place⟩ := ih goal
    exact ⟨piece :: before, own, inner, rfl, named, short, .filler filler walked, place⟩
  | @up n dir rest spot _ ih =>
    obtain ⟨before, own, inner, rfl, named, short, walked, place⟩ := ih goal
    exact ⟨".." :: before, own, inner, rfl, named, short, .up walked, place⟩
  | @enter n dir piece rest spot mode looks found _ ih =>
    obtain ⟨before, own, inner, rfl, named, short, walked, place⟩ := ih goal
    exact ⟨piece :: before, own, inner, rfl, named, short, .enter looks.ease found walked, place⟩
  | @follow n dir piece rest spot target looks found goes _ ih =>
    have here : Walks root .follow (n + 1) dir [""] (.object dir) := .filler rfl .arrive
    cases rest using List.reverseRecOn with
    | nil =>
      have follows : last.follows = true := by simpa using goes
      exact ⟨[], piece, dir, rfl, looks.named, looks.short, here, Or.inr ⟨follows, target, found⟩⟩
    | append_singleton rest end_ =>
      obtain ⟨before, own, inner, split, named, short, walked, place⟩ := ih goal
      have pieces : Path.pieces ⟨target⟩ ++ rest = before ∧ end_ = own := by
        have parts : (Path.pieces ⟨target⟩ ++ rest) ++ [end_] = before ++ [own] := by
          rw [← split, List.append_assoc]
          rfl
        exact List.append_inj' parts rfl |>.imp_right fun same => List.cons.inj same |>.1
      obtain ⟨rfl, rfl⟩ := pieces
      refine ⟨piece :: rest, end_, inner, rfl, named, short, ?_, place⟩
      refine .follow looks.ease found (by simp) ?_
      simpa [linkStart, List.append_assoc] using walked
  | @find => cases goal
  | @vacant n dir piece rest looks none ending =>
    cases goal
    cases rest with
    | nil =>
      exact ⟨[], _, _, rfl, looks.named, looks.short, .filler rfl .arrive,
        Or.inl ⟨none, rfl, rfl⟩⟩
    | cons next rest =>
      have refused := looks.slash
      rw [strict, ending] at refused
      cases refused

/-- A name is found to be free in a directory. -/
theorem Walks.free_of_vacant {free : Location} {name : String}
    (walks : Walks root last n dir pieces (.vacant free name)) :
    (∃ mode, root.faceAt free = some (.directory mode)) ∧
      root.faceAt (free ++ [name]) = none := by
  generalize goal : Spot.vacant free name = spot at walks
  induction walks with
  | vacant looks none _ => cases goal; exact ⟨looks.inside, none⟩
  | filler _ _ ih | up _ ih | enter _ _ _ ih | follow _ _ _ _ ih => exact ih goal
  | _ => cases goal

/-- Once there is a file at the free name, a walk that follows links finds it. -/
theorem Walks.found_of_vacant (strict : last.refusesSlash = true)
    (grows : ∀ loc f, root.faceAt loc = some f → root'.faceAt loc = some f) {free : Location}
    {name : String} {mode : Mode} {data : List UInt8}
    (new : root'.faceAt (free ++ [name]) = some (.file mode data))
    (walks : Walks root last n dir pieces (.vacant free name)) :
    Walks root' .follow n dir pieces (.object (free ++ [name])) := by
  generalize goal : Spot.vacant free name = spot at walks
  induction walks with
  | filler filler _ ih => exact .filler filler (ih goal)
  | up _ ih => exact .up (ih goal)
  | enter looks found _ ih => exact .enter (looks.ease.mono grows) (grows _ _ found) (ih goal)
  | follow looks found _ _ ih =>
    exact .follow (looks.ease.mono grows) (grows _ _ found) (by simp [Last.follows]) (ih goal)
  | @vacant n dir piece rest looks _ ending =>
    cases goal
    cases rest with
    | nil => exact .find (looks.ease.mono grows) new trivial
    | cons next rest =>
      have refused := looks.slash
      rw [strict, ending] at refused
      cases refused
  | _ => cases goal

end

/-! ## From the working directory -/

/-- A walk that does not leave the removed directories ends in one, which takes any mode. -/
theorem WorkingDirectory.depart_detached {workingDirectory : WorkingDirectory} {depth : Nat}
    {pieces : List String} {spot : Spot}
    (departed : workingDirectory.depart depth pieces = .ok (.inl spot)) :
    ∃ levels, spot = .detached (depth + levels) ∧
      ∀ mode, (workingDirectory.setModeAbove mode levels).modeAbove levels = mode := by
  induction workingDirectory generalizing depth pieces with
  | linked loc => cases departed
  | detached own parent ih =>
    rw [depart] at departed
    split at departed
    · cases departed
      exact ⟨0, rfl, fun mode => rfl⟩
    · split at departed
      · obtain ⟨levels, rfl, takes⟩ := ih departed
        exact ⟨levels + 1, congrArg Spot.detached (by omega), takes⟩
      · cases departed

/-- The pieces with which removed directories are left are the same, whatever comes behind. -/
theorem WorkingDirectory.depart_split {workingDirectory : WorkingDirectory} {depth : Nat}
    {pieces : List String} {start : Location} {rest : List String}
    (departed : workingDirectory.depart depth pieces = .ok (.inr (start, rest))) :
    ∃ passed, pieces = passed ++ rest ∧
      ∀ other, workingDirectory.depart depth (passed ++ other) = .ok (.inr (start, other)) := by
  induction workingDirectory generalizing depth pieces with
  | linked loc =>
    cases departed
    exact ⟨[], rfl, fun _ => rfl⟩
  | detached mode parent ih =>
    rw [depart] at departed
    have parts := List.takeWhile_append_dropWhile (p := Path.isFiller) (l := pieces)
    rcases left : pieces.dropWhile Path.isFiller with _ | ⟨piece, behind⟩
    · rw [left] at departed
      cases departed
    rw [left] at departed parts
    dsimp only at departed
    split at departed
    · rename_i up
      obtain ⟨passed, rfl, again⟩ := ih departed
      rw [beq_iff_eq] at up
      subst up
      refine ⟨pieces.takeWhile Path.isFiller ++ ".." :: passed, by simp [parts], fun other => ?_⟩
      have fillers : ∀ piece ∈ pieces.takeWhile Path.isFiller, Path.isFiller piece = true :=
        List.all_eq_true.mp List.all_takeWhile
      have drops : ((pieces.takeWhile Path.isFiller ++ ".." :: passed) ++ other).dropWhile
          Path.isFiller = ".." :: (passed ++ other) := by
        rw [List.append_assoc, List.dropWhile_append_of_pos fillers]
        rfl
      rw [depart, drops]
      exact again other
    · cases departed

namespace FileSystem

variable {fs fs' : FileSystem} {last : Last} {path : Path} {spot : Spot}

/-- A walk that does not end in a removed directory takes some pieces to leave removed directories,
and the others from a directory of the tree. -/
theorem walkPieces_start {isAbsolute : Bool} {pieces : List String}
    (walked : fs.walkPieces last isAbsolute pieces = .ok spot)
    (linked : ∀ depth, spot ≠ .detached depth) :
    ∃ passed rest start, pieces = passed ++ rest ∧
      walkFrom fs.root last maxLinks start rest = .ok spot ∧
      ∀ fs' : FileSystem, fs'.workingDirectory = fs.workingDirectory → ∀ last' other,
        fs'.walkPieces last' isAbsolute (passed ++ other) =
          walkFrom fs'.root last' maxLinks start other := by
  cases isAbsolute with
  | true => exact ⟨[], pieces, [], rfl, walked, fun _ _ _ _ => rfl⟩
  | false =>
    simp only [walkPieces, Bool.false_eq_true, if_false] at walked
    rcases departed : fs.workingDirectory.depart 0 pieces with e | start | ⟨start, rest⟩
    · rw [departed] at walked
      cases walked
    · rw [departed] at walked
      cases walked
      obtain ⟨levels, rfl, -⟩ := WorkingDirectory.depart_detached departed
      exact absurd rfl (linked _)
    · rw [departed] at walked
      obtain ⟨passed, split, again⟩ := WorkingDirectory.depart_split departed
      refine ⟨passed, rest, start, split, walked, fun fs' same last' other => ?_⟩
      simp only [walkPieces, Bool.false_eq_true, if_false, same, again]

theorem walk_eq_ok (walked : fs.walk last path = .ok spot) :
    path.check = .ok () ∧ fs.walkPieces last path.isAbsolute path.pieces = .ok spot := by
  rw [walk] at walked
  rcases checked : path.check with e | _
  · rw [checked] at walked
    cases walked
  · rw [checked] at walked
    refine ⟨rfl, ?_⟩
    rcases pieces : fs.walkPieces last path.isAbsolute path.pieces with e | spot'
    · rw [pieces] at walked
      cases walked
    · rw [pieces] at walked
      cases walked
      rfl

theorem walk_follow_all (walked : fs.walk last path = .ok spot)
    (ends : last.follows = true ∨ ∃ free name, spot = .vacant free name) :
    fs.walk .follow path = .ok spot := by
  obtain ⟨checked, pieces⟩ := walk_eq_ok walked
  have follows : fs.walkPieces .follow path.isAbsolute path.pieces = .ok spot := by
    rw [walkPieces] at pieces ⊢
    split at pieces
    · rw [if_pos ‹_›, walkFrom_eq_ok_iff]
      exact (walkFrom_eq_ok_iff.mp pieces).follow_all ends
    · rw [if_neg ‹_›]
      rcases departed : fs.workingDirectory.depart 0 path.pieces with e | start | ⟨start, rest⟩
      · rw [departed] at pieces
        cases pieces
      · rw [departed] at pieces
        exact pieces
      · rw [departed] at pieces
        dsimp only at pieces ⊢
        rw [walkFrom_eq_ok_iff] at pieces ⊢
        exact pieces.follow_all ends
  rw [walk, checked, follows]
  rfl

theorem partLast_append {own : String} (named : IsName own) (before : List String) :
    partLast (before ++ [own]) = (before, own, false) := by
  have solid : (own == "") = false := by
    have notFiller := named.notFiller
    rw [Path.isFiller, Bool.or_eq_false_iff] at notFiller
    exact notFiller.1
  simp [partLast, solid]

/-- A path that can be taken to create something at a free name has a slot: its own last name in
some directory. It has the same slot in a file system with more objects, and what is there is either
nothing, and then it is the free place itself, or a link that was followed. -/
theorem slot_of_vacant (strict : last.refusesSlash = true) {free : Location} {name : String}
    (walked : fs.walk last path = .ok (.vacant free name)) :
    ((∃ mode, fs.root.faceAt free = some (.directory mode)) ∧
      fs.root.faceAt (free ++ [name]) = none) ∧
    ∃ inner own,
      (∀ fs' : FileSystem, fs'.workingDirectory = fs.workingDirectory →
        (∀ loc f, fs.root.faceAt loc = some f → fs'.root.faceAt loc = some f) →
          fs'.slot path = .ok (.entry inner own false)) ∧
      (fs.root.faceAt (inner ++ [own]) = none ∧ free = inner ∧ name = own ∨
        last.follows = true ∧
          ∃ target, fs.root.faceAt (inner ++ [own]) = some (.symlink target)) := by
  obtain ⟨checked, pieces⟩ := walk_eq_ok walked
  obtain ⟨passed, rest, start, split, found, again⟩ :=
    walkPieces_start pieces fun depth same => by cases same
  rw [walkFrom_eq_ok_iff] at found
  obtain ⟨before, own, inner, rfl, named, short, walks, place⟩ := found.slot_of_vacant strict
  refine ⟨found.free_of_vacant, inner, own, fun fs' same grows => ?_, place⟩
  have solid : (Path.isFiller own || own == "..") = false := by
    rw [named.notFiller, named.notUp]
    rfl
  have parted : partLast path.pieces = (passed ++ before, own, false) := by
    rw [split, ← List.append_assoc, partLast_append named]
  have reached : fs'.walkPieces .follow path.isAbsolute ((passed ++ before) ++ [""]) =
      .ok (.object inner) := by
    rw [List.append_assoc, again fs' same, walkFrom_eq_ok_iff]
    exact walks.mono grows
  rw [slot, checked]
  simp only [parted, reached, solid, Bool.false_eq_true, if_false, if_neg short]

end FileSystem

end ModeAcl
