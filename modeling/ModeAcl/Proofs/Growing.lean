import Mathlib.Logic.Relation
import ModeAcl.Proofs.Creating

/-!
# Growing file systems

While directories are only created (`Grows`), a place where a directory is or can
be created stays such a place: names are open (`Node.Open`) if behind each of them
that leads to a directory, the next one leads to a directory too or is free, and a
new directory keeps all open names open, since it is empty and no link that was
passed by leads to it. A path is passable (`Passable`) if its names are open and the system takes
its texts. An attempt to create a directory at a passable path below a directory
either creates it or finds one there (`Passable.createDirectory`).
-/

namespace ModeAcl

open FileSystem

variable {fs fs' : FileSystem} {p q : Path} {names init : List String} {name : String}
  {inner loc : Location}

/-! ## Names with nothing in the way -/

/-- Wherever some of the names lead, the next one leads to a directory or is free. -/
def Node.Open (root : Node) (names : List String) : Prop :=
  ∀ init name inner, init ++ [name] <+: names → root.Arrives init inner →
    (∃ loc, root.Arrives (init ++ [name]) loc) ∨ root.faceAt (inner ++ [name]) = none

theorem Node.Open.of_prefix {root : Node} {front : List String} (open_ : root.Open names)
    (part : front <+: names) : root.Open front :=
  fun init name inner before => open_ init name inner (before.trans part)

namespace FileSystem.Vacant

variable {before : List String} {own : String} {dir : Location}

/-- Open names that lead to a directory now have led to it before, or lead to the new directory. -/
theorem arrives_before (vacant : fs.Vacant p before own dir) (open_ : fs.root.Open names)
    (proper : ∀ name ∈ names, IsName name) (mode : Mode)
    (arrives : (fs.withDirectory dir own mode).root.Arrives names loc) :
    fs.root.Arrives names loc ∨ loc = dir ++ [own] := by
  have grows := (vacant.keeps mode).faces
  induction names using List.reverseRecOn generalizing loc with
  | nil =>
    obtain ⟨bits, inside⟩ := vacant.arrives.inside
    have top : fs.root.Arrives [] [] := .top (directory_top ⟨bits, inside⟩)
    rw [arrives.unique (top.mono grows)]
    exact Or.inl top
  | append_singleton init name ih =>
    have named : IsName name := proper name (by simp)
    obtain ⟨inner, above, short, -⟩ := arrives.parent named
    rcases ih (open_.of_prefix ⟨[name], rfl⟩)
      (fun other member => proper other (List.mem_append_left _ member)) above with old | rfl
    · by_cases here : inner ++ [name] = dir ++ [own]
      · have new : (fs.withDirectory dir own mode).root.Arrives (init ++ [name])
            (inner ++ [name]) :=
          above.enter named short ⟨_, by rw [here, vacant.faceAt, if_pos rfl]⟩
        exact Or.inr ((arrives.unique new).trans here)
      · rcases open_ init name inner (List.prefix_refl _) old with ⟨loc', there⟩ | free
        · rw [arrives.unique (there.mono grows)]
          exact Or.inl there
        · exact absurd arrives
            (above.not_below named (by rw [vacant.faceAt, if_neg here, free]))
    · -- the new directory is empty
      exact absurd arrives (above.not_below named (vacant.empty mode (by simp)))

theorem opens (vacant : fs.Vacant p before own dir) (open_ : fs.root.Open names)
    (proper : ∀ name ∈ names, IsName name) (mode : Mode) :
    (fs.withDirectory dir own mode).root.Open names := by
  intro init name inner part arrives
  have named : IsName name := proper name (part.subset (by simp))
  have front : init <+: names := List.IsPrefix.trans ⟨[name], rfl⟩ part
  have grows := (vacant.keeps mode).faces
  rcases vacant.arrives_before (open_.of_prefix front)
    (fun other member => proper other (front.subset member)) mode arrives with old | rfl
  · rcases open_ init name inner part old with ⟨loc, there⟩ | free
    · exact Or.inl ⟨loc, there.mono grows⟩
    · by_cases here : inner ++ [name] = dir ++ [own]
      · obtain ⟨rfl, same⟩ := List.append_inj' here rfl
        cases same
        exact Or.inl ⟨_, arrives.enter named vacant.short
          ⟨_, by rw [vacant.faceAt, if_pos rfl]⟩⟩
      · exact Or.inr (by rw [vacant.faceAt, if_neg here, free])
  · exact Or.inr (vacant.empty mode (by simp))

end FileSystem.Vacant

/-! ## Growth -/

namespace FileSystem

/-- One directory has been created. -/
def Creates (fs fs' : FileSystem) : Prop :=
  ∃ p init name inner mode, fs.Vacant p init name inner ∧ fs' = fs.withDirectory inner name mode

/-- Directories have been created, one after the other. -/
def Grows (fs fs' : FileSystem) : Prop := Relation.ReflTransGen Creates fs fs'

theorem Grows.refl (fs : FileSystem) : fs.Grows fs := Relation.ReflTransGen.refl

theorem Grows.trans {fs'' : FileSystem} (first : fs.Grows fs') (second : fs'.Grows fs'') :
    fs.Grows fs'' :=
  Relation.ReflTransGen.trans first second

theorem Grows.create (vacant : fs.Vacant p init name inner) (mode : Mode) :
    fs.Grows (fs.withDirectory inner name mode) :=
  Relation.ReflTransGen.single ⟨p, init, name, inner, mode, vacant, rfl⟩

theorem Grows.keeps (grows : fs.Grows fs') : fs.Keeps fs' := by
  induction grows with
  | refl => exact .refl _
  | tail _ step ih =>
    obtain ⟨p, init, name, inner, mode, vacant, rfl⟩ := step
    exact ih.trans (vacant.keeps mode)

theorem Grows.opens (grows : fs.Grows fs') (open_ : fs.root.Open names)
    (proper : ∀ name ∈ names, IsName name) : fs'.root.Open names := by
  induction grows with
  | refl => exact open_
  | tail _ step ih =>
    obtain ⟨p, init, name, inner, mode, vacant, rfl⟩ := step
    exact vacant.opens ih proper mode

/-! ## Passable paths -/

/-- The system takes the text of a path, the names in it and the text of its absolute path. -/
structure Takes (fs : FileSystem) (p : Path) : Prop where
  checked : p.check = .ok ()
  short : ∀ name ∈ p.names, ¬ maxNameLength < name.utf8ByteSize
  absolute : ∃ whole, fs.absolute p = .ok whole ∧ whole.check = .ok ()

/-- The system takes a path, and nothing is in the way of a directory there. -/
structure Passable (fs : FileSystem) (start : Location) (p : Path) : Prop extends fs.Takes p where
  starts : fs.start? p = some start
  opened : fs.root.Open (start ++ p.names)

variable {start : Location}

theorem Sound.isName (sound : fs.Sound) (straight : p.Straight) (from_ : fs.start? p = some start) :
    ∀ name ∈ start ++ p.names, IsName name := by
  intro name member
  rcases List.mem_append.mp member with before | own
  · exact (sound.start_proper from_ name before).1
  · exact straight.isName own

theorem Passable.grows (passable : fs.Passable start p) (sound : fs.Sound)
    (straight : p.Straight) (grows : fs.Grows fs') : fs'.Passable start p where
  checked := passable.checked
  short := passable.short
  absolute := by
    obtain ⟨whole, absolute, checked⟩ := passable.absolute
    exact ⟨whole, (grows.keeps.absolute p).trans absolute, checked⟩
  starts := (grows.keeps.start? p).trans passable.starts
  opened := grows.opens passable.opened (sound.isName straight passable.starts)

/-- Below a directory, a directory is created at a passable path, or one is there. -/
theorem Passable.createDirectory (passable : fs.Passable start p) (sound : fs.Sound)
    (straight : p.Straight) (named : p.names = init ++ [name])
    (above : ∃ inner, fs.root.Arrives (start ++ init) inner) (mode : Mode) :
    ∃ whole : Path, fs.absolute p = .ok whole ∧ whole.Plain ∧
      (fs.createDirectory whole mode = .error (.os .EEXIST) ∧ fs.isDirectory p = true ∨
        ∃ inner, fs.Vacant whole (start ++ init) name inner ∧
          fs.createDirectory whole mode = .ok (fs.withDirectory inner name mode)) := by
  obtain ⟨whole, absolute, checked⟩ := passable.absolute
  obtain ⟨start', from_, plain, names_⟩ := start?_of_absolute straight sound absolute
  rw [passable.starts] at from_
  cases from_
  rw [named, ← List.append_assoc] at names_
  obtain ⟨inner, arrives⟩ := above
  have short := passable.short name (by rw [named]; simp)
  refine ⟨whole, absolute, plain, ?_⟩
  have part : (start ++ init) ++ [name] <+: start ++ p.names :=
    ⟨[], by simp [named]⟩
  by_cases free : fs.root.faceAt (inner ++ [name]) = none
  · have vacant : fs.Vacant whole (start ++ init) name inner :=
      ⟨plain, names_, checked, short, arrives, free⟩
    exact Or.inr ⟨inner, vacant,
      (createDirectory_eq_ok_iff plain sound.top).mpr ⟨_, _, _, vacant, rfl⟩⟩
  · refine Or.inl ⟨createDirectory_of_taken plain names_ checked arrives short free mode, ?_⟩
    rw [isDirectory_iff_arrives sound passable.starts, named, ← List.append_assoc]
    exact ⟨passable.checked,
      (passable.opened _ _ _ part arrives).resolve_right free⟩

end FileSystem

/-! ## Where nothing blocks the way -/

namespace Path

/-- Every front of a path's names makes the names of one of the paths above. -/
theorem Upward.exists_names {above : List Path} (chain : Upward (p :: above))
    (some_ : names ≠ []) (front : names <+: p.names) : ∃ q ∈ p :: above, q.names = names := by
  induction above generalizing p with
  | nil =>
    cases chain with
    | top _ short =>
      refine ⟨p, List.mem_cons_self, (front.eq_of_length_le ?_).symm⟩
      have positive := List.length_pos_iff.mpr some_
      omega
  | cons q above ih =>
    cases chain with
    | step child chain =>
      by_cases all : names = p.names
      · exact ⟨p, List.mem_cons_self, all.symm⟩
      · rw [child.named] at front all
        have inner := (List.prefix_concat_iff.mp front).resolve_left all
        obtain ⟨r, member, same⟩ := ih chain inner
        exact ⟨r, List.mem_cons_of_mem _ member, same⟩

theorem Upward.alike {above : List Path} (chain : Upward (p :: above)) (member : q ∈ above) :
    q.isAbsolute = p.isAbsolute := by
  induction above generalizing p with
  | nil => cases member
  | cons r above ih =>
    cases chain with
    | step child chain =>
      rcases List.mem_cons.mp member with rfl | higher
      · exact child.alike
      · exact (ih chain higher).trans child.alike

end Path

namespace FileSystem

/-- Whether a path names an object, be it a link that leads nowhere. -/
def hasEntry (fs : FileSystem) (p : Path) : Bool :=
  match fs.slot p with
  | .ok (.entry dir name _) => (fs.entry? dir name).isSome
  | _ => false

/-- Whether something stands where a directory should be: a file, or a link that leads to no
directory. -/
def isBlocked (fs : FileSystem) (p : Path) : Bool :=
  !fs.isDirectory p &&
    match fs.absolute p with
    | .ok whole => fs.hasEntry whole
    | .error _ => false

theorem free_of_not_isBlocked (straight : p.Straight) (sound : fs.Sound) (takes : fs.Takes p)
    (clear : fs.isBlocked p = false) (missing : fs.isDirectory p = false) {start : Location}
    (from_ : fs.start? p = some start) (named : p.names = init ++ [name])
    (arrives : fs.root.Arrives (start ++ init) inner) :
    fs.root.faceAt (inner ++ [name]) = none := by
  obtain ⟨whole, absolute, checked⟩ := takes.absolute
  obtain ⟨start', from', plain, names_⟩ := start?_of_absolute straight sound absolute
  rw [from_] at from'
  cases from'
  rw [named, ← List.append_assoc] at names_
  obtain ⟨slash, placed⟩ := slot_of_arrives plain names_ checked arrives
    (takes.short name (by rw [named]; simp))
  simp only [isBlocked, missing, absolute, hasEntry, placed] at clear
  rw [Node.faceAt_eq_none, ← FileSystem.entry?_eq_get?]
  simpa using clear

/-- A path is passable if the system takes it and those above it, as far as they are no directories, and
none of them is blocked. -/
theorem passable_of_not_isBlocked {above : List Path} (chain : Path.Upward (p :: above))
    (sound : fs.Sound) (missing : fs.isDirectory p = false)
    (takes : ∀ q ∈ p :: above, fs.isDirectory q = false → fs.Takes q)
    (clear : ∀ q ∈ p :: above, fs.isBlocked q = false) : ∃ start, fs.Passable start p := by
  have own := takes p List.mem_cons_self missing
  have straight := chain.straight List.mem_cons_self
  obtain ⟨whole, absolute, -⟩ := own.absolute
  obtain ⟨start, from_, -, -⟩ := start?_of_absolute straight sound absolute
  refine ⟨start, own, from_, fun init name inner part arrives => ?_⟩
  rcases Nat.lt_or_ge start.length (init ++ [name]).length with beyond | within
  · -- one of the paths has these names
    obtain ⟨own, same⟩ : ∃ own, init = start ++ own := by
      have before : start <+: init ++ [name] :=
        List.prefix_of_prefix_length_le (List.prefix_append _ _) part (Nat.le_of_lt beyond)
      rcases List.prefix_concat_iff.mp before with all | inside
      · rw [all] at beyond
        exact absurd beyond (Nat.lt_irrefl _)
      · obtain ⟨own, same⟩ := inside
        exact ⟨own, same.symm⟩
    subst same
    rw [List.append_assoc, List.prefix_append_right_inj] at part
    obtain ⟨q, member, named⟩ := chain.exists_names (by simp) part
    have from' : fs.start? q = some start := by
      rcases List.mem_cons.mp member with rfl | higher
      · exact from_
      · rw [start?, chain.alike higher, ← start?, from_]
    by_cases there : fs.isDirectory q = true
    · rw [isDirectory_iff_arrives sound from', named, ← List.append_assoc] at there
      exact Or.inl there.2
    · have absent := Bool.eq_false_iff.mpr there
      exact Or.inr (free_of_not_isBlocked (chain.straight member) sound (takes q member absent)
        (clear q member) absent from' named arrives)
  · have inside : init ++ [name] <+: start :=
      List.prefix_of_prefix_length_le part (List.prefix_append _ _) within
    obtain ⟨rest, whole⟩ := inside
    have whole_ := sound.start_arrives from_
    obtain ⟨mode, there⟩ := whole_.inside
    have there' : ∃ mode, fs.root.faceAt (init ++ [name]) = some (.directory mode) := by
      by_cases none : rest = []
      · rw [none, List.append_nil] at whole
        exact ⟨mode, whole ▸ there⟩
      · rw [← whole] at there
        exact Node.directory_of_faceAt_append none there
    exact Or.inl ⟨_, Node.arrives_location there' fun other member =>
      ⟨(sound.start_proper from_ other (whole ▸ List.mem_append_left _ member)).1,
        (sound.start_proper from_ other (whole ▸ List.mem_append_left _ member)).2.2⟩⟩

/-- Where nothing is blocked, each path is a directory or passable. -/
theorem isDirectory_or_passable {paths : List Path} (chain : Path.Upward paths)
    (sound : fs.Sound) (takes : ∀ q ∈ paths, fs.isDirectory q = false → fs.Takes q)
    (clear : ∀ q ∈ paths, fs.isBlocked q = false) :
    ∀ q ∈ paths, fs.isDirectory q = true ∨ ∃ start, fs.Passable start q := by
  have first : ∀ {p : Path} {above : List Path}, Path.Upward (p :: above) →
      (∀ q ∈ p :: above, fs.isDirectory q = false → fs.Takes q) →
      (∀ q ∈ p :: above, fs.isBlocked q = false) →
        fs.isDirectory p = true ∨ ∃ start, fs.Passable start p := by
    intro p above chain takes clear
    by_cases there : fs.isDirectory p = true
    · exact Or.inl there
    · exact Or.inr
        (passable_of_not_isBlocked chain sound (Bool.eq_false_iff.mpr there) takes clear)
  induction chain with
  | top straight short =>
    intro q member
    rw [List.mem_singleton.mp member]
    exact first (.top straight short) takes clear
  | step child chain ih =>
    intro q member
    rcases List.mem_cons.mp member with rfl | higher
    · exact first (.step child chain) takes clear
    · exact ih (fun r member => takes r (List.mem_cons_of_mem _ member))
        (fun r member => clear r (List.mem_cons_of_mem _ member)) q higher

end FileSystem

end ModeAcl
