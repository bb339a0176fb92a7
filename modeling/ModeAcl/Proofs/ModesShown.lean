import ModeAcl.Proofs.OperandsInTurn
import ModeAcl.Proofs.SameShape

/-!
# Modes that were set are shown

Setting the mode of an object moves nothing: every path leads to where it led before, through links
or from a removed directory (`Alike.walk_eq`), and of the modes only the one at this spot changes
(`setMode_spec`). So after `chmod` a spot has the new mode if any of the operands leads
there, and its old one else (`each_chmod`), and `stat` shows in octal the mode that `chmod` was
given. Aliases are links and dots: no object has a second name. Every mode may be set and looked at,
whatever modes there are on the way.
-/

namespace ModeAcl

/-! ## Removed directories -/

namespace WorkingDirectory

/-- The directory without the modes of those that have been removed. -/
def shape : WorkingDirectory → WorkingDirectory
  | linked loc => linked loc
  | detached _ parent => detached ⟨0⟩ parent.shape

theorem depart_shape (dir : WorkingDirectory) (depth : Nat) (pieces : List String) :
    dir.shape.depart depth pieces = dir.depart depth pieces := by
  induction dir generalizing depth pieces with
  | linked loc => rfl
  | detached mode parent ih => simp only [shape, depart, ih]

theorem shape_setModeAbove (mode : Mode) (dir : WorkingDirectory) (depth : Nat) :
    (dir.setModeAbove mode depth).shape = dir.shape := by
  induction dir generalizing depth with
  | linked loc => cases depth <;> rfl
  | detached own parent ih =>
    cases depth with
    | zero => rfl
    | succ depth => exact congrArg (detached ⟨0⟩) (ih depth)

theorem modeAbove_setModeAbove_of_ne {depth other : Nat} (ne : other ≠ depth) (mode : Mode)
    (dir : WorkingDirectory) :
    (dir.setModeAbove mode depth).modeAbove other = dir.modeAbove other := by
  induction dir generalizing depth other with
  | linked loc => cases depth <;> rfl
  | detached own parent ih =>
    cases depth with
    | zero =>
      cases other with
      | zero => exact absurd rfl ne
      | succ other => rfl
    | succ depth =>
      cases other with
      | zero => rfl
      | succ other => exact ih (fun same => ne (congrArg Nat.succ same))

end WorkingDirectory

/-! ## Spots and their modes -/

/-- The mode of a file or directory. -/
def Face.commonMode? : Face → Option Mode
  | file mode _ | directory mode => some mode
  | symlink _ | socket _ => none

namespace FileSystem

variable {fs fs' fs'' : FileSystem} {p : Path} {spot : Spot} {mode : Mode}

/-- The two differ in modes only. -/
structure Alike (fs fs' : FileSystem) : Prop where
  root : fs.root.SameShape fs'.root
  start : fs.workingDirectory.shape = fs'.workingDirectory.shape

theorem Alike.refl (fs : FileSystem) : fs.Alike fs := ⟨fun _ => rfl, rfl⟩

theorem Alike.trans (first : fs.Alike fs') (second : fs'.Alike fs'') : fs.Alike fs'' :=
  ⟨fun loc => (first.root loc).trans (second.root loc), first.start.trans second.start⟩

theorem Alike.walk_eq (alike : fs.Alike fs') (last : Last) (p : Path) :
    fs.walk last p = fs'.walk last p := by
  simp only [walk, walkPieces, walkFrom_congr alike.root]
  rw [← WorkingDirectory.depart_shape, alike.start, WorkingDirectory.depart_shape]

/-- The mode of the file or directory at a spot. -/
def modeAt? (fs : FileSystem) : Spot → Option Mode
  | .object loc => (fs.root.faceAt loc).bind Face.commonMode?
  | .vacant _ _ => none
  | .detached depth => some (fs.workingDirectory.modeAbove depth)

theorem modeAt?_of_metadata {m : Metadata} (found : fs.metadata p = .ok m)
    (common : m.type = .file ∨ m.type = .directory) :
    ∃ spot, fs.walk .follow p = .ok spot ∧ fs.modeAt? spot = some m.mode := by
  rw [metadata] at found
  rcases walked : fs.walk .follow p with e | spot
  · rw [walked] at found
    cases found
  refine ⟨spot, rfl, ?_⟩
  rw [walked] at found
  cases spot with
  | vacant dir name => cases found
  | detached depth =>
    cases found
    rfl
  | object loc =>
    dsimp only at found
    rcases there : fs.root.get? loc with _ | node
    · rw [there] at found
      cases found
    rw [there] at found
    cases found
    rw [modeAt?, Node.faceAt, there]
    cases node with
    | file own data => rfl
    | directory own entries => rfl
    | symlink target => simp [Node.metadata, Node.type] at common
    | socket own => simp [Node.metadata, Node.type] at common

theorem metadata_of_modeAt? (walked : fs.walk .follow p = .ok spot)
    (found : fs.modeAt? spot = some mode) : ∃ m, fs.metadata p = .ok m ∧ m.mode = mode := by
  rw [metadata, walked]
  cases spot with
  | vacant dir name => cases found
  | detached depth => exact ⟨_, rfl, Option.some.inj found⟩
  | object loc =>
    rw [modeAt?, Node.faceAt] at found
    rcases there : fs.root.get? loc with _ | node
    · rw [there] at found
      cases found
    rw [there] at found
    refine ⟨node.metadata, by dsimp only; rw [there], ?_⟩
    cases node <;> first | exact Option.some.inj found | cases found

theorem depart_of_walk {last : Last} {depth : Nat}
    (walked : fs.walk last p = .ok (.detached depth)) :
    fs.workingDirectory.depart 0 p.pieces = .ok (.inl (.detached depth)) := by
  obtain ⟨-, pieces⟩ := walk_eq_ok walked
  rw [walkPieces] at pieces
  split at pieces
  · exact absurd rfl ((walkFrom_eq_ok_iff.mp pieces).linked depth)
  · rcases departed : fs.workingDirectory.depart 0 p.pieces with e | start | ⟨start, rest⟩
    · rw [departed] at pieces
      cases pieces
    · rw [departed] at pieces
      cases pieces
      rfl
    · rw [departed] at pieces
      exact absurd rfl ((walkFrom_eq_ok_iff.mp pieces).linked depth)

/-- The mode of a file or directory can be set, which changes the mode at this one spot. -/
theorem setMode_spec {old : Mode} (walked : fs.walk .follow p = .ok spot)
    (found : fs.modeAt? spot = some old) (mode : Mode) :
    ∃ fs', fs.setMode p mode = .ok fs' ∧ fs.Alike fs' ∧
      ∀ other, fs'.modeAt? other =
        if other = spot then some mode.modeBits else fs.modeAt? other := by
  cases spot with
  | vacant dir name => cases found
  | object loc =>
    obtain ⟨f, seen, common⟩ := Option.bind_eq_some_iff.mp found
    obtain ⟨node, there, rfl⟩ := Option.map_eq_some_iff.mp seen
    refine ⟨_, setMode_of_walk walked there mode,
      ⟨withMode_shape (fun _ => rfl) loc mode.modeBits, rfl⟩, fun other => ?_⟩
    cases other with
    | object other =>
      rw [modeAt?, Node.faceAt_update (get?_withMode mode.modeBits)]
      by_cases same : other = loc
      · rw [if_pos same, if_pos (congrArg Spot.object same), there]
        cases node <;> first | rfl | cases common
      · rw [if_neg same, if_neg fun same' => same (Spot.object.inj same')]
        rfl
    | vacant dir name => rfl
    | detached depth => rfl
  | detached depth =>
    obtain ⟨levels, here, takes⟩ := WorkingDirectory.depart_detached (depart_of_walk walked)
    obtain rfl : depth = levels := by rw [Spot.detached.inj here, Nat.zero_add]
    have changed : fs.setMode p mode = .ok { fs with
        workingDirectory := fs.workingDirectory.setModeAbove mode.modeBits depth } := by
      rw [setMode, walked]
    refine ⟨_, changed, ⟨fun _ => rfl, ?_⟩, fun other => ?_⟩
    · exact (WorkingDirectory.shape_setModeAbove _ _ _).symm
    cases other with
    | object loc => rfl
    | vacant dir name => rfl
    | detached other =>
      by_cases same : other = depth
      · rw [modeAt?, if_pos (congrArg Spot.detached same), same, takes]
      · rw [modeAt?, if_neg fun same' => same (Spot.detached.inj same'),
          WorkingDirectory.modeAbove_setModeAbove_of_ne same]
        rfl

end FileSystem

/-! ## Type bits -/

namespace Mode

theorem modeBits_eq_self {m : Mode} (small : m.toNat ≤ 0o7777) : m.modeBits = m := by
  have kept : m.bits &&& modeMask.bits = m.bits := by
    apply BitVec.eq_of_toNat_eq
    rw [BitVec.toNat_and]
    exact (Nat.and_two_pow_sub_one_eq_mod _ 12).trans (Nat.mod_eq_of_lt (Nat.lt_succ_of_le small))
  exact congrArg mk kept

/-- The type of an object is not among the bits that are shown. -/
theorem modeBits_ofNativeType_or (type : ObjectType) (m : Mode) :
    (ofNativeType type ||| m).modeBits = m.modeBits := by
  have apart : (ofNativeType type).bits &&& modeMask.bits = 0#32 := by cases type <;> decide
  show mk (((ofNativeType type).bits ||| m.bits) &&& modeMask.bits) = mk (m.bits &&& modeMask.bits)
  rw [BitVec.and_or_distrib_right, apart, BitVec.zero_or]

end Mode

/-! ## Whole commands -/

namespace Tool

/-- Every operand leads to a file or directory: none fails, and a spot has the mode afterwards if an
operand leads there. -/
theorem each_chmod (mode : Mode) (operands : List String) (fs : FileSystem)
    (found : ∀ operand ∈ operands, ∃ spot old,
      fs.walk .follow ⟨operand⟩ = .ok spot ∧ fs.modeAt? spot = some old) :
    ∃ fs', each (silently (Native.chmod · mode)) operands fs = (⟨false, "", ""⟩, fs') ∧
      fs.Alike fs' ∧
      (∀ operand ∈ operands, ∀ spot, fs.walk .follow ⟨operand⟩ = .ok spot →
        fs'.modeAt? spot = some mode.modeBits) ∧
      ∀ spot, (∀ operand ∈ operands, fs.walk .follow ⟨operand⟩ ≠ .ok spot) →
        fs'.modeAt? spot = fs.modeAt? spot := by
  induction operands generalizing fs with
  | nil =>
    exact ⟨fs, rfl, .refl fs, fun operand member => absurd member List.not_mem_nil,
      fun spot _ => rfl⟩
  | cons operand operands ih =>
    obtain ⟨here, old, walked, has⟩ := found operand List.mem_cons_self
    obtain ⟨mid, changed, alike, modes⟩ := FileSystem.setMode_spec walked has mode
    have same : ∀ p, mid.walk .follow p = fs.walk .follow p := fun p => (alike.walk_eq _ p).symm
    have still : ∀ operand ∈ operands, ∃ spot old,
        mid.walk .follow ⟨operand⟩ = .ok spot ∧ mid.modeAt? spot = some old := by
      intro next among
      obtain ⟨spot, old, leads, had⟩ := found next (List.mem_cons_of_mem _ among)
      rw [same]
      by_cases again : spot = here
      · exact ⟨spot, _, leads, (modes spot).trans (if_pos again)⟩
      · exact ⟨spot, old, leads, ((modes spot).trans (if_neg again)).trans had⟩
    obtain ⟨fs', others, alike', set, kept⟩ := ih mid still
    have performed : silently (Native.chmod · mode) operand fs = (.ok "", mid) := by
      rw [silently, Native.chmod, changed]
      rfl
    refine ⟨fs', ?_, alike.trans alike', ?_, ?_⟩
    · rw [each, performed]
      dsimp only
      rw [others]
      rfl
    · intro operand' member spot leads
      -- An operand further behind may lead here as well, and sets the same mode.
      by_cases later : ∃ next ∈ operands, mid.walk .follow ⟨next⟩ = .ok spot
      · obtain ⟨next, among, leads⟩ := later
        exact set next among spot leads
      · have last : fs'.modeAt? spot = mid.modeAt? spot :=
          kept spot fun next among leads => later ⟨next, among, leads⟩
        have first : operand' = operand := by
          rcases List.mem_cons.mp member with first | among
          · exact first
          · exact absurd ⟨operand', among, (same _).trans leads⟩ later
        rw [first, walked] at leads
        rw [last, modes, if_pos (Except.ok.inj leads).symm]
    · intro spot elsewhere
      have other : spot ≠ here := fun at_ => elsewhere operand List.mem_cons_self (at_ ▸ walked)
      rw [kept spot fun next among leads =>
          elsewhere next (List.mem_cons_of_mem _ among) ((same _).symm.trans leads),
        modes, if_neg other]

/-- One line for each operand, all of them alike. -/
theorem each_showMode {mode : Mode} (operands : List String) (fs : FileSystem)
    (shown : ∀ operand ∈ operands, ∃ m, fs.metadata ⟨operand⟩ = .ok m ∧ m.mode = mode.modeBits)
    (small : mode.toNat ≤ 0o7777) :
    each (showMode true) operands fs =
      (⟨false, String.join (operands.map fun _ => mode.octalPadded 4 ++ "\n"), ""⟩, fs) := by
  induction operands with
  | nil => rfl
  | cons operand operands ih =>
    obtain ⟨m, found, has⟩ := shown operand List.mem_cons_self
    have bits : (Mode.ofNativeType m.type ||| m.mode).modeBits = mode := by
      rw [Mode.modeBits_ofNativeType_or, has, Mode.modeBits_eq_self small,
        Mode.modeBits_eq_self small]
    have performed : showMode true operand fs = (.ok (mode.octalPadded 4 ++ "\n"), fs) := by
      rw [showMode, Native.stat, found]
      dsimp only [Except.map, statLine]
      rw [bits]
      rfl
    rw [each, performed]
    dsimp only
    rw [ih fun operand among => shown operand (List.mem_cons_of_mem _ among), List.map_cons,
      String.join_cons]
    rfl

end Tool

end ModeAcl
