import ModeAcl.Proofs.Triads

/-!
# Rights and permissions

Each permission of a class stands for certain rights, and nothing else of a mode or of a
mask matters. Towards rights, each bit of a triad is moved to the bits of its rights:
`Lands` is the table of where it arrives, and from it the mask of a class is the union
of the rights for the permissions that are set (`classMask_eq`). Towards permissions,
each bit of a mode is that of a right, or of two for writing.
-/

namespace ModeAcl

/-! ## Single bits -/

theorem and_eq_right_iff {word part : BitVec 32} :
    word &&& part = part ↔ ∀ i, part.getLsbD i = true → word.getLsbD i = true := by
  constructor
  · intro within i set
    rw [← within, BitVec.getLsbD_and, Bool.and_eq_true] at set
    exact set.1
  · intro within
    refine BitVec.eq_of_getLsbD_eq fun i _ => ?_
    rw [BitVec.getLsbD_and]
    cases set : part.getLsbD i with
    | true => rw [within i set, Bool.and_true]
    | false => rw [Bool.and_false]

theorem and_twoPow_eq_iff {i : Nat} (bound : i < 32) (word : BitVec 32) :
    word &&& .twoPow 32 i = .twoPow 32 i ↔ word.getLsbD i = true := by
  rw [and_eq_right_iff]
  constructor
  · intro within
    exact within i (by simp [bound])
  · intro set j at_
    rw [BitVec.getLsbD_twoPow, Bool.and_eq_true, decide_eq_true_eq, decide_eq_true_eq] at at_
    rw [← at_.2, set]

theorem Mode.contains_iff_and {m n : Mode} :
    m.contains n = true ↔ m.bits &&& n.bits = n.bits := by
  rw [contains, beq_iff_eq]
  exact Mode.mk.injEq _ _ ▸ Iff.rfl

theorem AccessMask.contains_iff_and {m n : AccessMask} :
    m.contains n = true ↔ m.bits &&& n.bits = n.bits := by
  rw [contains, beq_iff_eq]
  exact AccessMask.mk.injEq _ _ ▸ Iff.rfl

/-- A mode contains a single bit exactly if the bit is set. -/
theorem Mode.contains_single {part : Mode} {i : Nat} (single : part.bits = .twoPow 32 i)
    (bound : i < 32) (m : Mode) : m.contains part = true ↔ m.bits.getLsbD i = true := by
  rw [contains_iff_and, single, and_twoPow_eq_iff bound]

/-- A mask contains a right that is a single bit exactly if the bit is set. -/
theorem AccessMask.contains_single {right : AccessMask} {i : Nat}
    (single : right.bits = .twoPow 32 i) (bound : i < 32) (mask : AccessMask) :
    mask.contains right = true ↔ mask.bits.getLsbD i = true := by
  rw [contains_iff_and, single, and_twoPow_eq_iff bound]

namespace FileClass

theorem read_eq (c : FileClass) : c.read = .twoPow 32 (c.offset + 2) := by
  cases c <;> decide

theorem write_eq (c : FileClass) : c.write = .twoPow 32 (c.offset + 1) := by
  cases c <;> decide

theorem execute_eq (c : FileClass) : c.execute = .twoPow 32 c.offset := by
  cases c <;> decide

theorem offset_le (c : FileClass) : c.offset ≤ 6 := by
  cases c <;> decide

end FileClass

namespace Mode

variable (m : Mode) (c : FileClass)

theorem contains_read : m.contains ⟨c.read⟩ = true ↔ m.bits.getLsbD (c.offset + 2) = true := by
  have bound := c.offset_le
  exact contains_single c.read_eq (by omega) m

theorem contains_write : m.contains ⟨c.write⟩ = true ↔ m.bits.getLsbD (c.offset + 1) = true := by
  have bound := c.offset_le
  exact contains_single c.write_eq (by omega) m

theorem contains_execute : m.contains ⟨c.execute⟩ = true ↔ m.bits.getLsbD c.offset = true := by
  have bound := c.offset_le
  exact contains_single c.execute_eq (by omega) m

end Mode

namespace TriadMasks

/-! ## Moving bits -/

/-- A bit that is moved to a place within the word is found there. -/
theorem getLsbD_shift (word : BitVec 32) {distance : Int} {i j : Nat}
    (lands : (j : Int) = i + distance) (bound : j < 32) :
    (shift word distance).getLsbD j = word.getLsbD i := by
  cases distance with
  | ofNat n =>
    have sum : j = i + n := Int.ofNat.inj lands
    rw [shift, BitVec.getLsbD_shiftLeft, sum, Nat.add_sub_cancel]
    simp only [← sum, bound, decide_true, Bool.true_and]
    rw [decide_eq_false (by omega), Bool.not_false, Bool.true_and]
  | negSucc n =>
    have back : n + 1 + j = i := by omega
    rw [shift, BitVec.getLsbD_ushiftRight, back]

/-- A single bit is moved as a whole. -/
theorem shift_twoPow {distance : Int} {i j : Nat} (lands : (j : Int) = i + distance)
    (from_ : i < 32) : shift (.twoPow 32 i) distance = .twoPow 32 j := by
  cases distance with
  | ofNat n =>
    have sum : j = i + n := Int.ofNat.inj lands
    rw [shift, BitVec.twoPow_eq, BitVec.twoPow_eq, sum, BitVec.shiftLeft_add]
  | negSucc n =>
    obtain rfl : i = n + 1 + j := by omega
    have to_ : j < 32 := by omega
    apply BitVec.eq_of_getLsbD_eq
    intro k bound
    rw [shift, BitVec.getLsbD_ushiftRight, BitVec.getLsbD_twoPow, BitVec.getLsbD_twoPow]
    simp only [from_, to_, Nat.add_left_cancel_iff]

theorem shift_zero (distance : Int) : shift 0#32 distance = 0#32 := by
  cases distance with
  | ofNat n => simp [shift]
  | negSucc n => simp [shift]

theorem shift_and_twoPow {distance : Int} {i j : Nat} (lands : (j : Int) = i + distance)
    (from_ : i < 32) (word : BitVec 32) :
    shift (word &&& .twoPow 32 i) distance =
      if word.getLsbD i then .twoPow 32 j else 0#32 := by
  rw [BitVec.and_twoPow]
  split
  · exact shift_twoPow lands from_
  · exact shift_zero distance

/-- Where the bits of a triad arrive: the places of the generic rights and of the right to delete,
and those of the rights in directories. -/
structure Lands (c : FileClass) : Prop where
  genericRead : (31 : Int) = (c.offset + 2 : Nat) + genericShift c
  genericWrite : (30 : Int) = (c.offset + 1 : Nat) + genericShift c
  genericExecute : (29 : Int) = c.offset + genericShift c
  delete : (16 : Int) = (c.offset + 1 : Nat) + deleteShift c
  list : (0 : Int) = (c.offset + 2 : Nat) + listShift c
  traverse : (5 : Int) = (c.offset + 2 : Nat) + traverseShift c
  deleteChild : (6 : Int) = (c.offset + 1 : Nat) + deleteChildShift c
  writeAttributes : (4 : Int) = (c.offset + 1 : Nat) + writeAttributesShift c

/-- The distances of all classes lead to the same places. -/
theorem lands (c : FileClass) : Lands c := by
  cases c <;> constructor <;> decide

/-! ## From permissions to rights -/

/-- The rights that go with the permission to read. -/
def readRights (isDirectory : Bool) : AccessMask :=
  if isDirectory then .genericRead ||| .listDirectory ||| .traverse else .genericRead

def writeRights (isDirectory : Bool) : AccessMask :=
  if isDirectory then .genericWrite ||| .delete ||| .deleteChild ||| .writeAttributes
  else .genericWrite ||| .delete

/-- The rights that some permissions stand for. -/
def rights (read write execute isDirectory : Bool) : AccessMask :=
  (if read then readRights isDirectory else .empty) |||
    (if write then writeRights isDirectory else .empty) |||
    (if execute then .genericExecute else .empty)

/-- The mask of a class is the union of the rights for its permissions. -/
theorem classMask_eq (m : Mode) (c : FileClass) (isDirectory : Bool) :
    classMask m c isDirectory =
      rights (m.contains ⟨c.read⟩) (m.contains ⟨c.write⟩) (m.contains ⟨c.execute⟩) isDirectory := by
  have lands := lands c
  have bound := c.offset_le
  have read : m.contains ⟨c.read⟩ = m.bits.getLsbD (c.offset + 2) :=
    Bool.eq_iff_iff.mpr (m.contains_read c)
  have write : m.contains ⟨c.write⟩ = m.bits.getLsbD (c.offset + 1) :=
    Bool.eq_iff_iff.mpr (m.contains_write c)
  have execute : m.contains ⟨c.execute⟩ = m.bits.getLsbD c.offset :=
    Bool.eq_iff_iff.mpr (m.contains_execute c)
  rw [read, write, execute]
  simp only [classMask, FileClass.bits, BitVec.and_or_distrib_left, shift_or]
  rw [c.read_eq, c.write_eq, c.execute_eq, shift_and_twoPow lands.genericRead (by omega),
    shift_and_twoPow lands.genericWrite (by omega),
    shift_and_twoPow lands.genericExecute (by omega), shift_and_twoPow lands.delete (by omega),
    shift_and_twoPow lands.list (by omega), shift_and_twoPow lands.traverse (by omega),
    shift_and_twoPow lands.deleteChild (by omega),
    shift_and_twoPow lands.writeAttributes (by omega)]
  generalize m.bits.getLsbD (c.offset + 2) = r, m.bits.getLsbD (c.offset + 1) = w,
    m.bits.getLsbD c.offset = x
  revert r w x isDirectory
  decide

/-- Which rights there are: the generic ones after the permissions, and for writing the right to
delete; in a directory two more for reading and two for writing. -/
theorem contains_rights (read write execute isDirectory : Bool) :
    let mask := rights read write execute isDirectory
    mask.contains .genericRead = read ∧ mask.contains .genericWrite = write ∧
      mask.contains .genericExecute = execute ∧ mask.contains .delete = write ∧
      mask.contains .listDirectory = (isDirectory && read) ∧
      mask.contains .traverse = (isDirectory && read) ∧
      mask.contains .deleteChild = (isDirectory && write) ∧
      mask.contains .writeAttributes = (isDirectory && write) ∧
      AccessMask.contains (.genericRead ||| .genericWrite ||| .genericExecute ||| .delete |||
        if isDirectory then
          .listDirectory ||| .traverse ||| .deleteChild ||| .writeAttributes
        else .empty) mask = true := by
  revert read write execute isDirectory
  decide

/-- The mask of a class tells its triad, which is read back from it. -/
theorem triad_eq_classBits (m : Mode) (c : FileClass) (isDirectory : Bool) :
    m.triad c = classBits .other (classMask m c isDirectory) := by
  rw [classBits_classMask]
  exact (BitVec.shiftLeft_zero _).symm

theorem classMask_eq_iff {m n : Mode} {c : FileClass} {isDirectory : Bool} :
    classMask m c isDirectory = classMask n c isDirectory ↔ m.triad c = n.triad c := by
  constructor
  · intro same
    rw [triad_eq_classBits m c isDirectory, same, ← triad_eq_classBits]
  · intro same
    apply classMask_congr
    rw [Mode.and_bits, Mode.and_bits, same]

theorem isEmpty_classMask_iff {m : Mode} {c : FileClass} {isDirectory : Bool} :
    (classMask m c isDirectory).isEmpty = true ↔ m.triad c = 0#32 := by
  have none_ : classMask ⟨0#32⟩ c isDirectory = .empty := by
    cases c <;> cases isDirectory <;> decide
  have zero : Mode.triad ⟨0#32⟩ c = 0#32 := by cases c <;> decide
  rw [← zero, ← @classMask_eq_iff _ _ _ isDirectory, none_]
  constructor
  · intro empty
    exact AccessMask.eq_empty empty
  · intro empty
    rw [empty]
    rfl

/-! ## No bit is lost -/

/-- Every bit of the part that is moved arrives at a place within the word. -/
def Lossless (part : BitVec 32) (distance : Int) : Prop :=
  ∀ i, part.getLsbD i = true →
    ∃ j : Nat, j < 32 ∧ (j : Int) = i + distance ∧ (shift part distance).getLsbD j = true

theorem lossless_and_twoPow {distance : Int} {i j : Nat} (lands : (j : Int) = i + distance)
    (bound : j < 32) (word : BitVec 32) : Lossless (word &&& .twoPow 32 i) distance := by
  intro k set
  have at_ : k = i := by
    rw [BitVec.getLsbD_and, BitVec.getLsbD_twoPow, Bool.and_eq_true, Bool.and_eq_true,
      decide_eq_true_eq, decide_eq_true_eq] at set
    exact set.2.2.symm
  subst at_
  refine ⟨j, bound, lands, ?_⟩
  rw [getLsbD_shift _ lands bound]
  exact set

theorem Lossless.or {a b : BitVec 32} {distance : Int} (first : Lossless a distance)
    (second : Lossless b distance) : Lossless (a ||| b) distance := by
  intro i set
  rw [BitVec.getLsbD_or, Bool.or_eq_true] at set
  rw [shift_or]
  rcases set with set | set
  · obtain ⟨j, bound, lands, found⟩ := first i set
    exact ⟨j, bound, lands, by rw [BitVec.getLsbD_or, found, Bool.true_or]⟩
  · obtain ⟨j, bound, lands, found⟩ := second i set
    exact ⟨j, bound, lands, by rw [BitVec.getLsbD_or, found, Bool.or_true]⟩

/-- What is moved for the mask of a class, and how far. -/
def moves (m : Mode) (c : FileClass) (isDirectory : Bool) : List (BitVec 32 × Int) :=
  (m.bits &&& c.bits, genericShift c) :: (m.bits &&& c.write, deleteShift c) ::
    if isDirectory then
      [(m.bits &&& c.read, listShift c), (m.bits &&& c.read, traverseShift c),
        (m.bits &&& c.write, deleteChildShift c), (m.bits &&& c.write, writeAttributesShift c)]
    else []

theorem classMask_eq_moves (m : Mode) (c : FileClass) (isDirectory : Bool) :
    classMask m c isDirectory =
      ⟨(moves m c isDirectory).foldl (fun mask move => mask ||| shift move.1 move.2) 0#32⟩ := by
  cases isDirectory <;> simp [classMask, moves]

theorem lossless_of_mem_moves {m : Mode} {c : FileClass} {isDirectory : Bool}
    {move : BitVec 32 × Int} (member : move ∈ moves m c isDirectory) :
    Lossless move.1 move.2 := by
  have lands := lands c
  have triad : Lossless (m.bits &&& c.bits) (genericShift c) := by
    rw [FileClass.bits, c.read_eq, c.write_eq, c.execute_eq, BitVec.and_or_distrib_left,
      BitVec.and_or_distrib_left]
    exact ((lossless_and_twoPow lands.genericRead (by decide) _).or
      (lossless_and_twoPow lands.genericWrite (by decide) _)).or
        (lossless_and_twoPow lands.genericExecute (by decide) _)
  rw [moves, List.mem_cons, List.mem_cons, c.read_eq, c.write_eq] at member
  rcases member with rfl | rfl | member
  · exact triad
  · exact lossless_and_twoPow lands.delete (by decide) _
  cases isDirectory with
  | false => cases member
  | true =>
    simp only [if_true, List.mem_cons, List.not_mem_nil, or_false] at member
    rcases member with rfl | rfl | rfl | rfl
    · exact lossless_and_twoPow lands.list (by decide) _
    · exact lossless_and_twoPow lands.traverse (by decide) _
    · exact lossless_and_twoPow lands.deleteChild (by decide) _
    · exact lossless_and_twoPow lands.writeAttributes (by decide) _

/-! ## From masks to the bits of a mode -/

theorem classBits_eq (c : FileClass) (mask : AccessMask) :
    classBits c mask =
      mask.bits >>> (29 - c.offset) &&& c.bits ||| mask.bits >>> (15 - c.offset) &&& c.write := by
  cases c <;> rfl

/-- Each bit of a mode is that of a right in the mask of its class; for the write bit there are
two rights. -/
theorem getLsbD_toMode (masks : TriadMasks) (c : FileClass) :
    masks.toMode.bits.getLsbD (c.offset + 2) = (masks.get c).bits.getLsbD 31 ∧
      masks.toMode.bits.getLsbD (c.offset + 1) =
        ((masks.get c).bits.getLsbD 30 || (masks.get c).bits.getLsbD 16) ∧
      masks.toMode.bits.getLsbD c.offset = (masks.get c).bits.getLsbD 29 := by
  simp only [toMode, classBits_eq]
  cases c <;>
    simp [FileClass.offset, FileClass.bits, FileClass.read, FileClass.write, FileClass.execute, get]

/-- A class may read exactly if its mask has the generic right to. -/
theorem contains_read_toMode (masks : TriadMasks) (c : FileClass) :
    masks.toMode.contains ⟨c.read⟩ = true ↔ (masks.get c).contains .genericRead = true := by
  rw [Mode.contains_read, (getLsbD_toMode masks c).1]
  exact (AccessMask.contains_single (by decide) (by decide) _).symm

/-- For writing there are two rights, of which either is enough. -/
theorem contains_write_toMode (masks : TriadMasks) (c : FileClass) :
    masks.toMode.contains ⟨c.write⟩ = true ↔
      (masks.get c).contains .genericWrite = true ∨ (masks.get c).contains .delete = true := by
  rw [Mode.contains_write, (getLsbD_toMode masks c).2.1, Bool.or_eq_true]
  exact or_congr (AccessMask.contains_single (by decide) (by decide) _).symm
    (AccessMask.contains_single (by decide) (by decide) _).symm

theorem contains_execute_toMode (masks : TriadMasks) (c : FileClass) :
    masks.toMode.contains ⟨c.execute⟩ = true ↔
      (masks.get c).contains .genericExecute = true := by
  rw [Mode.contains_execute, (getLsbD_toMode masks c).2.2]
  exact (AccessMask.contains_single (by decide) (by decide) _).symm

theorem perm_toMode (masks : TriadMasks) : masks.toMode.perm = masks.toMode := by
  have within : ∀ c mask, classBits c mask &&& Mode.permMask.bits = classBits c mask := by
    intro c mask
    have bits : c.bits &&& Mode.permMask.bits = c.bits := by cases c <;> decide
    have write : c.write &&& Mode.permMask.bits = c.write := by cases c <;> decide
    rw [classBits, BitVec.and_or_distrib_right, BitVec.and_assoc, BitVec.and_assoc, bits, write]
  show Mode.mk (_ &&& _) = Mode.mk _
  rw [toMode, BitVec.and_or_distrib_right, BitVec.and_or_distrib_right, within, within, within]

/-- The rights that a mode is read from. -/
def consulted : AccessMask := .genericRead ||| .genericWrite ||| .genericExecute ||| .delete

/-- No other right makes a difference. -/
theorem classBits_consulted (c : FileClass) (mask : AccessMask) :
    classBits c (mask &&& consulted) = classBits c mask := by
  have generic : consulted.bits >>> (29 - c.offset) &&& c.bits = c.bits := by cases c <;> decide
  have delete : consulted.bits >>> (15 - c.offset) &&& c.write = c.write := by cases c <;> decide
  have bits : (mask &&& consulted).bits = mask.bits &&& consulted.bits := rfl
  rw [classBits_eq, classBits_eq, bits, BitVec.ushiftRight_and_distrib,
    BitVec.ushiftRight_and_distrib, BitVec.and_assoc, BitVec.and_assoc, generic, delete]

/-- Reading back takes the union of masks to the union of modes. -/
theorem toMode_or (a b : TriadMasks) :
    (⟨a.owner ||| b.owner, a.group ||| b.group, a.other ||| b.other⟩ : TriadMasks).toMode =
      a.toMode ||| b.toMode := by
  show Mode.mk _ = Mode.mk (_ ||| _)
  simp only [toMode, classBits_or]
  congr 1
  ac_rfl

/-- A mode that is given out as rights is read back without its other bits. -/
theorem toMode_ofMode (m : Mode) (isDirectory : Bool) : (ofMode m isDirectory).toMode = m.perm := by
  simp only [toMode, ofMode, classBits_classMask]
  exact m.regroup_id

/-- The masks of a mode are those of its permissions. -/
theorem ofMode_perm (m : Mode) (isDirectory : Bool) :
    ofMode m.perm isDirectory = ofMode m isDirectory := by
  have same : ∀ c : FileClass, classMask m.perm c isDirectory = classMask m c isDirectory := by
    intro c
    have within : Mode.permMask.bits &&& c.bits = c.bits := by cases c <;> decide
    apply classMask_congr
    show m.bits &&& Mode.permMask.bits &&& c.bits = _
    rw [BitVec.and_assoc, within]
  rw [ofMode, ofMode, same, same, same]

theorem ofMode_toMode_iff {masks : TriadMasks} {isDirectory : Bool} :
    ofMode masks.toMode isDirectory = masks ↔ ∃ m, ofMode m isDirectory = masks := by
  constructor
  · intro back
    exact ⟨_, back⟩
  · rintro ⟨m, rfl⟩
    rw [toMode_ofMode, ofMode_perm]

/-! ## Main results -/

/-- The rights that a mode gives to a class. Each permission has its generic right, writing also the
right to delete; in a directory reading also has the rights to list and to traverse, and writing those to
delete children and to write attributes. The mask has no other right. It depends on nothing but the
triad of the class and whether there is a directory, and is different for any other triad; it is empty
exactly if the triad is. All bits that are moved arrive within the word. -/
theorem ofMode_rights (m : Mode) (c : FileClass) (isDirectory : Bool) :
    let mask := (ofMode m isDirectory).get c
    mask.contains .genericRead = m.contains ⟨c.read⟩ ∧
    mask.contains .genericWrite = m.contains ⟨c.write⟩ ∧
    mask.contains .genericExecute = m.contains ⟨c.execute⟩ ∧
    mask.contains .delete = m.contains ⟨c.write⟩ ∧
    mask.contains .listDirectory = (isDirectory && m.contains ⟨c.read⟩) ∧
    mask.contains .traverse = (isDirectory && m.contains ⟨c.read⟩) ∧
    mask.contains .deleteChild = (isDirectory && m.contains ⟨c.write⟩) ∧
    mask.contains .writeAttributes = (isDirectory && m.contains ⟨c.write⟩) ∧
    AccessMask.contains (.genericRead ||| .genericWrite ||| .genericExecute ||| .delete |||
      if isDirectory then
        .listDirectory ||| .traverse ||| .deleteChild ||| .writeAttributes
      else .empty) mask = true ∧
    (∀ n : Mode, (ofMode n isDirectory).get c = mask ↔ n.triad c = m.triad c) ∧
    (mask.isEmpty = true ↔ m.triad c = 0#32) ∧
    mask = ⟨(moves m c isDirectory).foldl (fun mask move => mask ||| shift move.1 move.2) 0#32⟩ ∧
    ∀ move ∈ moves m c isDirectory, Lossless move.1 move.2 := by
  have granted := contains_rights (m.contains ⟨c.read⟩) (m.contains ⟨c.write⟩)
    (m.contains ⟨c.execute⟩) isDirectory
  rw [← classMask_eq m c isDirectory] at granted
  obtain ⟨genericRead, genericWrite, genericExecute, delete, list, traverse, deleteChild, attributes,
    only_⟩ := granted
  simp only [get_ofMode]
  exact ⟨genericRead, genericWrite, genericExecute, delete, list, traverse, deleteChild, attributes,
    only_, fun n => classMask_eq_iff, isEmpty_classMask_iff, classMask_eq_moves m c isDirectory,
    fun move => lossless_of_mem_moves⟩

/-- A directory that its group may read and search, with a special bit and its type. -/
theorem ofMode_rights_of_group :
    (ofMode ⟨0o44751⟩ true).get .group = ⟨0xa0000021⟩ ∧
      (0o50#32, 26) ∈ moves ⟨0o44751⟩ .group true ∧ Lossless 0o50#32 26 := by
  obtain ⟨-, -, -, -, -, -, -, -, -, -, -, -, lossless⟩ := ofMode_rights ⟨0o44751⟩ .group true
  have member : (0o50#32, 26) ∈ moves ⟨0o44751⟩ .group true := by decide
  exact ⟨by decide, member, lossless _ member⟩

/-- The mode that is read from any masks: each permission of a class stands for the generic right of
its name, and for the right to delete too if it is to write. The mode has no other bit, and no other
right counts. The masks of two modes taken together are read as the two modes taken together. What was
made from a mode is read as its permissions, and masks are made again from what was read exactly if
they were made from some mode. -/
theorem toMode_exact :
    (∀ (masks : TriadMasks) (c : FileClass),
      (masks.toMode.contains ⟨c.read⟩ = true ↔ (masks.get c).contains .genericRead = true) ∧
      (masks.toMode.contains ⟨c.write⟩ = true ↔
        (masks.get c).contains .genericWrite = true ∨ (masks.get c).contains .delete = true) ∧
      (masks.toMode.contains ⟨c.execute⟩ = true ↔
        (masks.get c).contains .genericExecute = true)) ∧
    (∀ masks : TriadMasks, masks.toMode.perm = masks.toMode) ∧
    (∀ masks : TriadMasks,
      (⟨masks.owner &&& consulted, masks.group &&& consulted, masks.other &&& consulted⟩ :
        TriadMasks).toMode = masks.toMode) ∧
    (∀ a b : TriadMasks,
      (⟨a.owner ||| b.owner, a.group ||| b.group, a.other ||| b.other⟩ : TriadMasks).toMode =
        a.toMode ||| b.toMode) ∧
    (∀ (m : Mode) (isDirectory : Bool), (ofMode m isDirectory).toMode = m.perm) ∧
    (∀ (masks : TriadMasks) (isDirectory : Bool),
      ofMode masks.toMode isDirectory = masks ↔ ∃ m, ofMode m isDirectory = masks) := by
  refine ⟨fun masks c => ⟨contains_read_toMode masks c, contains_write_toMode masks c,
    contains_execute_toMode masks c⟩, perm_toMode, ?_, toMode_or, toMode_ofMode,
    fun masks isDirectory => ofMode_toMode_iff⟩
  intro masks
  simp only [toMode, classBits_consulted]

end TriadMasks

end ModeAcl
