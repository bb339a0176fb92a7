import Mathlib.Tactic.Common
import ModeAcl.TriadMasks

/-!
# Moving triads

What the translations between modes and masks do to one triad. The mask of a
class depends on its triad alone, and read back for any class it gives that
triad in the place of the class that it is read for (`classBits_classMask`).
Reading back turns the union of masks into the union of modes. `Mode.regroup`
moves each triad to the class that a function assigns to it.
-/

namespace ModeAcl

/-! ## The bits of a class -/

theorem FileClass.bits_eq (c : FileClass) : c.bits = 7#32 <<< c.offset := by
  cases c <;> decide

theorem FileClass.shift_inj {c c' : FileClass} (same : 7#32 <<< c.offset = 7#32 <<< c'.offset) :
    c = c' := by
  cases c <;> cases c' <;> first | rfl | exact absurd same (by decide)

/-- The bits of a class are its triad, in the place of the class. -/
theorem Mode.and_bits (m : Mode) (c : FileClass) :
    m.bits &&& c.bits = m.triad c <<< c.offset := by
  rw [FileClass.bits_eq, Mode.triad]
  ext i bound
  by_cases below : i < c.offset
  · simp [below]
  · have back : c.offset + (i - c.offset) = i := by omega
    simp [below, back, BitVec.getLsbD_eq_getElem bound]

theorem Mode.perm_bits (m : Mode) :
    m.perm.bits = m.triad .owner <<< FileClass.owner.offset |||
      m.triad .group <<< FileClass.group.offset |||
      m.triad .other <<< FileClass.other.offset := by
  have parts : Mode.permMask.bits =
      FileClass.owner.bits ||| FileClass.group.bits ||| FileClass.other.bits := by decide
  show m.bits &&& Mode.permMask.bits = _
  rw [parts, BitVec.and_or_distrib_left, BitVec.and_or_distrib_left, Mode.and_bits,
    Mode.and_bits, Mode.and_bits]

/-- A triad is one of eight words. -/
theorem Mode.exists_triad (m : Mode) (c : FileClass) :
    ∃ t : Fin 8, m.triad c = BitVec.ofNat 32 t := by
  have bound : (m.triad c).toNat < 8 := by
    rw [Mode.triad, BitVec.toNat_and]
    exact Nat.lt_of_le_of_lt Nat.and_le_right (by decide)
  exact ⟨⟨_, bound⟩, by simp⟩

theorem Mode.or_zero (m : Mode) : m ||| ⟨0#32⟩ = m := by
  show Mode.mk (m.bits ||| 0#32) = m
  rw [BitVec.or_zero]

theorem AccessMask.eq_empty {mask : AccessMask} (empty : mask.isEmpty) : mask = .empty :=
  congrArg AccessMask.mk (beq_iff_eq.mp empty)

namespace TriadMasks

/-! ## From triads to masks -/

theorem classMask_congr {m n : Mode} {c : FileClass} (isDirectory : Bool)
    (same : m.bits &&& c.bits = n.bits &&& c.bits) :
    classMask m c isDirectory = classMask n c isDirectory := by
  have read : c.bits &&& c.read = c.read := by cases c <;> decide
  have write : c.bits &&& c.write = c.write := by cases c <;> decide
  simp only [classMask]
  rw [← read, ← write, ← BitVec.and_assoc, ← BitVec.and_assoc, same, BitVec.and_assoc,
    BitVec.and_assoc]

/-- A mask says the same about every mode with the same triad. -/
theorem classMask_eq_ofTriad (m : Mode) (c : FileClass) (isDirectory : Bool) :
    classMask m c isDirectory = classMask ⟨m.triad c <<< c.offset⟩ c isDirectory := by
  apply classMask_congr
  rw [← Mode.and_bits, BitVec.and_assoc, BitVec.and_self]

theorem get_ofMode (m : Mode) (isDirectory : Bool) (c : FileClass) :
    (ofMode m isDirectory).get c = classMask m c isDirectory := by
  cases c <;> rfl

/-! ## From masks to triads -/

theorem shift_or (a b : BitVec 32) (distance : Int) :
    shift (a ||| b) distance = shift a distance ||| shift b distance := by
  cases distance with
  | ofNat n => exact BitVec.shiftLeft_or_distrib a b n
  | negSucc n => exact BitVec.ushiftRight_or_distrib a b (n + 1)

@[simp] theorem classBits_empty (c : FileClass) : classBits c .empty = 0#32 := by
  cases c <;> decide

theorem classBits_or (c : FileClass) (a b : AccessMask) :
    classBits c (a ||| b) = classBits c a ||| classBits c b := by
  show classBits c ⟨a.bits ||| b.bits⟩ = _
  simp only [classBits, shift_or]
  ext i bound
  simp only [BitVec.getElem_or, BitVec.getElem_and]
  grind

/-- Read for any class, the mask of a class gives the triad that it was made from. -/
theorem classBits_classMask (m : Mode) (c target : FileClass) (isDirectory : Bool) :
    classBits target (classMask m c isDirectory) = m.triad c <<< target.offset := by
  rw [classMask_eq_ofTriad]
  obtain ⟨t, triad⟩ := m.exists_triad c
  rw [triad]
  clear triad
  revert t
  cases c <;> cases target <;> cases isDirectory <;> decide

theorem toMode_empty : toMode .empty = ⟨0#32⟩ := by decide

theorem toMode_grant (masks : TriadMasks) (c : FileClass) (mask : AccessMask) :
    (masks.grant c mask).toMode = masks.toMode ||| ⟨classBits c mask⟩ := by
  show _ = Mode.mk (_ ||| _)
  cases c <;> simp only [grant, toMode, classBits_or] <;> congr 1 <;> ac_rfl

end TriadMasks

/-! ## Regrouping -/

/-- The mode whose triads are those of `m`, each moved to the class that `f` assigns to its own. -/
def Mode.regroup (m : Mode) (f : FileClass → FileClass) : Mode :=
  ⟨m.triad .owner <<< (f .owner).offset ||| m.triad .group <<< (f .group).offset |||
    m.triad .other <<< (f .other).offset⟩

theorem Mode.regroup_id (m : Mode) : m.regroup id = m.perm := by
  have bits := m.perm_bits
  rcases perm : m.perm with ⟨word⟩
  rw [perm] at bits
  exact congrArg Mode.mk bits.symm

/-- Only the identity leaves all triads of all modes where they are: a mode with the bits of a
single class shows where that class is moved to. -/
theorem Mode.regroup_eq_perm_iff (f : FileClass → FileClass) :
    (∀ m : Mode, m.regroup f = m.perm) ↔ ∀ c, f c = c := by
  constructor
  · intro kept c
    have alone : (Mode.regroup ⟨c.bits⟩ f).bits = c.bits := by
      rw [kept]
      cases c <;> decide
    have moved : (Mode.regroup ⟨c.bits⟩ f).bits = 7#32 <<< (f c).offset := by
      cases c <;> simp [regroup, triad, FileClass.bits_eq, FileClass.offset]
    exact FileClass.shift_inj (moved.symm.trans (alone.trans c.bits_eq))
  · intro fixed m
    have same : f = id := funext fixed
    rw [same, regroup_id]

end ModeAcl
