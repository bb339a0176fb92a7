import Mathlib.Data.List.Perm.Basic
import ModeAcl.Proofs.Memory
import ModeAcl.Proofs.Rights

/-!
# The rights of a class

A list may hold any number of entries for a class, in any order. Their masks are
taken together (`get_listedMasks`), so it does not matter how often an entry is there,
or where, and a further one takes nothing away. From the masks, each bit of a mode
is read off on its own: it is set if some entry of its class has a right that
stands for it.
-/

namespace ModeAcl

variable {Acl Descriptor σ : Type} {owner group : Sid} {aces aces' : List Ace}

/-! ## Unions of masks -/

namespace AccessMask

/-- The rights that any of several masks has. -/
def union (masks : List AccessMask) : AccessMask := masks.foldr (· ||| ·) .empty

theorem or_bits (a b : AccessMask) : (a ||| b).bits = a.bits ||| b.bits := rfl

theorem ext_bits {a b : AccessMask} (same : ∀ i, a.bits.getLsbD i = b.bits.getLsbD i) : a = b :=
  congrArg AccessMask.mk (BitVec.eq_of_getLsbD_eq fun i _ => same i)

theorem getLsbD_union (masks : List AccessMask) (i : Nat) :
    (union masks).bits.getLsbD i = masks.any (·.bits.getLsbD i) := by
  induction masks with
  | nil => simp [union, empty]
  | cons mask masks ih =>
    unfold union at ih ⊢
    rw [List.foldr_cons, or_bits, BitVec.getLsbD_or, ih, List.any_cons]

end AccessMask

namespace TriadMasks

theorem get_empty (c : FileClass) : empty.get c = .empty := by
  cases c <;> rfl

theorem get_grant (masks : TriadMasks) (c c' : FileClass) (mask : AccessMask) :
    (masks.grant c mask).get c' = if c = c' then masks.get c' ||| mask else masks.get c' := by
  cases c <;> cases c' <;> rfl

end TriadMasks

/-! ## Who counts for a class -/

/-- An identity is the owner's, or the placeholder S-1-3-0. -/
def Sid.IsForOwner (sid owner : Sid) : Prop := sid = owner ∨ sid = .ofNat 3 [0]

/-- An identity is the group's, or the placeholder S-1-3-1. -/
def Sid.IsForGroup (sid group : Sid) : Prop := sid = group ∨ sid = .ofNat 3 [1]

/-- The class that an identity counts for: the owner comes first, then the group, then others. -/
def FileClass.Counts (owner group sid : Sid) : FileClass → Prop
  | .owner => sid.IsForOwner owner
  | .group => ¬ sid.IsForOwner owner ∧ sid.IsForGroup group
  | .other => ¬ sid.IsForOwner owner ∧ ¬ sid.IsForGroup group

theorem classify_eq_iff (owner group sid : Sid) (c : FileClass) :
    classify sid owner group = c ↔ c.Counts owner group sid := by
  unfold classify
  by_cases first : sid = owner ∨ sid = WellKnownSid.creatorOwner.sid
  · rw [if_pos first]
    cases c with
    | owner => exact iff_of_true rfl first
    | group | other => exact iff_of_false (by decide) fun counts => counts.1 first
  · rw [if_neg first]
    by_cases second : sid = group ∨ sid = WellKnownSid.creatorGroup.sid
    · rw [if_pos second]
      cases c with
      | owner => exact iff_of_false (by decide) first
      | group => exact iff_of_true rfl ⟨first, second⟩
      | other => exact iff_of_false (by decide) fun counts => counts.2 second
    · rw [if_neg second]
      cases c with
      | owner => exact iff_of_false (by decide) first
      | group => exact iff_of_false (by decide) fun counts => second counts.2
      | other => exact iff_of_true rfl ⟨first, second⟩

instance (owner group sid : Sid) (c : FileClass) : Decidable (c.Counts owner group sid) :=
  decidable_of_iff _ (classify_eq_iff owner group sid c)

/-- The masks of the entries that count for a class. -/
def masksOf (owner group : Sid) (c : FileClass) (aces : List Ace) : List AccessMask :=
  (aces.filter fun ace => c.Counts owner group ace.sid).map (·.mask)

theorem mem_masksOf {c : FileClass} {mask : AccessMask} :
    mask ∈ masksOf owner group c aces ↔
      ∃ ace ∈ aces, c.Counts owner group ace.sid ∧ ace.mask = mask := by
  simp [masksOf, and_assoc]

/-! ## The masks of a list -/

theorem AccessMask.or_assoc (a b c : AccessMask) : a ||| b ||| c = a ||| (b ||| c) :=
  congrArg AccessMask.mk (BitVec.or_assoc a.bits b.bits c.bits)

/-- Going through a list adds to each class the masks of its entries, and nothing else. -/
theorem get_foldl_grant (owner group : Sid) (c : FileClass) (aces : List Ace) :
    ∀ masks : TriadMasks,
      (aces.foldl (fun masks ace =>
        masks.grant (classify ace.sid owner group) ace.mask) masks).get c =
          masks.get c ||| .union (masksOf owner group c aces) := by
  induction aces with
  | nil => exact fun masks => (congrArg AccessMask.mk BitVec.or_zero).symm
  | cons ace aces ih =>
    intro masks
    rw [List.foldl_cons, ih, TriadMasks.get_grant]
    by_cases counts : c.Counts owner group ace.sid
    · rw [if_pos ((classify_eq_iff _ _ _ _).mpr counts), AccessMask.or_assoc, masksOf, masksOf,
        List.filter_cons_of_pos (by simpa using counts)]
      rfl
    · rw [if_neg fun same => counts ((classify_eq_iff _ _ _ _).mp same), masksOf, masksOf,
        List.filter_cons_of_neg (by simpa using counts)]

theorem get_listedMasks (owner group : Sid) (aces : List Ace) (c : FileClass) :
    (listedMasks owner group aces).get c = .union (masksOf owner group c aces) := by
  rw [listedMasks, get_foldl_grant, TriadMasks.get_empty]
  exact congrArg AccessMask.mk BitVec.zero_or

theorem getLsbD_listedMasks (owner group : Sid) (aces : List Ace) (c : FileClass) (i : Nat) :
    ((listedMasks owner group aces).get c).bits.getLsbD i = true ↔
      ∃ ace ∈ aces, c.Counts owner group ace.sid ∧ ace.mask.bits.getLsbD i = true := by
  rw [get_listedMasks, AccessMask.getLsbD_union]
  simp only [List.any_eq_true, mem_masksOf]
  constructor
  · rintro ⟨mask, ⟨ace, there, counts, rfl⟩, set⟩
    exact ⟨ace, there, counts, set⟩
  · rintro ⟨ace, there, counts, set⟩
    exact ⟨ace.mask, ⟨ace, there, counts, rfl⟩, set⟩

/-- More entries take nothing away. -/
theorem getLsbD_listedMasks_mono (more : aces ⊆ aces') (c : FileClass) (i : Nat)
    (set : ((listedMasks owner group aces).get c).bits.getLsbD i = true) :
    ((listedMasks owner group aces').get c).bits.getLsbD i = true := by
  obtain ⟨ace, there, counts, set⟩ := (getLsbD_listedMasks owner group aces c i).mp set
  exact (getLsbD_listedMasks owner group aces' c i).mpr ⟨ace, more there, counts, set⟩

/-- Only which entries there are matters. -/
theorem listedMasks_congr (same : ∀ ace, ace ∈ aces ↔ ace ∈ aces') :
    listedMasks owner group aces = listedMasks owner group aces' := by
  have parts : ∀ c,
      (listedMasks owner group aces).get c = (listedMasks owner group aces').get c := by
    intro c
    refine AccessMask.ext_bits fun i => Bool.eq_iff_iff.mpr ⟨?_, ?_⟩
    · exact getLsbD_listedMasks_mono (fun ace => (same ace).mp) c i
    · exact getLsbD_listedMasks_mono (fun ace => (same ace).mpr) c i
  have inOwner := parts .owner
  have inGroup := parts .group
  have inOther := parts .other
  rcases listed : listedMasks owner group aces with ⟨a, b, c⟩
  rcases listed' : listedMasks owner group aces' with ⟨a', b', c'⟩
  rw [listed, listed'] at inOwner inGroup inOther
  exact congr (congr (congrArg TriadMasks.mk inOwner) inGroup) inOther

/-! ## The mode of a list -/

/-- A right that is a single bit is in the mask of a class exactly if an entry has it. -/
theorem contains_listedMasks_single (right : AccessMask) (i : Nat)
    (single : right.bits = .twoPow 32 i) (bound : i < 32) (c : FileClass) :
    ((listedMasks owner group aces).get c).contains right = true ↔
      ∃ ace ∈ aces, c.Counts owner group ace.sid ∧ ace.mask.contains right = true := by
  simp only [AccessMask.contains_single single bound, getLsbD_listedMasks]

/-- Which entries set the read bit of a class in the mode of a list. -/
theorem contains_read_iff (c : FileClass) :
    (listedMasks owner group aces).toMode.contains ⟨c.read⟩ = true ↔
      ∃ ace ∈ aces, c.Counts owner group ace.sid ∧ ace.mask.contains .genericRead = true := by
  rw [TriadMasks.contains_read_toMode]
  exact contains_listedMasks_single .genericRead 31 (by decide) (by decide) c

theorem contains_write_iff (c : FileClass) :
    (listedMasks owner group aces).toMode.contains ⟨c.write⟩ = true ↔
      ∃ ace ∈ aces, c.Counts owner group ace.sid ∧
        (ace.mask.contains .genericWrite = true ∨ ace.mask.contains .delete = true) := by
  rw [TriadMasks.contains_write_toMode,
    contains_listedMasks_single .genericWrite 30 (by decide) (by decide),
    contains_listedMasks_single .delete 16 (by decide) (by decide)]
  simp only [and_or_left, exists_or]

theorem contains_execute_iff (c : FileClass) :
    (listedMasks owner group aces).toMode.contains ⟨c.execute⟩ = true ↔
      ∃ ace ∈ aces, c.Counts owner group ace.sid ∧ ace.mask.contains .genericExecute = true := by
  rw [TriadMasks.contains_execute_toMode]
  exact contains_listedMasks_single .genericExecute 29 (by decide) (by decide) c

/-- More rights set no fewer bits. -/
theorem TriadMasks.contains_toMode {masks masks' : TriadMasks}
    (more : ∀ c i, (masks.get c).bits.getLsbD i = true → (masks'.get c).bits.getLsbD i = true) :
    masks'.toMode.contains masks.toMode = true := by
  have classes : ∀ c i, (classBits c (masks.get c)).getLsbD i = true →
      (classBits c (masks'.get c)).getLsbD i = true := by
    intro c i
    simp only [classBits_eq, BitVec.getLsbD_or, BitVec.getLsbD_and, BitVec.getLsbD_ushiftRight,
      Bool.or_eq_true, Bool.and_eq_true]
    exact Or.imp (And.imp_left (more c _)) (And.imp_left (more c _))
  rw [Mode.contains_iff_and, and_eq_right_iff]
  intro i
  simp only [toMode, BitVec.getLsbD_or, Bool.or_eq_true]
  exact Or.imp (Or.imp (classes .owner i) (classes .group i)) (classes .other i)

/-- Reading a list of any length, in any order. If the backend shows an owner, a group and the
entries of a list, reading succeeds. The masks that are read have for each class the union of the
masks of the entries that count for the class; the mode has each of the nine bits exactly if an
entry of its class has a right that stands for it, and no other bit. Lists with the same entries,
however ordered and repeated, give the same masks, and further entries take no right and no bit
away. -/
theorem entries_combine (owner group : Sid) (aces : List Ace) :
    (∀ (b : Backend Acl Descriptor σ) (w : World σ) (d : Descriptor),
      (∀ x ∈ (descriptorMasks d).exchangesIn b w, x.Shows owner group aces) →
        ((descriptorMasks d).run b w).1 = .ok (listedMasks owner group aces)) ∧
    (∀ (b : Backend Acl Descriptor σ) (w : World σ) (path : Path),
      (∀ x ∈ (readMode path).exchangesIn b w, x.Shows owner group aces) →
        ((readMode path).run b w).1 = .ok (listedMasks owner group aces).toMode) ∧
    (∀ c, (listedMasks owner group aces).get c = .union (masksOf owner group c aces)) ∧
    (∀ sid c, classify sid owner group = c ↔ c.Counts owner group sid) ∧
    (∀ c : FileClass,
      ((listedMasks owner group aces).toMode.contains ⟨c.read⟩ = true ↔
        ∃ ace ∈ aces, c.Counts owner group ace.sid ∧ ace.mask.contains .genericRead = true) ∧
      ((listedMasks owner group aces).toMode.contains ⟨c.write⟩ = true ↔
        ∃ ace ∈ aces, c.Counts owner group ace.sid ∧
          (ace.mask.contains .genericWrite = true ∨ ace.mask.contains .delete = true)) ∧
      ((listedMasks owner group aces).toMode.contains ⟨c.execute⟩ = true ↔
        ∃ ace ∈ aces, c.Counts owner group ace.sid ∧
          ace.mask.contains .genericExecute = true)) ∧
    (listedMasks owner group aces).toMode.perm = (listedMasks owner group aces).toMode ∧
    (∀ aces', aces'.Perm aces → listedMasks owner group aces' = listedMasks owner group aces) ∧
    (∀ aces', (∀ ace, ace ∈ aces' ↔ ace ∈ aces) →
      listedMasks owner group aces' = listedMasks owner group aces) ∧
    (∀ aces', aces ⊆ aces' →
      (∀ c, ((listedMasks owner group aces').get c).contains
        ((listedMasks owner group aces).get c) = true) ∧
      (listedMasks owner group aces').toMode.contains
        (listedMasks owner group aces).toMode = true) := by
  refine ⟨fun b w d shown => ?_, fun b w path => readMode_of_shown,
    get_listedMasks owner group aces, fun sid c => classify_eq_iff owner group sid c,
    fun c => ⟨contains_read_iff c, contains_write_iff c, contains_execute_iff c⟩,
    TriadMasks.perm_toMode _, fun aces' perm => listedMasks_congr fun ace => perm.mem_iff,
    fun aces' => listedMasks_congr, fun aces' more => ⟨fun c => ?_, ?_⟩⟩
  · obtain ⟨w', ran⟩ := descriptorMasks_of_shown shown
    rw [ran]
  · rw [AccessMask.contains_iff_and, and_eq_right_iff]
    exact getLsbD_listedMasks_mono more c
  · exact TriadMasks.contains_toMode (getLsbD_listedMasks_mono more)

/-- Two entries for the owner, one of them for the placeholder, and two for others. -/
def fourAces : List Ace :=
  [⟨MemoryBackend.userSid, .genericRead⟩, ⟨WellKnownSid.creatorOwner.sid, .genericExecute⟩,
    ⟨WellKnownSid.world.sid, .genericRead⟩, ⟨.ofNat 5 [21, 9, 9, 9, 1234], .delete⟩]

/-- A calm backend in memory that has these entries for one path. -/
def fourAcesWorld (path : Path) : MemoryWorld :=
  ⟨⟨.directory ⟨0o755⟩ [], .linked [], ⟨0o022⟩⟩,
    { MemoryBackend.initial with store := ListStore.empty.put path.key fourAces }⟩

theorem readMode_of_fourAces :
    let w := fourAcesWorld ⟨"/d"⟩
    let d : MemoryDescriptor := ⟨MemoryBackend.userSid, MemoryBackend.groupSid, some fourAces⟩
    (∀ x ∈ (descriptorMasks d).exchangesIn memoryBackend w,
        x.Shows MemoryBackend.userSid MemoryBackend.groupSid fourAces) ∧
      (∀ x ∈ (readMode ⟨"/d"⟩).exchangesIn memoryBackend w,
        x.Shows MemoryBackend.userSid MemoryBackend.groupSid fourAces) ∧
      ((descriptorMasks d).run memoryBackend w).1 =
        .ok ⟨⟨0xa0000000⟩, .empty, ⟨0x80010000⟩⟩ ∧
      ((readMode ⟨"/d"⟩).run memoryBackend w).1 = .ok ⟨0o506⟩ := by
  intro w d
  have stored : w.backend.store.get? (Path.key ⟨"/d"⟩) = some fourAces := by
    show (ListStore.empty.put _ _).get? _ = _
    rw [ListStore.get?_put, if_pos rfl]
  have described : (memoryBackend.respond (.security (.descriptor ⟨"/d"⟩)) w).1 = .ok d :=
    congrArg (fun aces? => Except.ok
      (⟨MemoryBackend.userSid, MemoryBackend.groupSid, aces?⟩ : MemoryDescriptor)) stored
  have modeShown := shown_of_calm (w := w) rfl stored
  obtain ⟨-, rest⟩ := forall_exchanges_askAt_bind modeShown
  obtain ⟨-, behind⟩ := rest d described
  rw [Operation.exchangesIn_bind] at behind
  have masksShown := fun x member => behind x (List.mem_append_left _ member)
  have law := @entries_combine (List Ace) MemoryDescriptor MemoryBackend
    MemoryBackend.userSid MemoryBackend.groupSid fourAces
  have masks : listedMasks MemoryBackend.userSid MemoryBackend.groupSid fourAces =
      ⟨⟨0xa0000000⟩, .empty, ⟨0x80010000⟩⟩ := by decide
  exact ⟨masksShown, modeShown, masks ▸ law.1 memoryBackend w d masksShown,
    (masks ▸ law.2.1 memoryBackend w ⟨"/d"⟩ modeShown :)⟩

end ModeAcl
