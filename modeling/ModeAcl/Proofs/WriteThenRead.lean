import ModeAcl.Proofs.Memory
import ModeAcl.Proofs.Operations
import ModeAcl.Proofs.Triads

/-!
# A mode that is written and read back

A mode is applied to an object and later read from it, under any backend that
gives the list back as it was written. The read yields the mode with each triad
moved to the class as which the entry for its trustee is counted
(`Mode.regroup`): the mode itself, as long as the identities are told apart, and
otherwise one with merged triads.
-/

namespace ModeAcl

variable {Acl Descriptor σ : Type} {b : Backend Acl Descriptor σ}

/-! ## The list of a mode, read -/

/-- Reading the entries for some classes adds their triads. A class without an entry has an empty
triad, so it makes no difference that it is left out. -/
theorem toMode_foldl_grants (mode : Mode) (isDirectory : Bool) (sids : FileClass → Sid)
    (owner group : Sid) (classes : List FileClass) :
    ∀ masks : TriadMasks,
      ((((classes.filter fun c => !((TriadMasks.ofMode mode isDirectory).get c).isEmpty).map
        fun c => (⟨sids c, (TriadMasks.ofMode mode isDirectory).get c⟩ : Grant)).map
          Grant.toAce).foldl
            (fun masks ace => masks.grant (classify ace.sid owner group) ace.mask) masks).toMode =
        classes.foldl (fun m c =>
          m ||| ⟨mode.triad c <<< (classify (sids c) owner group).offset⟩) masks.toMode := by
  induction classes with
  | nil => exact fun _ => rfl
  | cons c classes ih =>
    intro masks
    have bits := TriadMasks.classBits_classMask mode c (classify (sids c) owner group) isDirectory
    rw [← TriadMasks.get_ofMode] at bits
    rw [List.foldl_cons, ← bits]
    by_cases omitted : ((TriadMasks.ofMode mode isDirectory).get c).isEmpty
    · rw [List.filter_cons_of_neg (by simp [omitted]), ih, AccessMask.eq_empty omitted,
        TriadMasks.classBits_empty, Mode.or_zero]
    · rw [List.filter_cons_of_pos (by simp [omitted]), List.map_cons, List.map_cons,
        List.foldl_cons, ih, TriadMasks.toMode_grant]
      rfl

/-- The list of a mode amounts to the mode with its triads regrouped. -/
theorem toMode_listedMasks (mode : Mode) (isDirectory : Bool) (sids : FileClass → Sid)
    (owner group : Sid) :
    (listedMasks owner group
      (((TriadMasks.ofMode mode isDirectory).grantsTo sids).map Grant.toAce)).toMode =
        mode.regroup fun c => classify (sids c) owner group := by
  have folded := toMode_foldl_grants mode isDirectory sids owner group FileClass.all .empty
  rw [TriadMasks.toMode_empty] at folded
  refine folded.trans ?_
  show Mode.mk (0#32 ||| _ ||| _ ||| _) = _
  rw [BitVec.zero_or]
  rfl

/-! ## Who is counted as whom -/

/-- The placeholders for whoever creates an object are told apart from each other and from
everyone, unless the object belongs to the wrong one of them. -/
theorem classify_creator_iff (user primary owner group : Sid) :
    (∀ c, classify (Trustees.creator.sid user primary c) owner group = c) ↔
      owner ≠ WellKnownSid.creatorGroup.sid ∧ owner ≠ WellKnownSid.world.sid ∧
        group ≠ WellKnownSid.world.sid := by
  have groupOwner : WellKnownSid.creatorGroup.sid ≠ WellKnownSid.creatorOwner.sid := by decide
  have worldOwner : WellKnownSid.world.sid ≠ WellKnownSid.creatorOwner.sid := by decide
  have worldGroup : WellKnownSid.world.sid ≠ WellKnownSid.creatorGroup.sid := by decide
  constructor
  · intro apart
    have ofGroup := apart .group
    have ofOther := apart .other
    simp only [Trustees.sid, classify] at ofGroup ofOther
    refine ⟨?_, ?_, ?_⟩
    · rintro rfl
      simp at ofGroup
    · rintro rfl
      simp at ofOther
    · rintro rfl
      simp only [true_or, if_true] at ofOther
      split at ofOther <;> cases ofOther
  · rintro ⟨ownerGroup, ownerWorld, groupWorld⟩ c
    cases c with
    | owner => simp [Trustees.sid, classify]
    | group => simp [Trustees.sid, classify, groupOwner, ownerGroup.symm]
    | other =>
      simp [Trustees.sid, classify, worldOwner, worldGroup, ownerWorld.symm, groupWorld.symm]

theorem classify_currentUser {user primary : Sid} (apart : user ≠ primary)
    (userWorld : user ≠ WellKnownSid.world.sid) (primaryWorld : primary ≠ WellKnownSid.world.sid)
    (placeholder : primary ≠ WellKnownSid.creatorOwner.sid) (c : FileClass) :
    classify (Trustees.currentUser.sid user primary c) user primary = c := by
  have worldOwner : WellKnownSid.world.sid ≠ WellKnownSid.creatorOwner.sid := by decide
  have worldGroup : WellKnownSid.world.sid ≠ WellKnownSid.creatorGroup.sid := by decide
  cases c with
  | owner => simp [Trustees.sid, classify]
  | group => simp [Trustees.sid, classify, apart.symm, placeholder]
  | other =>
    simp [Trustees.sid, classify, worldOwner, worldGroup, userWorld.symm, primaryWorld.symm]

/-! ## The calm backend in memory -/

/-- For the user and the group of the backend in memory, all trustees are told apart. -/
theorem classify_memorySid (trustees : Trustees) (c : FileClass) :
    classify (trustees.memorySid c) MemoryBackend.userSid MemoryBackend.groupSid = c := by
  cases trustees <;> cases c <;> decide

section

variable {w : MemoryWorld}

/-- Where nothing is broken, a read leaves the world as it is. -/
theorem world_of_readMode_calm (calm : w.backend.faults = .none) (path : Path) :
    ((readMode path).run memoryBackend w).2 = w := by
  refine (readMode_within path).preserves
    (R := fun w w' : MemoryWorld => w.backend.faults = .none → w' = w) (fun _ _ => rfl) ?_ ?_ w calm
  · intro w w' w'' first second calm
    obtain rfl := first calm
    exact second calm
  · rintro (c | c | c) reads w calm
    · rw [respond_calm calm]
      cases c <;> first | rfl | cases reads
    · cases reads
    · rfl

/-- What is stored for a mode is read as that mode, if nothing is broken. -/
theorem readMode_of_modeAces (calm : w.backend.faults = .none)
    (owned : w.backend.owner = MemoryBackend.userSid)
    (grouped : w.backend.group = MemoryBackend.groupSid) {path : Path} {mode : Mode}
    {isDirectory : Bool} {trustees : Trustees}
    (stored : w.backend.store.get? path.key = some (modeAces mode isDirectory trustees)) :
    (readMode path).run memoryBackend w = (.ok mode.perm, w) := by
  have apart : (fun c => classify (trustees.memorySid c) MemoryBackend.userSid
      MemoryBackend.groupSid) = id := funext (classify_memorySid trustees)
  refine Prod.ext ?_ (world_of_readMode_calm calm path)
  rw [readMode_of_shown (shown_of_calm calm stored), owned, grouped, modeAces,
    toMode_listedMasks, apart, Mode.regroup_id]

/-- An object is shown with its own type and the mode that its list was made for. -/
theorem AclFiles.stat_of_modeAces (calm : w.backend.faults = .none)
    (owned : w.backend.owner = MemoryBackend.userSid)
    (grouped : w.backend.group = MemoryBackend.groupSid) {path : Path} {m : Metadata}
    (found : w.files.metadata path = .ok m) {mode : Mode} {isDirectory : Bool}
    {trustees : Trustees}
    (stored : w.backend.store.get? path.key = some (modeAces mode isDirectory trustees)) :
    (stat path).run memoryBackend w =
      (.ok ⟨path.displayName, m, (Mode.ofType m.type).withPerm mode.perm⟩, w) := by
  rw [run_stat, found]
  dsimp only
  rw [readMode_of_modeAces calm owned grouped stored]

end

/-! ## The law -/

/-- A mode is applied to an object with success, and what is read from it later is `result`: the
list that was built comes back in every answer that the read gets, with an owner and a group. -/
def ReadsBack (b : Backend Acl Descriptor σ) (trustees : Trustees) (path : Path)
    (isDirectory : Bool) (owner group : Sid) (mode : Mode) (result : Except Error Mode) : Prop :=
  ∃ before after later,
    (applyMode path mode isDirectory trustees).run b before = (.ok (), after) ∧
      (∀ grants acl,
        ⟨.security (.buildAcl grants), .ok acl⟩ ∈
          (applyMode path mode isDirectory trustees).exchangesIn b before →
        ∀ x ∈ (readMode path).exchangesIn b later,
          x.Shows owner group (grants.map Grant.toAce)) ∧
      result = ((readMode path).run b later).1

/-- Whatever list an application builds, it is that of the grants to the trustees. -/
theorem grants_of_mem_exchangesIn {trustees : Trustees} {sids : FileClass → Sid}
    (resolves : trustees.ResolvesTo b sids) {path : Path} {mode : Mode} {isDirectory : Bool}
    {w : World σ} {grants : List Grant} {reply : Except CallError Acl}
    (member : ⟨.security (.buildAcl grants), reply⟩ ∈
      (applyMode path mode isDirectory trustees).exchangesIn b w) :
    grants = (TriadMasks.ofMode mode isDirectory).grantsTo sids := by
  rw [applyMode, Operation.exchangesIn_bind] at member
  rcases List.mem_append.mp member with resolving | rest
  · exact absurd ((explicitEntries_within _ trustees).exchanges w _ resolving) id
  rcases entries : (explicitEntries (.ofMode mode isDirectory) trustees).run b w with
    ⟨_ | found, mid⟩
  · rw [entries] at rest
    cases rest
  rw [entries] at rest
  dsimp only at rest
  rw [Operation.exchangesIn_bind, Operation.exchangesIn_askAt] at rest
  rw [← explicitEntries_ok resolves entries]
  rcases List.mem_append.mp rest with building | setting
  · cases List.mem_singleton.mp building
    rfl
  · have within : ∀ acl : Acl, Operation.Within
        (fun c : Call Acl Descriptor => c ≠ .security (.buildAcl grants)) (do
          let () ← Operation.askAt "setting security descriptor" (.setAcl path acl)
          Operation.note .debug (appliedText path mode (.ofMode mode isDirectory))) :=
      fun acl => .bind (.askAt (by simp)) fun _ => .note (by simp)
    split at setting
    · exact absurd rfl ((within _).exchanges _ _ setting)
    · cases setting

/-- A calm backend in memory that still has the list of a mode gives it back. -/
theorem readsBack_memory {trustees : Trustees} {path : Path} {isDirectory : Bool} {mode : Mode}
    {before after later : MemoryWorld}
    (applied : (applyMode path mode isDirectory trustees).run memoryBackend before =
      (.ok (), after)) (calm : later.backend.faults = .none)
    (kept : later.backend.store.get? path.key = some (modeAces mode isDirectory trustees)) :
    ReadsBack memoryBackend trustees path isDirectory later.backend.owner later.backend.group mode
      ((readMode path).run memoryBackend later).1 := by
  refine ⟨before, after, later, applied, fun grants acl built x member => ?_, rfl⟩
  rw [grants_of_mem_exchangesIn trustees.resolvesTo_memory built]
  exact shown_of_calm calm kept x member

theorem eq_regroup_of_readsBack {trustees : Trustees} {sids : FileClass → Sid}
    (resolves : trustees.ResolvesTo b sids) {path : Path} {isDirectory : Bool}
    {owner group : Sid} {mode : Mode} {result : Except Error Mode}
    (back : ReadsBack b trustees path isDirectory owner group mode result) :
    result = .ok (mode.regroup fun c => classify (sids c) owner group) := by
  obtain ⟨before, after, later, applied, shown, rfl⟩ := back
  obtain ⟨acl, built⟩ := buildAcl_mem_exchangesIn resolves applied
  rw [readMode_of_shown (shown _ acl built), toMode_listedMasks]

/-- Reading a mode that was written gives it with every triad moved to the class as which its
trustee is counted. So every mode comes back as it is exactly if each trustee is counted as its
own class, which the trustees in use are unless identities coincide. -/
theorem readMode_regroups {trustees : Trustees} {sids : FileClass → Sid}
    (resolves : trustees.ResolvesTo b sids) (path : Path) (isDirectory : Bool) :
    (∀ owner group mode result,
      ReadsBack b trustees path isDirectory owner group mode result →
        result = .ok (mode.regroup fun c => classify (sids c) owner group)) ∧
    (∀ owner group (result : Mode → Except Error Mode),
      (∀ mode, ReadsBack b trustees path isDirectory owner group mode (result mode)) →
        ((∀ mode, result mode = .ok mode.perm) ↔ ∀ c, classify (sids c) owner group = c)) ∧
    (∀ user primary owner group,
      (∀ c, classify (Trustees.creator.sid user primary c) owner group = c) ↔
        owner ≠ WellKnownSid.creatorGroup.sid ∧ owner ≠ WellKnownSid.world.sid ∧
          group ≠ WellKnownSid.world.sid) ∧
    (∀ user primary, user ≠ primary → user ≠ WellKnownSid.world.sid →
      primary ≠ WellKnownSid.world.sid → primary ≠ WellKnownSid.creatorOwner.sid →
        ∀ c, classify (Trustees.currentUser.sid user primary c) user primary = c) := by
  refine ⟨fun owner group mode result => eq_regroup_of_readsBack resolves, ?_,
    classify_creator_iff, fun user primary => classify_currentUser⟩
  intro owner group result back
  have regrouped := fun mode => eq_regroup_of_readsBack resolves (back mode)
  rw [← Mode.regroup_eq_perm_iff fun c => classify (sids c) owner group]
  constructor
  · intro same mode
    have both := (regrouped mode).symm.trans (same mode)
    exact Except.ok.inj both
  · intro same mode
    rw [regrouped mode, same mode]

/-- An object of everyone: the triad of others is counted for the owner. -/
theorem readMode_of_everyone :
    Trustees.creator.ResolvesTo memoryBackend Trustees.creator.memorySid ∧
      ReadsBack memoryBackend .creator ⟨"/f"⟩ false WellKnownSid.world.sid MemoryBackend.groupSid
        ⟨0o421⟩ (.ok ⟨0o520⟩) := by
  let files : FileSystem := ⟨.directory ⟨0o755⟩ [("f", .file ⟨0o644⟩ [])], .linked [], ⟨0o022⟩⟩
  let before : MemoryWorld :=
    ⟨files, { MemoryBackend.initial with owner := WellKnownSid.world.sid }⟩
  let after := ((applyMode ⟨"/f"⟩ ⟨0o421⟩ false .creator).run memoryBackend before).2
  have applied : (applyMode ⟨"/f"⟩ ⟨0o421⟩ false .creator).run memoryBackend before =
    (.ok (), after) := by rfl
  have calm : after.backend.faults = .none := by rfl
  have kept : after.backend.store.get? (Path.key ⟨"/f"⟩) =
    some (modeAces ⟨0o421⟩ false .creator) := by rfl
  have back := readsBack_memory applied calm kept
  have merged : Mode.regroup ⟨0o421⟩ (fun c => classify (Trustees.creator.memorySid c)
      WellKnownSid.world.sid MemoryBackend.groupSid) = ⟨0o520⟩ := by decide
  have read : ((readMode ⟨"/f"⟩).run memoryBackend after).1 = .ok ⟨0o520⟩ :=
    ((readMode_regroups Trustees.creator.resolvesTo_memory ⟨"/f"⟩ false).1 _ _ _ _ back).trans
      (congrArg Except.ok merged)
  exact ⟨Trustees.creator.resolvesTo_memory, read ▸ back⟩

end ModeAcl
