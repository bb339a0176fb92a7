import ModeAcl.Proofs.Applying
import ModeAcl.Proofs.Footprint
import ModeAcl.Proofs.Reading

/-!
# The backend in memory

What its calls do to the stored lists: a call to set a list puts it under the key
of its path if it succeeds, and nothing else changes a list. With that, an
application of a mode either succeeds and has put the list of the mode
(`modeAces`), or fails and has put nothing.
-/

namespace ModeAcl

/-- An operation over lists in memory. -/
abbrev MemoryOperation (α : Type) : Type := Operation (List Ace) MemoryDescriptor α

abbrev MemoryWorld : Type := World MemoryBackend

variable {w w' : MemoryWorld}

/-- Whatever faults it meets, a call fails and leaves the lists alone, or is served. -/
theorem respond_security (c : MemoryCall) :
    (∃ e, (memoryBackend.respond (.security c) w).1 = .error e ∧
      (memoryBackend.respond (.security c) w).2.backend.store = w.backend.store) ∨
    ∃ faults, (⟨w.backend.store, w.backend.owner, w.backend.group, faults⟩ :
        MemoryBackend).serve w.files c =
      ((memoryBackend.respond (.security c) w).1,
        (memoryBackend.respond (.security c) w).2.files,
        (memoryBackend.respond (.security c) w).2.backend) := by
  simp only [Backend.respond, memoryBackend, MemoryBackend.answer]
  rcases w.backend.faults.strike (MemoryBackend.point c) with ⟨_ | fault, faults⟩
  · exact Or.inr ⟨faults, rfl⟩
  · exact Or.inl ⟨fault.error, rfl, rfl⟩

theorem served_of_ok {c : MemoryCall} {a : c.Answer}
    (answered : memoryBackend.respond (.security c) w = (.ok a, w')) :
    ∃ faults, ((⟨w.backend.store, w.backend.owner, w.backend.group, faults⟩ :
      MemoryBackend).serve w.files c).1 = .ok a := by
  rcases respond_security (w := w) c with ⟨e, failed, -⟩ | ⟨faults, served⟩
  · rw [answered] at failed
    cases failed
  · exact ⟨faults, by rw [served, answered]⟩

/-! ## Identities -/

/-- The identities to which the backend in memory resolves the trustees. -/
abbrev Trustees.memorySid (trustees : Trustees) : FileClass → Sid :=
  trustees.sid MemoryBackend.userSid MemoryBackend.groupSid

/-- Under any faults, a trustee that is resolved is resolved to the same identity. -/
theorem Trustees.resolvesTo_memory (trustees : Trustees) :
    trustees.ResolvesTo memoryBackend trustees.memorySid := by
  intro c w sid w' resolved
  cases trustees <;> cases c <;>
  · obtain ⟨faults, served⟩ := served_of_ok (Operation.ok_of_run_askAt resolved)
    simp only [MemoryBackend.serve] at served
    split at served <;> cases served
    rfl

/-! ## Stored lists -/

/-- A call that sets a list. -/
def Call.Sets {Acl Descriptor : Type} : Call Acl Descriptor → Prop
  | .security (.setAcl _ _) => True
  | _ => False

theorem store_of_not_sets {c : Call (List Ace) MemoryDescriptor} (other : ¬ c.Sets) :
    (memoryBackend.respond c w).2.backend.store = w.backend.store := by
  cases c with
  | file c =>
    rw [Backend.respond]
    split <;> rfl
  | log line => rfl
  | security c =>
    rcases respond_security (w := w) c with ⟨e, -, kept⟩ | ⟨faults, served⟩
    · exact kept
    · have after := congrArg (·.2.2.store) served
      rw [← after]
      cases c with
      | setAcl path aces => exact absurd trivial other
      | _ => rfl

theorem acl_of_buildAcl {grants : List Grant} {acl : List Ace}
    (answered : memoryBackend.respond (.security (.buildAcl grants)) w = (.ok acl, w')) :
    acl = grants.map Grant.toAce := by
  obtain ⟨faults, served⟩ := served_of_ok answered
  simp only [MemoryBackend.serve] at served
  split at served <;> cases served
  rfl

/-- A list is put under the key of its path exactly if setting it succeeds. -/
theorem store_of_setAcl (path : Path) (aces : List Ace) :
    (memoryBackend.respond (.security (.setAcl path aces)) w).2.backend.store =
      match (memoryBackend.respond (.security (.setAcl path aces)) w).1 with
      | .ok () => w.backend.store.put path.key aces
      | .error _ => w.backend.store := by
  rcases respond_security (w := w) (.setAcl path aces) with ⟨e, failed, kept⟩ | ⟨faults, served⟩
  · rw [failed, kept]
  · have reply := congrArg (·.1) served
    have after := congrArg (·.2.2.store) served
    rw [← reply, ← after]
    simp only [MemoryBackend.serve, MemoryBackend.setAcl]
    split
    · split
      · split <;> rfl
      · rfl
    · split <;> rfl

/-! ## Procedures that put nothing -/

theorem Procedure.Within.store {α : Type} {P : Call (List Ace) MemoryDescriptor → Prop}
    {p : Procedure (List Ace) MemoryDescriptor α} (within : p.Within P)
    (other : ∀ c, P c → ¬ c.Sets) (w : MemoryWorld) :
    (p.run memoryBackend.respond w).2.backend.store = w.backend.store :=
  within.preserves (R := fun w w' : MemoryWorld => w'.backend.store = w.backend.store)
    (fun _ => rfl) (fun first second => second.trans first)
    (fun c allowed _ => store_of_not_sets (other c allowed)) w

theorem Call.Resolves.not_sets (c : Call (List Ace) MemoryDescriptor) (resolves : c.Resolves) :
    ¬ c.Sets := by
  rcases c with c | c | c
  · cases c <;> simp_all [Call.Resolves, Call.Sets]
  · exact id
  · exact id

theorem Call.Reads.not_sets (c : Call (List Ace) MemoryDescriptor) (reads : c.Reads) :
    ¬ c.Sets := by
  rcases c with c | c | c
  · cases c <;> simp_all [Call.Reads, Call.Sets]
  · exact id
  · exact id

/-! ## Without faults -/

/-- Where nothing is broken, a call is served and the faults stay off. -/
theorem respond_calm (calm : w.backend.faults = .none) (c : MemoryCall) :
    memoryBackend.respond (.security c) w =
      ((w.backend.serve w.files c).1,
        ⟨(w.backend.serve w.files c).2.1, (w.backend.serve w.files c).2.2⟩) := by
  rcases w with ⟨files, store, owner, group, faults⟩
  subst calm
  rfl

/-- A calm backend that has a list for a path shows it, with its owner and group. -/
theorem shown_of_calm (calm : w.backend.faults = .none) {path : Path} {aces : List Ace}
    (stored : w.backend.store.get? path.key = some aces) :
    ∀ x ∈ (readMode path).exchangesIn memoryBackend w,
      x.Shows w.backend.owner w.backend.group aces := by
  let d : MemoryDescriptor := ⟨w.backend.owner, w.backend.group, some aces⟩
  have unbroken : w.backend.faults.brokenDescriptor = false := by rw [calm]; rfl
  have found : memoryBackend.respond (.security (.descriptor path)) w = (.ok d, w) := by
    rw [respond_calm calm]
    simp only [MemoryBackend.serve, unbroken, stored]
    rfl
  have still : ∀ c : Call (List Ace) MemoryDescriptor, c.ReadsFrom d →
      (memoryBackend.respond c w).2 = w := by
    rintro (c | c | c) reads
    · rw [respond_calm calm]
      cases c <;> first | rfl | cases reads
    · cases reads
    · rfl
  intro x member
  rw [readMode, Operation.exchangesIn_bind_of_ok
    (Operation.run_askAt_of_ok (congrArg Prod.fst found)), found] at member
  rcases List.mem_append.mp member with first | later
  · rw [Operation.exchangesIn_askAt, found] at first
    rw [List.mem_singleton.mp first]
    exact ⟨d, rfl⟩
  · have within : Operation.Within (Call.ReadsFrom d)
        ((descriptorMasks d : MemoryOperation TriadMasks) >>= fun masks => do
          Operation.note .debug (readText path masks.toMode masks)
          return masks.toMode) :=
      (descriptorMasks_within d).bind fun _ => .bind (.note trivial) fun _ => .pure _
    obtain ⟨reads, reply⟩ := Procedure.Within.exchanges_at still within x later
    rcases x with ⟨c | c | c, answer⟩
    · dsimp only at reply
      rw [respond_calm calm] at reply
      subst reply
      cases c with
      | owner d' => cases reads; rfl
      | group d' => cases reads; rfl
      | aceCount d' => cases reads; rfl
      | ace d' index =>
        cases reads
        intro ace there
        simp only [MemoryBackend.serve, d, Option.bind_some, there]
        rfl
      | _ => exact absurd reads id
    · cases reads
    · trivial

/-- Nothing is broken, so every trustee is resolved. -/
theorem Trustees.resolve_calm (calm : w.backend.faults = .none) (trustees : Trustees)
    (c : FileClass) :
    (trustees.resolve c).run memoryBackend w = (.ok (trustees.memorySid c), w) := by
  rcases w with ⟨files, store, owner, group, faults⟩
  subst calm
  cases trustees <;> cases c <;> rfl

theorem explicitEntries_calm (calm : w.backend.faults = .none) (masks : TriadMasks)
    (trustees : Trustees) :
    (explicitEntries masks trustees).run memoryBackend w =
      (.ok (masks.grantsTo trustees.memorySid), w) := by
  let grant (c : FileClass) : Grant := ⟨trustees.memorySid c, masks.get c⟩
  have resolved : ∀ classes : List FileClass,
      (classes.mapM (grantFor masks trustees)).run memoryBackend.respond w =
        (classes.map fun c => .ok (grant c), w) := by
    intro classes
    induction classes with
    | nil => rfl
    | cons c classes ih =>
      have first : (grantFor masks trustees c).run memoryBackend.respond w = (.ok (grant c), w) := by
        rw [grantFor, Procedure.run_bind, Operation.result_run, Trustees.resolve_calm calm]
        rfl
      rw [List.mapM_cons, Procedure.run_bind, first, Procedure.run_bind, ih]
      rfl
  rw [explicitEntries_run, resolved, partResults_map_ok]
  rfl

/-! ## Applying -/

/-- The list that stands for a mode: one entry for each class that has rights. -/
def modeAces (mode : Mode) (isDirectory : Bool) (trustees : Trustees) : List Ace :=
  ((TriadMasks.ofMode mode isDirectory).grantsTo trustees.memorySid).map Grant.toAce

theorem store_of_explicitEntries (masks : TriadMasks) (trustees : Trustees) (w : MemoryWorld) :
    ((explicitEntries masks trustees).run memoryBackend w).2.backend.store = w.backend.store :=
  (explicitEntries_within masks trustees).store Call.Resolves.not_sets w

theorem store_of_buildAcl (grants : List Grant) (w : MemoryWorld) :
    (memoryBackend.respond (.security (.buildAcl grants)) w).2.backend.store =
      w.backend.store :=
  store_of_not_sets fun sets => sets

/-- An application that succeeds has put the list of the mode. -/
theorem store_of_applyMode_ok {path : Path} {mode : Mode} {isDirectory : Bool}
    {trustees : Trustees}
    (ran : (applyMode path mode isDirectory trustees).run memoryBackend w = (.ok (), w')) :
    w'.backend.store = w.backend.store.put path.key (modeAces mode isDirectory trustees) := by
  obtain ⟨grants, acl, found, built, entries, building, setting⟩ := applyMode_ok ran
  have resolving := store_of_explicitEntries (.ofMode mode isDirectory) trustees w
  have listing := store_of_buildAcl grants found
  have putting := store_of_setAcl (w := built) path acl
  rw [entries] at resolving
  rw [building] at listing
  rw [setting] at putting
  dsimp only at resolving listing putting
  rw [putting, listing, resolving, acl_of_buildAcl building,
    explicitEntries_ok trustees.resolvesTo_memory entries]
  rfl

/-- An application that fails, at whatever stage, has put nothing. -/
theorem store_of_applyMode_error {path : Path} {mode : Mode} {isDirectory : Bool}
    {trustees : Trustees} {e : Error}
    (ran : (applyMode path mode isDirectory trustees).run memoryBackend w = (.error e, w')) :
    w'.backend.store = w.backend.store := by
  have resolving := store_of_explicitEntries (.ofMode mode isDirectory) trustees w
  rcases applyMode_error ran with failed | ⟨grants, found, e', entries, stopped⟩
  · rw [failed] at resolving
    exact resolving
  have listing := store_of_buildAcl grants found
  rw [entries] at resolving
  rcases stopped with ⟨refused, -⟩ | ⟨acl, built, building, refused, -⟩
  · rw [refused] at listing
    exact listing.trans resolving
  · have putting := store_of_setAcl (w := built) path acl
    rw [building] at listing
    rw [refused] at putting
    exact putting.trans (listing.trans resolving)

/-- The world with another list under a key. -/
def MemoryWorld.put (w : MemoryWorld) (key : Path.Key) (aces : List Ace) : MemoryWorld :=
  { w with backend := { w.backend with store := w.backend.store.put key aces } }

/-- Where nothing is broken, a mode can be applied to whatever is there. -/
theorem applyMode_calm (calm : w.backend.faults = .none) {path : Path}
    (there : w.files.hasObject path = true) (mode : Mode) (isDirectory : Bool)
    (trustees : Trustees) :
    (applyMode path mode isDirectory trustees).run memoryBackend w =
      (.ok (), MemoryWorld.put w path.key (modeAces mode isDirectory trustees)) := by
  have building : memoryBackend.respond (.security (.buildAcl
      ((TriadMasks.ofMode mode isDirectory).grantsTo trustees.memorySid))) w =
        (.ok (modeAces mode isDirectory trustees), w) := by
    rcases w with ⟨files, store, owner, group, faults⟩
    subst calm
    rfl
  have setting : memoryBackend.respond (.security (.setAcl path
      (modeAces mode isDirectory trustees))) w =
        (.ok (), MemoryWorld.put w path.key (modeAces mode isDirectory trustees)) := by
    rw [respond_calm calm]
    rcases w with ⟨files, store, owner, group, faults⟩
    subst calm
    simp only [MemoryBackend.serve, MemoryBackend.setAcl, Faults.none, there]
    rfl
  rw [applyMode, Operation.run_bind_of_ok (explicitEntries_calm calm _ trustees)]
  rw [Operation.run_bind_of_ok (Operation.run_askAt_of_ok (congrArg Prod.fst building)), building]
  refine (Operation.run_bind_of_ok
    (Operation.run_askAt_of_ok (congrArg Prod.fst setting))).trans ?_
  rw [setting]
  rfl

end ModeAcl
