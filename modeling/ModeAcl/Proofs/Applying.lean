import ModeAcl.Proofs.Running

/-!
# What applying a mode has done

A backend that tells a class's trustee apart from all others does so by
`Trustees.ResolvesTo`. An application that succeeds has looked up the trustee of
every class with rights, built the list of their grants and set it
(`applyMode_ok`); the grants are those of `TriadMasks.grantsTo`.
-/

namespace ModeAcl

variable {Acl Descriptor σ : Type} {b : Backend Acl Descriptor σ} {w w' : World σ}

/-! ## Grants -/

/-- One grant for each class that has rights. -/
def TriadMasks.grantsTo (masks : TriadMasks) (sids : FileClass → Sid) : List Grant :=
  masks.granted.map fun c => ⟨sids c, masks.get c⟩

/-- Whenever a backend resolves the trustee of a class, it gives the identity in `sids`. -/
def Trustees.ResolvesTo (trustees : Trustees) (b : Backend Acl Descriptor σ)
    (sids : FileClass → Sid) : Prop :=
  ∀ c w sid w', (trustees.resolve c).run b w = (.ok sid, w') → sid = sids c

/-- The identity that is granted the rights of a class, given the current user and its primary
group. -/
def Trustees.sid (user primary : Sid) : Trustees → FileClass → Sid
  | _, .other => WellKnownSid.world.sid
  | .creator, .owner => WellKnownSid.creatorOwner.sid
  | .creator, .group => WellKnownSid.creatorGroup.sid
  | .currentUser, .owner => user
  | .currentUser, .group => primary

/-- Look up the trustee of one class and give it the rights of the class. -/
def grantFor (masks : TriadMasks) (trustees : Trustees) (c : FileClass) :
    Procedure Acl Descriptor (Except Error Grant) := do
  let sid ← (trustees.resolve c).result
  return sid.map fun sid => ⟨sid, masks.get c⟩

/-- Whoever answers, the grants are those of all trustees, or all failures are reported. -/
theorem run_explicitEntries (respond : Responder Acl Descriptor σ) (s : σ) (masks : TriadMasks)
    (trustees : Trustees) :
    (explicitEntries masks trustees).result.run respond s =
      (match partResults ((masks.granted.mapM (grantFor masks trustees)).run respond s).1 with
        | (grants, []) => .ok grants
        | (_, errors) => .error (.entries errors),
      ((masks.granted.mapM (grantFor masks trustees)).run respond s).2) := by
  have parts : (explicitEntries masks trustees : Operation Acl Descriptor (List Grant)).result =
      (do
        let results ← masks.granted.mapM (grantFor masks trustees)
        match partResults results with
        | (grants, []) => return .ok grants
        | (_, errors) => return .error (.entries errors)) := rfl
  rw [parts, Procedure.run_bind]
  split <;> rfl

theorem explicitEntries_run (masks : TriadMasks) (trustees : Trustees) :
    (explicitEntries masks trustees).run b w =
      (match partResults ((masks.granted.mapM (grantFor masks trustees)).run b.respond w).1 with
        | (grants, []) => .ok grants
        | (_, errors) => .error (.entries errors),
      ((masks.granted.mapM (grantFor masks trustees)).run b.respond w).2) :=
  run_explicitEntries b.respond w masks trustees

theorem partResults_map_ok {ε α β : Type} (f : α → β) (items : List α) :
    partResults (items.map fun a => (.ok (f a) : Except ε β)) = (items.map f, []) := by
  induction items with
  | nil => rfl
  | cons a items ih => rw [List.map_cons, partResults, ih, List.map_cons]

/-- If nothing failed in looking up several trustees, each gave a grant of its own. -/
theorem grants_of_resolved {masks : TriadMasks} {trustees : Trustees} {sids : FileClass → Sid}
    (resolves : trustees.ResolvesTo b sids) (classes : List FileClass) {grants : List Grant} :
    ∀ {w : World σ},
      partResults ((classes.mapM (grantFor masks trustees)).run b.respond w).1 = (grants, []) →
      grants = classes.map fun c => ⟨sids c, masks.get c⟩ := by
  induction classes generalizing grants with
  | nil =>
    intro w parted
    rw [List.mapM_nil, Procedure.run_pure] at parted
    cases parted
    rfl
  | cons c classes ih =>
    intro w parted
    rw [List.mapM_cons, Procedure.run_bind, Procedure.run_bind, Procedure.run_pure, grantFor,
      Procedure.run_bind, Operation.result_run] at parted
    rcases resolved : (trustees.resolve c).run b w with ⟨result, mid⟩
    rw [resolved, Procedure.run_pure] at parted
    cases result with
    | error e => simp [Except.map, partResults] at parted
    | ok sid =>
      rcases others : partResults
        ((classes.mapM (grantFor masks trustees)).run b.respond mid).1 with ⟨good, bad⟩
      simp only [Except.map, partResults, others, Prod.mk.injEq] at parted
      obtain ⟨rfl, rfl⟩ := parted
      rw [resolves c w sid mid resolved, List.map_cons, ih others]

theorem explicitEntries_ok {masks : TriadMasks} {trustees : Trustees} {sids : FileClass → Sid}
    (resolves : trustees.ResolvesTo b sids) {grants : List Grant}
    (ran : (explicitEntries masks trustees).run b w = (.ok grants, w')) :
    grants = masks.grantsTo sids := by
  rw [explicitEntries_run] at ran
  rcases parted : partResults
    ((masks.granted.mapM (grantFor masks trustees)).run b.respond w).1 with ⟨good, bad⟩
  rw [parted] at ran
  cases bad with
  | nil =>
    cases ran
    exact grants_of_resolved resolves masks.granted parted
  | cons e errors => cases ran

/-! ## Success and failure -/

/-- What a successful application has done: it found all grants, built the list of them and
set it, and nothing has happened since but a line in the log. -/
theorem applyMode_ok {path : Path} {mode : Mode} {isDirectory : Bool} {trustees : Trustees}
    (ran : (applyMode path mode isDirectory trustees).run b w = (.ok (), w')) :
    ∃ grants acl found built,
      (explicitEntries (.ofMode mode isDirectory) trustees).run b w = (.ok grants, found) ∧
        b.respond (.security (.buildAcl grants)) found = (.ok acl, built) ∧
        b.respond (.security (.setAcl path acl)) built = (.ok (), w') := by
  rw [applyMode] at ran
  obtain ⟨grants, found, entries, ran⟩ := Operation.ok_of_run_bind ran
  obtain ⟨acl, built, building, ran⟩ := Operation.ok_of_run_bind ran
  obtain ⟨done, after, setting, noted⟩ := Operation.ok_of_run_bind ran
  rw [Operation.run_note] at noted
  cases noted
  exact ⟨grants, acl, found, built, entries, Operation.ok_of_run_askAt building,
    Operation.ok_of_run_askAt setting⟩

/-- Where an application that fails has stopped: at the trustees, at building the list of their
grants, or at setting it. -/
theorem applyMode_error {path : Path} {mode : Mode} {isDirectory : Bool} {trustees : Trustees}
    {e : Error}
    (ran : (applyMode path mode isDirectory trustees).run b w = (.error e, w')) :
    (explicitEntries (.ofMode mode isDirectory) trustees).run b w = (.error e, w') ∨
    ∃ grants found e',
      (explicitEntries (.ofMode mode isDirectory) trustees).run b w = (.ok grants, found) ∧
        (b.respond (.security (.buildAcl grants)) found = (.error e', w') ∧
            e = .security "creating access control list" e' ∨
          ∃ acl built, b.respond (.security (.buildAcl grants)) found = (.ok acl, built) ∧
            b.respond (.security (.setAcl path acl)) built = (.error e', w') ∧
            e = .security "setting security descriptor" e') := by
  rw [applyMode] at ran
  rcases Operation.error_of_run_bind ran with failed | ⟨grants, found, entries, ran⟩
  · exact Or.inl failed
  rcases Operation.error_of_run_bind ran with failed | ⟨acl, built, building, ran⟩
  · obtain ⟨e', label, refused⟩ := Operation.error_of_run_askAt failed
    exact Or.inr ⟨grants, found, e', entries, Or.inl ⟨refused, label⟩⟩
  rcases Operation.error_of_run_bind ran with failed | ⟨done, after, -, noted⟩
  · obtain ⟨e', label, refused⟩ := Operation.error_of_run_askAt failed
    exact Or.inr ⟨grants, found, e', entries,
      Or.inr ⟨acl, built, Operation.ok_of_run_askAt building, refused, label⟩⟩
  · rw [Operation.run_note] at noted
    cases noted

/-- A successful application builds a list of exactly the grants to the trustees. -/
theorem buildAcl_mem_exchangesIn {path : Path} {mode : Mode} {isDirectory : Bool}
    {trustees : Trustees} {sids : FileClass → Sid} (resolves : trustees.ResolvesTo b sids)
    (ran : (applyMode path mode isDirectory trustees).run b w = (.ok (), w')) :
    ∃ acl, (⟨.security (.buildAcl ((TriadMasks.ofMode mode isDirectory).grantsTo sids)),
      .ok acl⟩ : Exchange Acl Descriptor) ∈
        (applyMode path mode isDirectory trustees).exchangesIn b w := by
  obtain ⟨grants, acl, found, built, entries, building, -⟩ := applyMode_ok ran
  have whose := explicitEntries_ok resolves entries
  subst whose
  refine ⟨acl, ?_⟩
  rw [applyMode, Operation.exchangesIn_bind_of_ok entries, Operation.exchangesIn_bind,
    Operation.exchangesIn_askAt, building]
  exact List.mem_append_right _ (List.mem_append_left _ List.mem_cons_self)

end ModeAcl
