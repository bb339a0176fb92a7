import ModeAcl.Proofs.Deeds

/-!
# The stages of applying a mode

Applying a mode calls the backend in three stages: it looks up the trustees of the
classes with rights (`Lookups`), builds the list of their grants, and sets it. A
stage is entered only if all calls of the one before it were answered, but within
the first stage a failure stops nothing: every trustee is looked up, and what failed
is reported together.

`Application` gives all calls of an application, with the answers and the result,
for each of the stages at which it can end.
-/

namespace ModeAcl

variable {Acl Descriptor σ : Type} {b : Backend Acl Descriptor σ} {w : World σ}

/-! ## Looking up the trustees -/

namespace Trustees

/-- The call that looks up who gets the rights of a class. -/
def resolution : Trustees → FileClass → SecurityCall Acl Descriptor
  | _, .other => .wellKnownSid .world
  | .creator, .owner => .wellKnownSid .creatorOwner
  | .creator, .group => .wellKnownSid .creatorGroup
  | .currentUser, .owner => .currentUser
  | .currentUser, .group => .primaryGroup

/-- How a failure of that call is labelled. -/
def resolutionStage : Trustees → FileClass → String
  | _, .other => "creating sid for everyone"
  | .creator, .owner => "creating sid for creator owner"
  | .creator, .group => "creating sid for creator group"
  | .currentUser, .owner => "resolving current user"
  | .currentUser, .group => "resolving primary group"

/-- That call with its answer. -/
def lookup : Trustees → FileClass → Except CallError Sid → Exchange Acl Descriptor
  | _, .other, reply => ⟨.security (.wellKnownSid .world), reply⟩
  | .creator, .owner, reply => ⟨.security (.wellKnownSid .creatorOwner), reply⟩
  | .creator, .group, reply => ⟨.security (.wellKnownSid .creatorGroup), reply⟩
  | .currentUser, .owner, reply => ⟨.security .currentUser, reply⟩
  | .currentUser, .group, reply => ⟨.security .primaryGroup, reply⟩

variable (trustees : Trustees) (c : FileClass) (reply : Except CallError Sid)

@[simp] theorem isOk_lookup :
    (trustees.lookup c reply : Exchange Acl Descriptor).reply.isOk = Except.isOk reply := by
  cases trustees <;> cases c <;> rfl

/-- To look up a trustee is a single call. -/
theorem exchanges_resolve (respond : Responder Acl Descriptor σ) (s : σ) :
    ∃ reply, (trustees.resolve c).result.exchanges respond s = [trustees.lookup c reply] ∧
      ((trustees.resolve c).result.run respond s).1 =
        atStage (trustees.resolutionStage c) reply := by
  cases trustees <;> cases c <;> exact ⟨_, rfl, rfl⟩

end Trustees

/-- The trustees of some classes are looked up, each whatever became of those before it. Of those
that are found come grants, of the others errors. -/
inductive Lookups (masks : TriadMasks) (trustees : Trustees) :
    List FileClass → List (Exchange Acl Descriptor) → List Grant → List Error → Prop
  | nil : Lookups masks trustees [] [] [] []
  | found {c : FileClass} {classes : List FileClass} {xs : List (Exchange Acl Descriptor)}
      {grants : List Grant} {errors : List Error} (sid : Sid) :
      Lookups masks trustees classes xs grants errors →
        Lookups masks trustees (c :: classes) (trustees.lookup c (.ok sid) :: xs)
          (⟨sid, masks.get c⟩ :: grants) errors
  | failed {c : FileClass} {classes : List FileClass} {xs : List (Exchange Acl Descriptor)}
      {grants : List Grant} {errors : List Error} (e : CallError) :
      Lookups masks trustees classes xs grants errors →
        Lookups masks trustees (c :: classes) (trustees.lookup c (.error e) :: xs)
          grants (.security (trustees.resolutionStage c) e :: errors)

namespace Lookups

variable {masks : TriadMasks} {trustees : Trustees} {classes : List FileClass}
  {xs : List (Exchange Acl Descriptor)} {grants : List Grant} {errors : List Error}

/-- Each trustee is looked up, in the order of the classes. -/
theorem securityCalls_eq (lookups : Lookups masks trustees classes xs grants errors) :
    securityCalls xs = classes.map trustees.resolution := by
  induction lookups with
  | nil => rfl
  | @found c _ _ _ _ sid _ ih | @failed c _ _ _ _ e _ ih =>
    unfold securityCalls at ih ⊢
    rw [List.filterMap_cons, ih]
    cases trustees <;> cases c <;> rfl

theorem logLines_eq (lookups : Lookups masks trustees classes xs grants errors) :
    logLines xs = [] := by
  induction lookups with
  | nil => rfl
  | @found c _ _ _ _ sid _ ih | @failed c _ _ _ _ e _ ih =>
    unfold logLines at ih ⊢
    rw [List.filterMap_cons, ih]
    cases trustees <;> cases c <;> rfl

/-- If nothing failed, there is one grant for each class. -/
theorem length_grants (lookups : Lookups masks trustees classes xs grants []) :
    grants.length = classes.length := by
  generalize none : ([] : List Error) = errors at lookups
  induction lookups with
  | nil => rfl
  | found sid _ ih => simp only [List.length_cons, ih none]
  | failed e _ _ => cases none

/-- Nothing failed exactly if all calls were answered. -/
theorem errors_eq_nil_iff (lookups : Lookups masks trustees classes xs grants errors) :
    errors = [] ↔ ∀ x ∈ xs, x.reply.isOk = true := by
  induction lookups with
  | nil => simp
  | found sid _ ih =>
    rw [ih, List.forall_mem_cons, Trustees.isOk_lookup]
    simp [Except.isOk, Except.toBool]
  | failed e _ _ =>
    rw [List.forall_mem_cons, Trustees.isOk_lookup]
    simp [Except.isOk, Except.toBool]

end Lookups

theorem lookups_of_mapM (masks : TriadMasks) (trustees : Trustees) (classes : List FileClass)
    (respond : Responder Acl Descriptor σ) (s : σ) :
    Lookups masks trustees classes ((classes.mapM (grantFor masks trustees)).exchanges respond s)
      (partResults ((classes.mapM (grantFor masks trustees)).run respond s).1).1
      (partResults ((classes.mapM (grantFor masks trustees)).run respond s).1).2 := by
  induction classes generalizing s with
  | nil => exact .nil
  | cons c classes ih =>
    obtain ⟨reply, asked, answered⟩ := trustees.exchanges_resolve c respond s
    have first : (grantFor masks trustees c).exchanges respond s = [trustees.lookup c reply] := by
      rw [grantFor, Procedure.exchanges_bind, Procedure.exchanges_pure, List.append_nil]
      exact asked
    have result : ((grantFor masks trustees c).run respond s).1 =
        (atStage (trustees.resolutionStage c) reply).map fun sid => ⟨sid, masks.get c⟩ := by
      rw [grantFor, Procedure.run_bind, Procedure.run_pure, answered]
    have rest := ih ((grantFor masks trustees c).run respond s).2
    rw [List.mapM_cons, Procedure.exchanges_bind, Procedure.exchanges_bind,
      Procedure.exchanges_pure, List.append_nil, Procedure.run_bind, Procedure.run_bind,
      Procedure.run_pure, first, result]
    cases reply with
    | ok sid => exact .found sid rest
    | error e => exact .failed e rest

/-- The first stage makes no calls but those that look up the trustees, whoever answers them. -/
theorem lookups_of_explicitEntries (masks : TriadMasks) (trustees : Trustees)
    (respond : Responder Acl Descriptor σ) (s : σ) :
    ∃ grants errors, Lookups masks trustees masks.granted
        ((explicitEntries masks trustees).result.exchanges respond s) grants errors ∧
      ((explicitEntries masks trustees).result.run respond s).1 =
        if errors = [] then .ok grants else .error (.entries errors) := by
  have calls : (explicitEntries masks trustees).result.exchanges respond s =
      (masks.granted.mapM (grantFor masks trustees)).exchanges respond s := by
    have parts : (explicitEntries masks trustees).result.exchanges respond s = _ :=
      Procedure.exchanges_bind respond (masks.granted.mapM (grantFor masks trustees)) _ s
    rw [parts]
    split <;> exact List.append_nil _
  refine ⟨_, _, calls ▸ lookups_of_mapM masks trustees _ respond s, ?_⟩
  rw [run_explicitEntries]
  rcases partResults ((masks.granted.mapM (grantFor masks trustees)).run respond s).1 with
    ⟨grants, _ | ⟨e, errors⟩⟩
  · rfl
  · rfl

/-! ## All stages -/

/-- The line that an application puts into the log. -/
def appliedLine (path : Path) (mode : Mode) (isDirectory : Bool) : LogLine :=
  ⟨.debug, appliedText path mode (.ofMode mode isDirectory)⟩

/-- The calls of an application and its result, by the stage at which it ends. -/
inductive Application (path : Path) (mode : Mode) (isDirectory : Bool) (trustees : Trustees) :
    List (Exchange Acl Descriptor) → Except Error Unit → Prop
  | unresolved {asked : List (Exchange Acl Descriptor)} {grants : List Grant}
      {errors : List Error} : errors ≠ [] →
      Lookups (.ofMode mode isDirectory) trustees (TriadMasks.ofMode mode isDirectory).granted
        asked grants errors →
      Application path mode isDirectory trustees asked (.error (.entries errors))
  | unbuilt {asked : List (Exchange Acl Descriptor)} {grants : List Grant} {e : CallError} :
      Lookups (.ofMode mode isDirectory) trustees (TriadMasks.ofMode mode isDirectory).granted
        asked grants [] →
      Application path mode isDirectory trustees
        (asked ++ [⟨.security (.buildAcl grants), .error e⟩])
        (.error (.security "creating access control list" e))
  | unset {asked : List (Exchange Acl Descriptor)} {grants : List Grant} {acl : Acl}
      {e : CallError} :
      Lookups (.ofMode mode isDirectory) trustees (TriadMasks.ofMode mode isDirectory).granted
        asked grants [] →
      Application path mode isDirectory trustees
        (asked ++ [⟨.security (.buildAcl grants), .ok acl⟩,
          ⟨.security (.setAcl path acl), .error e⟩])
        (.error (.security "setting security descriptor" e))
  | applied {asked : List (Exchange Acl Descriptor)} {grants : List Grant} {acl : Acl} :
      Lookups (.ofMode mode isDirectory) trustees (TriadMasks.ofMode mode isDirectory).granted
        asked grants [] →
      Application path mode isDirectory trustees
        (asked ++ [⟨.security (.buildAcl grants), .ok acl⟩, ⟨.security (.setAcl path acl), .ok ()⟩,
          ⟨.log (appliedLine path mode isDirectory), ()⟩])
        (.ok ())

/-- The last stage, behind a list that was built. -/
theorem application_of_built {path : Path} {mode : Mode} {isDirectory : Bool}
    {trustees : Trustees} {asked : List (Exchange Acl Descriptor)} {grants : List Grant}
    (lookups : Lookups (.ofMode mode isDirectory) trustees
      (TriadMasks.ofMode mode isDirectory).granted asked grants []) (acl : Acl) (w : World σ) :
    let setting : Operation Acl Descriptor Unit :=
      Operation.askAt "setting security descriptor" (.setAcl path acl) >>= fun _ =>
        Operation.note .debug (appliedText path mode (.ofMode mode isDirectory))
    Application path mode isDirectory trustees
      (asked ++ ([⟨.security (.buildAcl grants), .ok acl⟩] ++ setting.exchangesIn b w))
      (setting.run b w).1 := by
  intro setting
  have calls : setting.exchangesIn b w = _ := Operation.exchangesIn_bind _ _
  have ran : setting.run b w = _ := Operation.run_bind _ _
  rw [calls, ran, Operation.exchangesIn_askAt, Operation.run_askAt]
  rcases b.respond (.security (.setAcl path acl)) w with ⟨e | _, after⟩
  · exact .unset lookups
  · exact .applied lookups

theorem application_of_run (path : Path) (mode : Mode) (isDirectory : Bool)
    (trustees : Trustees) (w : World σ) :
    Application path mode isDirectory trustees
      ((applyMode path mode isDirectory trustees).exchangesIn b w)
      ((applyMode path mode isDirectory trustees).run b w).1 := by
  obtain ⟨grants, errors, lookups, resolved⟩ :=
    lookups_of_explicitEntries (.ofMode mode isDirectory) trustees b.respond w
  unfold applyMode
  rw [Operation.exchangesIn_bind, Operation.run_bind]
  rcases entries : (explicitEntries (.ofMode mode isDirectory) trustees).run b w with
    ⟨result, found⟩
  rw [Operation.result_run, entries] at resolved
  cases errors with
  | cons e errors =>
    cases resolved
    dsimp only
    rw [List.append_nil]
    exact .unresolved (List.cons_ne_nil e errors) lookups
  | nil =>
    cases resolved
    dsimp only
    rw [Operation.exchangesIn_bind, Operation.run_bind, Operation.exchangesIn_askAt,
      Operation.run_askAt]
    rcases b.respond (.security (.buildAcl grants)) found with ⟨e | acl, built⟩
    · exact .unbuilt lookups
    · exact application_of_built lookups acl built

namespace Application

variable {path : Path} {mode : Mode} {isDirectory : Bool} {trustees : Trustees}
  {xs : List (Exchange Acl Descriptor)} {result : Except Error Unit}

/-- Behind the trustees, at most a list is built, and behind that at most a list is set. -/
theorem securityCalls_eq (application : Application path mode isDirectory trustees xs result) :
    ∃ rest, securityCalls xs =
        (TriadMasks.ofMode mode isDirectory).granted.map trustees.resolution ++ rest ∧
      (rest = [] ∨ ∃ grants : List Grant,
        grants.length = (TriadMasks.ofMode mode isDirectory).granted.length ∧
          (rest = [.buildAcl grants] ∨ ∃ acl, rest = [.buildAcl grants, .setAcl path acl])) := by
  cases application with
  | unresolved _ lookups =>
    exact ⟨[], by rw [lookups.securityCalls_eq, List.append_nil], Or.inl rfl⟩
  | @unbuilt _ grants _ lookups =>
    refine ⟨_, ?_, Or.inr ⟨grants, lookups.length_grants, Or.inl rfl⟩⟩
    rw [securityCalls_append, lookups.securityCalls_eq]
    rfl
  | @unset _ grants acl _ lookups | @applied _ grants acl lookups =>
    refine ⟨_, ?_, Or.inr ⟨grants, lookups.length_grants, Or.inr ⟨acl, rfl⟩⟩⟩
    rw [securityCalls_append, lookups.securityCalls_eq]
    rfl

theorem isOk_iff (application : Application path mode isDirectory trustees xs result) :
    result.isOk = true ↔ ∀ x ∈ xs, x.reply.isOk = true := by
  cases application with
  | unresolved failed lookups =>
    exact iff_of_false (by simp [Except.isOk, Except.toBool])
      fun all => failed (lookups.errors_eq_nil_iff.mpr all)
  | unbuilt lookups | unset lookups =>
    rw [List.forall_mem_append]
    simp [Call.Reply.isOk, Except.isOk, Except.toBool]
  | applied lookups =>
    rw [List.forall_mem_append]
    refine iff_of_true rfl ⟨lookups.errors_eq_nil_iff.mp rfl, ?_⟩
    simp [Call.Reply.isOk, Except.isOk, Except.toBool]

theorem logLines_eq (application : Application path mode isDirectory trustees xs result) :
    logLines xs = if result.isOk then [appliedLine path mode isDirectory] else [] := by
  cases application with
  | unresolved failed lookups => exact lookups.logLines_eq
  | unbuilt lookups | unset lookups | applied lookups =>
    rw [logLines_append, lookups.logLines_eq]
    rfl

end Application

end ModeAcl
