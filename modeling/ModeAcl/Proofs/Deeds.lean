import ModeAcl.Proofs.Applying
import ModeAcl.Proofs.Footprint
import ModeAcl.Proofs.Operations

/-!
# Deeds

Of all the calls that an operation makes, the deeds are those that created a
directory, removed one or set a list, and were not refused. An application of a
mode that succeeds sets one list, one that fails sets none; with that, the deeds
of `mkdir` and `mkdirEach` follow from how their parts run.
-/

namespace ModeAcl

variable {Acl Descriptor σ α β : Type}

/-- What a call has done. -/
inductive Deed (Acl : Type)
  | created (path : Path)
  | removed (path : Path)
  | listed (path : Path) (acl : Acl)
  deriving DecidableEq

/-- The deed of a call that could have one. -/
def Call.deed? : Call Acl Descriptor → Option (Deed Acl)
  | .file (.createDirectory path) => some (.created path)
  | .file (.removeDirectory path) => some (.removed path)
  | .security (.setAcl path acl) => some (.listed path acl)
  | _ => none

/-- Whether a call was answered, and not with an error. -/
def Call.Reply.isOk : {c : Call Acl Descriptor} → c.Reply → Bool
  | .security _, reply => Except.isOk reply
  | .file _, reply => Except.isOk reply
  | .log _, _ => true

def Exchange.deed? (x : Exchange Acl Descriptor) : Option (Deed Acl) :=
  if x.reply.isOk then x.call.deed? else none

def deeds (xs : List (Exchange Acl Descriptor)) : List (Deed Acl) := xs.filterMap Exchange.deed?

@[simp] theorem deeds_nil : deeds ([] : List (Exchange Acl Descriptor)) = [] := rfl

@[simp] theorem deeds_append (xs ys : List (Exchange Acl Descriptor)) :
    deeds (xs ++ ys) = deeds xs ++ deeds ys := List.filterMap_append

/-- What is done to make directories with a list. -/
def making (acl : Acl) (wholes : List Path) : List (Deed Acl) :=
  wholes.flatMap fun whole => [.created whole, .listed whole acl]

/-- Calls that have no deeds. -/
theorem Procedure.Within.deeds_eq_nil {P : Call Acl Descriptor → Prop}
    (idle : ∀ c, P c → c.deed? = none) {respond : Responder Acl Descriptor σ}
    {p : Procedure Acl Descriptor α} (within : p.Within P) (s : σ) :
    deeds (p.exchanges respond s) = [] := by
  rw [deeds, List.filterMap_eq_nil_iff]
  intro x member
  rw [Exchange.deed?, idle _ (within.exchanges s x member), ite_self]

namespace Operation

variable {b : Backend Acl Descriptor σ} {w w' : World σ}

/-- What an operation does in a world. -/
def deedsIn (op : Operation Acl Descriptor α) (b : Backend Acl Descriptor σ) (w : World σ) :
    List (Deed Acl) :=
  deeds (op.exchangesIn b w)

theorem deedsIn_bind (op : Operation Acl Descriptor α) (f : α → Operation Acl Descriptor β) :
    (op >>= f).deedsIn b w =
      op.deedsIn b w ++
        match op.run b w with
        | (.ok a, w') => (f a).deedsIn b w'
        | (.error _, _) => [] := by
  rw [deedsIn, exchangesIn_bind, deeds_append]
  rcases op.run b w with ⟨_ | a, w'⟩ <;> rfl

theorem deedsIn_of_within {P : Call Acl Descriptor → Prop} (idle : ∀ c, P c → c.deed? = none)
    {op : Operation Acl Descriptor α} (within : op.Within P) : op.deedsIn b w = [] :=
  within.deeds_eq_nil idle w

/-- What is done by what follows an operation without deeds. -/
theorem deedsIn_bind_of_idle {op : Operation Acl Descriptor α}
    {f : α → Operation Acl Descriptor β} {a : α} (ran : op.run b w = (.ok a, w'))
    (idle : op.deedsIn b w = []) : (op >>= f).deedsIn b w = (f a).deedsIn b w' := by
  rw [deedsIn_bind, ran, idle, List.nil_append]

/-- A list counts as set if the backend says so. -/
theorem deedsIn_setAcl_bind {stage : String} {path : Path} {acl : Acl}
    {f : Unit → Operation Acl Descriptor α} (idle : ∀ w, (f ()).deedsIn b w = []) :
    (askAt stage (.setAcl path acl) >>= f).deedsIn b w =
      match (b.respond (.security (.setAcl path acl)) w).1 with
      | .ok () => [.listed path acl]
      | .error _ => [] := by
  refine (deedsIn_bind _ _).trans ?_
  rw [deedsIn, exchangesIn_askAt, run_askAt]
  rcases b.respond (.security (.setAcl path acl)) w with ⟨_ | _, w'⟩
  · rfl
  · exact congrArg ([Deed.listed path acl] ++ ·) (idle w')

theorem deedsIn_buildAcl (stage : String) (grants : List Grant) :
    (askAt stage (.buildAcl grants)).deedsIn b w = [] :=
  deedsIn_of_within (P := fun c => c.deed? = none) (fun _ idle => idle) (.askAt rfl)

end Operation

/-! ## Applying a mode -/

theorem Call.Resolves.deed? (c : Call Acl Descriptor) (resolves : c.Resolves) :
    c.deed? = none := by
  rcases c with c | c | c
  · cases c <;> first | rfl | cases resolves
  · cases resolves
  · rfl

section

variable {b : Backend Acl Descriptor σ} {w w' : World σ} {path : Path} {mode : Mode}
  {isDirectory : Bool} {trustees : Trustees}

theorem deedsIn_explicitEntries (masks : TriadMasks) (trustees : Trustees) :
    (explicitEntries masks trustees).deedsIn b w = [] :=
  Operation.deedsIn_of_within Call.Resolves.deed? (explicitEntries_within masks trustees)

/-- What is done once the list is built is to set it. -/
theorem deedsIn_applyMode_of_built {grants : List Grant} {acl : Acl} {found built : World σ}
    (entries : (explicitEntries (.ofMode mode isDirectory) trustees).run b w = (.ok grants, found))
    (building : b.respond (.security (.buildAcl grants)) found = (.ok acl, built)) :
    (applyMode path mode isDirectory trustees).deedsIn b w =
      match (b.respond (.security (.setAcl path acl)) built).1 with
      | .ok () => [.listed path acl]
      | .error _ => [] := by
  have listing : (Operation.askAt "creating access control list" (.buildAcl grants)).run b found =
      (.ok acl, built) := by
    rw [Operation.run_askAt_of_ok (congrArg Prod.fst building), building]
  rw [applyMode, Operation.deedsIn_bind_of_idle entries (deedsIn_explicitEntries _ _),
    Operation.deedsIn_bind_of_idle listing (Operation.deedsIn_buildAcl _ _)]
  exact Operation.deedsIn_setAcl_bind fun _ => rfl

/-- An application that succeeds has set the list that was built for it, once. -/
theorem deedsIn_applyMode_ok
    (ran : (applyMode path mode isDirectory trustees).run b w = (.ok (), w')) :
    ∃ grants acl found built,
      (explicitEntries (.ofMode mode isDirectory) trustees).run b w = (.ok grants, found) ∧
        b.respond (.security (.buildAcl grants)) found = (.ok acl, built) ∧
        (applyMode path mode isDirectory trustees).deedsIn b w = [.listed path acl] := by
  obtain ⟨grants, acl, found, built, entries, building, setting⟩ := applyMode_ok ran
  refine ⟨grants, acl, found, built, entries, building, ?_⟩
  rw [deedsIn_applyMode_of_built entries building]
  rw [setting]

/-- One that fails has set none. -/
theorem deedsIn_applyMode_error {e : Error}
    (ran : (applyMode path mode isDirectory trustees).run b w = (.error e, w')) :
    (applyMode path mode isDirectory trustees).deedsIn b w = [] := by
  rcases applyMode_error ran with failed | ⟨grants, found, e', entries, stopped⟩
  · rw [applyMode, Operation.deedsIn_bind, deedsIn_explicitEntries, failed]
    rfl
  rcases stopped with ⟨refused, -⟩ | ⟨acl, built, building, refused, -⟩
  · rw [applyMode, Operation.deedsIn_bind_of_idle entries (deedsIn_explicitEntries _ _),
      Operation.deedsIn_bind, Operation.deedsIn_buildAcl, Operation.run_askAt, refused]
    rfl
  · rw [deedsIn_applyMode_of_built entries building, refused]

end

/-! ## Directories -/

namespace AclFiles

open Operation

variable {b : Backend Acl Descriptor σ} {w w' : World σ}

theorem deeds_onFiles (c : FileCall) :
    deeds ((onFiles c : Procedure Acl Descriptor _).exchanges b.respond w) =
      (Exchange.deed? (⟨.file c, (b.respond (.file c) w).1⟩ : Exchange Acl Descriptor)).toList := by
  have one : (onFiles c : Procedure Acl Descriptor _).exchanges b.respond w =
      [⟨.file c, (b.respond (.file c) w).1⟩] := rfl
  rw [one, deeds, List.filterMap_cons]
  split <;> simp_all

theorem deeds_probeDirectory (path : Path) :
    deeds ((probeDirectory path : Procedure Acl Descriptor Bool).exchanges b.respond w) = [] := by
  refine Procedure.Within.deeds_eq_nil (P := fun c => c.deed? = none) (fun _ idle => idle) ?_ w
  refine .call rfl fun reply => ?_
  cases reply <;> exact .done _

theorem deeds_removeDirectory (path : Path) :
    deeds ((onFiles (.removeDirectory path) : Procedure Acl Descriptor _).exchanges b.respond w) =
      match w.files.removeDirectory path with
      | .ok _ => [.removed path]
      | .error _ => [] := by
  rw [deeds_onFiles, Backend.respond]
  simp only [FileSystem.answer]
  rcases w.files.removeDirectory path with e | fs <;> rfl

theorem deedsIn_applyOrRemove (path : Path) (mode : Mode) (isDirectory : Bool)
    (trustees : Trustees) (removal : Procedure Acl Descriptor (Except CallError Unit)) :
    (applyOrRemove path mode isDirectory trustees removal).deedsIn b w =
      (applyMode path mode isDirectory trustees).deedsIn b w ++
        match (applyMode path mode isDirectory trustees).run b w with
        | (.ok (), _) => []
        | (.error _, w') => deeds (removal.exchanges b.respond w') := by
  have parts : (applyOrRemove path mode isDirectory trustees removal).exchangesIn b w = _ :=
    Procedure.exchanges_bind b.respond (applyMode path mode isDirectory trustees).result _ w
  rw [deedsIn, parts, deeds_append, result_run]
  congr 1
  rcases (applyMode path mode isDirectory trustees).run b w with ⟨e | _, w'⟩
  · dsimp only
    rw [Procedure.exchanges_bind, Procedure.exchanges_bind, deeds_append, deeds_append]
    have cleaning : ∀ (reply : Except CallError Unit) (w : World σ),
        deeds ((withCleanup e path reply : Procedure Acl Descriptor Error).exchanges
          b.respond w) = [] := by
      rintro (_ | _) w <;> rfl
    rw [cleaning, Procedure.exchanges_pure, deeds_nil, List.append_nil, List.append_nil]
  · rfl

theorem deedsIn_applyOrRemoveDirectory (path : Path) (mode : Mode) :
    (applyOrRemove path mode true .currentUser (onFiles (.removeDirectory path))).deedsIn b w =
      (applyMode path mode true .currentUser).deedsIn b w ++
        match (applyMode path mode true .currentUser).run b w with
        | (.ok (), _) => []
        | (.error _, w') =>
          match w'.files.removeDirectory path with
          | .ok _ => [.removed path]
          | .error _ => [] := by
  refine (deedsIn_applyOrRemove path mode true .currentUser _).trans (congrArg _ ?_)
  rcases (applyMode path mode true .currentUser).run b w with ⟨e | _, w'⟩
  · exact deeds_removeDirectory path
  · rfl

theorem deedsIn_mkdir (path : Path) (mode : Mode) :
    (mkdir path mode).deedsIn b w =
      match w.files.absolute path with
      | .error _ => []
      | .ok whole =>
        match w.files.createDirectory whole FileSystem.defaultDirectoryMode with
        | .error _ => []
        | .ok fs =>
          .created whole ::
            (applyOrRemove whole mode true .currentUser (onFiles (.removeDirectory whole))).deedsIn
              b { w with files := fs } := by
  rw [mkdir, deedsIn_bind, run_ofProcedure, Procedure.run_map, run_onFiles]
  have first : (ofProcedure (atStage "computing absolute path" <$>
      (onFiles (.absolute path) : Procedure Acl Descriptor _))).deedsIn b w = [] :=
    deedsIn_of_within (P := fun c => c.deed? = none) (fun _ idle => idle)
      (.call rfl fun _ => .done _)
  rw [first]
  simp only [FileSystem.answer]
  rcases w.files.absolute path with e | whole
  · rfl
  simp only [Except.map, atStage, List.nil_append]
  rw [deedsIn_bind, run_files]
  have second : (files (.createDirectory whole) : Operation Acl Descriptor Unit).deedsIn b w =
      (Exchange.deed? (⟨.file (.createDirectory whole),
        (b.respond (.file (.createDirectory whole)) w).1⟩ : Exchange Acl Descriptor)).toList :=
    deeds_onFiles _
  rw [second, Backend.respond]
  simp only [FileSystem.answer]
  rcases w.files.createDirectory whole FileSystem.defaultDirectoryMode with e | fs <;> rfl

theorem deedsIn_mkdirEach (mode : Mode) (path : Path) (above : List Path) :
    (mkdirEach mode (path :: above)).deedsIn b w =
      if w.files.isDirectory path then []
      else
        (mkdirEach mode above).deedsIn b w ++
          match (mkdirEach mode above).run b w with
          | (.error _, _) => []
          | (.ok (), w') => (mkdir path mode).deedsIn b w' := by
  rw [deedsIn, exchangesIn, mkdirEach, ofProcedure, result, Procedure.exchanges_bind,
    deeds_append, deeds_probeDirectory, run_probeDirectory, List.nil_append]
  dsimp only
  split
  · rfl
  rw [Procedure.exchanges_bind, deeds_append, result_run, deedsIn, exchangesIn]
  congr 1
  rcases (mkdirEach mode above).run b w with ⟨e | _, w'⟩
  · rfl
  dsimp only
  rw [Procedure.exchanges_bind, deeds_append, result_run, deedsIn, exchangesIn]
  rcases (mkdir path mode).run b w' with ⟨e | _, w''⟩
  · dsimp only
    split
    · rw [Procedure.exchanges_bind, deeds_append, deeds_probeDirectory, run_probeDirectory]
      dsimp only
      split <;> simp
    · simp
  · simp

end AclFiles

end ModeAcl
