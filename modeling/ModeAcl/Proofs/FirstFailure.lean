import Mathlib.Data.List.Nodup
import ModeAcl.Proofs.MkdirFootprint

/-!
# Reading stops at the first failure

A read follows a plan: a list of calls to the backend, each with the stage under
which its failure is reported. `UntilFailure` says that a run has made the calls of a
plan in order, either all of them, all answered, or up to the first that failed, and
that it ended with that failure under the stage of that call. The number of entries
is part of the plan, and so is the descriptor; both are what the backend answers.

A read makes no call that writes, so it leaves whatever the other calls leave.
-/

namespace ModeAcl

variable {Acl Descriptor σ α β τ : Type} {b : Backend Acl Descriptor σ} {w : World σ}

/-! ## Plans -/

/-- A call to the backend and the stage under which its failure is reported. -/
structure PlannedCall (Acl Descriptor : Type) where
  stage : String
  call : SecurityCall Acl Descriptor

/-- The call for one entry. Its stage names the index. -/
def entryCall (d : Descriptor) (index : Nat) : PlannedCall Acl Descriptor :=
  ⟨"getting access control entry at index " ++ Numeral.decimal index, .ace d index⟩

/-- How to read a descriptor whose list has some number of entries. -/
def descriptorPlan (d : Descriptor) (count : Nat) : List (PlannedCall Acl Descriptor) :=
  ⟨"getting discretionary access control list", .aceCount d⟩ ::
    ⟨"getting owner sid", .owner d⟩ ::
    ⟨"getting group sid", .group d⟩ ::
    (List.range count).map (entryCall d)

/-- How many entries a list has, if the backend says so. -/
def Backend.entryCount (b : Backend Acl Descriptor σ) (w : World σ) (d : Descriptor) : Nat :=
  match (b.respond (.security (.aceCount d)) w).1 with
  | .ok count => count
  | .error _ => 0

/-- How to read the mode of an object: ask for its descriptor and, if there is one, read that. -/
def Backend.readPlan (b : Backend Acl Descriptor σ) (w : World σ) (path : Path) :
    List (PlannedCall Acl Descriptor) :=
  ⟨"getting security descriptor", .descriptor path⟩ ::
    match b.respond (.security (.descriptor path)) w with
    | (.ok d, w') => descriptorPlan d (b.entryCount w' d)
    | (.error _, _) => []

/-- The entries come last, each by its index. -/
theorem calls_descriptorPlan (d : Descriptor) (count : Nat) :
    (descriptorPlan d count : List (PlannedCall Acl Descriptor)).map (·.call) =
      .aceCount d :: .owner d :: .group d :: (List.range count).map (.ace d ·) := by
  rw [descriptorPlan, List.map_cons, List.map_cons, List.map_cons, List.map_map]
  rfl

theorem nodup_descriptorPlan (d : Descriptor) (count : Nat) :
    ((descriptorPlan d count : List (PlannedCall Acl Descriptor)).map (·.call)).Nodup := by
  have distinct : Function.Injective fun index =>
      (.ace d index : SecurityCall Acl Descriptor) :=
    fun i j same => by cases same; rfl
  have entries := (List.nodup_range (n := count)).map distinct
  rw [calls_descriptorPlan]
  simp [entries]

/-- No call is planned twice. -/
theorem nodup_readPlan (b : Backend Acl Descriptor σ) (w : World σ) (path : Path) :
    ((b.readPlan w path).map (·.call)).Nodup := by
  have described : ∀ (d : Descriptor) (count : Nat), (.descriptor path ::
      (descriptorPlan d count : List (PlannedCall Acl Descriptor)).map (·.call)).Nodup := by
    intro d count
    refine List.nodup_cons.mpr ⟨?_, nodup_descriptorPlan d count⟩
    rw [calls_descriptorPlan]
    simp
  rw [Backend.readPlan, List.map_cons]
  rcases b.respond (.security (.descriptor path)) w with ⟨e | d, w'⟩
  · exact List.nodup_cons.mpr ⟨List.not_mem_nil, List.nodup_nil⟩
  · exact described d _

/-! ## Following a plan -/

/-- The calls of a run and its result, if it follows a plan up to the first failure. -/
inductive UntilFailure : List (PlannedCall Acl Descriptor) → List (Exchange Acl Descriptor) →
    Except Error α → Prop
  | finished {plan : List (PlannedCall Acl Descriptor)} {xs : List (Exchange Acl Descriptor)}
      (a : α) : securityCalls xs = plan.map (·.call) → (∀ x ∈ xs, x.reply.isOk = true) →
      UntilFailure plan xs (.ok a)
  | failed {before after : List (PlannedCall Acl Descriptor)}
      {xs : List (Exchange Acl Descriptor)} (planned : PlannedCall Acl Descriptor)
      (cause : CallError) :
      securityCalls xs = before.map (·.call) → (∀ x ∈ xs, x.reply.isOk = true) →
      UntilFailure (before ++ planned :: after) (xs ++ [⟨.security planned.call, .error cause⟩])
        (.error (.security planned.stage cause))

namespace UntilFailure

variable {plan : List (PlannedCall Acl Descriptor)} {xs : List (Exchange Acl Descriptor)}
  {result : Except Error α}

/-- The next call of the plan fails, and none is made behind it. -/
theorem refused (planned : PlannedCall Acl Descriptor) (cause : CallError) :
    UntilFailure (α := α) (planned :: plan) [⟨.security planned.call, .error cause⟩]
      (.error (.security planned.stage cause)) :=
  @failed _ _ _ [] plan [] planned cause rfl fun _ member => by cases member

/-- The next call of the plan is answered. -/
theorem answered (planned : PlannedCall Acl Descriptor) (answer : planned.call.Answer)
    (rest : UntilFailure plan xs result) :
    UntilFailure (planned :: plan) (⟨.security planned.call, .ok answer⟩ :: xs) result := by
  cases rest with
  | finished a calls all =>
    exact .finished a (congrArg (planned.call :: ·) calls) (List.forall_mem_cons.mpr ⟨rfl, all⟩)
  | @failed before after xs failing cause calls all =>
    exact @failed _ _ _ (planned :: before) after (⟨.security planned.call, .ok answer⟩ :: xs)
      failing cause (congrArg (planned.call :: ·) calls) (List.forall_mem_cons.mpr ⟨rfl, all⟩)

/-- A line for the log is not in the plan. -/
theorem logged (line : LogLine) (rest : UntilFailure plan xs result) :
    UntilFailure plan (⟨.log line, ()⟩ :: xs) result := by
  cases rest with
  | finished a calls all => exact .finished a calls (List.forall_mem_cons.mpr ⟨rfl, all⟩)
  | @failed before after xs failing cause calls all =>
    exact @failed _ _ _ before after (⟨.log line, ()⟩ :: xs) failing cause calls
      (List.forall_mem_cons.mpr ⟨rfl, all⟩)

/-- Behind a finished plan, more is done without calls to the backend. -/
theorem finished_append {a : α} {ys : List (Exchange Acl Descriptor)}
    (followed : UntilFailure plan xs (.ok a)) (quiet : securityCalls ys = [])
    (all : ∀ y ∈ ys, y.reply.isOk = true) (c : β) : UntilFailure plan (xs ++ ys) (.ok c) := by
  cases followed with
  | finished _ calls before =>
    refine .finished c ?_ (List.forall_mem_append.mpr ⟨before, all⟩)
    rw [securityCalls_append, quiet, List.append_nil, calls]

/-- A failure does not depend on what the result would have been. -/
theorem failed_as {e : Error} (followed : UntilFailure (α := α) plan xs (.error e)) :
    UntilFailure (α := β) plan xs (.error e) := by
  cases followed with
  | failed failing cause calls before => exact .failed failing cause calls before

/-- The calls are those of the plan from its beginning, with none left out. -/
theorem calls_prefix (followed : UntilFailure plan xs result) :
    securityCalls xs <+: plan.map (·.call) := by
  cases followed with
  | finished a calls _ => exact calls ▸ List.prefix_rfl
  | @failed before after xs failing cause calls _ =>
    refine ⟨after.map (·.call), ?_⟩
    rw [securityCalls_append, calls, List.map_append, List.append_assoc]
    rfl

theorem isOk_iff (followed : UntilFailure plan xs result) :
    result.isOk = true ↔ ∀ x ∈ xs, x.reply.isOk = true := by
  cases followed with
  | finished a _ all => exact iff_of_true rfl all
  | failed failing cause _ _ =>
    refine iff_of_false Bool.false_ne_true fun all => ?_
    exact Bool.false_ne_true (all _ (List.mem_append_right _ List.mem_cons_self))

end UntilFailure

/-- An operation that begins with the first call of a plan follows it, if what comes behind an
answer follows the rest. -/
theorem untilFailure_askAt_bind {plan : List (PlannedCall Acl Descriptor)} {stage : String}
    {c : SecurityCall Acl Descriptor} {f : c.Answer → Operation Acl Descriptor α}
    (rest : ∀ answer w', b.respond (.security c) w = (.ok answer, w') →
      UntilFailure plan ((f answer).exchangesIn b w') ((f answer).run b w').1) :
    UntilFailure (⟨stage, c⟩ :: plan) ((Operation.askAt stage c >>= f).exchangesIn b w)
      ((Operation.askAt stage c >>= f).run b w).1 := by
  rw [Operation.exchangesIn_bind, Operation.run_bind, Operation.exchangesIn_askAt,
    Operation.run_askAt]
  rcases asked : b.respond (.security c) w with ⟨cause | answer, w'⟩
  · exact .refused ⟨stage, c⟩ cause
  · exact .answered ⟨stage, c⟩ answer (rest answer w' asked)

/-! ## Reading a list -/

/-- Entries are read until one fails. -/
theorem untilFailure_readEntries (d : Descriptor) (owner group : Sid) (indices : List Nat) :
    ∀ (masks : TriadMasks) (w : World σ),
      UntilFailure (indices.map (entryCall d))
        ((indices.foldlM (readEntry d owner group) masks :
          Operation Acl Descriptor TriadMasks).exchangesIn b w)
        ((indices.foldlM (readEntry d owner group) masks).run b w).1 := by
  induction indices with
  | nil => exact fun masks w => .finished masks rfl fun _ member => by cases member
  | cons index indices ih =>
    intro masks w
    rw [List.foldlM_cons, readEntry, bind_assoc]
    refine untilFailure_askAt_bind fun ace w' _ => ?_
    rw [bind_assoc, Operation.exchangesIn_bind_of_ok (Operation.run_note _ _),
      Operation.run_bind_of_ok (Operation.run_note _ _), pure_bind]
    exact .logged _ (ih _ w')

theorem untilFailure_descriptorMasks (d : Descriptor) (w : World σ) :
    UntilFailure (descriptorPlan d (b.entryCount w d)) ((descriptorMasks d).exchangesIn b w)
      ((descriptorMasks d).run b w).1 := by
  unfold descriptorMasks descriptorPlan
  refine untilFailure_askAt_bind fun count counted answer => ?_
  refine untilFailure_askAt_bind fun owner _ _ => ?_
  refine untilFailure_askAt_bind fun group _ _ => ?_
  -- the plan asked the same backend in the same world, so it knows the number of entries
  rw [Backend.entryCount, answer]
  exact untilFailure_readEntries d owner group _ _ _

/-- What a read does behind the descriptor. -/
theorem untilFailure_of_described (path : Path) (d : Descriptor) (w : World σ) :
    let reading : Operation Acl Descriptor Mode := descriptorMasks d >>= fun masks => do
      Operation.note .debug (readText path masks.toMode masks)
      return masks.toMode
    UntilFailure (descriptorPlan d (b.entryCount w d)) (reading.exchangesIn b w)
      (reading.run b w).1 := by
  intro reading
  have calls : reading.exchangesIn b w = _ := Operation.exchangesIn_bind _ _
  have ran : reading.run b w = _ := Operation.run_bind _ _
  have read := untilFailure_descriptorMasks (b := b) d w
  rw [calls, ran]
  rcases summed : (descriptorMasks d).run b w with ⟨e | masks, w'⟩ <;> rw [summed] at read
  · exact (List.append_nil _).symm ▸ read.failed_as
  · refine read.finished_append rfl (fun y member => ?_) masks.toMode
    rw [List.mem_singleton.mp member]
    rfl

theorem untilFailure_readMode (path : Path) (w : World σ) :
    UntilFailure (b.readPlan w path) ((readMode path).exchangesIn b w)
      ((readMode path).run b w).1 := by
  unfold readMode Backend.readPlan
  refine untilFailure_askAt_bind fun d w' answer => ?_
  rw [answer]
  exact untilFailure_of_described path d w'

/-! ## Reading writes nothing -/

/-- No call of a read changes what `view` shows of a world. -/
def Backend.ReadsLeave (b : Backend Acl Descriptor σ) (view : World σ → τ) : Prop :=
  ∀ (c : Call Acl Descriptor) (w : World σ), c.Reads → view (b.respond c w).2 = view w

theorem Operation.Within.view_run {view : World σ → τ} (leaves : b.ReadsLeave view)
    {op : Operation Acl Descriptor α} (within : op.Within Call.Reads) (w : World σ) :
    view (op.run b w).2 = view w :=
  within.preserves (R := fun w w' => view w' = view w) (fun _ => rfl)
    (fun first second => second.trans first) (fun c reads w => leaves c w reads) w

/-- Whatever faults the backend in memory has, reading leaves the tree and all lists. -/
theorem memoryBackend_readsLeave :
    memoryBackend.ReadsLeave fun w => (w.files, w.backend.store) := by
  intro c w reads
  refine Prod.ext ?_ (store_of_not_sets (Call.Reads.not_sets c reads))
  cases c with
  | security c => exact files_of_not_sets (Call.Reads.not_sets _ reads)
  | file c => cases reads
  | log line => rfl

theorem Call.ReadsFrom.reads (d : Descriptor) (c : Call Acl Descriptor) (part : c.ReadsFrom d) :
    c.Reads := by
  rcases c with c | c | c
  · cases c <;> first | exact trivial | cases part
  · cases part
  · exact trivial

/-! ## All reads -/

/-- An operation that reads by a plan: it follows the plan until a call fails, so it makes the
first calls of the plan, none twice, and succeeds exactly if all of them do. It writes nothing. -/
structure Operation.ReadsBy (op : Operation Acl Descriptor α) (b : Backend Acl Descriptor σ)
    (w : World σ) (plan : List (PlannedCall Acl Descriptor)) : Prop where
  until_failure : UntilFailure plan (op.exchangesIn b w) (op.run b w).1
  calls_prefix : securityCalls (op.exchangesIn b w) <+: plan.map (·.call)
  calls_nodup : (securityCalls (op.exchangesIn b w)).Nodup
  isOk_iff : (op.run b w).1.isOk = true ↔ ∀ x ∈ op.exchangesIn b w, x.reply.isOk = true
  reads : ∀ x ∈ op.exchangesIn b w, x.call.Reads

theorem UntilFailure.readsBy {op : Operation Acl Descriptor α}
    {plan : List (PlannedCall Acl Descriptor)}
    (followed : UntilFailure plan (op.exchangesIn b w) (op.run b w).1)
    (once : (plan.map (·.call)).Nodup) (within : op.Within Call.Reads) : op.ReadsBy b w plan where
  until_failure := followed
  calls_prefix := followed.calls_prefix
  calls_nodup := once.sublist followed.calls_prefix.sublist
  isOk_iff := followed.isOk_iff
  reads := within.exchanges w

namespace AclFiles

/-- The exchanges of `stat`: the file system is asked first, and the backend only if the object is
there. -/
theorem exchangesIn_stat (path : Path) :
    (stat path).exchangesIn b w =
      match w.files.metadata path with
      | .error e => [⟨.file (.metadata path), .error e⟩]
      | .ok m => ⟨.file (.metadata path), .ok m⟩ :: (readMode path).exchangesIn b w := by
  unfold stat
  rw [Operation.exchangesIn_metadata_bind]
  rcases w.files.metadata path with e | m
  · rfl
  · dsimp only
    rw [Operation.exchangesIn_bind]
    refine congrArg (_ :: ·) ?_
    rcases (readMode path).run b w with ⟨_ | _, w'⟩ <;> exact List.append_nil _

end AclFiles

/-- Reading, over any backend. The masks of a descriptor are read by the plan for its entries, the
mode of an object by the plan that asks for its descriptor first. `AclFiles.stat` asks the file
system before that; if that fails, there is no call to the backend. What the calls of a read leave
of a world, the reads leave, and for the backend in memory that is the tree and all lists. -/
theorem reads_stop_at_failure (b : Backend Acl Descriptor σ) (w : World σ) (path : Path) :
    (∀ d, (descriptorMasks d).ReadsBy b w (descriptorPlan d (b.entryCount w d))) ∧
      (readMode path).ReadsBy b w (b.readPlan w path) ∧
      (match w.files.metadata path with
        | .error e =>
          (AclFiles.stat path).exchangesIn b w = [⟨.file (.metadata path), .error e⟩] ∧
            (AclFiles.stat path).run b w = (.error (.io e), w)
        | .ok m =>
          (AclFiles.stat path).exchangesIn b w =
              ⟨.file (.metadata path), .ok m⟩ :: (readMode path).exchangesIn b w ∧
            (AclFiles.stat path).run b w =
              (((readMode path).run b w).1.map fun perm =>
                ⟨path.displayName, m, (Mode.ofType m.type).withPerm perm⟩,
              ((readMode path).run b w).2)) ∧
      (∀ (τ : Type) (view : World σ → τ), b.ReadsLeave view →
        (∀ d, view ((descriptorMasks d).run b w).2 = view w) ∧
          view ((readMode path).run b w).2 = view w ∧
          view ((AclFiles.stat path).run b w).2 = view w) ∧
      memoryBackend.ReadsLeave fun w => (w.files, w.backend.store) := by
  have masks : ∀ d, (descriptorMasks d : Operation Acl Descriptor TriadMasks).Within Call.Reads :=
    fun d => (descriptorMasks_within d).mono (Call.ReadsFrom.reads d)
  refine ⟨fun d => ?_, ?_, ?_, fun τ view leaves => ⟨fun d => ?_, ?_, ?_⟩,
    memoryBackend_readsLeave⟩
  · exact (untilFailure_descriptorMasks d w).readsBy (nodup_descriptorPlan d _) (masks d)
  · exact (untilFailure_readMode path w).readsBy (nodup_readPlan b w path) (readMode_within path)
  · rw [AclFiles.exchangesIn_stat, AclFiles.run_stat]
    rcases w.files.metadata path with e | m
    · exact ⟨rfl, rfl⟩
    · refine ⟨rfl, ?_⟩
      rcases (readMode path).run b w with ⟨_ | _, w'⟩ <;> rfl
  · exact (masks d).view_run leaves w
  · exact (readMode_within path).view_run leaves w
  · have read := (readMode_within path).view_run leaves w
    rw [AclFiles.run_stat]
    rcases w.files.metadata path with e | m
    · rfl
    · rcases ran : (readMode path).run b w with ⟨_ | _, w'⟩ <;> rw [ran] at read <;> exact read

end ModeAcl
