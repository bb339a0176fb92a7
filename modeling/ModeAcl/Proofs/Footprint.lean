import ModeAcl.Proofs.Running

/-!
# Which calls a procedure can make

`Procedure.Within P` says that every call a procedure can make, whatever the
answers to those before, is one of `P`. Procedures put together from others stay
within what their parts do. `Procedure.Within.preserves` carries what each call
of `P` leaves of a state over a whole run.
-/

namespace ModeAcl

variable {Acl Descriptor σ α β : Type}

/-- Every call that a procedure can make is one of `P`. -/
inductive Procedure.Within (P : Call Acl Descriptor → Prop) :
    Procedure Acl Descriptor α → Prop
  | done (a : α) : Within P (.done a)
  | call {c : Call Acl Descriptor} {next : c.Reply → Procedure Acl Descriptor α} :
    P c → (∀ reply, Within P (next reply)) → Within P (.call c next)

namespace Procedure.Within

variable {P Q : Call Acl Descriptor → Prop}

theorem pure (a : α) : Within P (pure a : Procedure Acl Descriptor α) := .done a

theorem mono (wider : ∀ c, P c → Q c) {p : Procedure Acl Descriptor α} (within : Within P p) :
    Within Q p := by
  induction within with
  | done a => exact .done a
  | call allowed _ ih => exact .call (wider _ allowed) ih

theorem bind {p : Procedure Acl Descriptor α} {f : α → Procedure Acl Descriptor β}
    (first : Within P p) (rest : ∀ a, Within P (f a)) : Within P (p >>= f) := by
  induction first with
  | done a => exact rest a
  | call allowed _ ih => exact .call allowed ih

theorem map {p : Procedure Acl Descriptor α} (f : α → β) (within : Within P p) :
    Within P (f <$> p) := by
  rw [← bind_pure_comp]
  exact within.bind fun a => .pure (f a)

theorem mapM {f : α → Procedure Acl Descriptor β} {items : List α}
    (each : ∀ a ∈ items, Within P (f a)) : Within P (items.mapM f) := by
  induction items with
  | nil =>
    rw [List.mapM_nil]
    exact .pure []
  | cons a items ih =>
    rw [List.mapM_cons]
    refine (each a List.mem_cons_self).bind fun _ => Within.bind ?_ fun _ => .pure _
    exact ih fun a' member => each a' (List.mem_cons_of_mem a member)

/-- What every call of `P` leaves as it is, a whole run leaves as it is. The relation `R` says
of the state before and the state after that it has been left. -/
theorem preserves {respond : Responder Acl Descriptor σ} {R : σ → σ → Prop}
    (refl : ∀ s, R s s) (trans : ∀ {s t u}, R s t → R t u → R s u)
    (step : ∀ c, P c → ∀ s, R s (respond c s).2) {p : Procedure Acl Descriptor α}
    (within : Within P p) (s : σ) : R s (p.run respond s).2 := by
  induction within generalizing s with
  | done a => exact refl s
  | call allowed _ ih => exact trans (step _ allowed s) (ih _ _)

theorem exchanges {respond : Responder Acl Descriptor σ} {p : Procedure Acl Descriptor α}
    (within : Within P p) : ∀ s, ∀ x ∈ p.exchanges respond s, P x.call := by
  induction within with
  | done a => exact fun _ x member => by cases member
  | call allowed _ ih =>
    intro s x member
    rcases List.mem_cons.mp member with rfl | later
    · exact allowed
    · exact ih _ _ x later

/-- If no call of `P` changes a state, all calls of a run from it are answered in that state. -/
theorem exchanges_at {respond : Responder Acl Descriptor σ} {s : σ}
    (still : ∀ c, P c → (respond c s).2 = s) {p : Procedure Acl Descriptor α}
    (within : Within P p) :
    ∀ x ∈ p.exchanges respond s, P x.call ∧ x.reply = (respond x.call s).1 := by
  induction within with
  | done a => exact fun x member => by cases member
  | call allowed _ ih =>
    intro x member
    rw [Procedure.exchanges, still _ allowed] at member
    rcases List.mem_cons.mp member with rfl | later
    · exact ⟨allowed, rfl⟩
    · exact ih _ x later

/-- What answers all calls of `P` alike runs a procedure alike. -/
theorem run_congr {respond respond' : Responder Acl Descriptor σ}
    (alike : ∀ c, P c → ∀ s, respond' c s = respond c s) {p : Procedure Acl Descriptor α}
    (within : Within P p) (s : σ) : p.run respond' s = p.run respond s := by
  induction within generalizing s with
  | done a => rfl
  | call allowed _ ih => rw [Procedure.run, Procedure.run, alike _ allowed, ih]

end Procedure.Within

/-! ## Operations -/

/-- Every call that an operation can make is one of `P`. -/
def Operation.Within (P : Call Acl Descriptor → Prop) (op : Operation Acl Descriptor α) : Prop :=
  op.result.Within P

namespace Operation.Within

variable {P : Call Acl Descriptor → Prop}

theorem pure (a : α) : Within P (pure a : Operation Acl Descriptor α) := .done _

theorem bind {op : Operation Acl Descriptor α} {f : α → Operation Acl Descriptor β}
    (first : Within P op) (rest : ∀ a, Within P (f a)) : Within P (op >>= f) := by
  have parts : (op >>= f).result = op.result >>= ExceptT.bindCont f := rfl
  rw [Operation.Within, parts]
  refine Procedure.Within.bind first fun result => ?_
  cases result with
  | ok a => exact rest a
  | error e => exact .done _

theorem ofProcedure {p : Procedure Acl Descriptor (Except Error α)} (within : p.Within P) :
    Within P (Operation.ofProcedure p) := within

theorem askAt {stage : String} {c : SecurityCall Acl Descriptor} (allowed : P (.security c)) :
    Within P (Operation.askAt stage c) :=
  .call allowed fun _ => .done _

theorem files {c : FileCall} (allowed : P (.file c)) : Within P (Operation.files c) :=
  .call allowed fun _ => .done _

theorem note {level : LogLevel} {text : String} (allowed : P (.log ⟨level, text⟩)) :
    Within P (Operation.note level text) :=
  .call allowed fun _ => .done _

theorem foldlM {f : β → α → Operation Acl Descriptor β} (each : ∀ x a, Within P (f x a))
    (items : List α) : ∀ x, Within P (items.foldlM f x) := by
  induction items with
  | nil => exact fun x => .pure x
  | cons a items ih => exact fun x => (each x a).bind ih

end Operation.Within

/-! ## The footprints of applying and reading -/

/-- A call that resolves an identity. -/
def Call.Resolves : Call Acl Descriptor → Prop
  | .security (.wellKnownSid _) | .security .currentUser | .security .primaryGroup => True
  | _ => False

/-- A call that applying a mode can make: it goes to the backend to resolve, build or set, or to
the log. -/
def Call.Applies : Call Acl Descriptor → Prop
  | .security (.descriptor _) | .security (.owner _) | .security (.group _)
  | .security (.aceCount _) | .security (.ace _ _) | .file _ => False
  | _ => True

/-- A call that reading a descriptor can make: it goes to the backend for a part of `d`, or to
the log. -/
def Call.ReadsFrom (d : Descriptor) : Call Acl Descriptor → Prop
  | .security (.owner d') | .security (.group d') | .security (.aceCount d')
  | .security (.ace d' _) => d' = d
  | .log _ => True
  | _ => False

/-- A call that reading a mode can make. -/
def Call.Reads : Call Acl Descriptor → Prop
  | .security (.descriptor _) | .security (.owner _) | .security (.group _)
  | .security (.aceCount _) | .security (.ace _ _) | .log _ => True
  | _ => False

theorem resolve_within (trustees : Trustees) (c : FileClass) :
    (trustees.resolve c : Operation Acl Descriptor Sid).Within Call.Resolves := by
  cases trustees <;> cases c <;> exact Operation.Within.askAt trivial

theorem explicitEntries_within (masks : TriadMasks) (trustees : Trustees) :
    (explicitEntries masks trustees : Operation Acl Descriptor (List Grant)).Within
      Call.Resolves := by
  refine Operation.Within.ofProcedure ((Procedure.Within.mapM fun c _ => ?_).bind fun _ => ?_)
  · exact Procedure.Within.bind (resolve_within trustees c) fun _ => .pure _
  · split <;> exact .pure _

theorem applyMode_within (path : Path) (mode : Mode) (isDirectory : Bool) (trustees : Trustees) :
    (applyMode path mode isDirectory trustees : Operation Acl Descriptor Unit).Within
      Call.Applies := by
  have resolving : ∀ c : Call Acl Descriptor, c.Resolves → c.Applies := by
    rintro (c | c | c) allowed
    · cases c <;> simp_all [Call.Resolves, Call.Applies]
    · cases allowed
    · cases allowed
  refine Operation.Within.bind ((explicitEntries_within _ _).mono resolving) fun _ => ?_
  refine Operation.Within.bind (.askAt trivial) fun _ => ?_
  exact Operation.Within.bind (.askAt trivial) fun _ => .note trivial

theorem descriptorMasks_within (d : Descriptor) :
    (descriptorMasks d : Operation Acl Descriptor TriadMasks).Within (Call.ReadsFrom d) := by
  refine Operation.Within.bind (.askAt rfl) fun _ => ?_
  refine Operation.Within.bind (.askAt rfl) fun _ => ?_
  refine Operation.Within.bind (.askAt rfl) fun _ => ?_
  refine Operation.Within.foldlM (fun _ _ => ?_) _ _
  exact Operation.Within.bind (.askAt rfl) fun _ => .bind (.note trivial) fun _ => .pure _

theorem readMode_within (path : Path) :
    (readMode path : Operation Acl Descriptor Mode).Within Call.Reads := by
  have reading : ∀ (d : Descriptor) (c : Call Acl Descriptor), c.ReadsFrom d → c.Reads := by
    rintro d (c | c | c) allowed
    · cases c <;> simp_all [Call.ReadsFrom, Call.Reads]
    · cases allowed
    · trivial
  refine Operation.Within.bind (.askAt trivial) fun d => ?_
  refine Operation.Within.bind ((descriptorMasks_within d).mono (reading d)) fun _ => ?_
  exact Operation.Within.bind (.note trivial) fun _ => .pure _

end ModeAcl
