import ModeAcl.Acl.Files
import ModeAcl.World

/-!
# Running operations

How an operation that is made of others runs, and which calls it makes. A bind
runs its parts one after the other and stops at the first error; a single call
is answered by the file system or by the backend of the world it is made in.
The lemmas on a call whose answer is known walk through an operation from the
front.
-/

namespace ModeAcl

variable {Acl Descriptor σ α β : Type}

instance : LawfulMonad (Procedure Acl Descriptor) :=
  LawfulMonad.mk' _
    (fun p => by
      induction p with
      | done a => rfl
      | call c next ih => exact congrArg (Procedure.call c) (funext ih))
    (fun _ _ => rfl)
    (fun p f g => by
      induction p with
      | done a => rfl
      | call c next ih => exact congrArg (Procedure.call c) (funext ih))

@[simp] theorem Procedure.run_map (respond : Responder Acl Descriptor σ)
    (p : Procedure Acl Descriptor α) (f : α → β) (s : σ) :
    (f <$> p).run respond s = (f (p.run respond s).1, (p.run respond s).2) := by
  rw [← bind_pure_comp, Procedure.run_bind, Procedure.run_pure]

namespace Operation

variable {b : Backend Acl Descriptor σ} {w w' : World σ}

/-! ## One after the other -/

theorem run_pure (a : α) : (pure a : Operation Acl Descriptor α).run b w = (.ok a, w) := rfl

theorem run_ofProcedure (p : Procedure Acl Descriptor (Except Error α)) :
    (ofProcedure p).run b w = p.run b.respond w := rfl

theorem result_run (op : Operation Acl Descriptor α) :
    op.result.run b.respond w = op.run b w := rfl

theorem run_bind (op : Operation Acl Descriptor α) (f : α → Operation Acl Descriptor β) :
    (op >>= f).run b w =
      match op.run b w with
      | (.ok a, w') => (f a).run b w'
      | (.error e, w') => (.error e, w') := by
  have parts : (op >>= f).result = op.result >>= ExceptT.bindCont f := rfl
  rw [Operation.run, parts, Procedure.run_bind, Operation.run]
  rcases op.result.run b.respond w with ⟨result, w'⟩
  cases result <;> rfl

theorem exchangesIn_bind (op : Operation Acl Descriptor α) (f : α → Operation Acl Descriptor β) :
    (op >>= f).exchangesIn b w =
      op.exchangesIn b w ++
        match op.run b w with
        | (.ok a, w') => (f a).exchangesIn b w'
        | (.error _, _) => [] := by
  have parts : (op >>= f).result = op.result >>= ExceptT.bindCont f := rfl
  rw [Operation.exchangesIn, parts, Procedure.exchanges_bind, Operation.exchangesIn,
    Operation.run]
  rcases op.result.run b.respond w with ⟨result, w'⟩
  cases result <;> rfl

theorem run_bind_of_ok {op : Operation Acl Descriptor α} {f : α → Operation Acl Descriptor β}
    {a : α} (ran : op.run b w = (.ok a, w')) : (op >>= f).run b w = (f a).run b w' := by
  rw [run_bind, ran]

/-- What follows an operation that succeeded makes its calls behind those of the operation. -/
theorem exchangesIn_bind_of_ok {op : Operation Acl Descriptor α}
    {f : α → Operation Acl Descriptor β} {a : α} (ran : op.run b w = (.ok a, w')) :
    (op >>= f).exchangesIn b w = op.exchangesIn b w ++ (f a).exchangesIn b w' := by
  rw [exchangesIn_bind, ran]

/-- A bind succeeds only if both parts do. -/
theorem ok_of_run_bind {op : Operation Acl Descriptor α} {f : α → Operation Acl Descriptor β}
    {c : β} (ran : (op >>= f).run b w = (.ok c, w')) :
    ∃ a mid, op.run b w = (.ok a, mid) ∧ (f a).run b mid = (.ok c, w') := by
  rw [run_bind] at ran
  rcases first : op.run b w with ⟨result, mid⟩
  rw [first] at ran
  cases result with
  | ok a => exact ⟨a, mid, rfl, ran⟩
  | error e => cases ran

/-- A bind fails where its first part does, or behind it. -/
theorem error_of_run_bind {op : Operation Acl Descriptor α}
    {f : α → Operation Acl Descriptor β} {e : Error}
    (ran : (op >>= f).run b w = (.error e, w')) :
    op.run b w = (.error e, w') ∨
      ∃ a mid, op.run b w = (.ok a, mid) ∧ (f a).run b mid = (.error e, w') := by
  rw [run_bind] at ran
  rcases first : op.run b w with ⟨result, mid⟩
  rw [first] at ran
  cases result with
  | ok a => exact Or.inr ⟨a, mid, rfl, ran⟩
  | error e' => cases ran; exact Or.inl rfl

/-! ## Single calls -/

theorem run_askAt (stage : String) (c : SecurityCall Acl Descriptor) :
    (askAt stage c).run b w =
      (atStage stage (b.respond (.security c) w).1, (b.respond (.security c) w).2) := rfl

theorem exchangesIn_askAt (stage : String) (c : SecurityCall Acl Descriptor) :
    (askAt stage c).exchangesIn b w = [⟨.security c, (b.respond (.security c) w).1⟩] := rfl

theorem run_askAt_of_ok {stage : String} {c : SecurityCall Acl Descriptor} {a : c.Answer}
    (answered : (b.respond (.security c) w).1 = .ok a) :
    (askAt stage c).run b w = (.ok a, (b.respond (.security c) w).2) := by
  rw [run_askAt, answered]
  rfl

/-- A call to the backend succeeds only if the backend answers it. -/
theorem ok_of_run_askAt {stage : String} {c : SecurityCall Acl Descriptor} {a : c.Answer}
    (ran : (askAt stage c).run b w = (.ok a, w')) : b.respond (.security c) w = (.ok a, w') := by
  rw [run_askAt] at ran
  rcases answer : b.respond (.security c) w with ⟨reply, after⟩
  rw [answer] at ran
  cases reply with
  | ok a' => cases ran; rfl
  | error e => cases ran

theorem error_of_run_askAt {stage : String} {c : SecurityCall Acl Descriptor} {e : Error}
    (ran : (askAt stage c).run b w = (.error e, w')) :
    ∃ e', e = .security stage e' ∧ b.respond (.security c) w = (.error e', w') := by
  rw [run_askAt] at ran
  rcases answer : b.respond (.security c) w with ⟨reply, after⟩
  rw [answer] at ran
  cases reply with
  | ok a => cases ran
  | error e' => cases ran; exact ⟨e', rfl, rfl⟩

theorem run_files (c : FileCall) :
    (files c : Operation Acl Descriptor c.Answer).run b w =
      match w.files.answer c with
      | .ok (a, fs) => (.ok a, { w with files := fs })
      | .error e => (.error (.io e), w) := by
  show (unlabelled (b.respond (.file c) w).1, (b.respond (.file c) w).2) = _
  rw [Backend.respond]
  rcases w.files.answer c with e | ⟨a, fs⟩ <;> rfl

/-- An operation that begins by looking at an object makes its other calls only if that is
there. -/
theorem exchangesIn_metadata_bind (path : Path)
    (f : (FileCall.metadata path).Answer → Operation Acl Descriptor α) :
    (files (.metadata path) >>= f).exchangesIn b w =
      match w.files.metadata path with
      | .error e => [⟨.file (.metadata path), .error e⟩]
      | .ok m => ⟨.file (.metadata path), .ok m⟩ :: (f m).exchangesIn b w := by
  have asked : (files (.metadata path) : Operation Acl Descriptor Metadata).exchangesIn b w =
      [⟨.file (.metadata path), (b.respond (.file (.metadata path)) w).1⟩] := rfl
  rw [exchangesIn_bind, asked, run_files, Backend.respond]
  simp only [FileSystem.answer]
  rcases w.files.metadata path with e | m <;> rfl

theorem run_note (level : LogLevel) (text : String) :
    (note level text : Operation Acl Descriptor Unit).run b w = (.ok (), w) := rfl

end Operation

/-- A call to the file system, made by a procedure. -/
theorem run_onFiles {b : Backend Acl Descriptor σ} {w : World σ} (c : FileCall) :
    (onFiles c : Procedure Acl Descriptor (Except CallError c.Answer)).run b.respond w =
      match w.files.answer c with
      | .ok (a, fs) => (.ok a, { w with files := fs })
      | .error e => (.error e, w) := by
  show b.respond (.file c) w = _
  rw [Backend.respond]
  rcases w.files.answer c with e | ⟨a, fs⟩ <;> rfl

end ModeAcl
