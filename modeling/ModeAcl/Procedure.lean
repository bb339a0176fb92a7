import ModeAcl.Call

/-!
# Procedures

A procedure is a tree of calls: it is done, or it makes a call and goes on with
whatever the call is answered with. Who answers is left open. `run` follows a
procedure against a responder that keeps a state, `exchanges` tells which calls it
makes there and what they are answered with, and since a procedure is data,
several of them can also be advanced one call at a time against the same state.

An `Operation` is a procedure that may end in an `Error`.
-/

namespace ModeAcl

inductive Procedure (Acl Descriptor : Type) (α : Type)
  | done (a : α)
  | call (c : Call Acl Descriptor) (next : c.Reply → Procedure Acl Descriptor α)

/-- Answers calls from a state. -/
abbrev Responder (Acl Descriptor σ : Type) : Type :=
  (c : Call Acl Descriptor) → σ → c.Reply × σ

/-- A call with its answer. -/
structure Exchange (Acl Descriptor : Type) where
  call : Call Acl Descriptor
  reply : call.Reply

variable {Acl Descriptor σ α β : Type}

namespace Procedure

def bind : Procedure Acl Descriptor α → (α → Procedure Acl Descriptor β) →
    Procedure Acl Descriptor β
  | done a, f => f a
  | call c next, f => call c fun reply => (next reply).bind f

instance : Monad (Procedure Acl Descriptor) where
  pure := done
  bind := bind

/-- The result of a procedure and the state after it. -/
def run (respond : Responder Acl Descriptor σ) : Procedure Acl Descriptor α → σ → α × σ
  | done a, s => (a, s)
  | call c next, s => (next (respond c s).1).run respond (respond c s).2

/-- The calls that a procedure makes and their answers, in order. -/
def exchanges (respond : Responder Acl Descriptor σ) :
    Procedure Acl Descriptor α → σ → List (Exchange Acl Descriptor)
  | done _, _ => []
  | call c next, s =>
    ⟨c, (respond c s).1⟩ :: (next (respond c s).1).exchanges respond (respond c s).2

/-! ## One after the other -/

@[simp] theorem run_pure (respond : Responder Acl Descriptor σ) (a : α) (s : σ) :
    (pure a : Procedure Acl Descriptor α).run respond s = (a, s) := rfl

@[simp] theorem exchanges_pure (respond : Responder Acl Descriptor σ) (a : α) (s : σ) :
    (pure a : Procedure Acl Descriptor α).exchanges respond s = [] := rfl

@[simp] theorem run_bind (respond : Responder Acl Descriptor σ) (p : Procedure Acl Descriptor α)
    (f : α → Procedure Acl Descriptor β) (s : σ) :
    (p >>= f).run respond s = (f (p.run respond s).1).run respond (p.run respond s).2 := by
  induction p generalizing s with
  | done a => rfl
  | call c next ih => exact ih _ _

@[simp] theorem exchanges_bind (respond : Responder Acl Descriptor σ)
    (p : Procedure Acl Descriptor α) (f : α → Procedure Acl Descriptor β) (s : σ) :
    (p >>= f).exchanges respond s =
      p.exchanges respond s ++
        (f (p.run respond s).1).exchanges respond (p.run respond s).2 := by
  induction p generalizing s with
  | done a => rfl
  | call c next ih => exact congrArg (_ :: ·) (ih _ _)

end Procedure

/-! ## Single calls -/

/-- A call to the security backend. -/
def ask (c : SecurityCall Acl Descriptor) :
    Procedure Acl Descriptor (Except CallError c.Answer) :=
  .call (.security c) .done

/-- A call to the file system. -/
def onFiles (c : FileCall) : Procedure Acl Descriptor (Except CallError c.Answer) :=
  .call (.file c) .done

def log (level : LogLevel) (text : String) : Procedure Acl Descriptor Unit :=
  .call (.log ⟨level, text⟩) .done

/-! ## Operations -/

abbrev Operation (Acl Descriptor : Type) (α : Type) : Type :=
  ExceptT Error (Procedure Acl Descriptor) α

namespace Operation

/-- A procedure whose result may be an error, as an operation. -/
def ofProcedure (p : Procedure Acl Descriptor (Except Error α)) : Operation Acl Descriptor α := p

/-- The operation as a procedure that always has a result. -/
def result (op : Operation Acl Descriptor α) : Procedure Acl Descriptor (Except Error α) := op

/-- A call to the security backend whose failure is labelled with its stage. -/
def askAt (stage : String) (c : SecurityCall Acl Descriptor) :
    Operation Acl Descriptor c.Answer :=
  ofProcedure (atStage stage <$> ask c)

/-- A call to the file system whose failure is passed on as it is. -/
def files (c : FileCall) : Operation Acl Descriptor c.Answer :=
  ofProcedure (unlabelled <$> onFiles c)

def note (level : LogLevel) (text : String) : Operation Acl Descriptor Unit :=
  ofProcedure (.ok <$> log level text)

end Operation

end ModeAcl
