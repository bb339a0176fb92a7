import ModeAcl.Procedure
import ModeAcl.Security.Memory

/-!
# Worlds

A world is what all calls of a procedure are answered from: a file system, and
the state of a security backend. A backend sees the file system and may change it.

What is proved about worlds is about file systems as they are modelled: with files,
directories, symbolic links and sockets, each under one name, and with modes that
keep nobody out (`Node`).
-/

namespace ModeAcl

/-- A security backend with states of type `σ`. -/
structure Backend (Acl Descriptor σ : Type) where
  answer : σ → FileSystem → (c : SecurityCall Acl Descriptor) →
    Except CallError c.Answer × FileSystem × σ

/-- The backend that keeps its lists in memory. -/
def memoryBackend : Backend (List Ace) MemoryDescriptor MemoryBackend where
  answer b fs c := b.answer fs c

structure World (σ : Type) where
  files : FileSystem
  backend : σ

variable {Acl Descriptor σ α : Type}

/-- Answer a call to the file system, to the backend or to the log, which keeps no state. -/
def Backend.respond (b : Backend Acl Descriptor σ) : Responder Acl Descriptor (World σ)
  | .security c, w =>
    let (reply, files, backend) := b.answer w.backend w.files c
    (reply, ⟨files, backend⟩)
  | .file c, w =>
    match w.files.answer c with
    | .ok (a, files) => (.ok a, { w with files := files })
    | .error e => (.error e, w)
  | .log _, w => ((), w)

/-- Run an operation in a world. -/
def Operation.run (op : Operation Acl Descriptor α) (b : Backend Acl Descriptor σ)
    (w : World σ) : Except Error α × World σ :=
  op.result.run b.respond w

/-- The calls that an operation makes in a world, with their answers. -/
def Operation.exchangesIn (op : Operation Acl Descriptor α) (b : Backend Acl Descriptor σ)
    (w : World σ) : List (Exchange Acl Descriptor) :=
  op.result.exchanges b.respond w

/-- The calls among others that went to the security backend. -/
def securityCalls (exchanges : List (Exchange Acl Descriptor)) :
    List (SecurityCall Acl Descriptor) :=
  exchanges.filterMap fun
    | ⟨.security c, _⟩ => some c
    | _ => none

/-- The lines that were put into the log. -/
def logLines (exchanges : List (Exchange Acl Descriptor)) : List LogLine :=
  exchanges.filterMap fun
    | ⟨.log line, _⟩ => some line
    | _ => none

theorem securityCalls_append (xs ys : List (Exchange Acl Descriptor)) :
    securityCalls (xs ++ ys) = securityCalls xs ++ securityCalls ys := List.filterMap_append

theorem logLines_append (xs ys : List (Exchange Acl Descriptor)) :
    logLines (xs ++ ys) = logLines xs ++ logLines ys := List.filterMap_append

end ModeAcl
