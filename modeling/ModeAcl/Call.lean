import ModeAcl.Error
import ModeAcl.FileSystem.Metadata
import ModeAcl.OpenFlags
import ModeAcl.FileSystem.File
import ModeAcl.Security

/-!
# Calls

The atomic steps that operations are made of: calls to the security backend,
calls to the file system, and lines for the log. Every call of the first two
kinds is answered with what it is for or with an error.

What a backend builds as a list and what it hands out as a descriptor is up to
the backend, so calls have the types of both as parameters.
-/

namespace ModeAcl

/-! ## Calls to the security backend -/

inductive SecurityCall (Acl Descriptor : Type)
  | wellKnownSid (kind : WellKnownSid)
  | currentUser
  | primaryGroup
  | buildAcl (grants : List Grant)
  /-- Replace the list of an object by one that inherits nothing. -/
  | setAcl (path : Path) (acl : Acl)
  | descriptor (path : Path)
  | owner (d : Descriptor)
  | group (d : Descriptor)
  | aceCount (d : Descriptor)
  | ace (d : Descriptor) (index : Nat)

/-- What a call is for. The count of the entries and the index of an entry are numbers of any size
here, where a backend has words of 32 bits: lists are taken to be shorter than that. -/
def SecurityCall.Answer {Acl Descriptor : Type} : SecurityCall Acl Descriptor → Type
  | wellKnownSid _ => Sid
  | currentUser => Sid
  | primaryGroup => Sid
  | buildAcl _ => Acl
  | setAcl _ _ => Unit
  | descriptor _ => Descriptor
  | owner _ => Sid
  | group _ => Sid
  | aceCount _ => Nat
  | ace _ _ => Ace

/-! ## Calls to the file system -/

inductive FileCall
  | metadata (path : Path)
  | absolute (path : Path)
  | createDirectory (path : Path)
  | removeDirectory (path : Path)
  | removeFile (path : Path)
  | openFile (path : Path) (flags : OpenFlags)
  | write (handle : Handle) (bytes : List UInt8)

def FileCall.Answer : FileCall → Type
  | metadata _ => Metadata
  | absolute _ => Path
  | createDirectory _ => Unit
  | removeDirectory _ => Unit
  | removeFile _ => Unit
  | openFile _ _ => Handle
  | write _ _ => Handle

namespace FileSystem

/-- The mode of a new directory before the mask is applied, unless one is asked for. -/
def defaultDirectoryMode : Mode := ⟨0o777#32⟩

/-- The mode of a new file before the mask is applied, unless one is asked for. -/
def defaultFileMode : Mode := ⟨0o666#32⟩

/-- Answer a call. One that fails leaves the file system as it is. -/
def answer (fs : FileSystem) : (c : FileCall) → Except CallError (c.Answer × FileSystem)
  | .metadata path => (fs.metadata path).map fun m => (m, fs)
  | .absolute path => (fs.absolute path).map fun p => (p, fs)
  | .createDirectory path => (fs.createDirectory path defaultDirectoryMode).map fun fs => ((), fs)
  | .removeDirectory path => (fs.removeDirectory path).map fun fs => ((), fs)
  | .removeFile path => (fs.removeFile path).map fun fs => ((), fs)
  | .openFile path flags => fs.openFile path flags defaultFileMode
  | .write handle bytes => fs.write handle bytes

end FileSystem

/-! ## The log -/

inductive LogLevel
  | trace
  | debug
  | warn
  deriving DecidableEq, Repr

def LogLevel.name : LogLevel → String
  | trace => "trace"
  | debug => "debug"
  | warn => "warn"

structure LogLine where
  level : LogLevel
  text : String
  deriving DecidableEq, Repr

/-! ## Any call -/

inductive Call (Acl Descriptor : Type)
  | security (c : SecurityCall Acl Descriptor)
  | file (c : FileCall)
  | log (line : LogLine)

/-- What a call is answered with. -/
def Call.Reply {Acl Descriptor : Type} : Call Acl Descriptor → Type
  | security c => Except CallError c.Answer
  | file c => Except CallError c.Answer
  | log _ => Unit

end ModeAcl
