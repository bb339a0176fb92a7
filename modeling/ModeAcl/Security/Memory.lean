import ModeAcl.Call
import ModeAcl.Security.Faults
import ModeAcl.Security.Store

/-!
# A backend in memory

A security backend that keeps the lists of objects in a `ListStore` and reports
one owner and one group for all of them. It fails as its `Faults` say. It counts
the entries of any list, also of one with more than a word of 32 bits can count.
-/

namespace ModeAcl

/-- What a backend reports of an object: whom it belongs to, and the list that it had when
it was asked for. -/
structure MemoryDescriptor where
  owner : Sid
  group : Sid
  aces? : Option (List Ace)
  deriving DecidableEq, Repr

structure MemoryBackend where
  store : ListStore
  /-- The owner and the group that descriptors report. -/
  owner : Sid
  group : Sid
  faults : Faults

/-- A call to this backend. Its lists are the entries themselves. -/
abbrev MemoryCall : Type := SecurityCall (List Ace) MemoryDescriptor

namespace MemoryBackend

def userSid : Sid := .ofNat 5 [21, 1111, 2222, 3333, 1001]

def groupSid : Sid := .ofNat 5 [21, 1111, 2222, 3333, 513]

/-- No lists and no faults; every object belongs to the user. -/
def initial : MemoryBackend := ⟨.empty, userSid, groupSid, .none⟩

/-- Where the faults of a call are met. -/
def point : MemoryCall → FaultPoint
  | .wellKnownSid kind => .wellKnown kind
  | .currentUser => .currentUser
  | .primaryGroup => .primaryGroup
  | .buildAcl _ => .buildAcl
  | .setAcl _ _ => .setAcl
  | .descriptor _ => .descriptor
  | .owner _ => .owner
  | .group _ => .group
  | .aceCount _ => .aceCount
  | .ace _ index => .ace index

/-- The failure of a broken part of the backend. -/
def broken (what : String) : CallError := .message .permissionDenied (what ++ " failed")

/-- Write an empty file into a directory. -/
def litter (fs : FileSystem) (path : Path) : Except CallError FileSystem :=
  (fs.openFile (path.join "litter") .createTruncate FileSystem.defaultFileMode).map (·.2)

/-- Set the list of an object that exists. -/
def setAcl (b : MemoryBackend) (fs : FileSystem) (path : Path) (aces : List Ace) :
    Except CallError Unit × FileSystem × MemoryBackend :=
  if b.faults.brokenSet then
    let failure := broken "SetNamedSecurityInfo"
    if b.faults.litters then
      match litter fs path with
      | .ok littered => (.error failure, littered, b)
      | .error e => (.error e, fs, b)
    else (.error failure, fs, b)
  else if fs.hasObject path then
    (.ok (), fs, { b with store := b.store.put path.key aces })
  else (.error (.plain .notFound), fs, b)

/-- Answer a call that meets no fault of its point. -/
def serve (b : MemoryBackend) (fs : FileSystem) :
    (c : MemoryCall) → Except CallError c.Answer × FileSystem × MemoryBackend
  | .wellKnownSid kind =>
    (if kind ∈ b.faults.brokenSids then .error (broken "CreateWellKnownSid") else .ok kind.sid,
      fs, b)
  | .currentUser =>
    (if b.faults.brokenUser then .error (broken "GetTokenInformation") else .ok userSid, fs, b)
  | .primaryGroup =>
    (if b.faults.brokenUser then .error (broken "GetTokenInformation") else .ok groupSid, fs, b)
  | .buildAcl grants =>
    (if b.faults.brokenAcl then .error (broken "SetEntriesInAcl")
      else .ok (grants.map Grant.toAce), fs, b)
  | .setAcl path aces => b.setAcl fs path aces
  | .descriptor path =>
    (if b.faults.brokenDescriptor then .error (broken "GetNamedSecurityInfo")
      else .ok ⟨b.owner, b.group, b.store.get? path.key⟩, fs, b)
  | .owner d => (.ok d.owner, fs, b)
  | .group d => (.ok d.group, fs, b)
  | .aceCount d =>
    (match d.aces? with
      | some aces => .ok aces.length
      | none => .error (.message .notFound "no dacl present"), fs, b)
  | .ace d index =>
    (match d.aces?.bind (·[index]?) with
      | some ace => .ok ace
      | none => .error (.message .invalidInput "ace index out of range"), fs, b)

/-- What a fault does to the file system besides failing the call. -/
def ravage (fault : Fault) (fs : FileSystem) : MemoryCall → FileSystem
  | .setAcl path _ => if fault.removes then fs.discard path else fs
  | _ => fs

/-- Answer a call. -/
def answer (b : MemoryBackend) (fs : FileSystem) (c : MemoryCall) :
    Except CallError c.Answer × FileSystem × MemoryBackend :=
  match b.faults.strike (point c) with
  | (some fault, faults) => (.error fault.error, ravage fault fs c, { b with faults := faults })
  | (none, faults) => serve { b with faults := faults } fs c

end MemoryBackend

end ModeAcl
