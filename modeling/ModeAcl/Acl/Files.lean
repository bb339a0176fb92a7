import ModeAcl.Acl.Apply
import ModeAcl.Acl.Read

/-!
# Files whose permissions are access control lists

An object is created by the file system and then has its list set. If the list
cannot be set, what was created is removed again; if that fails too, the error
says so.
-/

namespace ModeAcl.AclFiles

open Operation

variable {Acl Descriptor : Type}

/-! ## Undoing -/

/-- The error of an operation whose creation at `path` has been undone, or not. -/
def withCleanup (error : Error) (path : Path) :
    Except CallError Unit → Procedure Acl Descriptor Error
  | .ok () => return error
  | .error e => do
    log .warn ("removing " ++ path.text ++ " after failure: " ++ e.text)
    return .cleanup error path.text e

/-- Set the list of an object that was just created, or undo its creation by `removal`. -/
def applyOrRemove (path : Path) (mode : Mode) (isDirectory : Bool) (trustees : Trustees)
    (removal : Procedure Acl Descriptor (Except CallError Unit)) :
    Operation Acl Descriptor Unit :=
  ofProcedure do
    match ← (applyMode path mode isDirectory trustees).result with
    | .ok () => return .ok ()
    | .error e => return .error (← withCleanup e path (← removal))

/-! ## Directories -/

/-- Whether a path leads to a directory, as far as can be told. -/
def probeDirectory (path : Path) : Procedure Acl Descriptor Bool := do
  match ← onFiles (.metadata path) with
  | .ok m => return Metadata.isDirectory m
  | .error _ => return false

/-- Create a directory for the current user. -/
def mkdir (path : Path) (mode : Mode) : Operation Acl Descriptor Unit := do
  let path ← ofProcedure (atStage "computing absolute path" <$> onFiles (.absolute path))
  let () ← files (.createDirectory path)
  applyOrRemove path mode true .currentUser (onFiles (.removeDirectory path))

/-- Create the first of several directories, after those behind it in the list; where a
directory is found, none behind it is looked at. -/
def mkdirEach (mode : Mode) : List Path → Operation Acl Descriptor Unit
  | [] => return ()
  | path :: above =>
    ofProcedure do
      if ← probeDirectory path then return .ok ()
      else
        match ← (mkdirEach mode above).result with
        | .error e => return .error e
        | .ok () =>
          match ← (mkdir path mode).result with
          | .ok () => return .ok ()
          | .error e =>
            -- someone else may have been faster
            if e.kind = .alreadyExists then
              if ← probeDirectory path then return .ok () else return .error e
            else return .error e

/-- Create a directory and those missing above it. -/
def mkdirAll (path : Path) (mode : Mode) : Operation Acl Descriptor Unit :=
  mkdirEach mode path.ancestors

/-! ## Files -/

/-- Set the list of an object. -/
def chmod (path : Path) (mode : Mode) : Operation Acl Descriptor Unit := do
  let m ← files (.metadata path)
  applyMode path mode (Metadata.isDirectory m) .creator

/-- Whether a path leads to an object; a failure other than to find one is passed on. -/
def probeObject (path : Path) : Operation Acl Descriptor Bool :=
  ofProcedure do
    match ← onFiles (.metadata path) with
    | .ok _ => return .ok true
    | .error e => return if e.kind = .notFound then .ok false else .error (.io e)

/-- Open a file. One that was not there before has its list set, with what the file system
gave it; one that was there keeps its own. -/
def openFile (path : Path) (flags : OpenFlags) (mode : Mode) :
    Operation Acl Descriptor Handle :=
  if flags.creates then do
    let existed ← probeObject path
    let handle ← files (.openFile path flags)
    if existed then return handle
    else
      applyOrRemove path mode false .creator (onFiles (.removeFile path))
      return handle
  else files (.openFile path flags)

/-- Write a file anew. -/
def writeFile (path : Path) (bytes : List UInt8) (mode : Mode) :
    Operation Acl Descriptor Unit := do
  let handle ← openFile path .createTruncate mode
  let _ ← files (.write handle bytes)

/-- The type of an object from the file system, its triads from its list. -/
def stat (path : Path) : Operation Acl Descriptor FileInfo := do
  let m ← files (.metadata path)
  let perm ← readMode path
  return ⟨path.displayName, m, (Mode.ofType (Metadata.type m)).withPerm perm⟩

end ModeAcl.AclFiles
