import ModeAcl.FileSystem.Directory
import ModeAcl.FileSystem.Metadata
import ModeAcl.OpenFlags

/-!
# Calls on files

Opening, reading and writing files, creating links and sockets, and removing what
is no directory. As for directories, a call that fails has changed nothing.
-/

namespace ModeAcl

/-- An open file or directory. -/
structure Handle where
  /-- Where the file is, which is all that tells it from others; a directory has no contents to be
  found there. -/
  file? : Option Location
  readable : Bool
  writable : Bool
  append : Bool
  position : Nat
  deriving DecidableEq, Repr

namespace FileSystem

/-! ## Opening -/

/-- The handle that the flags ask for. -/
def handleFor (flags : OpenFlags) (file? : Option Location) : Handle where
  file? := file?
  readable := flags.read
  writable := flags.writes
  append := flags.append
  position := 0

/-- How opening takes the last name of a path. -/
def lastFor (flags : OpenFlags) : Last :=
  if flags.createNew then .createNew else if flags.create then .create else .follow

/-- Empty a file. -/
def truncate (fs : FileSystem) (loc : Location) : FileSystem :=
  { fs with
    root := fs.root.update loc fun
      | .file mode _ => .file mode []
      | node => node }

/-- Open a directory, which can only be read. -/
def openDirectory (fs : FileSystem) (flags : OpenFlags) : Except CallError (Handle × FileSystem) :=
  if flags.createNew then .error (.os .EEXIST)
  else if flags.writes || flags.creates then .error (.os .EISDIR)
  else .ok (handleFor flags none, fs)

/-- Open the object that a path leads to, or create a file there if the flags ask for it. -/
def openFile (fs : FileSystem) (path : Path) (flags : OpenFlags) (mode : Mode) :
    Except CallError (Handle × FileSystem) :=
  -- a text that is no path is refused before the flags are, and the flags before the path
  if path.text.toList.contains '\x00' then
    .error (.message .invalidInput "file name contained an unexpected NUL byte")
  else
    match flags.contradiction? with
    | some text => .error (.message .invalidInput text)
    | none =>
      match fs.walk (lastFor flags) path with
      | .error e => .error e
      | .ok (.detached _) => fs.openDirectory flags
      | .ok (.vacant dir name) =>
        if flags.creates then
          .ok (handleFor flags (some (dir ++ [name])),
            fs.insert dir name (.file (fs.maskMode mode.modeBits) []))
        else .error (.os .ENOENT)
      | .ok (.object loc) =>
        match fs.root.get? loc with
        | none => .error (.os .ENOENT)
        | some (.directory _ _) => fs.openDirectory flags
        | some node =>
          if flags.createNew then .error (.os .EEXIST)
          else
            match node with
            | .file _ _ =>
              .ok (handleFor flags (some loc), if flags.truncate then fs.truncate loc else fs)
            | _ => .error (.os .ENXIO)

/-! ## Reading and writing -/

/-- Write bytes over those from a position on. -/
def overwrite (data : List UInt8) (position : Nat) (bytes : List UInt8) : List UInt8 :=
  data.take position ++ bytes ++ data.drop (position + bytes.length)

/-- The position at which a handle writes next. -/
def writePosition (fs : FileSystem) (h : Handle) (loc : Location) : Nat :=
  match h.append, fs.root.get? loc with
  | true, some (.file _ data) => data.length
  | _, _ => h.position

/-- Write all bytes at the position of a handle, or at the end if it appends. Writing nothing
always succeeds. -/
def write (fs : FileSystem) (h : Handle) (bytes : List UInt8) :
    Except CallError (Handle × FileSystem) :=
  if bytes.isEmpty then .ok (h, fs)
  else
    match h.writable, h.file? with
    | true, some loc =>
      let position := fs.writePosition h loc
      .ok ({ h with position := position + bytes.length },
        { fs with
          root := fs.root.update loc fun
            | .file mode data => .file mode (overwrite data position bytes)
            | node => node })
    | _, _ => .error (.os .EBADF)

/-- The bytes from the position of a handle to the end. -/
def read (fs : FileSystem) (h : Handle) : Except CallError (List UInt8) :=
  if !h.readable then .error (.os .EBADF)
  else
    match h.file? with
    | none => .error (.os .EISDIR)
    | some loc =>
      match fs.root.get? loc with
      | some (.file _ data) => .ok (data.drop h.position)
      | _ => .ok []

/-! ## Links and sockets -/

/-- Create a symbolic link. -/
def createLink (fs : FileSystem) (path : Path) (target : String) : Except CallError FileSystem :=
  match (Path.mk target).check with
  | .error e => .error e
  | .ok () =>
    match fs.slot path with
    | .error e => .error e
    | .ok (.nameless _) => .error (.os .EEXIST)
    | .ok .lost => .error (.os .ENOENT)
    | .ok (.entry dir name slash) =>
      match fs.entry? dir name with
      | some _ => .error (.os .EEXIST)
      | none => if slash then .error (.os .ENOENT) else .ok (fs.insert dir name (.symlink target))

/-- Create a socket. -/
def createSocket (fs : FileSystem) (path : Path) : Except CallError FileSystem :=
  match fs.slot path with
  | .error e => .error e
  | .ok (.nameless _) => .error (.os .EADDRINUSE)
  | .ok .lost => .error (.os .ENOENT)
  | .ok (.entry dir name slash) =>
    match fs.entry? dir name with
    | some _ => .error (.os .EADDRINUSE)
    | none =>
      if slash then .error (.os .ENOENT)
      else .ok (fs.insert dir name (.socket (fs.maskMode .permMask)))

/-! ## Removing -/

/-- Remove a file, a link or a socket; a link is not followed. -/
def removeFile (fs : FileSystem) (path : Path) : Except CallError FileSystem :=
  match fs.slot path with
  | .error e => .error e
  | .ok (.nameless _) => .error (.os .EISDIR)
  | .ok .lost => .error (.os .ENOENT)
  | .ok (.entry dir name slash) =>
    match fs.entry? dir name with
    | none => .error (.os .ENOENT)
    | some (.directory _ _) => .error (.os .EISDIR)
    | some _ => if slash then .error (.os .ENOTDIR) else .ok (fs.erase dir name)

/-- Remove everything in the directory at a location. -/
def clear (fs : FileSystem) (dir : Location) : FileSystem :=
  match fs.root.get? dir with
  | some (.directory _ entries) => entries.foldl (fun fs (name, _) => fs.erase dir name) fs
  | _ => fs

/-- Remove the object that a path names, a directory with everything below it; a link is not
followed. What is below the directory is gone even if the directory itself cannot be removed, and
one that has gone with it counts as removed. -/
def removeAll (fs : FileSystem) (path : Path) : Except CallError Unit × FileSystem :=
  let settle (fs : FileSystem) : Except CallError FileSystem → Except CallError Unit × FileSystem
    | .ok fs => (.ok (), fs)
    | .error e => (.error e, fs)
  match fs.walk .keep path with
  | .error e => (.error e, fs)
  | .ok (.vacant _ _) => (.error (.os .ENOENT), fs)
  | .ok (.detached _) => settle fs (fs.removeDirectory path)
  | .ok (.object loc) =>
    match fs.root.get? loc with
    | some (.directory _ _) =>
      let cleared := fs.clear loc
      match cleared.removeDirectory path with
      | .error (.os .ENOENT) => (.ok (), cleared)
      | result => settle cleared result
    | _ => settle fs (fs.removeFile path)

/-- Remove what a path leads to, a directory also through a link; nothing happens if that is
not possible. -/
def discard (fs : FileSystem) (path : Path) : FileSystem :=
  match fs.walk .follow path with
  | .ok (.object loc) =>
    match fs.root.get? loc with
    | some (.directory _ _) =>
      let cleared := fs.clear loc
      match cleared.slot path, loc.getLast? with
      | .ok (.entry _ _ _), some name => cleared.erase loc.dropLast name
      | _, _ => cleared
    | _ => (fs.removeFile path).toOption.getD fs
  | _ => (fs.removeFile path).toOption.getD fs

end FileSystem

end ModeAcl
