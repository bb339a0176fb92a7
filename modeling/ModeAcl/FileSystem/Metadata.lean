import ModeAcl.FileSystem.Walk

/-!
# Metadata

What the system tells about the object that a path leads to. The calls here
change at most the mode of that object.
-/

namespace ModeAcl

structure Metadata where
  type : ObjectType
  /-- The triads and special bits that the system keeps. -/
  mode : Mode
  /-- The length of a file in bytes. -/
  length : Nat
  deriving DecidableEq, Repr

def Metadata.isDirectory (m : Metadata) : Bool := m.type == .directory

def Node.metadata (node : Node) : Metadata where
  type := node.type
  mode := node.mode
  length := match node with
    | .file _ data => data.length
    | .symlink target => target.utf8ByteSize
    | _ => 0

/-- What a file system is asked about a path. -/
structure FileInfo where
  /-- The last name of the path, or the whole path if it does not end in a name. -/
  name : String
  metadata : Metadata
  /-- The type with the permissions. -/
  mode : Mode
  deriving DecidableEq, Repr

namespace FileSystem

/-- The metadata of the object that a path leads to, links followed. -/
def metadata (fs : FileSystem) (path : Path) : Except CallError Metadata :=
  match fs.walk .follow path with
  | .error e => .error e
  | .ok (.vacant _ _) => .error (.os .ENOENT)
  | .ok (.detached depth) => .ok ⟨.directory, fs.workingDirectory.modeAbove depth, 0⟩
  | .ok (.object loc) =>
    match fs.root.get? loc with
    | some node => .ok node.metadata
    | none => .error (.os .ENOENT)

/-- Whether a path leads to an object. -/
def hasObject (fs : FileSystem) (path : Path) : Bool := (fs.metadata path).isOk

/-- Whether a path leads to a directory. -/
def isDirectory (fs : FileSystem) (path : Path) : Bool :=
  match fs.metadata path with
  | .ok m => m.isDirectory
  | .error _ => false

/-- Give the object that a path leads to the triads and special bits of `mode`. -/
def setMode (fs : FileSystem) (path : Path) (mode : Mode) : Except CallError FileSystem :=
  match fs.walk .follow path with
  | .error e => .error e
  | .ok (.vacant _ _) => .error (.os .ENOENT)
  | .ok (.detached depth) =>
    .ok { fs with workingDirectory := fs.workingDirectory.setModeAbove mode.modeBits depth }
  | .ok (.object loc) =>
    match fs.root.get? loc with
    | some _ => .ok { fs with root := fs.root.update loc (Node.withMode mode.modeBits) }
    | none => .error (.os .ENOENT)

/-- The path of the working directory, if it has one. -/
def workingPath (fs : FileSystem) : Except CallError Path :=
  match fs.workingDirectory with
  | .linked loc => .ok ⟨"/" ++ "/".intercalate loc⟩
  | .detached _ _ => .error (.os .ENOENT)

/-- The path that starts at the root; no object is looked up. -/
def absolute (fs : FileSystem) (path : Path) : Except CallError Path :=
  path.absolute fs.workingPath

end FileSystem

end ModeAcl
