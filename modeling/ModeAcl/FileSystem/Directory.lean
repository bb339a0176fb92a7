import ModeAcl.FileSystem.Walk

/-!
# Calls on directories

Creating, removing, entering and renaming. Each call gives the new file system or
the error with which it fails, and a call that fails has changed nothing.
-/

namespace ModeAcl

namespace WorkingDirectory

/-- The chain of removed directories from below `parent` down to `parent ++ names`. -/
def detachDown (root : Node) (parent : Location) (above : WorkingDirectory) :
    List String → WorkingDirectory
  | [] => above
  | name :: names =>
    let loc := parent ++ [name]
    let mode := match root.get? loc with
      | some node => node.mode
      | none => ⟨0⟩
    detachDown root loc (detached mode above) names

/-- The working directory after the removal of an object from `root`. -/
def afterErase (root : Node) (dir : Location) (name : String) :
    WorkingDirectory → WorkingDirectory
  | linked loc =>
    if (dir ++ [name]).isPrefixOf loc then
      detachDown root dir (linked dir) (loc.drop dir.length)
    else linked loc
  | detached mode parent => detached mode (parent.afterErase root dir name)

/-- The working directory after an object has moved. -/
def afterMove (source target : Location) : WorkingDirectory → WorkingDirectory
  | linked loc =>
    if source.isPrefixOf loc then linked (target ++ loc.drop source.length) else linked loc
  | detached mode parent => detached mode (parent.afterMove source target)

end WorkingDirectory

namespace FileSystem

/-- Add an object under a free name. -/
def insert (fs : FileSystem) (dir : Location) (name : String) (new : Node) : FileSystem :=
  { fs with root := fs.root.insert dir name new }

/-- Remove an object with everything below it. -/
def erase (fs : FileSystem) (dir : Location) (name : String) : FileSystem :=
  { fs with
    root := fs.root.erase dir name
    workingDirectory := fs.workingDirectory.afterErase fs.root dir name }

/-- The part of a mode that the mask leaves to a new object. -/
def maskMode (fs : FileSystem) (mode : Mode) : Mode := mode &&& ~~~fs.umask.perm

/-- The mode of a new directory: no bit to set the user, and the bit to set the group
only from the directory that it is in. -/
def newDirectoryMode (fs : FileSystem) (dir : Location) (mode : Mode) : Mode :=
  let inherited := match fs.root.get? dir with
    | some node => node.mode &&& .setGroup
    | none => ⟨0⟩
  fs.maskMode (mode &&& (.permMask ||| .sticky)) ||| inherited

/-- Create an empty directory. -/
def createDirectory (fs : FileSystem) (path : Path) (mode : Mode) :
    Except CallError FileSystem :=
  match fs.slot path with
  | .error e => .error e
  | .ok (.nameless _) => .error (.os .EEXIST)
  | .ok .lost => .error (.os .ENOENT)
  | .ok (.entry dir name _) =>
    match fs.entry? dir name with
    | some _ => .error (.os .EEXIST)
    | none => .ok (fs.insert dir name (.directory (fs.newDirectoryMode dir mode) []))

/-- Remove an empty directory. -/
def removeDirectory (fs : FileSystem) (path : Path) : Except CallError FileSystem :=
  match fs.slot path with
  | .error e => .error e
  | .ok (.nameless piece) =>
    .error (.os (if piece == "." then .EINVAL else if piece == ".." then .ENOTEMPTY else .EBUSY))
  | .ok .lost => .error (.os .ENOENT)
  | .ok (.entry dir name _) =>
    match fs.entry? dir name with
    | none => .error (.os .ENOENT)
    | some (.directory _ []) => .ok (fs.erase dir name)
    | some (.directory _ (_ :: _)) => .error (.os .ENOTEMPTY)
    | some _ => .error (.os .ENOTDIR)

/-- Make the directory that a path leads to the working directory. -/
def enter (fs : FileSystem) (path : Path) : Except CallError FileSystem :=
  match fs.walk .follow path with
  | .error e => .error e
  | .ok (.vacant _ _) => .error (.os .ENOENT)
  | .ok (.detached depth) =>
    .ok { fs with workingDirectory := fs.workingDirectory.above depth }
  | .ok (.object loc) =>
    match fs.root.get? loc with
    | some (.directory _ _) => .ok { fs with workingDirectory := .linked loc }
    | some _ => .error (.os .ENOTDIR)
    | none => .error (.os .ENOENT)

/-- Move the object at `source`, which is `node`, to a name in the directory `dir`. -/
def move (fs : FileSystem) (sourceDir : Location) (sourceName : String) (node : Node)
    (dir : Location) (name : String) : FileSystem :=
  let cleared := (fs.root.erase sourceDir sourceName).erase dir name
  { fs with
    root := cleared.insert dir name node
    workingDirectory :=
      (fs.workingDirectory.afterErase fs.root dir name).afterMove
        (sourceDir ++ [sourceName]) (dir ++ [name]) }

/-- Rename an object. A file gives way to a file, and an empty directory to a directory. -/
def rename (fs : FileSystem) (path newPath : Path) : Except CallError FileSystem :=
  match fs.slot path, fs.slot newPath with
  | .error e, _ => .error e
  | .ok _, .error e => .error e
  | .ok (.nameless _), .ok _ => .error (.os .EBUSY)
  | .ok _, .ok (.nameless _) => .error (.os .EBUSY)
  | .ok .lost, .ok _ => .error (.os .ENOENT)
  | .ok (.entry sourceDir sourceName sourceSlash), .ok target =>
    match fs.entry? sourceDir sourceName, target with
    | some node, .entry dir name slash =>
      let source := sourceDir ++ [sourceName]
      let isDirectory := node.type == .directory
      if !isDirectory && (sourceSlash || slash) then .error (.os .ENOTDIR)
      else if source == dir ++ [name] then .ok fs
      else if source.isPrefixOf dir then .error (.os .EINVAL)
      else if (dir ++ [name]).isPrefixOf sourceDir then .error (.os .ENOTEMPTY)
      else
        match fs.entry? dir name with
        | none => .ok (fs.move sourceDir sourceName node dir name)
        | some (.directory _ entries) =>
          if !isDirectory then .error (.os .EISDIR)
          else if !entries.isEmpty then .error (.os .ENOTEMPTY)
          else .ok (fs.move sourceDir sourceName node dir name)
        | some _ =>
          if isDirectory then .error (.os .ENOTDIR)
          else .ok (fs.move sourceDir sourceName node dir name)
    | _, _ => .error (.os .ENOENT)

end FileSystem

end ModeAcl
