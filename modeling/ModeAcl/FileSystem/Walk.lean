import ModeAcl.FileSystem.Node
import ModeAcl.Path

/-!
# Walking a path

A file system is a tree with a working directory and a mask for the modes of new
objects. `walk` takes a path to the spot that it leads to, through symbolic links
and dots, or to the code with which the system refuses it; `slot` takes it only
to the directory that its last name is in. At most `maxLinks` links are followed.
-/

namespace ModeAcl

/-- The directory that relative paths start from. -/
inductive WorkingDirectory
  | linked (loc : Location)
  /-- A directory that has been removed from `parent`. Nothing can be created in it. -/
  | detached (mode : Mode) (parent : WorkingDirectory)
  deriving DecidableEq

structure FileSystem where
  root : Node
  workingDirectory : WorkingDirectory
  /-- The permission bits that new objects do not get. -/
  umask : Mode

/-- Where a path leads to. -/
inductive Spot
  | object (loc : Location)
  /-- A name in a directory that has no entry of this name. -/
  | vacant (dir : Location) (name : String)
  /-- A removed directory, so many levels above the working directory. -/
  | detached (depth : Nat)
  deriving DecidableEq, Repr

/-- How the last name of a path is taken. -/
inductive Last
  /-- A link is followed. -/
  | follow
  /-- A link is the object itself. -/
  | keep
  /-- To create a file or find one: a link is followed, no slash may come behind. -/
  | create
  /-- To create a file: a link is the object itself, no slash may come behind. -/
  | createNew
  deriving DecidableEq, Repr

def Last.follows : Last → Bool
  | follow | create => true
  | keep | createNew => false

def Last.refusesSlash : Last → Bool
  | create | createNew => true
  | follow | keep => false

/-! ## Limits -/

/-- The longest name, in bytes. -/
def maxNameLength : Nat := 255

/-- A path has fewer bytes than this. -/
def maxPathLength : Nat := 4096

def maxLinks : Nat := 40

/-- A text that can be handed to the system at all. -/
def Path.check (p : Path) : Except CallError Unit :=
  if p.text.toList.contains '\x00' then
    .error (.message .invalidInput "file name contained an unexpected NUL byte")
  else if p.text == "" then .error (.os .ENOENT)
  else if maxPathLength ≤ p.text.utf8ByteSize then .error (.os .ENAMETOOLONG)
  else .ok ()

namespace FileSystem

/-! ## From directory to directory -/

/-- Walk on from the directory `dir`. A link that has to be followed is handed to `onLink`,
with the directory that its target starts from and all pieces that are left. -/
def walkWith (root : Node) (last : Last) (onLink : Location → List String → Except Errno Spot) :
    Location → List String → Except Errno Spot
  | dir, [] => .ok (.object dir)
  | dir, piece :: rest =>
    if Path.isFiller piece then walkWith root last onLink dir rest
    else if piece == ".." then walkWith root last onLink dir.dropLast rest
    else
      -- nothing but slashes is left
      let ending := rest.all (· == "")
      match root.get? dir with
      | none => .error .ENOENT
      | some (.directory _ entries) =>
        if last.refusesSlash && ending && !rest.isEmpty then .error .EISDIR
        else if maxNameLength < piece.utf8ByteSize then .error .ENAMETOOLONG
        else
          match entries.lookup piece with
          | none => if ending then .ok (.vacant dir piece) else .error .ENOENT
          | some (.directory _ _) => walkWith root last onLink (dir ++ [piece]) rest
          | some (.symlink target) =>
            if rest.isEmpty && !last.follows then .ok (.object (dir ++ [piece]))
            else
              let path : Path := ⟨target⟩
              onLink (if path.isAbsolute then [] else dir) (path.pieces ++ rest)
          | some _ => if rest.isEmpty then .ok (.object (dir ++ [piece])) else .error .ENOTDIR
      | some _ => .error .ENOTDIR

/-- Walk on from a directory and follow at most `links` links. -/
def walkFrom (root : Node) (last : Last) : Nat → Location → List String → Except Errno Spot
  | 0 => walkWith root last fun _ _ => .error .ELOOP
  | links + 1 => walkWith root last (walkFrom root last links)

end FileSystem

/-! ## From the working directory -/

namespace WorkingDirectory

/-- Leave removed directories upwards, as far as the pieces lead: to the linked directory
where the walk begins and the pieces left for it, or to a removed directory. -/
def depart : WorkingDirectory → Nat → List String → Except Errno (Spot ⊕ Location × List String)
  | linked loc, _, pieces => .ok (.inr (loc, pieces))
  | detached _ parent, depth, pieces =>
    match pieces.dropWhile Path.isFiller with
    | [] => .ok (.inl (.detached depth))
    | piece :: rest => if piece == ".." then parent.depart (depth + 1) rest else .error .ENOENT

/-- The directory so many levels above a removed one, as long as these are removed as well. -/
def above : WorkingDirectory → Nat → WorkingDirectory
  | dir, 0 => dir
  | linked loc, _ + 1 => linked loc
  | detached _ parent, depth + 1 => parent.above depth

/-- The mode of a removed directory so many levels above. -/
def modeAbove (dir : WorkingDirectory) (depth : Nat) : Mode :=
  match dir.above depth with
  | detached mode _ => mode
  | linked _ => ⟨0⟩

/-- Give a mode to the removed directory so many levels above. -/
def setModeAbove (mode : Mode) : WorkingDirectory → Nat → WorkingDirectory
  | linked loc, _ => linked loc
  | detached _ parent, 0 => detached mode parent
  | detached own parent, depth + 1 => detached own (parent.setModeAbove mode depth)

end WorkingDirectory

namespace FileSystem

/-- The spot that the pieces of a path lead to. -/
def walkPieces (fs : FileSystem) (last : Last) (isAbsolute : Bool) (pieces : List String) :
    Except Errno Spot :=
  if isAbsolute then walkFrom fs.root last maxLinks [] pieces
  else
    match fs.workingDirectory.depart 0 pieces with
    | .error e => .error e
    | .ok (.inl spot) => .ok spot
    | .ok (.inr (dir, rest)) => walkFrom fs.root last maxLinks dir rest

/-- The spot that a path leads to. -/
def walk (fs : FileSystem) (last : Last) (path : Path) : Except CallError Spot :=
  match path.check with
  | .error e => .error e
  | .ok () => (fs.walkPieces last path.isAbsolute path.pieces).mapError .os

/-! ## The last name -/

/-- The last name of a path and the directory that it is in. -/
inductive Slot
  /-- A name, and whether a slash comes behind it. -/
  | entry (dir : Location) (name : String) (slash : Bool)
  /-- A dot, two dots or, for the root, nothing. -/
  | nameless (piece : String)
  /-- A name in a removed directory. -/
  | lost
  deriving DecidableEq, Repr

/-- Part the last piece from those before it, and say whether a slash comes behind it. -/
def partLast (pieces : List String) : List String × String × Bool :=
  match pieces.reverse.dropWhile (· == "") with
  | [] => ([], "", true)
  | last :: before => (before.reverse, last, pieces.getLast? == some "")

/-- The last name of a path, which is not looked up itself. -/
def slot (fs : FileSystem) (path : Path) : Except CallError Slot :=
  match path.check with
  | .error e => .error e
  | .ok () =>
    let (before, last, slash) := partLast path.pieces
    -- the slash makes sure that what comes before is a directory
    match fs.walkPieces .follow path.isAbsolute (before ++ [""]) with
    | .error e => .error (.os e)
    | .ok (.vacant _ _) => .error (.os .ENOENT)
    | .ok spot =>
      if Path.isFiller last || last == ".." then .ok (.nameless last)
      else
        match spot with
        | .object dir =>
          if maxNameLength < last.utf8ByteSize then .error (.os .ENAMETOOLONG)
          else .ok (.entry dir last slash)
        | _ => .ok .lost

/-- What a directory has under a name. -/
def entry? (fs : FileSystem) (dir : Location) (name : String) : Option Node :=
  match fs.root.get? dir with
  | some (.directory _ entries) => entries.lookup name
  | _ => none

end FileSystem

end ModeAcl
