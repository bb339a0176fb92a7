import ModeAcl.FileSystem.File

/-!
# Files whose permissions are modes

The same operations where the system keeps the mode of every object itself. Each
is hardly more than one call, and gives its result with the file system after it.
-/

namespace ModeAcl.Native

/-- The result of a call that changes the file system if it succeeds. -/
def changing (fs : FileSystem) (result : Except CallError FileSystem) :
    Except Error Unit × FileSystem :=
  match result with
  | .ok fs => (.ok (), fs)
  | .error e => (.error (.io e), fs)

def chmod (path : Path) (mode : Mode) (fs : FileSystem) : Except Error Unit × FileSystem :=
  changing fs (fs.setMode path mode)

def mkdir (path : Path) (mode : Mode) (fs : FileSystem) : Except Error Unit × FileSystem :=
  changing fs (fs.createDirectory path mode.modeBits)

/-- Create the first of several directories. Those behind it in the list are created before
it, but only if it turns out that one is missing. -/
def mkdirEach (mode : Mode) : List Path → FileSystem → Except Error Unit × FileSystem
  | [], fs => (.ok (), fs)
  | path :: above, fs =>
    -- a directory that is there already is as good as a new one
    let settle (e : CallError) (fs : FileSystem) : Except Error Unit × FileSystem :=
      if fs.isDirectory path then (.ok (), fs) else (.error (.io e), fs)
    match fs.createDirectory path mode.modeBits with
    | .ok fs => (.ok (), fs)
    | .error e =>
      if e.kind = .notFound then
        match mkdirEach mode above fs with
        | (.error e, fs) => (.error e, fs)
        | (.ok (), fs) =>
          match fs.createDirectory path mode.modeBits with
          | .ok fs => (.ok (), fs)
          | .error e => settle e fs
      else settle e fs

/-- Create a directory and those missing above it. There is nothing to be done for the empty
path. -/
def mkdirAll (path : Path) (mode : Mode) (fs : FileSystem) : Except Error Unit × FileSystem :=
  if path.text == "" then (.ok (), fs) else mkdirEach mode path.ancestors fs

def openFile (path : Path) (flags : OpenFlags) (mode : Mode) (fs : FileSystem) :
    Except Error Handle × FileSystem :=
  match fs.openFile path flags mode.modeBits with
  | .ok (handle, fs) => (.ok handle, fs)
  | .error e => (.error (.io e), fs)

/-- Write a file anew. -/
def writeFile (path : Path) (bytes : List UInt8) (mode : Mode) (fs : FileSystem) :
    Except Error Unit × FileSystem :=
  match openFile path .createTruncate mode fs with
  | (.error e, fs) => (.error e, fs)
  | (.ok handle, fs) => changing fs ((fs.write handle bytes).map (·.2))

def stat (path : Path) (fs : FileSystem) : Except Error FileInfo :=
  match fs.metadata path with
  | .error e => .error (.io e)
  | .ok m => .ok ⟨path.displayName, m, Mode.ofNativeType m.type ||| m.mode⟩

end ModeAcl.Native
