import ModeAcl.Error
import ModeAcl.Text.Split

/-!
# Paths

A path is a text; its pieces are the fields between slashes, and its components
are what the pieces mean. Two paths with the same components have the same
`key`: double and trailing slashes and inner dots do not count, a leading dot
does. `parent?` and `ancestors` cut the text itself, `absolute` puts the working
directory before it.

As the text is one of characters, paths of bytes that spell none are not covered, nor
is how such a path would be shown.
-/

namespace ModeAcl

structure Path where
  text : String
  deriving DecidableEq, Repr

namespace Path

/-! ## Components -/

/-- What a piece of a path stands for. -/
inductive Component
  | root
  /-- A dot at the beginning. -/
  | here
  | up
  | name (name : String)
  deriving DecidableEq, Repr

/-- The fields between slashes. -/
def pieces (p : Path) : List String :=
  (Fields.split '/' p.text.toList).map String.ofList

/-- A piece that no component comes from. -/
def isFiller (piece : String) : Bool := piece == "" || piece == "."

def Component.ofPiece? (piece : String) : Option Component :=
  if isFiller piece then none
  else if piece == ".." then some .up
  else some (.name piece)

def Component.text : Component → String
  | root => ""
  | here => "."
  | up => ".."
  | name s => s

/-- The pieces that make a path start at the root or with a dot, and the pieces behind. -/
def cut (p : Path) : List String × List String :=
  match p.pieces with
  | "" :: next :: rest => ([""], next :: rest)
  | "." :: rest => (["."], rest)
  | pieces => ([], pieces)

def components (p : Path) : List Component :=
  let body := p.cut.2.filterMap Component.ofPiece?
  match p.cut.1 with
  | [] => body
  | lead :: _ => (if lead == "" then .root else .here) :: body

/-- What two spellings of one path have in common. -/
abbrev Key := List Component

def key (p : Path) : Key := p.components

/-- How many slashes the text begins with. -/
def leadingSlashes (p : Path) : Nat := (p.text.toList.takeWhile (· == '/')).length

def isAbsolute (p : Path) : Bool := p.leadingSlashes != 0

def endsInSlash (p : Path) : Bool := p.text.toList.getLast? == some '/'

/-- The last component, if it is a name. -/
def fileName? (p : Path) : Option String :=
  match p.components.getLast? with
  | some (.name s) => some s
  | _ => none

/-- The last component, or the whole text of a path that does not end in a name. -/
def displayName (p : Path) : String := p.fileName?.getD p.text

/-! ## Parents -/

/-- Put pieces behind each other again. -/
def ofPieces (lead body : List String) : Path :=
  if lead == [""] && body.isEmpty then ⟨"/"⟩ else ⟨"/".intercalate (lead ++ body)⟩

def dropTrailingFillers (body : List String) : List String :=
  (body.reverse.dropWhile isFiller).reverse

/-- The text up to the last component. The parent of a single name is the empty path. -/
def parent? (p : Path) : Option Path :=
  let (lead, body) := p.cut
  match dropTrailingFillers body with
  | [] => if lead == ["."] then some ⟨""⟩ else none
  | kept => some (ofPieces lead (dropTrailingFillers kept.dropLast))

/-- A path and at most `n` of the paths above it, down to the innermost first. -/
def upwards : Nat → Path → List Path
  | 0, p => [p]
  | n + 1, p =>
    match p.parent? with
    | none => [p]
    | some q => if q.text == "" then [p] else p :: upwards n q

/-- The path and the paths above it that are not empty, innermost first. -/
def ancestors (p : Path) : List Path := upwards p.pieces.length p

/-! ## Joining -/

/-- Put one slash between two texts, unless there is one already or nothing before it. -/
def push (base piece : String) : String :=
  match base.toList.getLast? with
  | none => piece
  | some c => if c == '/' then base ++ piece else base ++ "/" ++ piece

def join (p : Path) (piece : String) : Path := ⟨push p.text piece⟩

/-- A path that starts at the root: the components of `p` behind the working directory, and
with a slash at the end if `p` has one. Exactly two slashes at the beginning are kept. -/
def absolute (workingDirectory : Except CallError Path) (p : Path) : Except CallError Path :=
  if p.text == "" then .error (.message .invalidInput "cannot make an empty path absolute")
  else
    let body := p.cut.2.filterMap Component.ofPiece?
    let slash := if p.endsInSlash then [""] else []
    let behind (base : String) : Path := ⟨(body.map Component.text ++ slash).foldl push base⟩
    if p.leadingSlashes == 2 then .ok (behind "//")
    else if p.isAbsolute then .ok (behind "/")
    else workingDirectory.map fun base => behind base.text

/-- The path that components spell. -/
def Key.toPath (key : Key) : Path :=
  match key with
  | .root :: body => ⟨"/" ++ "/".intercalate (body.map Component.text)⟩
  | body => ⟨"/".intercalate (body.map Component.text)⟩

end Path

end ModeAcl
