import ModeAcl.Errno

/-!
# Errors

A `CallError` is what one call to the system or to the security backend fails
with. An `Error` is what an operation made of such calls fails with: it says at
which stage a call failed, collects the failures of several calls, or tells that
undoing the operation failed as well. The two refer to each other, since an
operation's error can be handed to a caller that knows call errors only.

Of every error there are three readings: its kind, its text, and its sources,
the texts of the errors that it stems from, nearest first.
-/

namespace ModeAcl

mutual

/-- Why a single call failed. -/
inductive CallError
  /-- The system answered with a code. -/
  | os (code : Errno)
  /-- Nothing but the kind is known. -/
  | plain (kind : ErrorKind)
  /-- Kind and text are known, as for an answer whose code is not listed. -/
  | message (kind : ErrorKind) (text : String)
  /-- The error of an operation, in the form of a call's. -/
  | wrapped (kind : ErrorKind) (error : Error)
  /-- An error from elsewhere, with the texts of the errors that it stems from. -/
  | foreign (kind : ErrorKind) (text : String) (sources : List String)

/-- Why an operation failed. -/
inductive Error
  /-- A call to the file system failed; nothing is added to its error. -/
  | io (error : CallError)
  /-- A call to the security backend failed at the named stage. -/
  | security (stage : String) (source : CallError)
  /-- The trustees that could not be resolved, one error for each. -/
  | entries (errors : List Error)
  /-- The operation failed, and so did the removal of what it had created at `path`. -/
  | cleanup (error : Error) (path : String) (removal : CallError)
  | invalidMode (text : String)

end

instance : Inhabited CallError := ⟨.plain .other⟩

instance : Inhabited Error := ⟨.entries []⟩

/-! ## Kinds -/

def CallError.kind : CallError → ErrorKind
  | .os code => code.kind
  | .plain kind => kind
  | .message kind _ => kind
  | .wrapped kind _ => kind
  | .foreign kind _ _ => kind

/-- The kind of the call that failed first. -/
def Error.kind : Error → ErrorKind
  | .io error => error.kind
  | .security _ source => source.kind
  | .entries [] => .other
  | .entries (first :: _) => first.kind
  | .cleanup error _ _ => error.kind
  | .invalidMode _ => .invalidInput

/-! ## Texts -/

mutual

def CallError.text : CallError → String
  | .os code => code.text
  | .plain kind => kind.description
  | .message _ text => text
  | .wrapped _ error => error.text
  | .foreign _ text _ => text

def Error.text : Error → String
  | .io error => error.text
  | .security stage source => stage ++ ": " ++ source.text
  | .entries errors => "creating access control entries: " ++ Error.joinedText errors
  | .cleanup error path removal => error.text ++ "; removing " ++ path ++ ": " ++ removal.text
  | .invalidMode text => "invalid mode: '" ++ text ++ "'"

/-- The texts of several errors, one after the other. -/
def Error.joinedText : List Error → String
  | [] => ""
  | [error] => error.text
  | error :: next :: errors => error.text ++ "; " ++ Error.joinedText (next :: errors)

end

namespace Error

@[simp] theorem text_io (error : CallError) : (io error).text = error.text := rfl

@[simp] theorem text_security (stage : String) (source : CallError) :
    (security stage source).text = stage ++ ": " ++ source.text := rfl

@[simp] theorem text_cleanup (error : Error) (path : String) (removal : CallError) :
    (cleanup error path removal).text =
      error.text ++ "; removing " ++ path ++ ": " ++ removal.text := rfl

@[simp] theorem text_invalidMode (text : String) :
    (invalidMode text).text = "invalid mode: '" ++ text ++ "'" := rfl

theorem joinedText_eq (errors : List Error) :
    joinedText errors = "; ".intercalate (errors.map Error.text) := by
  induction errors with
  | nil => exact String.intercalate_nil.symm
  | cons error others ih =>
    cases others with
    | nil => exact String.intercalate_singleton.symm
    | cons next others =>
      calc joinedText (error :: next :: others)
          = error.text ++ "; " ++ joinedText (next :: others) := rfl
        _ = error.text ++ "; " ++ "; ".intercalate ((next :: others).map Error.text) := by rw [ih]
        _ = "; ".intercalate ((error :: next :: others).map Error.text) :=
          String.intercalate_cons_cons.symm

@[simp] theorem text_entries (errors : List Error) :
    (entries errors).text =
      "creating access control entries: " ++ "; ".intercalate (errors.map Error.text) :=
  congrArg _ (joinedText_eq errors)

end Error

/-! ## Sources -/

mutual

def CallError.sources : CallError → List String
  | .os _ => []
  | .plain _ => []
  | .message _ _ => []
  | .wrapped _ error => error.sources
  | .foreign _ _ sources => sources

def Error.sources : Error → List String
  | .io error => error.sources
  | .security _ source => source.text :: source.sources
  | .entries _ => []
  | .cleanup error _ _ => error.text :: error.sources
  | .invalidMode _ => []

end

/-! ## Conversions -/

/-- The code with which the system answered, if it did. -/
def CallError.errno? : CallError → Option Errno
  | .os code => some code
  | _ => none

/-- The error in the form of a call's. What was a call's error to begin with is unwrapped. -/
def Error.toCallError : Error → CallError
  | .io error => error
  | .security stage source => .wrapped source.kind (.security stage source)
  | .entries errors => .wrapped (Error.entries errors).kind (.entries errors)
  | .cleanup error path removal => .wrapped error.kind (.cleanup error path removal)
  | .invalidMode text => .wrapped .invalidInput (.invalidMode text)

/-- The kind survives when the error is handed on in the form of a call's error. -/
@[simp] theorem Error.kind_toCallError (e : Error) : e.toCallError.kind = e.kind := by
  cases e <;> rfl

@[simp] theorem Error.text_toCallError (e : Error) : e.toCallError.text = e.text := by
  cases e <;> rfl

/-- Label the failure of a call with the stage of the operation that made it. -/
def atStage (stage : String) : Except CallError α → Except Error α
  | .ok a => .ok a
  | .error e => .error (.security stage e)

/-- Pass the failure of a call on as it is. -/
def unlabelled : Except CallError α → Except Error α
  | .ok a => .ok a
  | .error e => .error (.io e)

end ModeAcl
