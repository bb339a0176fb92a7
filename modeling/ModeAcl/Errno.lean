import ModeAcl.Text.Numeral

/-!
# Error codes

The codes with which system calls fail, and the coarser kinds that callers
branch on. Several codes share a kind; a code without a kind of its own is
`uncategorized`.
-/

namespace ModeAcl

/-- What went wrong, as callers tell failures apart. -/
inductive ErrorKind
  | notFound
  | permissionDenied
  | alreadyExists
  | invalidInput
  | invalidData
  | other
  | timedOut
  | interrupted
  | wouldBlock
  | unexpectedEof
  | unsupported
  | outOfMemory
  | notADirectory
  | isADirectory
  | directoryNotEmpty
  | readOnlyFilesystem
  | storageFull
  | resourceBusy
  | filesystemLoop
  | invalidFilename
  | inputOutput
  | addressInUse
  | connectionRefused
  | connectionReset
  | connectionAborted
  | notConnected
  | hostUnreachable
  | networkUnreachable
  | networkDown
  | addressNotAvailable
  | brokenPipe
  | staleNetworkFileHandle
  | writeZero
  | notSeekable
  | quotaExceeded
  | fileTooLarge
  | executableFileBusy
  | deadlock
  | crossesDevices
  | tooManyLinks
  | argumentListTooLong
  | inProgress
  | uncategorized
  deriving DecidableEq, Repr

/-- The text of an error of which nothing but the kind is known. -/
def ErrorKind.description : ErrorKind → String
  | notFound => "entity not found"
  | permissionDenied => "permission denied"
  | alreadyExists => "entity already exists"
  | invalidInput => "invalid input parameter"
  | invalidData => "invalid data"
  | other => "other error"
  | timedOut => "timed out"
  | interrupted => "operation interrupted"
  | wouldBlock => "operation would block"
  | unexpectedEof => "unexpected end of file"
  | unsupported => "unsupported"
  | outOfMemory => "out of memory"
  | notADirectory => "not a directory"
  | isADirectory => "is a directory"
  | directoryNotEmpty => "directory not empty"
  | readOnlyFilesystem => "read-only filesystem or storage medium"
  | storageFull => "no storage space"
  | resourceBusy => "resource busy"
  | filesystemLoop => "filesystem loop or indirection limit (e.g. symlink loop)"
  | invalidFilename => "invalid filename"
  | inputOutput => "I/O error"
  | addressInUse => "address in use"
  | connectionRefused => "connection refused"
  | connectionReset => "connection reset"
  | connectionAborted => "connection aborted"
  | notConnected => "not connected"
  | hostUnreachable => "host unreachable"
  | networkUnreachable => "network unreachable"
  | networkDown => "network down"
  | addressNotAvailable => "address not available"
  | brokenPipe => "broken pipe"
  | staleNetworkFileHandle => "stale network file handle"
  | writeZero => "write zero"
  | notSeekable => "seek on unseekable file"
  | quotaExceeded => "quota exceeded"
  | fileTooLarge => "file too large"
  | executableFileBusy => "executable file busy"
  | deadlock => "deadlock"
  | crossesDevices => "cross-device link or rename"
  | tooManyLinks => "too many links"
  | argumentListTooLong => "argument list too long"
  | inProgress => "in progress"
  | uncategorized => "uncategorized error"

/-- A code with which a system call fails. -/
inductive Errno
  | EPERM
  | ENOENT
  | EINTR
  | EIO
  | ENXIO
  | EBADF
  | EAGAIN
  | ENOMEM
  | EACCES
  | EBUSY
  | EEXIST
  | ENOTDIR
  | EISDIR
  | EINVAL
  | ENOSPC
  | EROFS
  | ENAMETOOLONG
  | ENOTEMPTY
  | ELOOP
  | EADDRINUSE
  | ETIMEDOUT
  deriving DecidableEq, Repr

namespace Errno

def all : List Errno :=
  [EPERM, ENOENT, EINTR, EIO, ENXIO, EBADF, EAGAIN, ENOMEM, EACCES, EBUSY, EEXIST, ENOTDIR,
    EISDIR, EINVAL, ENOSPC, EROFS, ENAMETOOLONG, ENOTEMPTY, ELOOP, EADDRINUSE, ETIMEDOUT]

def number : Errno → Nat
  | EPERM => 1
  | ENOENT => 2
  | EINTR => 4
  | EIO => 5
  | ENXIO => 6
  | EBADF => 9
  | EAGAIN => 11
  | ENOMEM => 12
  | EACCES => 13
  | EBUSY => 16
  | EEXIST => 17
  | ENOTDIR => 20
  | EISDIR => 21
  | EINVAL => 22
  | ENOSPC => 28
  | EROFS => 30
  | ENAMETOOLONG => 36
  | ENOTEMPTY => 39
  | ELOOP => 40
  | EADDRINUSE => 98
  | ETIMEDOUT => 110

def ofNumber? (n : Nat) : Option Errno := all.find? (·.number == n)

def kind : Errno → ErrorKind
  | EPERM | EACCES => .permissionDenied
  | ENOENT => .notFound
  | EINTR => .interrupted
  | EIO => .inputOutput
  | ENXIO | EBADF => .uncategorized
  | EAGAIN => .wouldBlock
  | ENOMEM => .outOfMemory
  | EBUSY => .resourceBusy
  | EEXIST => .alreadyExists
  | ENOTDIR => .notADirectory
  | EISDIR => .isADirectory
  | EINVAL => .invalidInput
  | ENOSPC => .storageFull
  | EROFS => .readOnlyFilesystem
  | ENAMETOOLONG => .invalidFilename
  | ENOTEMPTY => .directoryNotEmpty
  | ELOOP => .filesystemLoop
  | EADDRINUSE => .addressInUse
  | ETIMEDOUT => .timedOut

def description : Errno → String
  | EPERM => "Operation not permitted"
  | ENOENT => "No such file or directory"
  | EINTR => "Interrupted system call"
  | EIO => "Input/output error"
  | ENXIO => "No such device or address"
  | EBADF => "Bad file descriptor"
  | EAGAIN => "Resource temporarily unavailable"
  | ENOMEM => "Cannot allocate memory"
  | EACCES => "Permission denied"
  | EBUSY => "Device or resource busy"
  | EEXIST => "File exists"
  | ENOTDIR => "Not a directory"
  | EISDIR => "Is a directory"
  | EINVAL => "Invalid argument"
  | ENOSPC => "No space left on device"
  | EROFS => "Read-only file system"
  | ENAMETOOLONG => "File name too long"
  | ENOTEMPTY => "Directory not empty"
  | ELOOP => "Too many levels of symbolic links"
  | EADDRINUSE => "Address already in use"
  | ETIMEDOUT => "Connection timed out"

/-- The description, then the number. -/
def text (e : Errno) : String :=
  e.description ++ " (os error " ++ Numeral.decimal e.number ++ ")"

end Errno

end ModeAcl
