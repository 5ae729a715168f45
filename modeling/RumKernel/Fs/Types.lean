import RumKernel.Lib.Bytes

/-!
# Filesystem types

`fs_types.h`, `fs_limits.h` and `fs-types.c`: the error codes shared by the filesystem layers, nodes and
transfer results. `FS_OK` is not among the errors: a function that returns `FS_OK` gives a value.
-/

namespace RumKernel.Fs
open Lib

/-- `enum fs_error` without `FS_OK`. -/
inductive FsError where
  | «end» | invalid | unavailable | notFound | notDirectory | isDirectory | «exists» | notEmpty
  | pathTooLong | nameTooLong | tooDeep | mountEscape | range | access | readOnly | busy | noMemory
  | noSpace | unsupported | ioError | timeout | deviceFault
  deriving DecidableEq, Repr

inductive BlockError where
  | ok | invalid | range | noDevice | readOnly | busy | timeout | deviceFault | ioError | unsupported
  deriving DecidableEq, Repr

/-- `fs_error_from_block`; `none` is `FS_OK`. -/
def fsErrorFromBlock : BlockError → Option FsError
  | .ok => none
  | .invalid => some .invalid
  | .range => some .range
  | .noDevice => some .unavailable
  | .readOnly => some .readOnly
  | .busy => some .busy
  | .timeout => some .timeout
  | .deviceFault => some .deviceFault
  | .unsupported => some .unsupported
  | .ioError => some .ioError

inductive FsKind where
  | file | directory
  deriving DecidableEq, Repr

structure FsNode where
  id : Nat
  size : Nat
  kind : FsKind
  deriving DecidableEq, Repr

/-- `struct fs_io_result`; `error = none` is `FS_OK`. -/
structure FsIoResult where
  error : Option FsError := none
  transferred : Nat := 0
  deviceStatus : Byte := 0
  deviceError : Byte := 0
  deriving DecidableEq

/-- A path component: the bytes of a C string before its NUL. -/
abbrev Name := List Byte

/-- `FS_PATH_CAPACITY`, NUL included. -/
def pathCapacity : Nat := 256

/-- `FS_NAME_CAPACITY`, NUL included. -/
def nameCapacity : Nat := 64

def pathDepth : Nat := 16

def tokenLimit : Nat := 128

def objectLimit : Nat := 128

/-- `FS_REFERENCE_LIMIT`: 16 processes with 32 handles and a directory each, and two more. -/
def referenceLimit : Nat := 16 * 32 + 16 + 2

end RumKernel.Fs
