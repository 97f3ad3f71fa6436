import IoUring.Opcode.Basic

/-!
# Builders of file operations
-/

namespace IoUring.Opcode

open Squeue IoUring.Types

/-- Vectored read, equivalent to `preadv2(2)`. -/
structure Readv where
  fd : Target
  iovec : UInt64
  len : UInt32
  ioprio : UInt16 := 0
  offset : UInt64 := 0
  rwFlags : Int32 := 0
  bufGroup : UInt16 := 0

def Readv.build (op : Readv) : Entry where
  sqe := { sqeForFile .readv op.fd with
    ioprio := op.ioprio
    addr := op.iovec
    len := op.len
    off := op.offset
    opFlags := op.rwFlags.toUInt32
    bufIndex := op.bufGroup }

/-- Vectored write, equivalent to `pwritev2(2)`. -/
structure Writev where
  fd : Target
  iovec : UInt64
  len : UInt32
  ioprio : UInt16 := 0
  offset : UInt64 := 0
  rwFlags : Int32 := 0

def Writev.build (op : Writev) : Entry where
  sqe := { sqeForFile .writev op.fd with
    ioprio := op.ioprio
    addr := op.iovec
    len := op.len
    off := op.offset
    opFlags := op.rwFlags.toUInt32 }

/-- File sync. See also `fsync(2)`. -/
structure Fsync where
  fd : Target
  offset : UInt64 := 0
  len : UInt32 := 0
  flags : UInt32 := 0

def Fsync.build (op : Fsync) : Entry where
  sqe := { sqeForFile .fsync op.fd with
    len := op.len
    off := op.offset
    opFlags := op.flags }

/-- Read from a file into a fixed buffer. -/
structure ReadFixed where
  fd : Target
  buf : UInt64
  len : UInt32
  bufIndex : UInt16
  ioprio : UInt16 := 0
  offset : UInt64 := 0
  rwFlags : Int32 := 0

def ReadFixed.build (op : ReadFixed) : Entry where
  sqe := { sqeForFile .readFixed op.fd with
    ioprio := op.ioprio
    addr := op.buf
    len := op.len
    off := op.offset
    opFlags := op.rwFlags.toUInt32
    bufIndex := op.bufIndex }

/-- Write to a file from a fixed buffer. -/
structure WriteFixed where
  fd : Target
  buf : UInt64
  len : UInt32
  bufIndex : UInt16
  ioprio : UInt16 := 0
  offset : UInt64 := 0
  rwFlags : Int32 := 0

def WriteFixed.build (op : WriteFixed) : Entry where
  sqe := { sqeForFile .writeFixed op.fd with
    ioprio := op.ioprio
    addr := op.buf
    len := op.len
    off := op.offset
    opFlags := op.rwFlags.toUInt32
    bufIndex := op.bufIndex }

/-- Sync a file segment with disk, equivalent to `sync_file_range(2)`. -/
structure SyncFileRange where
  fd : Target
  len : UInt32
  offset : UInt64 := 0
  flags : UInt32 := 0

def SyncFileRange.build (op : SyncFileRange) : Entry where
  sqe := { sqeForFile .syncFileRange op.fd with
    len := op.len
    off := op.offset
    opFlags := op.flags }

/-- Preallocate or deallocate space to a file, equivalent to `fallocate(2)`. -/
structure Fallocate where
  fd : Target
  len : UInt64
  offset : UInt64 := 0
  mode : Int32 := 0

def Fallocate.build (op : Fallocate) : Entry where
  sqe := { sqeForFile .fallocate op.fd with
    addr := op.len
    len := op.mode.toUInt32
    off := op.offset }

/-- Open a file, equivalent to `openat(2)`. -/
structure OpenAt where
  dirfd : Int32
  pathname : UInt64
  fileIndex : Option DestinationSlot := none
  flags : Int32 := 0
  mode : UInt32 := 0

def OpenAt.build (op : OpenAt) : Entry where
  sqe := setFileIndex { sqeFor .openat op.dirfd with
    addr := op.pathname
    len := op.mode
    opFlags := op.flags.toUInt32 } op.fileIndex

/-- Open a file, equivalent to `openat2(2)`. -/
structure OpenAt2 where
  dirfd : Int32
  pathname : UInt64
  how : UInt64
  fileIndex : Option DestinationSlot := none

def OpenAt2.build (op : OpenAt2) : Entry where
  sqe := setFileIndex { sqeFor .openat2 op.dirfd with
    addr := op.pathname
    len := 24 -- the size of `open_how`
    off := op.how } op.fileIndex

/-- Close a file descriptor, equivalent to `close(2)`. -/
structure Close where
  fd : Target

/-- `idx + 1` is checked in a debug build and wraps in a release build; here it wraps. -/
def Close.build (op : Close) : Entry where
  sqe :=
    match op.fd with
    | .fd fd => sqeFor .close fd
    | .fixed idx => { sqeFor .close 0 with fileIndex := idx + 1 }

/-- The same in a debug build, where `none` is the panic of an addition that overflows. -/
def Close.checkedBuild (op : Close) : Option Entry :=
  match op.fd with
  | .fd fd => some { sqe := sqeFor .close fd }
  | .fixed idx =>
      if idx.toNat + 1 < UInt32.size then
        some { sqe := { sqeFor .close 0 with fileIndex := idx + 1 } }
      else none

/-- An asynchronous alternative to `Submitter::register_files_update`. -/
structure FilesUpdate where
  fds : UInt64
  len : UInt32
  offset : Int32 := 0

def FilesUpdate.build (op : FilesUpdate) : Entry where
  sqe := { sqeFor .filesUpdate (-1) with
    addr := op.fds
    len := op.len
    off := op.offset.toInt64.toUInt64 }

/-- Get file status, equivalent to `statx(2)`. -/
structure Statx where
  dirfd : Int32
  pathname : UInt64
  statxbuf : UInt64
  flags : Int32 := 0
  mask : UInt32 := 0

def Statx.build (op : Statx) : Entry where
  sqe := { sqeFor .statx op.dirfd with
    addr := op.pathname
    len := op.mask
    off := op.statxbuf
    opFlags := op.flags.toUInt32 }

/-- Non-vectored version of `Readv`. -/
structure Read where
  fd : Target
  buf : UInt64
  len : UInt32
  offset : UInt64 := 0
  ioprio : UInt16 := 0
  rwFlags : Int32 := 0
  bufGroup : UInt16 := 0

def Read.build (op : Read) : Entry where
  sqe := { sqeForFile .read op.fd with
    ioprio := op.ioprio
    addr := op.buf
    len := op.len
    off := op.offset
    opFlags := op.rwFlags.toUInt32
    bufIndex := op.bufGroup }

/-- Non-vectored version of `Writev`. -/
structure Write where
  fd : Target
  buf : UInt64
  len : UInt32
  offset : UInt64 := 0
  ioprio : UInt16 := 0
  rwFlags : Int32 := 0

def Write.build (op : Write) : Entry where
  sqe := { sqeForFile .write op.fd with
    ioprio := op.ioprio
    addr := op.buf
    len := op.len
    off := op.offset
    opFlags := op.rwFlags.toUInt32 }

/-- Predeclare an access pattern for file data, equivalent to `posix_fadvise(2)`. -/
structure Fadvise where
  fd : Target
  len : Int64
  advice : Int32
  offset : UInt64 := 0

def Fadvise.build (op : Fadvise) : Entry where
  sqe := { sqeForFile .fadvise op.fd with
    len := op.len.toUInt64.toUInt32
    off := op.offset
    opFlags := op.advice.toUInt32 }

/-- Give advice about use of memory, equivalent to `madvise(2)`. -/
structure Madvise where
  addr : UInt64
  len : Int64
  advice : Int32

def Madvise.build (op : Madvise) : Entry where
  sqe := { sqeFor .madvise (-1) with
    addr := op.addr
    len := op.len.toUInt64.toUInt32
    opFlags := op.advice.toUInt32 }

/-- The file `splice_fd_in` takes, and the flag that says how to read it. -/
def spliceFdIn (flags : UInt32) : Target → UInt32 × UInt32
  | .fd fd => (fd.toUInt32, flags)
  | .fixed idx => (idx, flags ||| Sys.spliceFFdInFixed)

/-- Splice data to/from a pipe, equivalent to `splice(2)`. -/
structure Splice where
  fdIn : Target
  offIn : Int64
  fdOut : Target
  offOut : Int64
  len : UInt32
  flags : UInt32 := 0

def Splice.build (op : Splice) : Entry where
  sqe :=
    let (fdIn, flags) := spliceFdIn op.flags op.fdIn
    { sqeForFile .splice op.fdOut with
      len := op.len
      off := op.offOut.toUInt64
      fileIndex := fdIn
      addr := op.offIn.toUInt64
      opFlags := flags }

/-- Duplicate pipe content, equivalent to `tee(2)`. -/
structure Tee where
  fdIn : Target
  fdOut : Target
  len : UInt32
  flags : UInt32 := 0

def Tee.build (op : Tee) : Entry where
  sqe :=
    let (fdIn, flags) := spliceFdIn op.flags op.fdIn
    { sqeForFile .tee op.fdOut with
      len := op.len
      fileIndex := fdIn
      opFlags := flags }

/-- Change the name or location of a file, equivalent to `renameat2(2)`. -/
structure RenameAt where
  olddirfd : Int32
  oldpath : UInt64
  newdirfd : Int32
  newpath : UInt64
  flags : UInt32 := 0

def RenameAt.build (op : RenameAt) : Entry where
  sqe := { sqeFor .renameat op.olddirfd with
    addr := op.oldpath
    len := op.newdirfd.toUInt32
    off := op.newpath
    opFlags := op.flags }

/-- Delete a name and possible the file it refers to, equivalent to `unlinkat(2)`. -/
structure UnlinkAt where
  dirfd : Int32
  pathname : UInt64
  flags : Int32 := 0

def UnlinkAt.build (op : UnlinkAt) : Entry where
  sqe := { sqeFor .unlinkat op.dirfd with
    addr := op.pathname
    opFlags := op.flags.toUInt32 }

/-- Make a directory, equivalent to `mkdirat(2)`. -/
structure MkDirAt where
  dirfd : Int32
  pathname : UInt64
  mode : UInt32 := 0

def MkDirAt.build (op : MkDirAt) : Entry where
  sqe := { sqeFor .mkdirat op.dirfd with
    addr := op.pathname
    len := op.mode }

/-- Create a symlink, equivalent to `symlinkat(2)`. -/
structure SymlinkAt where
  newdirfd : Int32
  target : UInt64
  linkpath : UInt64

def SymlinkAt.build (op : SymlinkAt) : Entry where
  sqe := { sqeFor .symlinkat op.newdirfd with
    addr := op.target
    off := op.linkpath }

/-- Create a hard link, equivalent to `linkat(2)`. -/
structure LinkAt where
  olddirfd : Int32
  oldpath : UInt64
  newdirfd : Int32
  newpath : UInt64
  flags : Int32 := 0

def LinkAt.build (op : LinkAt) : Entry where
  sqe := { sqeFor .linkat op.olddirfd with
    addr := op.oldpath
    len := op.newdirfd.toUInt32
    off := op.newpath
    opFlags := op.flags.toUInt32 }

/-- Get extended attribute, equivalent to `getxattr(2)`. -/
structure GetXattr where
  name : UInt64
  value : UInt64
  path : UInt64
  len : UInt32

def GetXattr.build (op : GetXattr) : Entry where
  sqe := { sqeFor .getxattr 0 with
    addr := op.name
    len := op.len
    off := op.value
    cmd := withWord sqeZeroed.cmd op.path
    opFlags := 0 }

/-- Set extended attribute, equivalent to `setxattr(2)`. -/
structure SetXattr where
  name : UInt64
  value : UInt64
  path : UInt64
  len : UInt32
  flags : Int32 := 0

def SetXattr.build (op : SetXattr) : Entry where
  sqe := { sqeFor .setxattr 0 with
    addr := op.name
    len := op.len
    off := op.value
    cmd := withWord sqeZeroed.cmd op.path
    opFlags := op.flags.toUInt32 }

/-- Get extended attribute from a file descriptor, equivalent to `fgetxattr(2)`. -/
structure FGetXattr where
  fd : Target
  name : UInt64
  value : UInt64
  len : UInt32

def FGetXattr.build (op : FGetXattr) : Entry where
  sqe := { sqeForFile .fgetxattr op.fd with
    addr := op.name
    len := op.len
    off := op.value
    opFlags := 0 }

/-- Set extended attribute on a file descriptor, equivalent to `fsetxattr(2)`. -/
structure FSetXattr where
  fd : Target
  name : UInt64
  value : UInt64
  len : UInt32
  flags : Int32 := 0

def FSetXattr.build (op : FSetXattr) : Entry where
  sqe := { sqeForFile .fsetxattr op.fd with
    addr := op.name
    len := op.len
    off := op.value
    opFlags := op.flags.toUInt32 }

/-- The equivalent of `pread(2)` with multi-shot semantics. -/
structure ReadMulti where
  fd : Target
  len : UInt32
  bufGroup : UInt16
  offset : UInt64 := 0

/-- Here the flags are assigned, where the other builders add to them. -/
def ReadMulti.build (op : ReadMulti) : Entry where
  sqe := { sqeForFile .readMultishot op.fd with
    off := op.offset
    len := op.len
    bufIndex := op.bufGroup
    flags := Flags.bufferSelect }

/-- Install a fixed file descriptor. -/
structure FixedFdInstall where
  fd : Fixed
  fileFlags : UInt32

def FixedFdInstall.build (op : FixedFdInstall) : Entry where
  sqe := { sqeFor .fixedFdInstall op.fd.idx.toInt32 with
    flags := Flags.fixedFile
    opFlags := op.fileFlags }

/-- Perform file truncation, equivalent to `ftruncate(2)`. -/
structure Ftruncate where
  fd : Target
  len : UInt64

def Ftruncate.build (op : Ftruncate) : Entry where
  sqe := { sqeForFile .ftruncate op.fd with off := op.len }

/-- Vectored read into a fixed buffer, equivalent to `preadv2(2)`. -/
structure ReadvFixed where
  fd : Target
  iovec : UInt64
  len : UInt32
  bufIndex : UInt16
  ioprio : UInt16 := 0
  offset : UInt64 := 0
  rwFlags : Int32 := 0

def ReadvFixed.build (op : ReadvFixed) : Entry where
  sqe := { sqeForFile .readvFixed op.fd with
    off := op.offset
    addr := op.iovec
    len := op.len
    bufIndex := op.bufIndex
    ioprio := op.ioprio
    opFlags := op.rwFlags.toUInt32 }

/-- Vectored write from a fixed buffer, equivalent to `pwritev2(2)`. -/
structure WritevFixed where
  fd : Target
  iovec : UInt64
  len : UInt32
  bufIndex : UInt16
  ioprio : UInt16 := 0
  offset : UInt64 := 0
  rwFlags : Int32 := 0

def WritevFixed.build (op : WritevFixed) : Entry where
  sqe := { sqeForFile .writevFixed op.fd with
    off := op.offset
    addr := op.iovec
    len := op.len
    bufIndex := op.bufIndex
    ioprio := op.ioprio
    opFlags := op.rwFlags.toUInt32 }

/-- Create a pipe, equivalent to `pipe(2)`. -/
structure Pipe where
  fds : UInt64
  flags : UInt32 := 0
  fileIndex : Option DestinationSlot := none

def Pipe.build (op : Pipe) : Entry where
  sqe := setFileIndex { sqeFor .pipe 0 with
    addr := op.fds
    opFlags := op.flags } op.fileIndex

end IoUring.Opcode
