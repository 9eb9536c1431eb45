import Transpiler.Guest.Memory

/-!
# The system interface of a guest

The functions a guest may call on its host. Nothing of the host is reachable through them: metadata is made up, files
are empty, and what is written to the standard streams is logged. Descriptors 0 to 2 are the streams, then come the
directories advertised to the guest, then the paths it opens, no number twice until the table is reset.
-/

namespace Transpiler.Guest

/-- A line that a guest wrote to one of its streams. -/
structure Log where
  level : Text
  stream : Text
  text : Text
deriving DecidableEq, Repr

/-- What the host keeps for a guest. -/
structure Wasi where
  args : List Text
  environ : List Text
  preopens : List Text
  opened : List UInt32
  /-- The next descriptor, or zero while none has been handed out. -/
  next : UInt32
  logs : List Log

/-- Memory and host state, which the host's functions change together. -/
structure Host where
  memory : Memory
  wasi : Wasi

/-- A WASI error number. -/
abbrev Errno := UInt32

namespace Errno

/-- No error. -/
def success : Errno := 0
/-- No such descriptor. -/
def badDescriptor : Errno := 8
/-- A bad address. -/
def fault : Errno := 21
/-- An invalid argument. -/
def invalid : Errno := 28

end Errno

/-- What kind of thing a descriptor is, by its number in the interface. -/
inductive FileType where
  | unknown
  | characterDevice
  | directory
  | regularFile
deriving DecidableEq, Repr

/-- The number of the file type. -/
def FileType.byte : FileType → UInt8
  | .unknown => 0
  | .characterDevice => 2
  | .directory => 3
  | .regularFile => 4

namespace Wasi

/-- The name space the functions are imported from. -/
def space : Text := "wasi_snapshot_preview1"

/-- The functions offered. -/
def functionNames : List Text := List.map Text.ofString
  ["args_get", "args_sizes_get", "environ_get", "environ_sizes_get", "clock_res_get",
    "clock_time_get", "fd_advise", "fd_allocate", "fd_close", "fd_datasync", "fd_fdstat_get",
    "fd_fdstat_set_flags", "fd_fdstat_set_rights", "fd_filestat_get", "fd_filestat_set_size",
    "fd_filestat_set_times", "fd_pread", "fd_prestat_get", "fd_prestat_dir_name", "fd_pwrite",
    "fd_read", "fd_readdir", "fd_renumber", "fd_seek", "fd_sync", "fd_tell", "fd_write",
    "path_create_directory", "path_filestat_get", "path_filestat_set_times", "path_link",
    "path_open", "path_readlink", "path_remove_directory", "path_rename", "path_symlink",
    "path_unlink_file", "poll_oneoff", "proc_exit", "proc_raise", "sched_yield", "random_get",
    "sock_accept", "sock_recv", "sock_send", "sock_shutdown"]

/-- Before the first call. -/
def new (args environ preopens : List Text) : Wasi := ⟨args, environ, preopens, [], 0, []⟩

/-- Closes all descriptors the guest opened. -/
def reset (w : Wasi) : Wasi := { w with opened := [], next := 0 }

/-- The first descriptor of the advertised directories. -/
def firstPreopen : Nat := 3

/-- The directory opened in advance as `fd`. -/
def preopen? (w : Wasi) (fd : UInt32) : Option Text :=
  if fd.toNat < firstPreopen then none else w.preopens[fd.toNat - firstPreopen]?

/-- What `fd` stands for. -/
def fileType (w : Wasi) (fd : UInt32) : FileType :=
  if fd ≤ 2 then .characterDevice
  else if (w.preopen? fd).isSome then .directory
  else if w.opened.contains fd then .regularFile
  else .unknown

/-- The number to open next. -/
def nextDescriptor (w : Wasi) : UInt32 :=
  if w.next = 0 then UInt32.ofNat (firstPreopen + w.preopens.length) else w.next

end Wasi

namespace Host

/-- Writes several things to memory; the code says whether all of them fit. -/
def store (h : Host) (writes : List (Nat × Text)) : Errno × Host :=
  match h.memory.writeAll writes with
  | (true, memory) => (.success, { h with memory := memory })
  | (false, memory) => (.fault, { h with memory := memory })

/-- Eight bytes, lowest first. -/
def wide (n : Nat) : Text := Wire.Write.littleEndian 8 n

/-- Four bytes, lowest first. -/
def word (n : Nat) : Text := Wire.Write.littleEndian 4 n

/-- The sum of an address and an offset; addresses have 32 bits. -/
def addressPlus (ptr : UInt32) (n : Nat) : Nat := (ptr + UInt32.ofNat n).toNat

/-- Closes a descriptor. Advertised directories and streams stay open. -/
def fdClose (h : Host) (fd : UInt32) : Errno × Host :=
  (.success, { h with wasi := { h.wasi with opened := h.wasi.opened.filter (· != fd) } })

/-- The status of a descriptor: its type and all rights. -/
def fdFdstatGet (h : Host) (fd ptr : UInt32) : Errno × Host :=
  h.store [(ptr.toNat, List.replicate 24 0), (ptr.toNat, [(h.wasi.fileType fd).byte]),
    (addressPlus ptr 8, wide (Nat.pow 2 64 - 1)), (addressPlus ptr 16, wide (Nat.pow 2 64 - 1))]

/-- The metadata of a file: its type, one link, and otherwise zeros. -/
def putFilestat (h : Host) (ptr : UInt32) (type : FileType) : Errno × Host :=
  h.store [(ptr.toNat, List.replicate 64 0), (addressPlus ptr 16, [type.byte]), (addressPlus ptr 24, wide 1)]

/-- Describes the file of `fd`. -/
def fdFilestatGet (h : Host) (fd ptr : UInt32) : Errno × Host :=
  h.putFilestat ptr (h.wasi.fileType fd)

/-- The length of an advertised directory's name. Only here are unknown descriptors refused, so that a
guest can find the last directory by counting up. -/
def fdPrestatGet (h : Host) (fd ptr : UInt32) : Errno × Host :=
  match h.wasi.preopen? fd with
  | none => (.badDescriptor, h)
  | some name => h.store [(ptr.toNat, [0]), (addressPlus ptr 4, word name.length)]

/-- The name of an advertised directory, cut to the size of the buffer. -/
def fdPrestatDirName (h : Host) (fd ptr size : UInt32) : Errno × Host :=
  match h.wasi.preopen? fd with
  | none => (.success, h)
  | some name => h.store [(ptr.toNat, name.take size.toNat)]

/-- Every file is at its end. -/
def fdRead (h : Host) (result : UInt32) : Errno × Host := h.store [(result.toNat, word 0)]

/-- Every file is at its start. -/
def fdSeek (h : Host) (result : UInt32) : Errno × Host := h.store [(result.toNat, wide 0)]

/-- The bytes of the buffers listed at an address, if all of them lie inside. -/
def gather (m : Memory) (list : UInt32) : (count : Nat) → Option Text
  | 0 => some []
  | count + 1 => do
    let ptr ← m.word? list.toNat
    let length ← m.word? (list + 4).toNat
    let data ← m.read? ptr.toNat length.toNat
    let rest ← gather m (list + 8) count
    pure (data ++ rest)

/-- The line to log for what was written: well formed and without line feeds at its end. -/
def logText (data : Text) : Text :=
  (data.repaired.reverse.dropWhile (· == Text.newline)).reverse

/-- The log entry for what was written to a descriptor, if there is something to log. -/
def logEntry (fd : UInt32) (data : Text) : List Log :=
  let text := logText data
  if text.isEmpty then []
  else if fd = 1 then [⟨"info", "guest stdout", text⟩]
  else if fd = 2 then [⟨"warn", "guest stderr", text⟩]
  else []

/-- Writes to a descriptor: what goes to a stream is logged, and the length is stored. -/
def fdWrite (h : Host) (fd list count result : UInt32) : Errno × Host :=
  match gather h.memory list count.toNat with
  | none => (.fault, h)
  | some data =>
    let logged := { h with wasi := { h.wasi with logs := h.wasi.logs ++ logEntry fd data } }
    logged.store [(result.toNat, word data.length)]

/-- Opens a path: a fresh descriptor for an empty file, stored at an address. -/
def pathOpen (h : Host) (result : UInt32) : Errno × Host :=
  let fd := h.wasi.nextDescriptor
  let opened := { h with
    wasi := { h.wasi with opened := h.wasi.opened ++ [fd], next := fd + 1 } }
  opened.store [(result.toNat, word fd.toNat)]

/-- Texts as a table of addresses and a block of texts, each ended by a zero byte. -/
def putTexts (table block : UInt32) : List Text → List (Nat × Text)
  | [] => []
  | t :: rest =>
    (table.toNat, word block.toNat) :: (block.toNat, t ++ [0])
      :: putTexts (table + 4) (block + UInt32.ofNat (t.length + 1)) rest

/-- The bytes that texts take with a zero byte after each. -/
def blockSize (ts : List Text) : Nat := ts.foldr (fun t n => t.length + 1 + n) 0

/-- Stores texts if both the table and the block fit. -/
def textsGet (h : Host) (ts : List Text) (table block : UInt32) : Errno × Host :=
  if h.memory.fits table.toNat (4 * ts.length) && h.memory.fits block.toNat (blockSize ts) then
    h.store (putTexts table block ts)
  else (.fault, h)

/-- The number and total size of texts. -/
def sizesGet (h : Host) (ts : List Text) (count size : UInt32) : Errno × Host :=
  h.store [(count.toNat, word ts.length), (size.toNat, word (blockSize ts))]

/-- The resolution of a clock: a microsecond for the time of day, a nanosecond for elapsed time. -/
def clockResGet (h : Host) (id result : UInt32) : Errno × Host :=
  if id = 0 then h.store [(result.toNat, wide 1000)]
  else if id = 1 then h.store [(result.toNat, wide 1)]
  else (.invalid, h)

/-- The time, which stands still here. -/
def clockTimeGet (h : Host) (id result : UInt32) : Errno × Host :=
  if id = 0 || id = 1 then h.store [(result.toNat, wide 0)] else (.invalid, h)

/-- Random bytes, which are all zero here. -/
def randomGet (h : Host) (buffer length : UInt32) : Errno × Host :=
  if h.memory.fits buffer.toNat length.toNat then
    (.success, { h with memory := h.memory.clear buffer.toNat length.toNat })
  else (.fault, h)

end Host

namespace Wasi

/-- The type of a parameter. -/
inductive ParamType where
  | i32
  | i64
deriving DecidableEq, Repr

/-- The parameters of the functions that a guest can pass on to its callers. -/
def params? (name : Text) : Option (List ParamType) :=
  List.lookup name
    [("args_get", [.i32, .i32]), ("args_sizes_get", [.i32, .i32]),
      ("environ_get", [.i32, .i32]), ("environ_sizes_get", [.i32, .i32]),
      ("clock_res_get", [.i32, .i32]), ("clock_time_get", [.i32, .i64, .i32]),
      ("random_get", [.i32, .i32]), ("fd_close", [.i32]), ("fd_fdstat_get", [.i32, .i32]),
      ("fd_filestat_get", [.i32, .i32]), ("fd_prestat_get", [.i32, .i32]),
      ("fd_prestat_dir_name", [.i32, .i32, .i32]), ("fd_read", [.i32, .i32, .i32, .i32]),
      ("fd_seek", [.i32, .i64, .i32, .i32]),
      ("path_open", [.i32, .i32, .i32, .i32, .i32, .i64, .i64, .i32, .i32]),
      ("path_filestat_get", [.i32, .i32, .i32, .i32, .i32])]

/-- Serves a call by name. -/
def call (name : Text) (args : List UInt64) (h : Host) : Errno × Host :=
  let arg (i : Nat) : UInt32 := ((args[i]?).getD 0).toUInt32
  if name == "args_get" then h.textsGet h.wasi.args (arg 0) (arg 1)
  else if name == "args_sizes_get" then h.sizesGet h.wasi.args (arg 0) (arg 1)
  else if name == "environ_get" then h.textsGet h.wasi.environ (arg 0) (arg 1)
  else if name == "environ_sizes_get" then h.sizesGet h.wasi.environ (arg 0) (arg 1)
  else if name == "clock_res_get" then h.clockResGet (arg 0) (arg 1)
  else if name == "clock_time_get" then h.clockTimeGet (arg 0) (arg 2)
  else if name == "random_get" then h.randomGet (arg 0) (arg 1)
  else if name == "fd_close" then h.fdClose (arg 0)
  else if name == "fd_fdstat_get" then h.fdFdstatGet (arg 0) (arg 1)
  else if name == "fd_filestat_get" then h.fdFilestatGet (arg 0) (arg 1)
  else if name == "fd_prestat_get" then h.fdPrestatGet (arg 0) (arg 1)
  else if name == "fd_prestat_dir_name" then h.fdPrestatDirName (arg 0) (arg 1) (arg 2)
  else if name == "fd_read" then h.fdRead (arg 3)
  else if name == "fd_seek" then h.fdSeek (arg 3)
  else if name == "path_open" then h.pathOpen (arg 8)
  else if name == "path_filestat_get" then h.putFilestat (arg 4) .regularFile
  else (.success, h)

end Wasi

end Transpiler.Guest
