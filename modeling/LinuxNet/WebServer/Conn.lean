import LinuxNet.Lib.CInt
import LinuxNet.Lib.CString

/-!
# The connection object `http_conn`

`Conn` holds the fields of an `http_conn`.  A pointer into `m_read_buf` is an
index, a null pointer is `none`.  Everything a method does outside these
fields is appended to `trace`: its system calls, the changes it makes to the
static `m_user_count`, and its accesses to the two character arrays that C
does not check.  No method reads the trace.
-/

namespace LinuxNet.WebServer

open LinuxNet.CString LinuxNet.CInt

def ascii (text : String) : List UInt8 :=
  text.toList.map fun letter => UInt8.ofNat letter.toNat

def crlf : List UInt8 := [13, 10]

def filenameLen : Nat := 200
def readBufferSize : Nat := 2048
def writeBufferSize : Nat := 1024

/-- `METHOD`; the server only ever sets `GET`. -/
inductive Method where
  | get | post | head | put | delete | trace | options | connect | pathc
  deriving DecidableEq, Repr

inductive CheckState where
  | requestLine
  | header
  | content
  deriving DecidableEq, Repr

inductive LineStatus where
  | lineOk
  | lineBad
  | lineOpen
  deriving DecidableEq, Repr

inductive HttpCode where
  | noRequest
  | getRequest
  | badRequest
  | noResource
  | forbiddenRequest
  | fileRequest
  | internalError
  | closedConnection
  deriving DecidableEq, Repr

/-- The event a client descriptor is armed for, `EPOLLIN` or `EPOLLOUT`. -/
inductive Interest where
  | epollIn
  | epollOut
  deriving DecidableEq, Repr

/-- The value of `m_file_address`: null, `MAP_FAILED`, or a mapping. -/
inductive FileAddress where
  | null
  | mapFailed
  | mapping (address : Nat)
  deriving DecidableEq, Repr

/-- The fields of `struct stat` that the server reads. -/
structure FileStat where
  stMode : Nat
  stSize : Int
  deriving DecidableEq, Repr

structure SockAddr where
  sinAddr : UInt32
  sinPort : UInt16
  deriving DecidableEq, Repr

/-- A byte of a `sockaddr_in` is overwritten: `sin_port` has the offset 2 and
`sin_addr` the offset 4. -/
def SockAddr.store
    (address : SockAddr) (offset : Int) (byte : UInt8) : SockAddr where
  sinAddr :=
    if 4 ≤ offset ∧ offset < 8 then
      .ofInt (setByte address.sinAddr.toNat (offset - 4).toNat byte)
    else
      address.sinAddr
  sinPort :=
    if 2 ≤ offset ∧ offset < 4 then
      .ofInt (setByte address.sinPort.toNat (offset - 2).toNat byte)
    else
      address.sinPort

/-- What an `iov_base` points to. -/
inductive IovBase where
  | writeBuf
  | file (address : FileAddress)
  deriving DecidableEq, Repr

structure Iovec where
  base : IovBase
  len : Nat
  deriving DecidableEq, Repr

/-- What a method does outside the fields of its object. -/
inductive Event where
  /-- `m_read_buf[index] = ..`. -/
  | store (index : Int)
  /-- A C string function starts at an index of `m_read_buf`; the flag tells
  whether a NUL stands at or after it inside the array. -/
  | scan (start : Nat) (terminated : Bool)
  /-- The `int` sum `m_content_length + m_checked_idx`, before wrapping. -/
  | sum (value : Int)
  /-- The size argument of `vsnprintf`. -/
  | vsnprintf (size : Int)
  /-- A successful `mmap`. -/
  | mmap (address : Nat) (length : Int)
  | munmap (address : FileAddress) (length : Int)
  | epollAdd (fd : Int)
  | epollMod (fd : Int) (interest : Interest)
  | epollDel (fd : Int)
  | close (fd : Int)
  /-- Bytes accepted by the socket in one `writev`. -/
  | sent (bytes : List UInt8)
  /-- `write` takes its "response sent" branch. -/
  | responseSent
  | userCount (change : Int)
  deriving DecidableEq, Repr

structure Conn where
  sockfd : Int
  address : SockAddr
  readBuf : List UInt8
  readIdx : Nat
  checkedIdx : Nat
  startLine : Nat
  writeBuf : List UInt8
  writeIdx : Nat
  checkState : CheckState
  method : Method
  realFile : List UInt8
  url : Option Nat
  version : Option Nat
  host : Option Nat
  contentLength : Int
  linger : Bool
  fileAddress : FileAddress
  fileStat : FileStat
  iv0 : Iovec
  iv1 : Iovec
  ivCount : Nat
  trace : List Event

namespace Conn

def emit (c : Conn) (event : Event) : Conn :=
  { c with trace := c.trace ++ [event] }

/-- `m_read_buf[index] = byte`.  In front of the array lie `m_address`, in 16
bytes, and `m_sockfd`, in 4.  Behind it lies `m_read_idx`, which is 2048 when
a NUL is stored into its low byte, so that the store changes nothing.  A store
further away hits another object and is only recorded here. -/
def store (c : Conn) (index : Int) (byte : UInt8) : Conn :=
  let c := c.emit (.store index)
  match index with
  | .ofNat position =>
      { c with readBuf := c.readBuf.set position byte }
  | .negSucc _ =>
      { c with
        sockfd :=
          if -20 ≤ index ∧ index < -16 then
            setByte c.sockfd (index + 20).toNat byte
          else
            c.sockfd
        address := c.address.store (index + 16) byte }

/-- A C string function is started at an index of `m_read_buf`. -/
def scan (c : Conn) (start : Nat) : Conn :=
  c.emit (.scan start (decide (Terminated c.readBuf start)))

/-- The object as the constructor leaves it in zero-filled memory. -/
def zeroed : Conn where
  sockfd := 0
  address := ⟨0, 0⟩
  readBuf := List.replicate readBufferSize 0
  readIdx := 0
  checkedIdx := 0
  startLine := 0
  writeBuf := List.replicate writeBufferSize 0
  writeIdx := 0
  checkState := .requestLine
  method := .get
  realFile := List.replicate filenameLen 0
  url := none
  version := none
  host := none
  contentLength := 0
  linger := false
  fileAddress := .null
  fileStat := ⟨0, 0⟩
  iv0 := ⟨.writeBuf, 0⟩
  iv1 := ⟨.writeBuf, 0⟩
  ivCount := 0
  trace := []

/-- `close_conn(true)`. -/
def closeConn (c : Conn) : Conn :=
  if c.sockfd ≠ -1 then
    let c := c.emit (.epollDel c.sockfd)
    let c := c.emit (.close c.sockfd)
    let c := { c with sockfd := -1 }
    c.emit (.userCount (-1))
  else
    c

/-- `init()`: the fields that a new request starts from. -/
def init (c : Conn) : Conn :=
  { c with
    checkState := .requestLine
    linger := false
    method := .get
    url := none
    version := none
    contentLength := 0
    host := none
    startLine := 0
    checkedIdx := 0
    readIdx := 0
    writeIdx := 0
    readBuf := List.replicate readBufferSize 0
    writeBuf := List.replicate writeBufferSize 0
    realFile := List.replicate filenameLen 0 }

/-- `init(sockfd, addr)`: take over an accepted connection. -/
def initWith (c : Conn) (sockfd : Int) (address : SockAddr) : Conn :=
  let c := { c with sockfd := sockfd, address := address }
  let c := c.emit (.epollAdd sockfd)
  let c := c.emit (.userCount 1)
  c.init

section Fields

variable (c : Conn)

@[simp] theorem emit_trace (event : Event) :
    (c.emit event).trace = c.trace ++ [event] := rfl
@[simp] theorem emit_readBuf (event : Event) :
    (c.emit event).readBuf = c.readBuf := rfl
@[simp] theorem emit_contentLength (event : Event) :
    (c.emit event).contentLength = c.contentLength := rfl
@[simp] theorem emit_linger (event : Event) :
    (c.emit event).linger = c.linger := rfl

/-- A store that does not go in front of the array. -/
theorem store_natCast (index : Nat) (byte : UInt8) :
    c.store (index : Int) byte =
      { c with
        readBuf := c.readBuf.set index byte
        trace := c.trace ++ [.store index] } := rfl

theorem store_trace (index : Int) (byte : UInt8) :
    (c.store index byte).trace = c.trace ++ [.store index] := by
  cases index <;> rfl

/-- What a store leaves alone wherever it goes. -/
theorem store_frame (index : Int) (byte : UInt8) :
    ∃ (sockfd : Int) (address : SockAddr) (memory : List UInt8),
      c.store index byte =
          { c with
            sockfd := sockfd, address := address, readBuf := memory
            trace := c.trace ++ [.store index] } ∧
        (memory = c.readBuf ∨
          ∃ position : Nat,
            index = position ∧ memory = c.readBuf.set position byte) := by
  cases index with
  | ofNat position =>
      exact ⟨_, _, _, rfl, .inr ⟨position, rfl, rfl⟩⟩
  | negSucc back => exact ⟨_, _, _, rfl, .inl rfl⟩

end Fields

end Conn

end LinuxNet.WebServer
