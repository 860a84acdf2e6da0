import LinuxNet.Lib.CString

/-!
# The slots of the two epoll reactors

`epoll_reactor_server.c` and `my_reactor.c` keep a slot for each connection
and switch its callback between `recvdata` and `senddata`.  The functions
below change one slot; the calls of `epoll_ctl` and `close` and the accesses
to `buf` are returned with it.  Each reactor has its own version where the
sources differ.
-/

namespace LinuxNet.Reactor

open LinuxNet.CString

/-- `MAX_BUFSIZE` in both programs. -/
def maxBufsize : Nat := 4096

/-- `EPOLLIN` and `EPOLLOUT`. -/
def epollin : Nat := 1
def epollout : Nat := 4

/-- The functions that `call_back` points to. -/
inductive CallBack where
  | null
  | recvdata
  | senddata
  | acceptconn
  deriving DecidableEq, Repr

/-- `struct myevent_s`; `arg` always points to the slot itself. -/
structure MyEvent where
  fd : Int
  events : Nat
  callBack : CallBack
  status : Nat
  buf : List UInt8
  len : Nat
  lastActive : Int

def MyEvent.zeroed : MyEvent :=
  ⟨0, 0, .null, 0, List.replicate maxBufsize 0, 0, 0⟩

/-- Calls that a slot function makes.  In `unset` the variable `op` has not
been assigned. -/
inductive KernelCall where
  | add (fd : Int) (mask : Nat)
  | del (fd : Int)
  | unset (fd : Int)
  | close (fd : Int)
  deriving DecidableEq, Repr

/-- So many places of `buf` from the first one on. -/
structure Access where
  first : Nat
  count : Nat
  deriving DecidableEq, Repr

/-- No place outside `buf`. -/
def Access.Inside (access : Access) : Prop :=
  access.first + access.count ≤ maxBufsize

/-- What a function leaves of a slot, and what it did. -/
structure Effect where
  slot : MyEvent
  calls : List KernelCall
  accesses : List Access

/-- The functions one after the other. -/
def Effect.andThen (effect : Effect) (next : MyEvent → Effect) : Effect :=
  { slot := (next effect.slot).slot
    calls := effect.calls ++ (next effect.slot).calls
    accesses := effect.accesses ++ (next effect.slot).accesses }

/-- What `recv` returns; the data fit the length asked for. -/
inductive RecvResult where
  | data (bytes : List UInt8)
  | closed
  | failed
  deriving DecidableEq, Repr

/-- `recv` stores at least one byte and at most `sizeof(buf)`. -/
def RecvResult.Possible : RecvResult → Prop
  | .data bytes => 1 ≤ bytes.length ∧ bytes.length ≤ maxBufsize
  | .closed => True
  | .failed => True

instance (result : RecvResult) : Decidable result.Possible := by
  unfold RecvResult.Possible
  cases result <;> infer_instance

/-- What `send` returns: a positive count, or 0 or −1. -/
inductive SendResult where
  | accepts (count : Nat)
  | failed
  deriving DecidableEq, Repr

/-- `send` takes at least one byte and at most those that it is offered. -/
def SendResult.Possible (offered : Nat) : SendResult → Prop
  | .accepts count => 1 ≤ count ∧ count ≤ offered
  | .failed => True

instance (offered : Nat) (result : SendResult) :
    Decidable (result.Possible offered) := by
  unfold SendResult.Possible
  cases result <;> infer_instance

inductive Program where
  | epollReactor
  | myReactor
  deriving DecidableEq, Repr

/-- The assignments of `eventset` and `myeventset`; `buf` and `len` are
cleared unless they are kept. -/
def setSlot (fd : Int) (callBack : CallBack) (keep : Bool) (now : Int)
    (slot : MyEvent) : Effect where
  slot :=
    { fd
      events := 0
      callBack
      status := 0
      buf := if keep then slot.buf else List.replicate maxBufsize 0
      len := if keep then slot.len else 0
      lastActive := now }
  calls := []
  accesses := if keep then [] else [⟨0, maxBufsize⟩]

/-- `eventset` of `epoll_reactor_server.c`. -/
def eventset (fd : Int) (callBack : CallBack) (now : Int) (slot : MyEvent) :
    Effect :=
  setSlot fd callBack (callBack == .senddata) now slot

/-- `myeventset` of `my_reactor.c`. -/
def myeventset (fd : Int) (callBack : CallBack) (keepBuf : Bool) (now : Int)
    (slot : MyEvent) : Effect :=
  setSlot fd callBack keepBuf now slot

/-- `eventadd`, the same in both programs. -/
def eventadd (events : Nat) (slot : MyEvent) : Effect where
  slot :=
    { slot with
      events := events
      status := if slot.status = 0 then 1 else slot.status }
  calls :=
    if slot.status = 0 then [.add slot.fd events] else [.unset slot.fd]
  accesses := []

/-- `eventdel`; `my_reactor.c` calls `epoll_ctl` in any case. -/
def eventdel (program : Program) (slot : MyEvent) : Effect where
  slot := if slot.status = 1 then { slot with status := 0 } else slot
  calls :=
    if slot.status = 1 then
      [.del slot.fd]
    else
      match program with
      | .epollReactor => []
      | .myReactor => [.unset slot.fd]
  accesses := []

/-- `recv(fd, ev->buf, sizeof(ev->buf), 0)`. -/
def receive (result : RecvResult) (slot : MyEvent) : Effect :=
  match result with
  | .data bytes =>
      { slot := { slot with buf := bytes ++ slot.buf.drop bytes.length }
        calls := []
        accesses := [⟨0, bytes.length⟩] }
  | .closed => ⟨slot, [], []⟩
  | .failed => ⟨slot, [], []⟩

/-- `ev->len = len; ev->buf[len] = '\0'` and the `printf` of the string. -/
def terminate (len : Nat) (slot : MyEvent) : Effect where
  slot := { slot with len := len, buf := slot.buf.set len 0 }
  calls := []
  accesses := [⟨len, 1⟩, ⟨0, (cstr (slot.buf.set len 0) 0).length + 1⟩]

/-- `close`. -/
def closeFd (fd : Int) (slot : MyEvent) : Effect :=
  ⟨slot, [.close fd], []⟩

/-- `send(fd, ev->buf, ev->len, 0)`. -/
def transmit (slot : MyEvent) : Effect :=
  ⟨slot, [], [⟨0, slot.len⟩]⟩

/-- The `printf` of `ev->buf` as a string. -/
def printBuf (slot : MyEvent) : Effect :=
  ⟨slot, [], [⟨0, (cstr slot.buf 0).length + 1⟩]⟩

/-- `recvdata`; `my_reactor.c` leaves the descriptor open where `recv`
fails. -/
def recvdata (program : Program) (fd : Int) (result : RecvResult) (now : Int)
    (slot : MyEvent) : Effect :=
  let received := (receive result slot).andThen (eventdel program)
  match result with
  | .data bytes =>
      let stored := received.andThen (terminate bytes.length)
      match program with
      | .epollReactor =>
          (stored.andThen (eventset fd .senddata now)).andThen
            (eventadd epollout)
      | .myReactor =>
          (stored.andThen (myeventset fd .senddata true now)).andThen
            (eventadd epollout)
  | .closed =>
      match program with
      | .epollReactor => received.andThen fun slot => closeFd slot.fd slot
      | .myReactor => received.andThen (closeFd fd)
  | .failed =>
      match program with
      | .epollReactor => received.andThen fun slot => closeFd slot.fd slot
      | .myReactor => received

/-- `senddata`. -/
def senddata (program : Program) (fd : Int) (result : SendResult) (now : Int)
    (slot : MyEvent) : Effect :=
  let sent := (transmit slot).andThen (eventdel program)
  match result with
  | .accepts _ =>
      let printed := sent.andThen printBuf
      match program with
      | .epollReactor =>
          (printed.andThen (eventset fd .recvdata now)).andThen
            (eventadd epollin)
      | .myReactor =>
          (printed.andThen (myeventset fd .recvdata false now)).andThen
            (eventadd epollin)
  | .failed =>
      match program with
      | .epollReactor => sent.andThen fun slot => closeFd slot.fd slot
      | .myReactor => sent.andThen (closeFd fd)

/-- What the timeout check of `main` does to a slot that was not active for
60 seconds. -/
def expire (program : Program) (slot : MyEvent) : Effect :=
  match program with
  | .epollReactor =>
      (closeFd slot.fd slot).andThen (eventdel program)
  | .myReactor =>
      (eventdel program slot).andThen fun slot => closeFd slot.fd slot

/-- What `acceptconn` does to the slot that it gives to a connection. -/
def giveSlot (program : Program) (fd : Int) (now : Int) (slot : MyEvent) :
    Effect :=
  match program with
  | .epollReactor =>
      (eventset fd .recvdata now slot).andThen (eventadd epollin)
  | .myReactor =>
      (myeventset fd .recvdata false now slot).andThen (eventadd epollin)

/-! ## What they leave of a slot that is registered -/

theorem eventdel_of_registered
    {program : Program} {slot : MyEvent} (registered : slot.status = 1) :
    eventdel program slot =
      ⟨{ slot with status := 0 }, [.del slot.fd], []⟩ := by
  unfold eventdel
  rw [if_pos registered, if_pos registered]

/-- Data are stored with a NUL behind them, and the slot waits for
`EPOLLOUT`. -/
theorem recvdata_data
    (program : Program) (fd : Int) (bytes : List UInt8) (now : Int)
    {slot : MyEvent} (registered : slot.status = 1) :
    recvdata program fd (.data bytes) now slot =
      { slot :=
          { fd
            events := epollout
            callBack := .senddata
            status := 1
            buf :=
              (bytes ++ slot.buf.drop bytes.length).set bytes.length 0
            len := bytes.length
            lastActive := now }
        calls := [.del slot.fd, .add fd epollout]
        accesses :=
          [⟨0, bytes.length⟩, ⟨bytes.length, 1⟩,
            ⟨0,
              (cstr
                ((bytes ++ slot.buf.drop bytes.length).set bytes.length 0)
                0).length + 1⟩] } := by
  have removed :
      eventdel program (receive (.data bytes) slot).slot =
        ⟨{ (receive (.data bytes) slot).slot with status := 0 },
          [.del slot.fd], []⟩ :=
    eventdel_of_registered registered
  unfold recvdata
  simp only [Effect.andThen, removed]
  cases program <;> rfl

/-- Where there are no data, the slot is free. -/
theorem recvdata_without_data
    (program : Program) (fd : Int) (now : Int) {result : RecvResult}
    (ends : result = .closed ∨ result = .failed)
    {slot : MyEvent} (registered : slot.status = 1) :
    (recvdata program fd result now slot).slot =
        { slot with status := 0 } ∧
      (recvdata program fd result now slot).accesses = [] := by
  have removed :
      eventdel program slot =
        ⟨{ slot with status := 0 }, [.del slot.fd], []⟩ :=
    eventdel_of_registered registered
  unfold recvdata
  rcases ends with rfl | rfl
  · simp only [Effect.andThen, receive, removed]
    cases program <;> exact ⟨rfl, rfl⟩
  · simp only [Effect.andThen, receive, removed]
    cases program <;> exact ⟨rfl, rfl⟩

/-- The slot waits for `EPOLLIN` with an empty buffer, however much `send`
took. -/
theorem senddata_accepts
    (program : Program) (fd : Int) (count : Nat) (now : Int)
    {slot : MyEvent} (registered : slot.status = 1) :
    senddata program fd (.accepts count) now slot =
      { slot :=
          { fd
            events := epollin
            callBack := .recvdata
            status := 1
            buf := List.replicate maxBufsize 0
            len := 0
            lastActive := now }
        calls := [.del slot.fd, .add fd epollin]
        accesses :=
          [⟨0, slot.len⟩, ⟨0, (cstr slot.buf 0).length + 1⟩,
            ⟨0, maxBufsize⟩] } := by
  have removed :
      eventdel program (transmit slot).slot =
        ⟨{ slot with status := 0 }, [.del slot.fd], []⟩ :=
    eventdel_of_registered registered
  unfold senddata
  simp only [Effect.andThen, removed]
  cases program <;> rfl

theorem senddata_failed
    (program : Program) (fd : Int) (now : Int) {slot : MyEvent}
    (registered : slot.status = 1) :
    (senddata program fd .failed now slot).slot =
        { slot with status := 0 } ∧
      (senddata program fd .failed now slot).accesses =
        [⟨0, slot.len⟩] := by
  have removed :
      eventdel program (transmit slot).slot =
        ⟨{ slot with status := 0 }, [.del slot.fd], []⟩ :=
    eventdel_of_registered registered
  unfold senddata
  simp only [Effect.andThen, removed]
  cases program <;> exact ⟨rfl, rfl⟩

theorem expire_of_registered
    (program : Program) {slot : MyEvent} (registered : slot.status = 1) :
    (expire program slot).slot = { slot with status := 0 } ∧
      (expire program slot).accesses = [] := by
  have removed :
      eventdel program slot =
        ⟨{ slot with status := 0 }, [.del slot.fd], []⟩ :=
    eventdel_of_registered registered
  have removedLast :
      eventdel program (closeFd slot.fd slot).slot =
        ⟨{ slot with status := 0 }, [.del slot.fd], []⟩ :=
    removed
  unfold expire
  simp only [Effect.andThen, removed, removedLast]
  cases program <;> exact ⟨rfl, rfl⟩

theorem giveSlot_eq
    (program : Program) (fd : Int) (now : Int) (slot : MyEvent) :
    giveSlot program fd now slot =
      { slot :=
          { fd
            events := epollin
            callBack := .recvdata
            status := 1
            buf := List.replicate maxBufsize 0
            len := 0
            lastActive := now }
        calls := [.add fd epollin]
        accesses := [⟨0, maxBufsize⟩] } := by
  cases program <;> rfl

end LinuxNet.Reactor
