import LinuxNet.Lib.CString
import LinuxNet.Lib.EventBatch
import LinuxNet.Lib.Simulation
import LinuxNet.Lib.Sockets

/-!
# The level-triggered epoll server

`main` fetches up to `MAX_CLIENTS` events and handles them in order.  An event
of the listening descriptor adds a client to the epoll instance, an event of a
client leads to one `Read`, and what it returns is sent back in capital
letters or ends the connection.  Each system call of `main` is a step here,
and the clients go on in between.
-/

namespace LinuxNet.Multiplex

open LinuxNet.CString LinuxNet.EchoService LinuxNet.EventBatch
open LinuxNet.StepSystem

namespace EpollServer

/-- `MAX_BUFSIZE`, the size of `buf`. -/
def maxBufsize : Nat := 1024

/-- `MAX_CLIENTS`, the length of `clients_events`. -/
def maxEvents : Nat := 1024

/-- Where `main` stands: in the loop over the events, with those that are
left; or behind a call for the first of them, with the next call to make. -/
inductive MainAt where
  | events (fds : List Nat)
  | add (clientFd : Nat) (later : List Nat)
  | write (fd : Nat) (buf : List UInt8) (later : List Nat)
  | del (fd : Nat) (later : List Nat)
  | close (fd : Nat) (later : List Nat)
  deriving DecidableEq, Repr

/-- A call of `main` with what it returns.  `none` stands for −1, which
`Accept` does not return after a signal; `killed` is SIGPIPE at a `Write` to a
client that is gone. -/
inductive Call where
  | epollWait (ready : Option (List Nat))
  | accept (clientFd : Option Nat)
  | add (succeeds : Bool)
  | read (returned : ReadReturn)
  | write (count : Nat)
  | killed
  | del
  | close
  deriving DecidableEq, Repr

/-- A client sends or ends its stream, or `main` makes a call. -/
inductive Label where
  | arrives (conn : Nat) (bytes : List UInt8)
  | finishes (conn : Nat)
  | main (call : Call)
  deriving DecidableEq, Repr

end EpollServer

/-- The server: `main`, the descriptors in its epoll instance and its
sockets. -/
structure EpollServer where
  mainAt : EpollServer.MainAt
  exited : Bool
  watched : Nat → Bool
  sockets : Sockets UInt8 UInt8

namespace EpollServer

/-- In front of the loop, with the listening descriptor added. -/
def start (listenFd : Nat) : EpollServer :=
  ⟨.events [], false, fun fd => fd == listenFd, .none⟩

/-- `perr_exit`. -/
def exit (server : EpollServer) : EpollServer :=
  { server with exited := true }

/-- `epoll_wait` reports some of the watched descriptors, each of them once;
which ones are ready is left to the label. -/
def epollWait (server : EpollServer) (ready : Option (List Nat)) :
    Option EpollServer :=
  match server.mainAt, ready with
  | .events [], some fds =>
      if fds ≠ [] ∧ fds.length ≤ maxEvents ∧ fds.Nodup ∧
          ∀ fd ∈ fds, server.watched fd = true then
        some { server with mainAt := .events fds }
      else
        none
  | .events [], none => some server.exit
  | _, _ => none

/-- `Accept`. -/
def accept
    (listenFd : Nat) (server : EpollServer) (clientFd : Option Nat) :
    Option EpollServer :=
  match server.mainAt, clientFd with
  | .events (fd :: later), some clientFd =>
      if fd = listenFd ∧ clientFd ≠ listenFd then
        (server.sockets.accept clientFd).map fun sockets =>
          { server with mainAt := .add clientFd later, sockets := sockets }
      else
        none
  | .events (fd :: _), none =>
      if fd = listenFd then some server.exit else none
  | _, _ => none

/-- `epoll_ctl` with `EPOLL_CTL_ADD`, which fails for a descriptor that is
there already, and may fail for want of memory. -/
def add (server : EpollServer) (succeeds : Bool) : Option EpollServer :=
  match server.mainAt with
  | .add fd later =>
      if succeeds = true ∧ server.watched fd = false then
        some
          { server with
            mainAt := .events later
            watched := Function.update server.watched fd true }
      else
        some server.exit
  | _ => none

/-- `Read`; another error than EINTR leads to the next event. -/
def read (listenFd : Nat) (server : EpollServer) (returned : ReadReturn) :
    Option EpollServer :=
  match server.mainAt with
  | .events (fd :: later) =>
      if fd = listenFd then
        none
      else
        match returned with
        | .items count =>
            if count ≤ maxBufsize then
              (server.sockets.read fd count).map fun taken =>
                { server with
                  mainAt := .write fd taken.1 later
                  sockets := taken.2 }
            else
              none
        | .zero =>
            if server.sockets.AtEnd fd then
              some { server with mainAt := .del fd later }
            else
              none
        | .error => some { server with mainAt := .events later }
  | _ => none

/-- The loop over `buf` and the `Write` behind it, of which the socket takes
the given number of bytes; the result is not looked at. -/
def write (server : EpollServer) (count : Nat) : Option EpollServer :=
  match server.mainAt with
  | .write fd buf later =>
      some
        { server with
          mainAt := .events later
          sockets :=
            server.sockets.write fd ((buf.map toupper).take count) }
  | _ => none

/-- `epoll_ctl` with `EPOLL_CTL_DEL`. -/
def del (server : EpollServer) : Option EpollServer :=
  match server.mainAt with
  | .del fd later =>
      if server.watched fd = true then
        some
          { server with
            mainAt := .close fd later
            watched := Function.update server.watched fd false }
      else
        some server.exit
  | _ => none

/-- `Close`. -/
def close (server : EpollServer) : Option EpollServer :=
  match server.mainAt with
  | .close fd later =>
      match server.sockets.close fd with
      | some sockets =>
          some { server with mainAt := .events later, sockets := sockets }
      | none => some server.exit
  | _ => none

/-- The signal at a `Write`. -/
def killed (server : EpollServer) : Option EpollServer :=
  match server.mainAt with
  | .write _ _ _ => some server.exit
  | _ => none

def call (listenFd : Nat) (server : EpollServer) :
    Call → Option EpollServer
  | .epollWait ready => server.epollWait ready
  | .accept clientFd => server.accept listenFd clientFd
  | .add succeeds => server.add succeeds
  | .read returned => server.read listenFd returned
  | .write count => server.write count
  | .killed => server.killed
  | .del => server.del
  | .close => server.close

def step (listenFd : Nat) (server : EpollServer) :
    Label → Option EpollServer
  | .arrives conn bytes =>
      (server.sockets.arrive conn bytes).map fun sockets =>
        { server with sockets := sockets }
  | .finishes conn =>
      some { server with sockets := server.sockets.finish conn }
  | .main call =>
      if server.exited then none else server.call listenFd call

/-- The results that end the program. -/
def Call.Fatal : Call → Prop
  | .epollWait none | .accept none | .add false | .killed => True
  | .epollWait (some _) | .accept (some _) | .add true | .read _ | .write _
  | .del | .close => False

/-! ## The epoll instance over a run -/

/-- The events that are not handled yet; a client's event is handled once its
descriptor has been written to or taken out of the epoll instance. -/
def MainAt.pending : MainAt → List Nat
  | .events fds => fds
  | .add _ later => later
  | .write fd _ later => fd :: later
  | .del fd later => fd :: later
  | .close _ later => later

/-- The open client descriptor that is not in the epoll instance. -/
def MainAt.unwatched : MainAt → Option Nat
  | .add fd _ | .close fd _ => some fd
  | .events _ | .write _ _ _ | .del _ _ => none

/-- The client that `main` is in the middle of. -/
def MainAt.client : MainAt → Option Nat
  | .events _ => none
  | .add fd _ | .write fd _ _ | .del fd _ | .close fd _ => some fd

def batch (server : EpollServer) : Batch :=
  ⟨server.watched, server.mainAt.pending⟩

/-- The epoll instance holds the listening descriptor and the open client
descriptors, but for the one that `main` is adding or has taken out; each
pending event is for a descriptor of its own that is in there. -/
structure Valid (listenFd : Nat) (server : EpollServer) : Prop where
  coherent : server.sockets.Coherent
  fresh : Fresh server.batch
  listening : ¬ server.sockets.IsOpen listenFd
  watched_iff :
    ∀ fd, server.watched fd = true ↔
      fd = listenFd ∨
        server.sockets.IsOpen fd ∧ server.mainAt.unwatched ≠ some fd
  client_open :
    ∀ fd, server.mainAt.client = some fd → server.sockets.IsOpen fd

inductive Took (listenFd : Nat) :
    EpollServer → Label → EpollServer → Prop
  | arrives {server : EpollServer} {conn : Nat} {bytes : List UInt8}
      {sockets : Sockets UInt8 UInt8}
      (arrived : server.sockets.arrive conn bytes = some sockets) :
      Took listenFd server (.arrives conn bytes)
        { server with sockets := sockets }
  | finishes (server : EpollServer) (conn : Nat) :
      Took listenFd server (.finishes conn)
        { server with sockets := server.sockets.finish conn }
  | fetched {watched : Nat → Bool} {sockets : Sockets UInt8 UInt8}
      {fds : List Nat} (distinct : fds.Nodup)
      (reported : ∀ fd ∈ fds, watched fd = true) :
      Took listenFd ⟨.events [], false, watched, sockets⟩
        (.main (.epollWait (some fds)))
        ⟨.events fds, false, watched, sockets⟩
  | accepted {watched : Nat → Bool} {sockets : Sockets UInt8 UInt8}
      {later : List Nat} {clientFd : Nat}
      (free : sockets.peerOf clientFd = none)
      (different : clientFd ≠ listenFd) :
      Took listenFd ⟨.events (listenFd :: later), false, watched, sockets⟩
        (.main (.accept (some clientFd)))
        ⟨.add clientFd later, false, watched, sockets.joined clientFd⟩
  | added {watched : Nat → Bool} {sockets : Sockets UInt8 UInt8}
      {later : List Nat} {fd : Nat} (new : watched fd = false) :
      Took listenFd ⟨.add fd later, false, watched, sockets⟩
        (.main (.add true))
        ⟨.events later, false, Function.update watched fd true, sockets⟩
  | readBytes {watched : Nat → Bool}
      {sockets read : Sockets UInt8 UInt8} {later : List Nat}
      {fd count : Nat} {buf : List UInt8} (different : fd ≠ listenFd)
      (isRead : sockets.read fd count = some (buf, read)) :
      Took listenFd ⟨.events (fd :: later), false, watched, sockets⟩
        (.main (.read (.items count)))
        ⟨.write fd buf later, false, watched, read⟩
  | readZero {watched : Nat → Bool} {sockets : Sockets UInt8 UInt8}
      {later : List Nat} {fd : Nat} (different : fd ≠ listenFd)
      (atEnd : sockets.AtEnd fd) :
      Took listenFd ⟨.events (fd :: later), false, watched, sockets⟩
        (.main (.read .zero)) ⟨.del fd later, false, watched, sockets⟩
  | readError {watched : Nat → Bool} {sockets : Sockets UInt8 UInt8}
      {later : List Nat} {fd : Nat} (different : fd ≠ listenFd) :
      Took listenFd ⟨.events (fd :: later), false, watched, sockets⟩
        (.main (.read .error)) ⟨.events later, false, watched, sockets⟩
  | written {watched : Nat → Bool} {sockets : Sockets UInt8 UInt8}
      {later : List Nat} {fd : Nat} {buf : List UInt8} (count : Nat) :
      Took listenFd ⟨.write fd buf later, false, watched, sockets⟩
        (.main (.write count))
        ⟨.events later, false, watched,
          sockets.write fd ((buf.map toupper).take count)⟩
  | deleted {watched : Nat → Bool} {sockets : Sockets UInt8 UInt8}
      {later : List Nat} {fd : Nat} (there : watched fd = true) :
      Took listenFd ⟨.del fd later, false, watched, sockets⟩ (.main .del)
        ⟨.close fd later, false, Function.update watched fd false, sockets⟩
  | closed {watched : Nat → Bool} {sockets : Sockets UInt8 UInt8}
      {later : List Nat} {fd conn : Nat}
      (isPeer : sockets.peerOf fd = some conn) :
      Took listenFd ⟨.close fd later, false, watched, sockets⟩
        (.main .close)
        ⟨.events later, false, watched, sockets.parted fd conn⟩
  | ended {server : EpollServer} {call : Call} (fatal : call.Fatal) :
      Took listenFd server (.main call) server.exit

variable {listenFd : Nat} {server next : EpollServer} {label : Label}

theorem valid_start (listenFd : Nat) : (start listenFd).Valid listenFd where
  coherent := Sockets.coherent_none
  fresh := fresh_nil _
  listening := nofun
  watched_iff := fun _ =>
    ⟨fun watched => Or.inl (beq_iff_eq.mp watched),
      fun either => either.elim beq_iff_eq.mpr nofun⟩
  client_open := nofun

theorem took_epollWait
    (runs : server.exited = false) {ready : Option (List Nat)}
    (called : server.epollWait ready = some next) :
    Took listenFd server (.main (.epollWait ready)) next := by
  obtain ⟨mainAt, exited, watched, sockets⟩ := server
  cases runs
  unfold epollWait at called
  split at called
  · next fds waits =>
      cases waits
      obtain ⟨⟨_, _, distinct, reported⟩, isNext⟩ :=
        Option.ite_none_right_eq_some.mp called
      cases isNext
      exact .fetched distinct reported
  · cases called
    exact .ended trivial
  · cases called

theorem took_accept
    (runs : server.exited = false) {clientFd : Option Nat}
    (called : server.accept listenFd clientFd = some next) :
    Took listenFd server (.main (.accept clientFd)) next := by
  obtain ⟨mainAt, exited, watched, sockets⟩ := server
  cases runs
  unfold accept at called
  split at called
  · next fd later clientFd handles =>
      cases handles
      obtain ⟨⟨rfl, different⟩, isNext⟩ :=
        Option.ite_none_right_eq_some.mp called
      obtain ⟨joined, accepted, rfl⟩ := Option.map_eq_some_iff.mp isNext
      obtain ⟨free, rfl⟩ := Sockets.accept_eq_some accepted
      exact .accepted free different
  · obtain ⟨_, isNext⟩ := Option.ite_none_right_eq_some.mp called
    cases isNext
    exact .ended trivial
  · cases called

theorem took_read
    (runs : server.exited = false) {returned : ReadReturn}
    (called : server.read listenFd returned = some next) :
    Took listenFd server (.main (.read returned)) next := by
  obtain ⟨mainAt, exited, watched, sockets⟩ := server
  cases runs
  unfold read at called
  split at called
  · next fd later handles =>
      cases handles
      obtain ⟨different, called⟩ := Option.ite_none_left_eq_some.mp called
      cases returned with
      | items count =>
          obtain ⟨_, isNext⟩ := Option.ite_none_right_eq_some.mp called
          obtain ⟨taken, isRead, rfl⟩ := Option.map_eq_some_iff.mp isNext
          exact .readBytes different isRead
      | zero =>
          obtain ⟨atEnd, isNext⟩ := Option.ite_none_right_eq_some.mp called
          cases isNext
          exact .readZero different atEnd
      | error =>
          cases called
          exact .readError different
  · cases called

theorem took_write
    (runs : server.exited = false) {count : Nat}
    (called : server.write count = some next) :
    Took listenFd server (.main (.write count)) next := by
  obtain ⟨mainAt, exited, watched, sockets⟩ := server
  cases runs
  unfold write at called
  split at called
  · next fd buf later handles =>
      cases handles
      cases called
      exact .written count
  · cases called

theorem took_killed (called : server.killed = some next) :
    Took listenFd server (.main .killed) next := by
  unfold killed at called
  split at called
  · cases called
    exact .ended trivial
  · cases called

/-- A descriptor that is being added is not in the epoll instance yet. -/
theorem Valid.took_add
    (valid : server.Valid listenFd) (runs : server.exited = false)
    {succeeds : Bool} (called : server.add succeeds = some next) :
    Took listenFd server (.main (.add succeeds)) next := by
  obtain ⟨mainAt, exited, watched, sockets⟩ := server
  cases runs
  unfold add at called
  split at called
  · next fd later adds =>
      cases adds
      have new : watched fd = false := by
        rw [← Bool.not_eq_true]
        intro there
        rcases (valid.watched_iff fd).mp there with rfl | ⟨_, other⟩
        · exact valid.listening (valid.client_open _ rfl)
        · exact other rfl
      cases succeeds with
      | true =>
          rw [if_pos ⟨rfl, new⟩] at called
          cases called
          exact .added new
      | false =>
          cases called
          exact .ended trivial
  · cases called

/-- A client that is being taken out is in the epoll instance. -/
theorem Valid.took_del
    (valid : server.Valid listenFd) (runs : server.exited = false)
    (called : server.del = some next) :
    Took listenFd server (.main .del) next := by
  obtain ⟨mainAt, exited, watched, sockets⟩ := server
  cases runs
  unfold del at called
  split at called
  · next fd later dels =>
      cases dels
      have there : watched fd = true :=
        valid.fresh.watched fd List.mem_cons_self
      rw [if_pos there] at called
      cases called
      exact .deleted there
  · cases called

/-- A client that is being closed is open. -/
theorem Valid.took_close
    (valid : server.Valid listenFd) (runs : server.exited = false)
    (called : server.close = some next) :
    Took listenFd server (.main .close) next := by
  obtain ⟨mainAt, exited, watched, sockets⟩ := server
  cases runs
  unfold close at called
  split at called
  · next fd later closes =>
      cases closes
      obtain ⟨conn, isPeer⟩ := valid.client_open fd rfl
      change sockets.peerOf fd = some conn at isPeer
      simp only [Sockets.close_of_peer isPeer] at called
      cases called
      exact .closed isPeer
  · cases called

/-- No step fails by the fault of the program. -/
theorem Valid.took
    (valid : server.Valid listenFd)
    (stepped : server.step listenFd label = some next) :
    Took listenFd server label next := by
  cases label with
  | arrives conn bytes =>
      obtain ⟨sockets, arrived, rfl⟩ := Option.map_eq_some_iff.mp stepped
      exact .arrives arrived
  | finishes conn =>
      cases stepped
      exact .finishes server conn
  | main call =>
      obtain ⟨runs, called⟩ := Option.ite_none_left_eq_some.mp stepped
      have runs := eq_false_of_ne_true runs
      cases call with
      | epollWait ready => exact took_epollWait runs called
      | accept clientFd => exact took_accept runs called
      | add succeeds => exact valid.took_add runs called
      | read returned => exact took_read runs called
      | write count => exact took_write runs called
      | killed => exact took_killed called
      | del => exact valid.took_del runs called
      | close => exact valid.took_close runs called

theorem Took.moves (took : Took listenFd server label next) :
    Moves server.batch next.batch := by
  cases took with
  | arrives arrived => exact .stays _
  | finishes conn => exact .stays _
  | fetched distinct reported => exact .fetches distinct reported
  | accepted free different => exact .handles _ _ _
  | added new => exact .watches _ _ _
  | readBytes different isRead => exact .stays _
  | readZero different atEnd => exact .stays _
  | readError different => exact .handles _ _ _
  | written count => exact .handles _ _ _
  | deleted there => exact .forgets _ _ _
  | closed isPeer => exact .stays _
  | ended fatal => exact .stays _

/-- A step that leaves the open descriptors and the epoll instance as they
are. -/
theorem Valid.of_same
    (valid : server.Valid listenFd) (fresh : Fresh next.batch)
    (sockets : server.sockets.Kept next.sockets)
    (watched : next.watched = server.watched)
    (unwatched : next.mainAt.unwatched = server.mainAt.unwatched)
    (client :
      ∀ fd, next.mainAt.client = some fd → server.sockets.IsOpen fd) :
    next.Valid listenFd := by
  have isOpen :
      ∀ fd, next.sockets.IsOpen fd ↔ server.sockets.IsOpen fd := by
    intro fd
    unfold Sockets.IsOpen
    rw [sockets.peerOf_eq]
  refine ⟨sockets.coherent, fresh, ?_, ?_, ?_⟩
  · rw [isOpen]
    exact valid.listening
  · intro fd
    rw [watched, unwatched, isOpen]
    exact valid.watched_iff fd
  · intro fd isClient
    rw [isOpen]
    exact client fd isClient

theorem Took.valid
    (took : Took listenFd server label next)
    (valid : server.Valid listenFd) : next.Valid listenFd := by
  have fresh := valid.fresh.move took.moves
  have coherent := valid.coherent
  cases took with
  | arrives arrived =>
      exact
        valid.of_same fresh (coherent.arrive arrived) rfl rfl
          valid.client_open
  | finishes conn =>
      exact
        valid.of_same fresh (coherent.finish _) rfl rfl
          valid.client_open
  | fetched distinct reported =>
      exact valid.of_same fresh coherent.kept rfl rfl nofun
  | @accepted watched sockets later clientFd free different =>
      have closed : ¬ sockets.IsOpen clientFd := by
        rintro ⟨conn, isPeer⟩
        rw [free] at isPeer
        cases isPeer
      refine
        ⟨coherent.accept (Sockets.accept_of_free free), fresh, ?_, fun fd => ?_,
          fun fd isClient => ?_⟩
      · rw [Sockets.isOpen_joined]
        rintro (same | isOpen)
        · exact different same.symm
        · exact valid.listening isOpen
      · have before := valid.watched_iff fd
        rw [Sockets.isOpen_joined]
        constructor
        · intro there
          rcases before.mp there with same | ⟨isOpen, _⟩
          · exact Or.inl same
          · refine Or.inr ⟨Or.inr isOpen, fun same => ?_⟩
            cases same
            exact closed isOpen
        · rintro (same | ⟨rfl | isOpen, other⟩)
          · exact before.mpr (Or.inl same)
          · exact absurd rfl other
          · exact before.mpr (Or.inr ⟨isOpen, nofun⟩)
      · cases isClient
        exact Sockets.isOpen_joined.mpr (Or.inl rfl)
  | @added watched sockets later fd new =>
      refine
        ⟨coherent, fresh, valid.listening, fun other => ?_, nofun⟩
      have before := valid.watched_iff other
      show Function.update watched fd true other = true ↔ _
      by_cases same : other = fd
      · subst same
        exact
          iff_of_true (Function.update_self other true watched)
            (Or.inr ⟨valid.client_open other rfl, nofun⟩)
      · rw [Function.update_of_ne same]
        refine before.trans (or_congr_right (and_congr_right fun _ => ?_))
        exact iff_of_true (fun same' => same (Option.some.inj same').symm) nofun
  | readBytes different isRead =>
      obtain ⟨peer, isPeer, _⟩ := Sockets.read_eq_some isRead
      refine valid.of_same fresh (coherent.read isRead) rfl rfl ?_
      intro fd isClient
      cases isClient
      exact ⟨peer, isPeer⟩
  | readZero different atEnd =>
      obtain ⟨peer, isPeer, _⟩ := atEnd
      refine valid.of_same fresh coherent.kept rfl rfl ?_
      intro fd isClient
      cases isClient
      exact ⟨peer, isPeer⟩
  | readError different =>
      exact valid.of_same fresh coherent.kept rfl rfl nofun
  | written count =>
      exact valid.of_same fresh (coherent.write _ _) rfl rfl nofun
  | @deleted watched sockets later fd there =>
      refine
        ⟨coherent, fresh, valid.listening, fun other => ?_,
          valid.client_open⟩
      have before := valid.watched_iff other
      show Function.update watched fd false other = true ↔ _
      by_cases same : other = fd
      · subst same
        rw [Function.update_self]
        refine iff_of_false nofun ?_
        rintro (rfl | ⟨_, unwatched⟩)
        · exact valid.listening (valid.client_open other rfl)
        · exact unwatched rfl
      · rw [Function.update_of_ne same]
        refine before.trans (or_congr_right (and_congr_right fun _ => ?_))
        exact iff_of_true nofun (fun same' => same (Option.some.inj same').symm)
  | @closed watched sockets later fd conn isPeer =>
      refine
        ⟨coherent.close isPeer (Sockets.close_of_peer isPeer), fresh, ?_,
          fun other => ?_, nofun⟩
      · rw [Sockets.isOpen_parted]
        exact fun isOpen => valid.listening isOpen.2
      · have before := valid.watched_iff other
        rw [Sockets.isOpen_parted]
        refine before.trans (or_congr_right ?_)
        constructor
        · rintro ⟨isOpen, unwatched⟩
          exact ⟨⟨fun same => unwatched (congrArg some same.symm), isOpen⟩, nofun⟩
        · rintro ⟨⟨other, isOpen⟩, _⟩
          exact ⟨isOpen, fun same => other (Option.some.inj same).symm⟩
  | ended fatal =>
      exact
        valid.of_same fresh coherent.kept rfl rfl valid.client_open

theorem Valid.step
    (valid : server.Valid listenFd)
    (stepped : server.step listenFd label = some next) :
    next.Valid listenFd :=
  (valid.took stepped).valid valid

theorem valid_run
    {labels : List Label} {last : EpollServer}
    (ran : run (step listenFd) (start listenFd) labels = some last) :
    last.Valid listenFd :=
  run_keeps (fun server => server.Valid listenFd)
    (fun _ _ _ valid stepped => valid.step stepped) (valid_start listenFd) ran

/-- A pending event is for the listening descriptor or for an open client. -/
theorem Valid.open_of_pending
    (valid : server.Valid listenFd) {fd : Nat}
    (pending : fd ∈ server.mainAt.pending) :
    fd = listenFd ∨ server.sockets.IsOpen fd :=
  ((valid.watched_iff fd).mp (valid.fresh.watched fd pending)).imp_right
    And.left

/-- The connection behind a pending descriptor stays the same until the event
has been handled. -/
theorem Took.peerOf_pending
    (took : Took listenFd server label next)
    (valid : server.Valid listenFd) {fd : Nat}
    (pending : fd ∈ next.mainAt.pending)
    (before : fd ∈ server.mainAt.pending) :
    next.sockets.peerOf fd = server.sockets.peerOf fd := by
  have isOpen := valid.open_of_pending before
  have listening := valid.listening
  cases took with
  | arrives arrived =>
      exact congrFun (valid.coherent.arrive arrived).peerOf_eq fd
  | finishes conn => rfl
  | fetched distinct reported => rfl
  | @accepted watched sockets later clientFd free different =>
      -- The number is neither the listening one nor an open one.
      apply Function.update_of_ne
      rintro rfl
      rcases isOpen with same | ⟨conn, isPeer⟩
      · exact different same
      · rw [free] at isPeer
        cases isPeer
  | added new => rfl
  | readBytes different isRead =>
      exact congrFun (valid.coherent.read isRead).peerOf_eq fd
  | readZero different atEnd => rfl
  | readError different => rfl
  | written count => exact congrFun (valid.coherent.write _ _).peerOf_eq fd
  | deleted there => rfl
  | @closed watched sockets later closedFd conn isPeer =>
      apply Function.update_of_ne
      rintro rfl
      -- The client that is closed is not watched any more.
      have there := valid.fresh.watched fd before
      rcases (valid.watched_iff fd).mp there with same | ⟨_, other⟩
      · exact listening (same ▸ ⟨conn, isPeer⟩)
      · exact other rfl
  | ended fatal => rfl

/-- While `main` works through a batch no event of it goes stale: what is left
is a part of what was left before, each descriptor once, and each of these is
still in the epoll instance and stands for the same connection, although
descriptors have been closed and numbers given out anew in between. -/
theorem events_never_stale
    {labels : List Label}
    (ran : run (step listenFd) (start listenFd) labels = some server)
    (stepped : server.step listenFd label = some next)
    (busy : server.mainAt.pending ≠ []) :
    next.mainAt.pending <:+ server.mainAt.pending ∧
      next.mainAt.pending.Nodup ∧
        ∀ fd ∈ next.mainAt.pending,
          next.watched fd = true ∧
            (fd ≠ listenFd → next.sockets.IsOpen fd) ∧
              next.sockets.peerOf fd = server.sockets.peerOf fd := by
  have valid := valid_run ran
  have took := valid.took stepped
  have validNext := took.valid valid
  have suffix := took.moves.pending_suffix busy
  refine ⟨suffix, validNext.fresh.distinct, fun fd pending => ?_⟩
  exact
    ⟨validNext.fresh.watched fd pending,
      fun different =>
        (validNext.open_of_pending pending).resolve_left different,
      took.peerOf_pending valid pending (suffix.subset pending)⟩

/-- The client on 4 leaves, and its number goes to the next client within one
batch, in front of the event of the client on 5. -/
def numberReused : List Label :=
  [.main (.epollWait (some [3])), .main (.accept (some 4)),
    .main (.add true), .main (.epollWait (some [3])),
    .main (.accept (some 5)), .main (.add true), .finishes 0,
    .arrives 1 [97], .main (.epollWait (some [4, 3, 5])),
    .main (.read .zero), .main .del, .main .close,
    .main (.accept (some 4))]

theorem events_never_stale_reused :
    ∃ server next,
      run (step 3) (start 3) numberReused = some server ∧
        server.step 3 (.main (.add true)) = some next ∧
          next.mainAt.pending <:+ server.mainAt.pending ∧
            next.mainAt.pending.Nodup ∧
              ∀ fd ∈ next.mainAt.pending,
                next.watched fd = true ∧
                  (fd ≠ 3 → next.sockets.IsOpen fd) ∧
                    next.sockets.peerOf fd = server.sockets.peerOf fd := by
  refine ⟨_, _, rfl, rfl, ?_⟩
  exact
    @events_never_stale 3 _ _ (.main (.add true)) numberReused rfl rfl
      (by decide)

theorem Took.fatal_of_exited
    (took : Took listenFd server label next) (exited : next.exited = true) :
    server.exited = true ∨ ∃ call, label = .main call ∧ call.Fatal := by
  cases took with
  | arrives arrived => exact Or.inl exited
  | finishes conn => exact Or.inl exited
  | ended fatal => exact Or.inr ⟨_, rfl, fatal⟩
  | _ => cases exited

/-- The program ends only where a call fails for want of something outside,
never at `EPOLL_CTL_DEL` or `Close`; as long as it runs, its epoll instance
holds the listening descriptor and the open clients whenever it comes to the
next event. -/
theorem watches_the_open_clients
    {labels : List Label} {last : EpollServer}
    (ran : run (step listenFd) (start listenFd) labels = some last) :
    (last.exited = true →
        ∃ call, Label.main call ∈ labels ∧ call.Fatal) ∧
      ∀ fds, last.mainAt = .events fds →
        ∀ fd, last.watched fd = true ↔
          fd = listenFd ∨ last.sockets.IsOpen fd := by
  constructor
  · intro exited
    obtain ⟨label, member, call, rfl, fatal⟩ :=
      exists_cause_of_run (fun server => server.Valid listenFd)
        (fun server => server.exited = true)
        (fun _ _ _ valid stepped => valid.step stepped)
        (fun _ _ _ valid stepped exited =>
          (valid.took stepped).fatal_of_exited exited)
        (valid_start listenFd) Bool.false_ne_true ran exited
    exact ⟨call, member, fatal⟩
  · intro fds between fd
    rw [(valid_run ran).watched_iff fd, between]
    exact or_congr_right (and_iff_left nofun)

theorem watches_the_open_clients_reused :
    ∃ last,
      run (step 3) (start 3) numberReused = some last ∧
        (last.exited = true →
          ∃ call, Label.main call ∈ numberReused ∧ call.Fatal) ∧
        ∀ fds, last.mainAt = .events fds →
          ∀ fd, last.watched fd = true ↔
            fd = 3 ∨ last.sockets.IsOpen fd :=
  ⟨_, rfl, @watches_the_open_clients 3 numberReused _ rfl⟩

/-! ## The clients' streams -/

/-- What `main` holds for each client. -/
def hands (server : EpollServer) : Nat → Hand UInt8 :=
  match server.mainAt with
  | .events _ | .add _ _ => fun _ => .nothing
  | .write fd buf _ => server.sockets.inHand fd (.items buf)
  | .del fd _ | .close fd _ => server.sockets.inHand fd .theEnd

/-- The server as a service to its clients. -/
def view (server : EpollServer) : Service UInt8 UInt8 :=
  server.sockets.service server.hands

def onClient (server : EpollServer) (act : Act UInt8) :
    List (Nat × Act UInt8) :=
  match server.mainAt with
  | .events [] => []
  | .events (fd :: _) | .add fd _ | .write fd _ _ | .del fd _
  | .close fd _ => server.sockets.onPeer fd act

def acts (server : EpollServer) : Label → List (Nat × Act UInt8)
  | .arrives conn bytes => [(conn, .arrives bytes)]
  | .finishes conn => [(conn, .finishes)]
  | .main (.accept (some _)) => [(server.sockets.next, .accepts)]
  | .main (.read (.items count)) => server.onClient (.reads count)
  | .main (.read .zero) => server.onClient .readsEnd
  | .main (.write count) => server.onClient (.writes count)
  | .main .close => server.onClient .closes
  | .main _ => []

/-- A `Write` to a client is taken whole. -/
def TakesAll (server : EpollServer) : Label → Prop
  | .main (.write count) =>
      ∀ fd buf later, server.mainAt = .write fd buf later →
        buf.length ≤ count
  | _ => True

/-- What is in hand depends on the place of `main` and the descriptors. -/
theorem hands_congr
    (mainAt : next.mainAt = server.mainAt)
    (peerOf : next.sockets.peerOf = server.sockets.peerOf) :
    next.hands = server.hands := by
  unfold hands
  rw [mainAt]
  split
  · rfl
  · rfl
  · exact Sockets.inHand_congr peerOf _ _
  · exact Sockets.inHand_congr peerOf _ _
  · exact Sockets.inHand_congr peerOf _ _

theorem Took.run_acts
    (took : Took listenFd server label next)
    (valid : server.Valid listenFd) :
    run (Service.step toupper) server.view (server.acts label) =
      some next.view := by
  have coherent := valid.coherent
  cases took with
  | @arrives server conn bytes sockets arrived =>
      have same :
          hands { server with sockets := sockets } = server.hands :=
        hands_congr rfl (coherent.arrive arrived).peerOf_eq
      rw [acts, run_singleton_eq_some_iff, view, view, same]
      exact Sockets.service_arrive arrived
  | finishes server conn =>
      have same :
          hands { server with sockets := server.sockets.finish conn } =
            server.hands :=
        hands_congr rfl rfl
      rw [acts, run_singleton_eq_some_iff, view, view, same]
      exact Sockets.service_finish
  | fetched distinct reported => rfl
  | @accepted watched sockets later clientFd free different =>
      exact run_singleton_eq_some_iff.mpr (Sockets.service_accept coherent)
  | added new => rfl
  | readBytes different isRead =>
      exact Sockets.service_read_first coherent isRead
  | readZero different atEnd =>
      exact Sockets.service_readEnd_first coherent atEnd
  | readError different => rfl
  | written count =>
      obtain ⟨conn, isPeer⟩ := valid.client_open _ rfl
      exact Sockets.service_write_last isPeer _ count
  | deleted there => rfl
  | closed isPeer => exact Sockets.service_close_last isPeer
  | @ended server call fatal =>
      cases call with
      | epollWait ready => rfl
      | accept clientFd =>
          cases clientFd with
          | none => rfl
          | some clientFd => cases fatal
      | add succeeds => rfl
      | killed => rfl
      | _ => cases fatal

/-- The server refines the service that sends everything back in capital
letters. -/
def simulation (listenFd : Nat) :
    Simulation (step listenFd) (Service.step toupper) where
  view := view
  acts := acts
  Valid := Valid listenFd
  valid_step := Valid.step
  run_acts := fun valid stepped => (valid.took stepped).run_acts valid

theorem Took.takesAll_iff
    (took : Took listenFd server label next)
    (valid : server.Valid listenFd) :
    server.TakesAll label ↔
      StepsMeet (Service.step toupper) Service.Complete server.view
        (server.acts label) := by
  cases took with
  | @written watched sockets later fd buf count =>
      obtain ⟨conn, isPeer⟩ := valid.client_open fd rfl
      have isPeer : sockets.peerOf fd = some conn := isPeer
      refine
        Iff.trans ?_
          (Sockets.stepsMeet_write_last_iff isPeer buf count).symm
      constructor
      · exact fun takesAll => takesAll fd buf later rfl
      · intro whole fd buf later same
        cases same
        exact whole
  | arrives arrived =>
      exact iff_of_true trivial (stepsMeet_singleton_iff.mpr trivial)
  | finishes conn =>
      exact iff_of_true trivial (stepsMeet_singleton_iff.mpr trivial)
  | accepted free different =>
      exact iff_of_true trivial (stepsMeet_singleton_iff.mpr trivial)
  | readBytes different isRead =>
      exact
        iff_of_true trivial
          (Sockets.stepsMeet_onPeer_of_lossless (by trivial) _)
  | readZero different atEnd =>
      exact
        iff_of_true trivial
          (Sockets.stepsMeet_onPeer_of_lossless (by trivial) _)
  | closed isPeer =>
      exact
        iff_of_true trivial
          (Sockets.stepsMeet_onPeer_of_lossless (by trivial) _)
  | @ended server call fatal =>
      cases call with
      | accept clientFd =>
          cases clientFd with
          | none => exact iff_of_true trivial trivial
          | some clientFd => cases fatal
      | write count => cases fatal
      | read returned => cases fatal
      | close => cases fatal
      | _ => exact iff_of_true trivial trivial
  | _ => exact iff_of_true trivial trivial

/-- The clients of the epoll server get back what they have sent, in capital
letters and in order, and no byte of another client: at any time everything
that was read from them but what `main` has still to write, if and only if
every `Write` so far of bytes that were read was taken whole; then a client
whose connection was closed has ended its stream and has got back all of it. -/
theorem echoed_by_epoll_iff
    {labels : List Label} {last : EpollServer}
    (ran : run (step listenFd) (start listenFd) labels = some last) :
    ((∀ conn, (last.view conn).Exact toupper) ↔
        StepsMeet (step listenFd) TakesAll (start listenFd) labels) ∧
      (StepsMeet (step listenFd) TakesAll (start listenFd) labels →
        ∀ conn, (last.sockets.channels conn).place = .closed →
          (last.sockets.channels conn).ended = true ∧
            (last.sockets.channels conn).returned =
              (last.sockets.channels conn).sent.map toupper) := by
  exact
    served_iff (simulation listenFd)
      (fun valid stepped => (valid.took stepped).takesAll_iff valid)
      (valid_start listenFd) rfl ran

/-- A client that sends `ab`, gets `AB` and leaves. -/
def oneClient : List Label :=
  [.main (.epollWait (some [3])), .main (.accept (some 4)),
    .main (.add true), .arrives 0 [97, 98], .main (.epollWait (some [4])),
    .main (.read (.items 2)), .main (.write 2), .finishes 0,
    .main (.epollWait (some [4])), .main (.read .zero), .main .del,
    .main .close]

theorem echoed_by_epoll_iff_one_client :
    ∃ last, run (step 3) (start 3) oneClient = some last ∧
      (((∀ conn, (last.view conn).Exact toupper) ↔
          StepsMeet (step 3) TakesAll (start 3) oneClient) ∧
        (StepsMeet (step 3) TakesAll (start 3) oneClient →
          ∀ conn, (last.sockets.channels conn).place = .closed →
            (last.sockets.channels conn).ended = true ∧
              (last.sockets.channels conn).returned =
                (last.sockets.channels conn).sent.map toupper)) :=
  ⟨_, rfl, echoed_by_epoll_iff rfl⟩

end EpollServer

end LinuxNet.Multiplex
