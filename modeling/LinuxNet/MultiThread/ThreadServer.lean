import LinuxNet.Lib.CString
import LinuxNet.Lib.Sockets
import LinuxNet.Lib.Threads

/-!
# The multi-thread server

`main` stores what it knows of a client in the next slot of `clients` and
starts a thread with the address of that slot.  The thread looks into the slot
only when it runs, at any time after that.  The array has 1024 slots, which
nothing checks, and no slot is used twice.  Nor does anything check for the −1
of `Read`, which becomes the length of the two `Write`s behind it; no buffer
is that long, so both of them fail with EFAULT, and the thread reads on.
-/

namespace LinuxNet.MultiThread

open LinuxNet.CString LinuxNet.EchoService LinuxNet.StepSystem
open LinuxNet.Threads

/-- The length of `clients`. -/
def clientsSize : Nat := 1024

/-- The size of `buf` in `thread_work`. -/
def bufSize : Nat := 4096

structure SockAddrIn where
  sinAddr : Nat
  sinPort : Nat
  deriving DecidableEq, Repr

structure ClientInfo where
  clientAddr : SockAddrIn
  clientFd : Nat
  deriving DecidableEq, Repr

/-- The next thing that `main` does; what `Accept` has left in `client_addr`
and `client_fd` is still to be stored. -/
inductive MainAt where
  | accept
  | store (client : ClientInfo)
  | create
  | detach
  deriving DecidableEq, Repr

/-- The next thing that a thread in `thread_work` does; it begins with the
slot that `arg` points to. -/
inductive ThreadAt where
  | begins (slot : Nat)
  | reads (client : ClientInfo)
  | writes (client : ClientInfo) (buf : List UInt8)
  | closes (client : ClientInfo)
  | ended
  deriving DecidableEq, Repr

/-- The process.  It may have exited, or a store may have left the array,
behind which nothing is said about it. -/
structure ThreadServer where
  mainAt : MainAt
  exited : Bool
  outside : Bool
  clients : List (Option ClientInfo)
  index : Nat
  threads : List ThreadAt
  sockets : Sockets UInt8 UInt8

/-- What `main` does; `none` and `false` stand for a call that fails, and
`Accept` does not return −1 after a signal. -/
inductive MainCall where
  | accept (client : Option ClientInfo)
  | store
  | create (succeeds : Bool)
  | detach (succeeds : Bool)
  deriving DecidableEq, Repr

/-- What a thread does; `killed` is SIGPIPE at a `Write` to a client that is
gone, which ends the process. -/
inductive ThreadCall where
  | begin
  | read (returned : ReadReturn)
  | write (count : Nat)
  | killed
  | close
  deriving DecidableEq, Repr

inductive Label where
  | arrives (conn : Nat) (bytes : List UInt8)
  | finishes (conn : Nat)
  | main (call : MainCall)
  | thread (number : Nat) (call : ThreadCall)
  deriving DecidableEq, Repr

namespace ThreadServer

def start : ThreadServer :=
  ⟨.accept, false, false, List.replicate clientsSize none, 0, [], .none⟩

def exit (server : ThreadServer) : ThreadServer :=
  { server with exited := true }

def leave (server : ThreadServer) : ThreadServer :=
  { server with outside := true }

def main (listenFd : Nat) (server : ThreadServer) :
    MainCall → Option ThreadServer
  | .accept (some client) =>
      if server.mainAt = .accept ∧ client.clientFd ≠ listenFd then
        (server.sockets.accept client.clientFd).map fun sockets =>
          { server with mainAt := .store client, sockets := sockets }
      else
        none
  | .accept none =>
      if server.mainAt = .accept then some server.exit else none
  | .store =>
      match server.mainAt with
      | .store client =>
          if server.index < clientsSize then
            some
              { server with
                mainAt := .create
                clients := server.clients.set server.index (some client)
                index := server.index + 1 }
          else
            some server.leave
      | .accept | .create | .detach => none
  | .create succeeds =>
      if server.mainAt = .create then
        if succeeds then
          some
            { server with
              mainAt := .detach
              threads := server.threads ++ [.begins (server.index - 1)] }
        else
          some server.exit
      else
        none
  | .detach succeeds =>
      if server.mainAt = .detach then
        some
          (if succeeds then { server with mainAt := .accept }
          else server.exit)
      else
        none

def moveThread
    (server : ThreadServer) (number : Nat) (threadAt : ThreadAt) :
    ThreadServer :=
  { server with threads := server.threads.set number threadAt }

def thread (server : ThreadServer) (number : Nat) (call : ThreadCall) :
    Option ThreadServer :=
  match server.threads[number]?, call with
  | some (.begins slot), .begin =>
      match server.clients[slot]? with
      | some (some client) =>
          some (server.moveThread number (.reads client))
      | some none | none => some server.leave
  | some (.reads client), .read returned =>
      match returned with
      | .items count =>
          if count ≤ bufSize then
            (server.sockets.read client.clientFd count).map fun taken =>
              { server.moveThread number (.writes client taken.1) with
                sockets := taken.2 }
          else
            none
      | .zero =>
          if server.sockets.AtEnd client.clientFd then
            some (server.moveThread number (.closes client))
          else
            none
      -- no byte is turned, and both `Write`s of −1 bytes fail
      | .error => some server
  | some (.writes client buf), .write count =>
      some
        { server.moveThread number (.reads client) with
          sockets :=
            server.sockets.write client.clientFd
              ((buf.map toupper).take count) }
  | some (.writes _ _), .killed => some server.exit
  | some (.closes client), .close =>
      some
        { server.moveThread number .ended with
          sockets :=
            (server.sockets.close client.clientFd).getD server.sockets }
  | _, _ => none

def step (listenFd : Nat) (server : ThreadServer) :
    Label → Option ThreadServer
  | .arrives conn bytes =>
      (server.sockets.arrive conn bytes).map fun sockets =>
        { server with sockets := sockets }
  | .finishes conn =>
      some { server with sockets := server.sockets.finish conn }
  | .main call =>
      if server.exited ∨ server.outside then
        none
      else
        server.main listenFd call
  | .thread number call =>
      if server.exited ∨ server.outside then
        none
      else
        server.thread number call

/-! ## Slots, threads and connections -/

/-- Thread and connection of one number belong together: the slot of that
number holds the client, and the client's descriptor stands for the
connection. -/
def Owns (server : ThreadServer) (number : Nat) (client : ClientInfo) :
    Prop :=
  server.clients[number]? = some (some client) ∧
    server.sockets.peerOf client.clientFd = some number

def Serves (server : ThreadServer) (number : Nat) : ThreadAt → Prop
  | .begins slot => slot = number ∧ ∃ client, server.Owns number client
  | .reads client | .writes client _ | .closes client =>
      server.Owns number client
  | .ended => True

/-- How many connections, slots and threads there are. -/
def Counted (server : ThreadServer) : Prop :=
  match server.mainAt with
  | .accept | .detach =>
      server.sockets.next = server.index ∧
        server.threads.length = server.index
  | .store client =>
      server.sockets.next = server.index + 1 ∧
        server.threads.length = server.index ∧
          server.sockets.peerOf client.clientFd = some server.index
  | .create =>
      server.sockets.next = server.index ∧
        server.threads.length + 1 = server.index ∧
          ∃ client, server.Owns (server.index - 1) client

structure Valid (server : ThreadServer) : Prop where
  coherent : server.sockets.Coherent
  size : server.clients.length = clientsSize
  counted : server.Counted
  serves :
    ∀ number threadAt, server.threads[number]? = some threadAt →
      server.Serves number threadAt

inductive Took (listenFd : Nat) (server : ThreadServer) :
    Label → ThreadServer → Prop
  | arrives {conn : Nat} {bytes : List UInt8}
      {sockets : Sockets UInt8 UInt8}
      (arrived : server.sockets.arrive conn bytes = some sockets) :
      Took listenFd server (.arrives conn bytes)
        { server with sockets := sockets }
  | finishes (conn : Nat) :
      Took listenFd server (.finishes conn)
        { server with sockets := server.sockets.finish conn }
  | accepted {client : ClientInfo} (isAt : server.mainAt = .accept)
      (free : server.sockets.peerOf client.clientFd = none) :
      Took listenFd server (.main (.accept (some client)))
        { server with
          mainAt := .store client
          sockets := server.sockets.joined client.clientFd }
  | stored {client : ClientInfo} (isAt : server.mainAt = .store client)
      (inside : server.index < clientsSize) :
      Took listenFd server (.main .store)
        { server with
          mainAt := .create
          clients := server.clients.set server.index (some client)
          index := server.index + 1 }
  | overrun {client : ClientInfo} (isAt : server.mainAt = .store client)
      (full : clientsSize ≤ server.index) :
      Took listenFd server (.main .store) server.leave
  | created (isAt : server.mainAt = .create) :
      Took listenFd server (.main (.create true))
        { server with
          mainAt := .detach
          threads := server.threads ++ [.begins (server.index - 1)] }
  | detached (isAt : server.mainAt = .detach) :
      Took listenFd server (.main (.detach true))
        { server with mainAt := .accept }
  | began {number slot : Nat} {client : ClientInfo}
      (isAt : server.threads[number]? = some (.begins slot))
      (there : server.clients[slot]? = some (some client)) :
      Took listenFd server (.thread number .begin)
        (server.moveThread number (.reads client))
  | readItems {number count : Nat} {client : ClientInfo}
      {buf : List UInt8} {read : Sockets UInt8 UInt8}
      (isAt : server.threads[number]? = some (.reads client))
      (isRead :
        server.sockets.read client.clientFd count = some (buf, read)) :
      Took listenFd server (.thread number (.read (.items count)))
        { server.moveThread number (.writes client buf) with
          sockets := read }
  | readZero {number : Nat} {client : ClientInfo}
      (isAt : server.threads[number]? = some (.reads client))
      (atEnd : server.sockets.AtEnd client.clientFd) :
      Took listenFd server (.thread number (.read .zero))
        (server.moveThread number (.closes client))
  | readError {number : Nat} {client : ClientInfo}
      (isAt : server.threads[number]? = some (.reads client)) :
      Took listenFd server (.thread number (.read .error)) server
  | written {number : Nat} {client : ClientInfo} {buf : List UInt8}
      (isAt : server.threads[number]? = some (.writes client buf))
      (count : Nat) :
      Took listenFd server (.thread number (.write count))
        { server.moveThread number (.reads client) with
          sockets :=
            server.sockets.write client.clientFd
              ((buf.map toupper).take count) }
  | closed {number : Nat} {client : ClientInfo}
      (isAt : server.threads[number]? = some (.closes client))
      (isPeer : server.sockets.peerOf client.clientFd = some number) :
      Took listenFd server (.thread number .close)
        { server.moveThread number .ended with
          sockets := server.sockets.parted client.clientFd number }
  | ended {label : Label}
      (cause :
        label = .main (.accept none) ∨ label = .main (.create false) ∨
          label = .main (.detach false) ∨
            ∃ number, label = .thread number .killed) :
      Took listenFd server label server.exit

variable {listenFd : Nat} {server next : ThreadServer} {label : Label}

theorem valid_start : start.Valid where
  coherent := Sockets.coherent_none
  size := List.length_replicate
  counted := ⟨rfl, rfl⟩
  serves := nofun

theorem took_main
    {call : MainCall} (called : server.main listenFd call = some next) :
    Took listenFd server (.main call) next := by
  cases call with
  | accept client =>
      cases client with
      | none =>
          obtain ⟨_, isNext⟩ := Option.ite_none_right_eq_some.mp called
          cases isNext
          exact .ended (Or.inl rfl)
      | some client =>
          obtain ⟨⟨isAt, _⟩, isNext⟩ :=
            Option.ite_none_right_eq_some.mp called
          obtain ⟨sockets, accepted, rfl⟩ :=
            Option.map_eq_some_iff.mp isNext
          obtain ⟨free, rfl⟩ := Sockets.accept_eq_some accepted
          exact .accepted isAt free
  | store =>
      simp only [main] at called
      split at called
      · next client isAt =>
          split at called
          · next inside =>
              cases called
              exact .stored isAt inside
          · next full =>
              cases called
              exact .overrun isAt (Nat.not_lt.mp full)
      all_goals cases called
  | create succeeds =>
      obtain ⟨isAt, called⟩ := Option.ite_none_right_eq_some.mp called
      cases succeeds with
      | true =>
          cases called
          exact .created isAt
      | false =>
          cases called
          exact .ended (Or.inr (Or.inl rfl))
  | detach succeeds =>
      obtain ⟨isAt, called⟩ := Option.ite_none_right_eq_some.mp called
      cases succeeds with
      | true =>
          cases called
          exact .detached isAt
      | false =>
          cases called
          exact .ended (Or.inr (Or.inr (Or.inl rfl)))

/-- A thread finds its slot filled, and its descriptor open. -/
theorem Valid.took_thread
    (valid : server.Valid) {number : Nat} {call : ThreadCall}
    (called : server.thread number call = some next) :
    Took listenFd server (.thread number call) next := by
  unfold thread at called
  split at called
  · next slot isAt =>
      obtain ⟨rfl, client, there, _⟩ := valid.serves number _ isAt
      simp only [there] at called
      cases called
      exact .began isAt there
  · next client returned isAt =>
      cases returned with
      | items count =>
          obtain ⟨_, isNext⟩ := Option.ite_none_right_eq_some.mp called
          obtain ⟨taken, isRead, rfl⟩ := Option.map_eq_some_iff.mp isNext
          exact .readItems isAt isRead
      | zero =>
          obtain ⟨atEnd, isNext⟩ := Option.ite_none_right_eq_some.mp called
          cases isNext
          exact .readZero isAt atEnd
      | error =>
          cases called
          exact .readError isAt
  · next client buf count isAt =>
      cases called
      exact .written isAt count
  · cases called
    exact .ended (Or.inr (Or.inr (Or.inr ⟨number, rfl⟩)))
  · next client isAt =>
      obtain ⟨_, isPeer⟩ := valid.serves number _ isAt
      rw [Sockets.close_of_peer isPeer] at called
      cases called
      exact .closed isAt isPeer
  · cases called

theorem Valid.took
    (valid : server.Valid)
    (stepped : server.step listenFd label = some next) :
    Took listenFd server label next := by
  cases label with
  | arrives conn bytes =>
      obtain ⟨sockets, arrived, rfl⟩ := Option.map_eq_some_iff.mp stepped
      exact .arrives arrived
  | finishes conn =>
      cases stepped
      exact .finishes conn
  | main call =>
      obtain ⟨_, called⟩ := Option.ite_none_left_eq_some.mp stepped
      exact took_main called
  | thread number call =>
      obtain ⟨_, called⟩ := Option.ite_none_left_eq_some.mp stepped
      exact valid.took_thread called

/-- A thread keeps its slot and its connection where its slot and the
descriptors of its connection stay. -/
theorem Serves.frame
    {number : Nat} {threadAt : ThreadAt}
    (serves : server.Serves number threadAt)
    (slots :
      ∀ client, server.clients[number]? = some (some client) →
        next.clients[number]? = some (some client))
    (peers :
      ∀ fd, server.sockets.peerOf fd = some number →
        next.sockets.peerOf fd = some number) :
    next.Serves number threadAt := by
  have owns :
      ∀ client, server.Owns number client → next.Owns number client :=
    fun client owns => ⟨slots client owns.1, peers _ owns.2⟩
  cases threadAt with
  | begins slot =>
      obtain ⟨same, client, owns'⟩ := serves
      exact ⟨same, client, owns client owns'⟩
  | reads client => exact owns client serves
  | writes client buf => exact owns client serves
  | closes client => exact owns client serves
  | ended => trivial

/-- The threads serve their clients where each of them does so by the same
slot and connection as before, or has just come to serve one. -/
theorem Valid.of_frame
    (valid : server.Valid)
    (coherent : next.sockets.Coherent)
    (size : next.clients.length = server.clients.length)
    (counted : next.Counted) (threads : next.threads = server.threads)
    (slots :
      ∀ number client, server.clients[number]? = some (some client) →
        number < server.threads.length →
          next.clients[number]? = some (some client))
    (peers :
      ∀ number fd, server.sockets.peerOf fd = some number →
        next.sockets.peerOf fd = some number) :
    next.Valid := by
  refine ⟨coherent, size.trans valid.size, counted, ?_⟩
  intro number threadAt isAt
  rw [threads] at isAt
  exact
    (valid.serves number threadAt isAt).frame
      (fun client there =>
        slots number client there (lt_length_of_at isAt))
      (peers number)

/-- One thread goes on with the client that it has. -/
theorem Valid.of_move
    (valid : server.Valid) {number : Nat} {old new : ThreadAt}
    (isAt : server.threads[number]? = some old)
    {sockets : Sockets UInt8 UInt8} (kept : server.sockets.Kept sockets)
    (serves : server.Serves number new) :
    Valid { server.moveThread number new with sockets := sockets } := by
  obtain ⟨coherent, peerOf, connections⟩ := kept
  refine ⟨coherent, valid.size, ?_, fun other threadAt isOther => ?_⟩
  · have counted := valid.counted
    unfold Counted Owns moveThread at *
    rw [peerOf, connections]
    simp only [List.length_set]
    exact counted
  · have frame :
        ∀ {threadAt}, server.Serves other threadAt →
          Serves { server.moveThread number new with sockets := sockets }
            other threadAt :=
      fun before => before.frame (fun _ there => there)
        (fun fd isPeer => by rw [peerOf]; exact isPeer)
    rcases at_set_cases isOther with ⟨rfl, rfl⟩ | ⟨_, isOther⟩
    · exact frame serves
    · exact frame (valid.serves other threadAt isOther)

/-- The connection that `main` has not given to a thread yet stays when a
thread closes its own. -/
theorem Valid.counted_of_closed
    (valid : server.Valid) {number fd : Nat} {new : ThreadAt}
    (isPeer : server.sockets.peerOf fd = some number)
    (within : number < server.threads.length) :
    Counted
      { server.moveThread number new with
        sockets := server.sockets.parted fd number } := by
  have counted := valid.counted
  unfold Counted Owns moveThread at *
  simp only [List.length_set]
  cases isAt : server.mainAt with
  | accept =>
      rw [isAt] at counted
      exact counted
  | detach =>
      rw [isAt] at counted
      exact counted
  | store client =>
      rw [isAt] at counted
      obtain ⟨connections, threads, isClient⟩ := counted
      exact
        ⟨connections, threads,
          Sockets.peerOf_parted_of_ne isPeer (by omega) isClient⟩
  | create =>
      rw [isAt] at counted
      obtain ⟨connections, threads, client, there, isClient⟩ := counted
      exact
        ⟨connections, threads, client, there,
          Sockets.peerOf_parted_of_ne isPeer (by omega) isClient⟩

theorem Took.valid
    (took : Took listenFd server label next) (valid : server.Valid) :
    next.Valid := by
  have coherent := valid.coherent
  have counted := valid.counted
  have same :
      ∀ {sockets : Sockets UInt8 UInt8}, server.sockets.Kept sockets →
        Valid { server with sockets := sockets } := by
    rintro sockets ⟨coherent, peerOf, connections⟩
    refine
      valid.of_frame coherent rfl ?_ rfl (fun _ _ there _ => there)
        (fun number fd isPeer => by rw [peerOf]; exact isPeer)
    unfold Counted Owns at *
    rw [peerOf, connections]
    exact counted
  cases took with
  | arrives arrived => exact same (coherent.arrive arrived)
  | finishes conn => exact same (coherent.finish conn)
  | @accepted client isAt free =>
      unfold Counted at counted
      rw [isAt] at counted
      obtain ⟨connections, threads⟩ := counted
      refine
        valid.of_frame (coherent.accept (Sockets.accept_of_free free)) rfl ?_
          rfl (fun _ _ there _ => there)
          (fun _ _ => Sockets.peerOf_joined_of_free free)
      refine ⟨congrArg (· + 1) connections, threads, ?_⟩
      rw [← connections]
      exact Function.update_self ..
  | @stored client isAt inside =>
      unfold Counted at counted
      rw [isAt] at counted
      obtain ⟨connections, threads, isPeer⟩ := counted
      have there :
          (server.clients.set server.index (some client))[server.index]? =
            some (some client) :=
        List.getElem?_set_self (by rw [valid.size]; exact inside)
      refine
        valid.of_frame coherent List.length_set ?_ rfl
          (fun number client there within => ?_) (fun _ _ isPeer => isPeer)
      · exact ⟨connections, congrArg (· + 1) threads, client, there, isPeer⟩
      · rw [List.getElem?_set_ne (by omega)]
        exact there
  | overrun isAt full => exact ⟨coherent, valid.size, counted, valid.serves⟩
  | created isAt =>
      unfold Counted at counted
      rw [isAt] at counted
      obtain ⟨connections, threads, client, owns⟩ := counted
      refine
        ⟨coherent, valid.size, ⟨connections, ?_⟩,
          fun number threadAt isThread => ?_⟩
      · rw [List.length_append]
        exact threads
      · have last : server.index - 1 = server.threads.length := by omega
        rw [last] at isThread owns
        rcases Nat.lt_or_ge number server.threads.length with old | new
        · rw [List.getElem?_append_left old] at isThread
          exact valid.serves number threadAt isThread
        · obtain rfl : number = server.threads.length := by
            have bound := lt_length_of_at isThread
            rw [List.length_append] at bound
            exact Nat.le_antisymm (Nat.le_of_lt_succ bound) new
          rw [List.getElem?_concat_length] at isThread
          cases isThread
          exact ⟨rfl, client, owns⟩
  | detached isAt =>
      unfold Counted at counted
      rw [isAt] at counted
      exact
        valid.of_frame coherent rfl counted rfl (fun _ _ there _ => there)
          (fun _ _ isPeer => isPeer)
  | began isAt there =>
      obtain ⟨rfl, client, owns⟩ := valid.serves _ _ isAt
      cases Option.some.inj (Option.some.inj (there.symm.trans owns.1))
      exact valid.of_move isAt coherent.kept owns
  | @readItems number count client buf read isAt isRead =>
      have owns : server.Owns number client := valid.serves _ _ isAt
      exact valid.of_move isAt (coherent.read isRead) owns
  | @readZero number client isAt atEnd =>
      have owns : server.Owns number client := valid.serves _ _ isAt
      exact valid.of_move isAt coherent.kept owns
  | readError isAt => exact valid
  | @written number client buf isAt count =>
      have owns : server.Owns number client := valid.serves _ _ isAt
      exact valid.of_move isAt (coherent.write _ _) owns
  | @closed number client isAt isPeer =>
      have within := lt_length_of_at isAt
      refine
        ⟨coherent.close isPeer (Sockets.close_of_peer isPeer), valid.size,
          ?_, fun other threadAt isOther => ?_⟩
      · exact valid.counted_of_closed isPeer within
      · rcases at_set_cases isOther with ⟨_, rfl⟩ | ⟨different, isOther⟩
        · trivial
        · exact
            (valid.serves other threadAt isOther).frame
              (fun _ there => there)
              (fun _ => Sockets.peerOf_parted_of_ne isPeer different)
  | ended cause => exact ⟨coherent, valid.size, counted, valid.serves⟩

theorem Valid.step
    (valid : server.Valid)
    (stepped : server.step listenFd label = some next) : next.Valid :=
  (valid.took stepped).valid valid

theorem valid_run
    {labels : List Label} {last : ThreadServer}
    (ran : run (step listenFd) start labels = some last) : last.Valid :=
  run_keeps Valid (fun _ _ _ valid stepped => valid.step stepped)
    valid_start ran

/-- The clients that `Accept` has returned, in this order. -/
def acceptedOf (labels : List Label) : List ClientInfo :=
  labels.filterMap fun label =>
    match label with
    | .main (.accept client) => client
    | _ => none

/-- The client that `main` has still to store. -/
def unstored : MainAt → List (Option ClientInfo)
  | .store client => [some client]
  | .accept | .create | .detach => []

/-- The slots in use hold the accepted clients in their order. -/
def Stored (past : List Label) (server : ThreadServer) : Prop :=
  server.clients.take server.index ++ unstored server.mainAt =
    (acceptedOf past).map some

/-- The client of a thread that has not ended; a thread that has not looked
into its slot yet will find what is there. -/
def clientOf (server : ThreadServer) (number : Nat) : Option ClientInfo :=
  match server.threads[number]? with
  | some (.begins slot) => server.clients[slot]?.join
  | some (.reads client) | some (.writes client _) | some (.closes client) =>
      some client
  | some .ended | none => none

theorem Took.stored_step
    (took : Took listenFd server label next) (valid : server.Valid)
    {past : List Label} (stored : Stored past server) :
    Stored (past ++ [label]) next := by
  have quiet :
      ∀ {other : ThreadServer}, acceptedOf [label] = [] →
        other.clients = server.clients → other.index = server.index →
          unstored other.mainAt = unstored server.mainAt →
            Stored (past ++ [label]) other := by
    intro other noClient clients index same
    unfold Stored acceptedOf at *
    rw [List.filterMap_append, noClient, List.append_nil, clients, index,
      same]
    exact stored
  cases took with
  | arrives arrived => exact quiet rfl rfl rfl rfl
  | finishes conn => exact quiet rfl rfl rfl rfl
  | @accepted client isAt free =>
      unfold Stored acceptedOf at *
      rw [isAt, unstored, List.append_nil] at stored
      rw [List.filterMap_append, List.map_append, ← stored]
      rfl
  | @stored client isAt inside =>
      unfold Stored acceptedOf at *
      rw [isAt, unstored] at stored
      rw [List.filterMap_append, List.map_append, ← stored]
      have room : server.index < server.clients.length := by
        rw [valid.size]
        exact inside
      rw [List.take_add_one, List.getElem?_set_self room,
        List.take_set_of_le (Nat.le_refl _)]
      simp [unstored]
  | overrun isAt full => exact quiet rfl rfl rfl rfl
  | created isAt => exact quiet rfl rfl rfl (by rw [isAt]; rfl)
  | detached isAt => exact quiet rfl rfl rfl (by rw [isAt]; rfl)
  | began isAt there => exact quiet rfl rfl rfl rfl
  | readItems isAt isRead => exact quiet rfl rfl rfl rfl
  | readZero isAt atEnd => exact quiet rfl rfl rfl rfl
  | readError isAt => exact quiet rfl rfl rfl rfl
  | written isAt count => exact quiet rfl rfl rfl rfl
  | closed isAt isPeer => exact quiet rfl rfl rfl rfl
  | ended cause =>
      rcases cause with rfl | rfl | rfl | ⟨number, rfl⟩
      all_goals exact quiet rfl rfl rfl rfl

theorem Valid.owns_of_clientOf
    (valid : server.Valid) {number : Nat} {client : ClientInfo}
    (works : server.clientOf number = some client) :
    number < server.threads.length ∧ server.Owns number client := by
  unfold clientOf at works
  split at works
  · next slot isAt =>
      obtain ⟨rfl, other, owns⟩ := valid.serves number _ isAt
      rw [owns.1] at works
      cases works
      exact ⟨lt_length_of_at isAt, owns⟩
  · next isAt =>
      cases works
      exact ⟨lt_length_of_at isAt, valid.serves number _ isAt⟩
  · next isAt =>
      cases works
      exact ⟨lt_length_of_at isAt, valid.serves number _ isAt⟩
  · next isAt =>
      cases works
      exact ⟨lt_length_of_at isAt, valid.serves number _ isAt⟩
  · cases works
  · cases works

theorem Valid.threads_le (valid : server.Valid) :
    server.threads.length ≤ server.index := by
  have counted := valid.counted
  unfold Counted at counted
  cases isAt : server.mainAt with
  | accept =>
      rw [isAt] at counted
      exact Nat.le_of_eq counted.2
  | detach =>
      rw [isAt] at counted
      exact Nat.le_of_eq counted.2
  | store client =>
      rw [isAt] at counted
      exact Nat.le_of_eq counted.2.1
  | create =>
      rw [isAt] at counted
      omega

/-- However late a thread looks into its slot, the thread of a number works
with the client that was accepted as that number; its descriptor is open and
stands for the connection of that number, and no other thread has it. -/
theorem each_thread_serves_its_own
    {labels : List Label} {last : ThreadServer}
    (ran : run (step listenFd) start labels = some last)
    {number : Nat} {client : ClientInfo}
    (works : last.clientOf number = some client) :
    (acceptedOf labels)[number]? = some client ∧
      last.sockets.peerOf client.clientFd = some number ∧
        ∀ other otherClient, last.clientOf other = some otherClient →
          otherClient.clientFd = client.clientFd → other = number := by
  have valid := valid_run ran
  have first : Stored [] start := rfl
  have stored : Stored ([] ++ labels) last :=
    (run_keeps_history
      (fun past server => Valid server ∧ Stored past server)
      (fun _ _ _ _ holds stepped =>
        ⟨holds.1.step stepped,
          (holds.1.took stepped).stored_step holds.1 holds.2⟩)
      ⟨valid_start, first⟩ ran).2
  obtain ⟨within, there, isPeer⟩ := valid.owns_of_clientOf works
  refine ⟨?_, isPeer, fun other otherClient otherWorks same => ?_⟩
  · have inUse : number < last.index :=
      Nat.lt_of_lt_of_le within valid.threads_le
    have entry := congrArg (·[number]?) stored
    simp only [List.nil_append] at entry
    rw [List.getElem?_append_left, List.getElem?_take_of_lt inUse, there,
      List.getElem?_map] at entry
    · obtain ⟨accepted, isAccepted, same⟩ :=
        Option.map_eq_some_iff.mp entry.symm
      cases same
      exact isAccepted
    · rw [List.length_take]
      have inside := lt_length_of_at there
      omega
  · obtain ⟨_, _, otherPeer⟩ := valid.owns_of_clientOf otherWorks
    rw [same] at otherPeer
    exact Option.some.inj (otherPeer.symm.trans isPeer)

/-- Two clients are stored before a thread looks into its slot, the second one
first. -/
def lateStart : List Label :=
  [.main (.accept (some ⟨⟨1, 5000⟩, 4⟩)), .main .store, .main (.create true),
    .main (.detach true), .main (.accept (some ⟨⟨2, 6000⟩, 5⟩)),
    .main .store, .main (.create true), .thread 1 .begin, .thread 0 .begin]

theorem each_thread_serves_its_own_late :
    ∃ last,
      run (step 3) start lateStart = some last ∧
        (acceptedOf lateStart)[0]? = some ⟨⟨1, 5000⟩, 4⟩ ∧
          last.sockets.peerOf 4 = some 0 ∧
            ∀ other otherClient, last.clientOf other = some otherClient →
              otherClient.clientFd = 4 → other = 0 :=
  ⟨_, rfl,
    @each_thread_serves_its_own 3 lateStart _ rfl 0 ⟨⟨1, 5000⟩, 4⟩ rfl⟩

/-- As long as no store was outside of the array, there were as many of them
as slots are in use. -/
structure Bounded (past : List Label) (server : ThreadServer) : Prop where
  inside :
    server.outside = false →
      past.count (.main .store) = server.index ∧ server.index ≤ clientsSize
  outside :
    server.outside = true → clientsSize < past.count (.main .store)

theorem bounded_start : Bounded [] start where
  inside := fun _ => ⟨rfl, Nat.zero_le _⟩
  outside := nofun

/-- Nothing but `main` at a store goes on in the array. -/
theorem Bounded.quiet
    {past : List Label} (bounded : Bounded past server)
    (noStore : label ≠ .main .store) (outside : next.outside = server.outside)
    (index : next.index = server.index) : Bounded (past ++ [label]) next := by
  have sameCount :
      (past ++ [label]).count (.main .store) = past.count (.main .store) := by
    rw [List.count_append, List.count_singleton,
      if_neg (by simpa using noStore), Nat.add_zero]
  constructor
  · rw [outside, sameCount, index]
    exact bounded.inside
  · rw [outside, sameCount]
    exact bounded.outside

theorem count_store_append (past : List Label) :
    (past ++ [Label.main .store]).count (.main .store) =
      past.count (.main .store) + 1 := by
  rw [List.count_append, List.count_singleton_self]

theorem Took.bounded_step
    (took : Took listenFd server label next) {past : List Label}
    (bounded : Bounded past server) : Bounded (past ++ [label]) next := by
  cases took with
  | stored isAt inside =>
      constructor
      · intro stays
        obtain ⟨stores, _⟩ := bounded.inside stays
        rw [count_store_append, stores]
        exact ⟨rfl, inside⟩
      · intro left
        rw [count_store_append]
        exact Nat.lt_succ_of_lt (bounded.outside left)
  | overrun isAt full =>
      refine ⟨nofun, fun _ => ?_⟩
      rw [count_store_append]
      cases left : server.outside with
      | false =>
          rw [(bounded.inside left).1]
          exact Nat.lt_succ_of_le full
      | true => exact Nat.lt_succ_of_lt (bounded.outside left)
  | ended cause =>
      rcases cause with rfl | rfl | rfl | ⟨number, rfl⟩
      all_goals exact bounded.quiet nofun rfl rfl
  | _ => exact bounded.quiet nofun rfl rfl

/-- A store is outside of `clients` exactly where `main` stores a client
behind the 1024th, whatever the threads do and whichever `Read`s fail. -/
theorem leaves_array_iff
    {labels : List Label} {last : ThreadServer}
    (ran : run (step listenFd) start labels = some last) :
    last.outside = true ↔ clientsSize < labels.count (.main .store) := by
  have bounded : Bounded ([] ++ labels) last :=
    (run_keeps_history
      (fun past server => Valid server ∧ Bounded past server)
      (fun _ _ _ _ holds stepped =>
        ⟨holds.1.step stepped,
          (holds.1.took stepped).bounded_step holds.2⟩)
      ⟨valid_start, bounded_start⟩ ran).2
  rw [List.nil_append] at bounded
  refine ⟨bounded.outside, fun many => ?_⟩
  by_contra stays
  obtain ⟨stores, within⟩ := bounded.inside (eq_false_of_ne_true stays)
  exact Nat.not_lt.mpr within (stores ▸ many)

/-- A client resets its connection, and its thread comes to the end of the
stream behind that. -/
def resetLater : List Label :=
  lateStart ++
    [.thread 0 (.read .error), .finishes 0, .thread 0 (.read .zero),
      .thread 0 .close]

theorem leaves_array_iff_reset :
    ∃ last,
      run (step 3) start resetLater = some last ∧
        (last.outside = true ↔
          clientsSize < resetLater.count (.main .store)) :=
  ⟨_, rfl, @leaves_array_iff 3 resetLater _ rfl⟩

/-! ## The clients' streams -/

def handOf : Option ThreadAt → Hand UInt8
  | some (.writes _ buf) => .items buf
  | some (.closes _) => .theEnd
  | some (.begins _) | some (.reads _) | some .ended | none => .nothing

def view (server : ThreadServer) : Service UInt8 UInt8 :=
  server.sockets.service fun conn => handOf server.threads[conn]?

def acts (server : ThreadServer) : Label → List (Nat × Act UInt8)
  | .arrives conn bytes => [(conn, .arrives bytes)]
  | .finishes conn => [(conn, .finishes)]
  | .main (.accept (some _)) => [(server.sockets.next, .accepts)]
  | .thread number (.read (.items count)) => [(number, .reads count)]
  | .thread number (.read .zero) => [(number, .readsEnd)]
  | .thread number (.write count) => [(number, .writes count)]
  | .thread number .close => [(number, .closes)]
  | .main _ | .thread _ _ => []

/-- A `Write` of what was read to a client is taken whole. -/
def TakesAll (server : ThreadServer) : Label → Prop
  | .thread number (.write count) =>
      ∀ client buf,
        server.threads[number]? = some (.writes client buf) →
          buf.length ≤ count
  | _ => True

theorem handOf_set
    {number : Nat} {old : ThreadAt}
    (isAt : server.threads[number]? = some old) (new : ThreadAt) :
    (fun conn => handOf (server.threads.set number new)[conn]?) =
      Function.update (fun conn => handOf server.threads[conn]?) number
        (handOf (some new)) := by
  funext conn
  by_cases same : conn = number
  · subst same
    rw [Function.update_self, at_set_self isAt]
  · rw [Function.update_of_ne same, List.getElem?_set_ne (Ne.symm same)]

/-- A thread that has nothing in hand yet changes nothing for the clients. -/
theorem view_created (server : ThreadServer) :
    server.view =
      view
        { server with
          mainAt := .detach
          threads := server.threads ++ [.begins (server.index - 1)] } := by
  unfold view
  congr 1
  funext conn
  rcases Nat.lt_trichotomy conn server.threads.length with
    old | rfl | beyond
  · rw [List.getElem?_append_left old]
  · rw [List.getElem?_concat_length,
      List.getElem?_eq_none (Nat.le_refl _)]
    rfl
  · rw [List.getElem?_eq_none (Nat.le_of_lt beyond),
      List.getElem?_eq_none (by rw [List.length_append]; exact beyond)]

theorem view_began
    {number slot : Nat} {client : ClientInfo}
    (isAt : server.threads[number]? = some (.begins slot)) :
    server.view = view (server.moveThread number (.reads client)) := by
  unfold view moveThread
  congr 1
  rw [handOf_set isAt]
  refine (Function.update_eq_self_iff.mpr ?_).symm
  rw [isAt]
  rfl

theorem Took.run_acts
    (took : Took listenFd server label next) (valid : server.Valid) :
    run (Service.step toupper) server.view (server.acts label) =
      some next.view := by
  have coherent := valid.coherent
  cases took with
  | arrives arrived =>
      exact run_singleton_eq_some_iff.mpr (Sockets.service_arrive arrived)
  | finishes conn =>
      exact run_singleton_eq_some_iff.mpr Sockets.service_finish
  | accepted isAt free =>
      exact run_singleton_eq_some_iff.mpr (Sockets.service_accept coherent)
  | stored isAt inside => rfl
  | overrun isAt full => rfl
  | created isAt => exact congrArg some (view_created server)
  | detached isAt => rfl
  | began isAt there => exact congrArg some (view_began isAt)
  | @readItems number count client buf read isAt isRead =>
      have owns : server.Owns number client := valid.serves _ _ isAt
      rw [acts, run_singleton_eq_some_iff]
      unfold view moveThread
      rw [handOf_set isAt]
      refine Sockets.service_read coherent isRead owns.2 ?_
      rw [isAt]
      rfl
  | @readZero number client isAt atEnd =>
      have owns : server.Owns number client := valid.serves _ _ isAt
      rw [acts, run_singleton_eq_some_iff]
      unfold view moveThread
      rw [handOf_set isAt]
      refine Sockets.service_readEnd coherent atEnd owns.2 ?_
      rw [isAt]
      rfl
  | readError isAt => rfl
  | @written number client buf isAt count =>
      have owns : server.Owns number client := valid.serves _ _ isAt
      rw [acts, run_singleton_eq_some_iff]
      unfold view moveThread
      rw [handOf_set isAt]
      refine Sockets.service_write owns.2 ?_ count
      rw [isAt]
      rfl
  | closed isAt isPeer =>
      rw [acts, run_singleton_eq_some_iff]
      unfold view moveThread
      rw [handOf_set isAt]
      refine Sockets.service_close ?_
      rw [isAt]
      rfl
  | ended cause =>
      rcases cause with rfl | rfl | rfl | ⟨number, rfl⟩
      all_goals rfl

/-- The server refines the service that sends everything back in capital
letters. -/
def simulation (listenFd : Nat) :
    Simulation (step listenFd) (Service.step toupper) where
  view := view
  acts := acts
  Valid := Valid
  valid_step := Valid.step
  run_acts := fun valid stepped => (valid.took stepped).run_acts valid

theorem Took.takesAll_iff (took : Took listenFd server label next) :
    server.TakesAll label ↔
      StepsMeet (Service.step toupper) Service.Complete server.view
        (server.acts label) := by
  cases took with
  | @written number client buf isAt count =>
      rw [acts, stepsMeet_singleton_iff]
      unfold TakesAll Service.Complete Session.Complete view Sockets.service
        Service.of
      simp only [isAt]
      constructor
      · exact fun takesAll => takesAll client buf rfl
      · intro whole client buf same
        cases same
        exact whole
  | arrives arrived =>
      exact iff_of_true trivial (stepsMeet_singleton_iff.mpr trivial)
  | finishes conn =>
      exact iff_of_true trivial (stepsMeet_singleton_iff.mpr trivial)
  | accepted isAt free =>
      exact iff_of_true trivial (stepsMeet_singleton_iff.mpr trivial)
  | readItems isAt isRead =>
      exact iff_of_true trivial (stepsMeet_singleton_iff.mpr trivial)
  | readZero isAt atEnd =>
      exact iff_of_true trivial (stepsMeet_singleton_iff.mpr trivial)
  | closed isAt isPeer =>
      exact iff_of_true trivial (stepsMeet_singleton_iff.mpr trivial)
  | ended cause =>
      rcases cause with rfl | rfl | rfl | ⟨number, rfl⟩
      all_goals exact iff_of_true trivial trivial
  | _ => exact iff_of_true trivial trivial

/-- Whatever the interleaving of the threads, their clients get back what they
have sent, in capital letters and in order, and no byte of another client: at
any time everything that was read from them but what their thread has still
to write, if and only if every `Write` so far of bytes that were read was
taken whole; then a client whose connection was closed has ended its stream
and has got back all of it. -/
theorem echoed_by_threads_iff
    {labels : List Label} {last : ThreadServer}
    (ran : run (step listenFd) start labels = some last) :
    ((∀ conn, (last.view conn).Exact toupper) ↔
        StepsMeet (step listenFd) TakesAll start labels) ∧
      (StepsMeet (step listenFd) TakesAll start labels →
        ∀ conn, (last.sockets.channels conn).place = .closed →
          (last.sockets.channels conn).ended = true ∧
            (last.sockets.channels conn).returned =
              (last.sockets.channels conn).sent.map toupper) :=
  served_iff (simulation listenFd)
    (fun valid stepped => (valid.took stepped).takesAll_iff) valid_start rfl
    ran

theorem echoed_by_threads_iff_late :
    ∃ last,
      run (step 3) start lateStart = some last ∧
        ((∀ conn, (last.view conn).Exact toupper) ↔
          StepsMeet (step 3) TakesAll start lateStart) ∧
        (StepsMeet (step 3) TakesAll start lateStart →
          ∀ conn, (last.sockets.channels conn).place = .closed →
            (last.sockets.channels conn).ended = true ∧
              (last.sockets.channels conn).returned =
                (last.sockets.channels conn).sent.map toupper) :=
  ⟨_, rfl, echoed_by_threads_iff rfl⟩

end ThreadServer

end LinuxNet.MultiThread
