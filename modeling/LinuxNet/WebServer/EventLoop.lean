import Mathlib.Logic.Function.Basic
import LinuxNet.Lib.StepSystem
import LinuxNet.WebServer.Handlers

/-!
# The event loop of `main` and the thread pool

The handlers of `main` and the two actions of a worker are atomic steps of
one `Server`.  A handler runs on its connection; the events it adds to the
trace of the connection are then carried out on the descriptors, the epoll
instance and `m_user_count`, which all connections share.  A store that leaves
the connection hits the table of connections.  A label names the step and
carries the answers of the system calls.
-/

namespace LinuxNet.WebServer

open LinuxNet.StepSystem

/-- `MAX_FD`. -/
def maxFd : Int := 65536

/-- The registration of a client descriptor; all have `EPOLLONESHOT`. -/
structure Registration where
  interest : Interest
  armed : Bool
  deriving DecidableEq, Repr

/-- The open client descriptors, the epoll instance and `m_user_count`. -/
structure Shared where
  opened : Nat → Bool
  epoll : Nat → Option Registration
  userCount : Int

namespace Shared

def register (shared : Shared) (fd : Nat) (registration : Registration) :
    Shared :=
  { shared with
    epoll := Function.update shared.epoll fd (some registration) }

/-- `accept` returns the descriptor. -/
def accept (shared : Shared) (fd : Nat) : Shared :=
  { shared with opened := Function.update shared.opened fd true }

/-- `EPOLL_CTL_DEL`, and what closing the descriptor does. -/
def deregister (shared : Shared) (fd : Nat) : Shared :=
  { shared with epoll := Function.update shared.epoll fd none }

/-- Carry out an event.  A call on a negative descriptor fails. -/
def apply (shared : Shared) : Event → Shared
  | .epollAdd (.ofNat fd) =>
      if (shared.epoll fd).isNone then
        shared.register fd ⟨.epollIn, true⟩
      else
        shared
  | .epollMod (.ofNat fd) interest =>
      if (shared.epoll fd).isSome then
        shared.register fd ⟨interest, true⟩
      else
        shared
  | .epollDel (.ofNat fd) => shared.deregister fd
  | .close (.ofNat fd) =>
      { shared.deregister fd with
        opened := Function.update shared.opened fd false }
  | .userCount change =>
      { shared with userCount := shared.userCount + change }
  | _ => shared

def after (shared : Shared) (events : List Event) : Shared :=
  events.foldl apply shared

end Shared

/-- The event is no store outside the object whose method causes it. -/
def Event.isOwn : Event → Bool
  | .store index => decide (-20 ≤ index ∧ index ≤ readBufferSize)
  | _ => true

/-- `process()` stores in its own object only. -/
def Conn.StaysInObject (c : Conn) (fs : FileSystem) : Prop :=
  ((c.process fs).trace.drop c.trace.length).all Event.isOwn = true

instance Conn.decidableStaysInObject (c : Conn) (fs : FileSystem) :
    Decidable (c.StaysInObject fs) :=
  inferInstanceAs (Decidable (_ = true))

/-- The parameters of `threadpool`. -/
structure Pool where
  threadNumber : Nat := 8
  maxRequests : Nat := 10000

/-- `append`, on the queue. -/
def Pool.append (pool : Pool) (workqueue : List Nat) (request : Nat) :
    Bool × List Nat :=
  if pool.maxRequests < workqueue.length then
    (false, workqueue)
  else
    (true, workqueue ++ [request])

/-- `users`, what the connections share, `m_workqueue`, and the requests that
workers have taken from it and not finished. -/
structure Server where
  users : Nat → Conn
  shared : Shared
  workqueue : List Nat
  taken : List Nat

/-- The steps of `main` and of the workers. -/
inductive Label where
  | accept (connfd : Nat) (address : SockAddr)
  | hangUp (sockfd : Nat)
  | epollIn (sockfd : Nat) (blocks : List (List UInt8)) (last : RecvEnd)
  | epollOut (sockfd : Nat) (outcomes : List WritevOutcome)
  | dequeue
  | process (request : Nat) (fs : FileSystem)
  /-- A `process` that stores outside its object.  The table of objects lies
  there: what it holds afterwards is given. -/
  | overrun (request : Nat) (fs : FileSystem) (users : Nat → Conn)

namespace Server

/-- The server before the first connection. -/
def start (users : Nat → Conn) : Server where
  users := users
  shared := ⟨fun _ => false, fun _ => none, 0⟩
  workqueue := []
  taken := []

/-- A handler has turned the connection into `c`; its events are carried
out. -/
def perform (s : Server) (sockfd : Nat) (c : Conn) : Server :=
  { s with
    users := Function.update s.users sockfd c
    shared :=
      s.shared.after (c.trace.drop (s.users sockfd).trace.length) }

/-- `epoll_wait` reports an event of a descriptor and disarms it. -/
def deliver (s : Server) (sockfd : Nat) (interest : Interest) : Server :=
  { s with shared := s.shared.register sockfd ⟨interest, false⟩ }

/-- `pool->append(users + sockfd)`; `main` does not look at the result. -/
def append (pool : Pool) (s : Server) (sockfd : Nat) : Server :=
  { s with workqueue := (pool.append s.workqueue sockfd).2 }

/-- The other objects have been overwritten.  What they did before stays on
record. -/
def overwrite (s : Server) (request : Nat) (users : Nat → Conn) : Server :=
  { s with
    users := fun fd =>
      if fd = request then
        s.users fd
      else
        { users fd with trace := (s.users fd).trace } }

/-- One step of `main` or of a worker, if it is possible. -/
def step (pool : Pool) (pages : Nat → List UInt8) (s : Server) :
    Label → Option Server
  | .accept connfd address =>
      if s.shared.opened connfd then
        none
      else if maxFd ≤ s.shared.userCount then
        -- `show_error` closes the descriptor again
        some s
      else
        let s := { s with shared := s.shared.accept connfd }
        some
          (s.perform connfd ((s.users connfd).initWith connfd address))
  | .hangUp sockfd =>
      match s.shared.epoll sockfd with
      | some ⟨interest, true⟩ =>
          let s := s.deliver sockfd interest
          some (s.perform sockfd (s.users sockfd).closeConn)
      | _ => none
  | .epollIn sockfd blocks last =>
      if s.shared.epoll sockfd = some ⟨.epollIn, true⟩ ∧
          (s.users sockfd).Receivable blocks then
        let s := s.deliver sockfd .epollIn
        match (s.users sockfd).read blocks last with
        | (true, c) => some ((s.perform sockfd c).append pool sockfd)
        | (false, c) => some (s.perform sockfd c.closeConn)
      else
        none
  | .epollOut sockfd outcomes =>
      if s.shared.epoll sockfd = some ⟨.epollOut, true⟩ then
        let s := s.deliver sockfd .epollOut
        match (s.users sockfd).write pages outcomes with
        | ⟨some true, c, []⟩ => some (s.perform sockfd c)
        | ⟨some false, c, []⟩ => some (s.perform sockfd c.closeConn)
        | _ => none
      else
        none
  | .dequeue =>
      match s.workqueue with
      | [] => none
      | request :: rest =>
          if s.taken.length < pool.threadNumber then
            some { s with workqueue := rest, taken := request :: s.taken }
          else
            none
  | .process request fs =>
      if request ∈ s.taken ∧ (s.users request).StaysInObject fs then
        let s := { s with taken := s.taken.erase request }
        some (s.perform request ((s.users request).process fs))
      else
        none
  | .overrun request fs users =>
      if request ∈ s.taken ∧ ¬ (s.users request).StaysInObject fs then
        let s := { s with taken := s.taken.erase request }
        some
          ((s.perform request ((s.users request).process fs)).overwrite
            request users)
      else
        none

end Server

end LinuxNet.WebServer
