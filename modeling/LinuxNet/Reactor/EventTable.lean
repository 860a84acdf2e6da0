import Mathlib.Data.List.Nodup
import LinuxNet.Lib.Registry
import LinuxNet.Lib.StepSystem
import LinuxNet.Reactor.MyEvent

/-!
# The tables of the two reactors

The loop of `main` with the slots `g_events`, the open descriptors and the
interest list of `g_epfd`.  A step is one timeout check, one return of
`epoll_wait` or one of the two tests made for each event of a batch, with the
callback that it leads to.  The loop is the same in both programs;
`acceptconn` is not.

Two fields record history and are read by no step: `holder` tells which
connection a slot was given to last, and `misdirected` becomes true when a
callback runs on a slot with status 0, or on one that was given to another
connection after `epoll_wait` returned.
-/

namespace LinuxNet.Reactor

open LinuxNet.Registry
open LinuxNet.StepSystem

/-- `MAX_EVENTS`; the slot behind the last connection listens. -/
def Program.maxEvents : Program → Nat
  | .epollReactor => 1024
  | .myReactor => 1000

/-- `MAX_EVENTS` of `epoll_reactor_server.c`. -/
def maxEvents : Nat := Program.maxEvents .epollReactor

/-- The open descriptors, and for each descriptor in the interest list of
`g_epfd` the slot that `data.ptr` points to and the mask. -/
structure Kernel where
  isOpen : Int → Bool
  interest : Int → Option (Nat × Nat)

/-- A call made for a slot.  `EPOLL_CTL_ADD` fails where the descriptor is
closed or registered, and `close` also takes it out of the interest list.
`epoll_ctl` without an operation is taken to fail: `eventset` always comes
before `eventadd`. -/
def Kernel.call (slot : Nat) (kernel : Kernel) : KernelCall → Kernel
  | .add fd mask =>
      if kernel.isOpen fd = true ∧ kernel.interest fd = none then
        { kernel with
          interest :=
            Function.update kernel.interest fd (some (slot, mask)) }
      else
        kernel
  | .del fd =>
      { kernel with interest := Function.update kernel.interest fd none }
  | .close fd =>
      { isOpen := Function.update kernel.isOpen fd false
        interest := Function.update kernel.interest fd none }
  | .unset _ => kernel

def Kernel.calls (slot : Nat) (kernel : Kernel) (calls : List KernelCall) :
    Kernel :=
  calls.foldl (Kernel.call slot) kernel

/-- An event of the batch: the slot, the mask that `epoll_wait` reports, and
the connection that held the slot then. -/
structure Ready where
  slot : Nat
  mask : Nat
  holder : Nat
  deriving DecidableEq, Repr

/-- Where `main` is: so many timeout checks are left after the next one, it
waits, or it comes to the first or the second test of the first event that is
left.  The loop begins again where no event is left. -/
inductive Stage where
  | checking (left : Nat) (now : Int)
  | waiting
  | dispatching (second : Bool) (ready : List Ready)
  | ended
  deriving DecidableEq, Repr

structure World where
  slots : Nat → MyEvent
  kernel : Kernel
  checkpos : Nat
  stage : Stage
  holder : Nat → Nat
  accepted : Nat
  misdirected : Bool

/-- What `accept` returns, and whether `fcntl` then succeeds. -/
inductive AcceptResult where
  | connection (fd : Nat) (nonblocking : Bool)
  | failed
  deriving DecidableEq, Repr

/-- What the system calls of a callback return; `quiet` where no callback
runs. -/
inductive Outcome where
  | recv (result : RecvResult) (now : Int)
  | send (result : SendResult) (now : Int)
  | accept (result : AcceptResult) (now : Int)
  | quiet
  deriving DecidableEq, Repr

inductive Label where
  | clock (now : Int)
  | check
  | wait (events : List (Nat × Nat))
  | waitFails
  | test (outcome : Outcome)
  deriving DecidableEq, Repr

def World.apply (world : World) (place : Nat) (effect : Effect) : World :=
  { world with
    slots := Function.update world.slots place effect.slot
    kernel := world.kernel.calls place effect.calls }

/-- The `for` loop of `acceptconn` that looks for a slot with status 0. -/
def firstFree (slots : Nat → MyEvent) : Nat → Nat → Option Nat
  | _, 0 => none
  | place, left + 1 =>
      if (slots place).status = 0 then
        some place
      else
        firstFree slots (place + 1) left

def World.opens (world : World) (fd : Nat) : World :=
  { world with
    kernel :=
      { world.kernel with
        isOpen := Function.update world.kernel.isOpen fd true } }

def World.give
    (program : Program) (world : World) (place : Nat) (fd now : Int) :
    World :=
  { world.apply place (giveSlot program fd now (world.slots place)) with
    holder := Function.update world.holder place (world.accepted + 1)
    accepted := world.accepted + 1 }

/-- `acceptconn`.  In `epoll_reactor_server.c` the new descriptor stays open
where there is no free slot, or `fcntl` fails; `my_reactor.c` looks at no
result, and gives a slot to −1 where `accept` fails. -/
def World.acceptconn (program : Program) (world : World) (now : Int) :
    AcceptResult → Option World
  | .failed =>
      match program with
      | .epollReactor => some world
      | .myReactor =>
          match firstFree world.slots 0 program.maxEvents with
          | none => some world
          | some place => some (world.give program place (-1) now)
  | .connection fd nonblocking =>
      if world.kernel.isOpen fd = true then
        none
      else
        match firstFree world.slots 0 program.maxEvents with
        | none => some (world.opens fd)
        | some place =>
            if program = .myReactor ∨ nonblocking = true then
              some ((world.opens fd).give program place fd now)
            else
              some (world.opens fd)

/-- `ev->call_back(ev->fd, ..)`. -/
def World.invoke
    (program : Program) (world : World) (event : Ready) :
    Outcome → Option World
  | .recv result now =>
      if (world.slots event.slot).callBack = .recvdata ∧
          result.Possible then
        some
          (world.apply event.slot
            (recvdata program (world.slots event.slot).fd result now
              (world.slots event.slot)))
      else
        none
  | .send result now =>
      if (world.slots event.slot).callBack = .senddata ∧
          result.Possible (world.slots event.slot).len then
        some
          (world.apply event.slot
            (senddata program (world.slots event.slot).fd result now
              (world.slots event.slot)))
      else
        none
  | .accept result now =>
      if (world.slots event.slot).callBack = .acceptconn then
        world.acceptconn program now result
      else
        none
  | .quiet =>
      if (world.slots event.slot).callBack = .null then some world else none

/-- A callback on this slot is not the one that was waited for. -/
def World.Misdirects (world : World) (event : Ready) : Prop :=
  (world.slots event.slot).status ≠ 1 ∨
    world.holder event.slot ≠ event.holder

instance (world : World) (event : Ready) :
    Decidable (world.Misdirects event) := by
  unfold World.Misdirects
  infer_instance

/-- `(events[i].events & EPOLLIN) && (ev->events & EPOLLIN)`, and the same
with `EPOLLOUT`. -/
def World.Selects (world : World) (second : Bool) (event : Ready) : Prop :=
  event.mask &&& (if second = true then epollout else epollin) ≠ 0 ∧
    (world.slots event.slot).events &&&
      (if second = true then epollout else epollin) ≠ 0

instance (world : World) (second : Bool) (event : Ready) :
    Decidable (world.Selects second event) := by
  unfold World.Selects
  infer_instance

def World.test
    (program : Program) (world : World) (second : Bool) (event : Ready)
    (outcome : Outcome) : Option World :=
  if world.Selects second event then
    World.invoke program
      { world with
        misdirected :=
          world.misdirected || decide (world.Misdirects event) }
      event outcome
  else if outcome = .quiet then
    some world
  else
    none

def Stage.afterTest (second : Bool) (event : Ready) (rest : List Ready) :
    Stage :=
  if second = true then
    .dispatching false rest
  else
    .dispatching true (event :: rest)

def World.check
    (program : Program) (world : World) (left : Nat) (now : Int) : World :=
  let place :=
    if world.checkpos = program.maxEvents then 0 else world.checkpos
  let checked :=
    if (world.slots place).status = 1 ∧
        60 ≤ now - (world.slots place).lastActive then
      world.apply place (expire program (world.slots place))
    else
      world
  { checked with
    checkpos := place + 1
    stage := if left = 0 then .waiting else .checking (left - 1) now }

/-- The event that `epoll_wait` reports for a descriptor. -/
def World.report (world : World) (event : Nat × Nat) : Option Ready :=
  (world.kernel.interest event.1).map fun registered =>
    ⟨registered.1, event.2, world.holder registered.1⟩

/-- One step of `main`.  `epoll_wait` reports registered descriptors, each at
most once, with any mask; `accept` returns a descriptor that is not open. -/
def Program.step (program : Program) (world : World) :
    Label → Option World
  | .clock now =>
      if world.stage = .dispatching false [] then
        some { world with stage := .checking 99 now }
      else
        none
  | .check =>
      match world.stage with
      | .checking left now => some (world.check program left now)
      | _ => none
  | .wait events =>
      if world.stage = .waiting ∧ (events.map Prod.fst).Nodup ∧
          ∀ event ∈ events, world.kernel.interest event.1 ≠ none then
        some
          { world with
            stage := .dispatching false (events.filterMap world.report) }
      else
        none
  | .waitFails =>
      if world.stage = .waiting then
        some { world with stage := .ended }
      else
        none
  | .test outcome =>
      match world.stage with
      | .dispatching second (event :: rest) =>
          (world.test program second event outcome).map fun next =>
            { next with stage := Stage.afterTest second event rest }
      | _ => none

/-- `initlistensocket`, on the slot it uses. -/
def initListen (program : Program) (lfd : Nat) (now : Int) : Effect :=
  match program with
  | .epollReactor =>
      (eventset lfd .acceptconn now MyEvent.zeroed).andThen
        (eventadd epollin)
  | .myReactor =>
      (myeventset lfd .acceptconn false now MyEvent.zeroed).andThen
        (eventadd epollin)

/-- Descriptors are not negative. -/
def openAmong (others : Nat → Bool) (fd : Int) : Bool :=
  decide (0 ≤ fd) && others fd.toNat

/-- `main` before its loop; other descriptors may be open. -/
def Program.start
    (program : Program) (lfd : Nat) (now : Int) (others : Nat → Bool) :
    World :=
  World.apply
    { slots := fun _ => MyEvent.zeroed
      kernel :=
        ⟨Function.update (openAmong others) lfd true, fun _ => none⟩
      checkpos := 0
      stage := .dispatching false []
      holder := fun _ => 0
      accepted := 0
      misdirected := false }
    program.maxEvents (initListen program lfd now)

def World.step (world : World) (label : Label) : Option World :=
  Program.step .epollReactor world label

def World.start (lfd : Nat) (now : Int) (others : Nat → Bool) : World :=
  Program.start .epollReactor lfd now others

end LinuxNet.Reactor
