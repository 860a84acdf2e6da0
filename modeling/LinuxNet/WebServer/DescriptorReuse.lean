import LinuxNet.WebServer.EventLoop

/-!
# Closing a connection and the reuse of its descriptor

Here each system call and each assignment to a field is a step of its own,
and the steps of `main` and of the workers interleave.  Only `close_conn` and
`init(sockfd, addr)` assign `m_sockfd`; what the other methods assign to the
other fields, and what they return, is left open, so that every run of the
program in which no store hits an `m_sockfd` is a run of this machine.

After `close(fd)` in `close_conn` the kernel may hand the number out again,
while the worker has still to assign `m_sockfd = -1` and to call `modfd` on
the slot.  `close_isolated` names the two orders in which this hurts the new
connection: `accept` returns the number before the assignment, or `main`
registers the new descriptor before the `modfd`.
-/

namespace LinuxNet.WebServer

open LinuxNet.StepSystem

/-- An assignment to a field of `http_conn` other than `m_sockfd`. -/
structure FieldWrite where
  apply : Conn → Conn
  keeps : ∀ c, (apply c).sockfd = c.sockfd

/-- The assignments of `init()`, in order. -/
def initWrites : List FieldWrite :=
  [⟨fun c => { c with checkState := .requestLine }, fun _ => rfl⟩,
    ⟨fun c => { c with linger := false }, fun _ => rfl⟩,
    ⟨fun c => { c with method := .get }, fun _ => rfl⟩,
    ⟨fun c => { c with url := none }, fun _ => rfl⟩,
    ⟨fun c => { c with version := none }, fun _ => rfl⟩,
    ⟨fun c => { c with contentLength := 0 }, fun _ => rfl⟩,
    ⟨fun c => { c with host := none }, fun _ => rfl⟩,
    ⟨fun c => { c with startLine := 0 }, fun _ => rfl⟩,
    ⟨fun c => { c with checkedIdx := 0 }, fun _ => rfl⟩,
    ⟨fun c => { c with readIdx := 0 }, fun _ => rfl⟩,
    ⟨fun c => { c with writeIdx := 0 }, fun _ => rfl⟩,
    ⟨fun c => { c with readBuf := List.replicate readBufferSize 0 },
      fun _ => rfl⟩,
    ⟨fun c => { c with writeBuf := List.replicate writeBufferSize 0 },
      fun _ => rfl⟩,
    ⟨fun c => { c with realFile := List.replicate filenameLen 0 },
      fun _ => rfl⟩]

theorem foldl_initWrites (c : Conn) :
    initWrites.foldl (fun c write => write.apply c) c = c.init :=
  rfl

/-- What is next in `close_conn`. -/
inductive ClosePhase where
  /-- The test of `m_sockfd`, and `EPOLL_CTL_DEL` in `removefd`. -/
  | del
  /-- `close` in `removefd`, on the descriptor that was passed to it. -/
  | close (fd : Int)
  /-- `m_sockfd = -1`. -/
  | reset
  /-- `m_user_count--`. -/
  | count
  deriving DecidableEq, Repr

/-- One step of `close_conn`: the slot, what is shared, and what is next. -/
def ClosePhase.step (c : Conn) (shared : Shared) :
    ClosePhase → Conn × Shared × Option ClosePhase
  | .del =>
      if c.sockfd ≠ -1 then
        (c, shared.apply (.epollDel c.sockfd), some (.close c.sockfd))
      else
        (c, shared, none)
  | .close fd => (c, shared.apply (.close fd), some .reset)
  | .reset => ({ c with sockfd := -1 }, shared, some .count)
  | .count => (c, shared.apply (.userCount (-1)), none)

/-- What is next in `init(sockfd, addr)`. -/
inductive OpenPhase where
  /-- `m_sockfd = sockfd`. -/
  | sockfd
  /-- `m_address = addr`. -/
  | address
  /-- `EPOLL_CTL_ADD` in `addfd`. -/
  | add
  /-- `m_user_count++`. -/
  | count
  /-- The assignments of `init()` that are left. -/
  | fields (rest : List FieldWrite)

/-- Where a worker is in `process` on its slot. -/
inductive Phase where
  /-- In `process_read` or `process_write`. -/
  | working
  /-- `process_write` has returned false. -/
  | closing (phase : ClosePhase)
  /-- `modfd` after `close_conn`. -/
  | rearm
  deriving DecidableEq, Repr

/-- A worker, the slot it works on, and how often `accept` had returned this
number when it took the slot from the queue. -/
inductive WorkerPc where
  | idle
  | busy (slot generation : Nat) (phase : Phase)
  deriving DecidableEq, Repr

/-- The event that `epoll_wait` reports on a client descriptor. -/
inductive Report where
  | hangUp
  | readable
  | writable
  deriving DecidableEq, Repr

/-- Where `main` is. -/
inductive MainPc where
  | waiting
  | opening (slot : Nat) (address : SockAddr) (phase : OpenPhase)
  | reading (slot : Nat)
  /-- In `write`; the flag tells whether it has called `modfd`. -/
  | writing (slot : Nat) (armed : Bool)
  | closing (slot : Nat) (phase : ClosePhase)

structure Machine where
  users : Nat → Conn
  shared : Shared
  /-- How often `accept` has returned a number. -/
  generation : Nat → Nat
  batch : List (Nat × Report)
  workqueue : List Nat
  main : MainPc
  workers : Nat → WorkerPc

/-- The steps, named by what the thread does. -/
inductive ThreadStep where
  | accept (fd : Nat) (address : SockAddr)
  | opens
  | report (fd : Nat) (report : Report)
  | handle
  | assigns (write : FieldWrite)
  | readReturns (ret : Bool)
  | writeArms (interest : Interest)
  | writeReturns (ret : Bool)
  | closes
  | take (worker : Nat)
  | works (worker : Nat) (write : FieldWrite)
  | finishes (worker : Nat) (interest : Interest)
  | fails (worker : Nat)
  | workerCloses (worker : Nat)
  | rearms (worker : Nat)

namespace Machine

def start (users : Nat → Conn) : Machine where
  users := users
  shared := ⟨fun _ => false, fun _ => none, 0⟩
  generation := fun _ => 0
  batch := []
  workqueue := []
  main := .waiting
  workers := fun _ => .idle

def setUser (s : Machine) (slot : Nat) (c : Conn) : Machine :=
  { s with users := Function.update s.users slot c }

def setWorker (s : Machine) (worker : Nat) (pc : WorkerPc) : Machine :=
  { s with workers := Function.update s.workers worker pc }

/-- `modfd(m_epollfd, m_sockfd, interest)` on a slot. -/
def modfd (s : Machine) (slot : Nat) (interest : Interest) : Machine :=
  { s with
    shared := s.shared.apply (.epollMod (s.users slot).sockfd interest) }

/-- One step of `init(sockfd, addr)`. -/
def openStep
    (s : Machine) (slot : Nat) (address : SockAddr) : OpenPhase → Machine
  | .sockfd =>
      { s.setUser slot { s.users slot with sockfd := slot } with
        main := .opening slot address .address }
  | .address =>
      { s.setUser slot { s.users slot with address := address } with
        main := .opening slot address .add }
  | .add =>
      { s with
        shared := s.shared.apply (.epollAdd slot)
        main := .opening slot address .count }
  | .count =>
      { s with
        shared := s.shared.apply (.userCount 1)
        main := .opening slot address (.fields initWrites) }
  | .fields [] => { s with main := .waiting }
  | .fields (write :: rest) =>
      { s.setUser slot (write.apply (s.users slot)) with
        main := .opening slot address (.fields rest) }

/-- One step of `close_conn` in `main`. -/
def closeStep (s : Machine) (slot : Nat) (phase : ClosePhase) : Machine :=
  { s.setUser slot (phase.step (s.users slot) s.shared).1 with
    shared := (phase.step (s.users slot) s.shared).2.1
    main :=
      match (phase.step (s.users slot) s.shared).2.2 with
      | some phase => .closing slot phase
      | none => .waiting }

/-- One step of `close_conn` in a worker. -/
def workerCloseStep
    (s : Machine) (worker slot generation : Nat) (phase : ClosePhase) :
    Machine :=
  let pc :=
    match (phase.step (s.users slot) s.shared).2.2 with
    | some phase => .closing phase
    | none => .rearm
  { (s.setUser slot (phase.step (s.users slot) s.shared).1).setWorker worker
      (.busy slot generation pc) with
    shared := (phase.step (s.users slot) s.shared).2.1 }

def reports (registration : Registration) : Report → Bool
  | .hangUp => registration.armed
  | .readable => decide (registration = ⟨.epollIn, true⟩)
  | .writable => decide (registration = ⟨.epollOut, true⟩)

/-- One system call or assignment of `main` or of a worker. -/
def step (pool : Pool) (s : Machine) : ThreadStep → Option Machine
  | .accept fd address =>
      match s.main with
      | .waiting =>
          if s.shared.opened fd then
            none
          else if maxFd ≤ s.shared.userCount then
            some s
          else
            some
              { s with
                shared := s.shared.accept fd
                generation :=
                  Function.update s.generation fd (s.generation fd + 1)
                main := .opening fd address .sockfd }
      | _ => none
  | .opens =>
      match s.main with
      | .opening slot address phase => some (s.openStep slot address phase)
      | _ => none
  | .report fd report =>
      match s.main, s.shared.epoll fd with
      | .waiting, some registration =>
          if reports registration report then
            some
              { s with
                shared :=
                  s.shared.register fd ⟨registration.interest, false⟩
                batch := s.batch ++ [(fd, report)] }
          else
            none
      | _, _ => none
  | .handle =>
      match s.main, s.batch with
      | .waiting, (fd, report) :: batch =>
          some
            { s with
              batch := batch
              main :=
                match report with
                | .hangUp => .closing fd .del
                | .readable => .reading fd
                | .writable => .writing fd false }
      | _, _ => none
  | .assigns write =>
      match s.main with
      | .reading slot | .writing slot _ =>
          some (s.setUser slot (write.apply (s.users slot)))
      | _ => none
  | .readReturns ret =>
      match s.main with
      | .reading slot =>
          if ret then
            some
              { s with
                workqueue := (pool.append s.workqueue slot).2
                main := .waiting }
          else
            some { s with main := .closing slot .del }
      | _ => none
  | .writeArms interest =>
      match s.main with
      | .writing slot _ =>
          some { s.modfd slot interest with main := .writing slot true }
      | _ => none
  | .writeReturns ret =>
      match s.main with
      | .writing slot armed =>
          if ret then
            if armed then some { s with main := .waiting } else none
          else
            some { s with main := .closing slot .del }
      | _ => none
  | .closes =>
      match s.main with
      | .closing slot phase => some (s.closeStep slot phase)
      | _ => none
  | .take worker =>
      match s.workers worker, s.workqueue with
      | .idle, slot :: workqueue =>
          some
            { s.setWorker worker
                (.busy slot (s.generation slot) .working) with
              workqueue := workqueue }
      | _, _ => none
  | .works worker write =>
      match s.workers worker with
      | .busy slot _ .working =>
          some (s.setUser slot (write.apply (s.users slot)))
      | _ => none
  | .finishes worker interest =>
      match s.workers worker with
      | .busy slot _ .working =>
          some ((s.modfd slot interest).setWorker worker .idle)
      | _ => none
  | .fails worker =>
      match s.workers worker with
      | .busy slot generation .working =>
          some (s.setWorker worker (.busy slot generation (.closing .del)))
      | _ => none
  | .workerCloses worker =>
      match s.workers worker with
      | .busy slot generation (.closing phase) =>
          some (s.workerCloseStep worker slot generation phase)
      | _ => none
  | .rearms worker =>
      match s.workers worker with
      | .busy slot _ .rearm =>
          some ((s.modfd slot .epollOut).setWorker worker .idle)
      | _ => none

end Machine

/-! ## Where a connection is -/

/-- What `main` has to do with a slot. -/
inductive Role where
  | away
  /-- In `init(sockfd, addr)`, before the registration. -/
  | opens
  /-- In a method, with the descriptor registered. -/
  | holds
  /-- In `close_conn`, about to call `close`. -/
  | shuts
  /-- In `close_conn`, after `close`. -/
  | leaves
  deriving DecidableEq, Repr

def OpenPhase.role : OpenPhase → Role
  | .sockfd | .address | .add => .opens
  | .count | .fields _ => .holds

def ClosePhase.role : ClosePhase → Role
  | .del => .holds
  | .close _ => .shuts
  | .reset | .count => .leaves

def MainPc.role (fd : Nat) : MainPc → Role
  | .waiting => .away
  | .opening slot _ phase => if slot = fd then phase.role else .away
  | .reading slot | .writing slot _ => if slot = fd then .holds else .away
  | .closing slot phase => if slot = fd then phase.role else .away

/-- After `m_sockfd = -1`. -/
def Phase.IsLate (phase : Phase) : Prop :=
  phase = .closing .count ∨ phase = .rearm

/-- The places of a connection.  A slot whose connection is closed may still
have workers on their way out. -/
inductive Spot where
  | closed
  | opening
  | held
  | shutting
  | armed
  | reported
  | queued
  | stranded
  | worked (worker : Nat)
  deriving DecidableEq, Repr

namespace Machine

/-- What holds at all places: is the descriptor open, how often does it stand
in the batch and in the queue, what does `main` do with it, and which workers
may be on the slot. -/
structure Located
    (s : Machine) (fd : Nat) (isOpen : Bool) (batch queued : Nat)
    (role : Role) (allowed : Nat → Nat → Phase → Prop) : Prop where
  opened : s.shared.opened fd = isOpen
  batch : (s.batch.map Prod.fst).count fd = batch
  queued : s.workqueue.count fd = queued
  role : s.main.role fd = role
  workers :
    ∀ worker generation phase,
      s.workers worker = .busy fd generation phase →
        allowed worker generation phase

def nobody (_ _ : Nat) (_ : Phase) : Prop := False

def Leaving
    (s : Machine) (fd : Nat) (_ generation : Nat) (phase : Phase) : Prop :=
  (phase = .closing .reset ∧ generation = s.generation fd ∨
      phase.IsLate) ∧
    ((s.users fd).sockfd = -1 ∨ (s.users fd).sockfd = fd)

/-- The workers that have closed the connection before. -/
def LeavingLate
    (s : Machine) (fd : Nat) (_ _ : Nat) (phase : Phase) : Prop :=
  phase.IsLate ∧
    ((s.users fd).sockfd = -1 ∨ (s.users fd).sockfd = fd)

def Owns (s : Machine) (fd : Nat) (phase : Phase) : Prop :=
  (phase = .working ∨ phase = .closing .del) ∧
      (∃ interest, s.shared.epoll fd = some ⟨interest, false⟩) ∨
    phase = .closing (.close fd) ∧ s.shared.epoll fd = none

def Here (s : Machine) (fd : Nat) : Spot → Prop
  | .closed =>
      (∃ role, (role = .away ∨ role = .leaves) ∧
        s.Located fd false 0 0 role (s.Leaving fd)) ∧
      s.shared.epoll fd = none
  | .opening =>
      s.Located fd true 0 0 .opens (s.LeavingLate fd) ∧
        s.shared.epoll fd = none ∧
        ∀ address phase, s.main = .opening fd address phase →
          phase = .sockfd ∨ (s.users fd).sockfd = fd
  | .held =>
      s.Located fd true 0 0 .holds nobody ∧ (s.users fd).sockfd = fd ∧
        ∃ registration, s.shared.epoll fd = some registration ∧
          (s.main = .reading fd → registration.armed = false) ∧
          (s.main = .writing fd true → registration.armed = true) ∧
          (∀ address phase, s.main = .opening fd address phase →
            registration.armed = true)
  | .shutting =>
      s.Located fd true 0 0 .shuts nobody ∧ (s.users fd).sockfd = fd ∧
        s.shared.epoll fd = none ∧ s.main = .closing fd (.close fd)
  | .armed =>
      s.Located fd true 0 0 .away nobody ∧ (s.users fd).sockfd = fd ∧
        ∃ interest, s.shared.epoll fd = some ⟨interest, true⟩
  | .reported =>
      s.Located fd true 1 0 .away nobody ∧ (s.users fd).sockfd = fd ∧
        ∃ interest, s.shared.epoll fd = some ⟨interest, false⟩
  | .queued =>
      s.Located fd true 0 1 .away nobody ∧ (s.users fd).sockfd = fd ∧
        ∃ interest, s.shared.epoll fd = some ⟨interest, false⟩
  | .stranded =>
      s.Located fd true 0 0 .away nobody ∧ (s.users fd).sockfd = fd ∧
        ∃ interest, s.shared.epoll fd = some ⟨interest, false⟩
  | .worked owner =>
      s.Located fd true 0 0 .away (fun worker _ _ => worker = owner) ∧
        (s.users fd).sockfd = fd ∧
        ∃ phase, s.workers owner = .busy fd (s.generation fd) phase ∧
          s.Owns fd phase

structure Apart (fd : Nat) (s next : Machine) : Prop where
  sockfd : (next.users fd).sockfd = (s.users fd).sockfd
  opened : next.shared.opened fd = s.shared.opened fd
  epoll : next.shared.epoll fd = s.shared.epoll fd
  generation : next.generation fd = s.generation fd
  batch :
    (next.batch.map Prod.fst).count fd = (s.batch.map Prod.fst).count fd
  queued : next.workqueue.count fd = s.workqueue.count fd
  main :
    next.main = s.main ∨
      s.main.role fd = .away ∧ next.main.role fd = .away
  workers :
    ∀ worker generation phase,
      next.workers worker = .busy fd generation phase ↔
        s.workers worker = .busy fd generation phase

/-- The fields that a step does not touch are taken from here. -/
theorem Apart.refl (fd : Nat) (s : Machine) : Apart fd s s where
  sockfd := rfl
  opened := rfl
  epoll := rfl
  generation := rfl
  batch := rfl
  queued := rfl
  main := .inl rfl
  workers := fun _ _ _ => Iff.rfl

section Here

variable {s next : Machine} {fd : Nat}

theorem Apart.role (apart : Apart fd s next) :
    next.main.role fd = s.main.role fd := by
  rcases apart.main with same | ⟨before, after⟩
  · rw [same]
  · rw [before, after]

theorem Apart.main_eq (apart : Apart fd s next)
    (near : s.main.role fd ≠ .away) : next.main = s.main := by
  rcases apart.main with same | ⟨before, _⟩
  · exact same
  · exact absurd before near

theorem Located.apart
    {isOpen : Bool} {batch queued : Nat} {role : Role}
    {allowed other : Nat → Nat → Phase → Prop}
    (located : s.Located fd isOpen batch queued role allowed)
    (apart : Apart fd s next)
    (keeps :
      ∀ worker generation phase, allowed worker generation phase →
        other worker generation phase) :
    next.Located fd isOpen batch queued role other where
  opened := apart.opened.trans located.opened
  batch := apart.batch.trans located.batch
  queued := apart.queued.trans located.queued
  role := apart.role.trans located.role
  workers := fun _ _ _ isBusy =>
    keeps _ _ _ (located.workers _ _ _ ((apart.workers _ _ _).mp isBusy))

theorem Here.apart
    {spot : Spot} (here : s.Here fd spot) (apart : Apart fd s next) :
    next.Here fd spot := by
  have same : ∀ worker generation phase,
      nobody worker generation phase → nobody worker generation phase :=
    fun _ _ _ impossible => impossible
  cases spot with
  | closed =>
      obtain ⟨⟨role, isAway, located⟩, epoll⟩ := here
      refine
        ⟨⟨role, isAway, located.apart apart ?_⟩, apart.epoll.trans epoll⟩
      intro worker generation phase leaving
      unfold Leaving at leaving ⊢
      rw [apart.generation, apart.sockfd]
      exact leaving
  | opening =>
      obtain ⟨located, epoll, assigned⟩ := here
      have near : s.main.role fd ≠ .away := by
        rw [located.role]
        exact fun impossible => nomatch impossible
      refine ⟨located.apart apart ?_, apart.epoll.trans epoll, ?_⟩
      · intro worker generation phase leaving
        unfold LeavingLate at leaving ⊢
        rw [apart.sockfd]
        exact leaving
      · rw [apart.main_eq near, apart.sockfd]
        exact assigned
  | held =>
      obtain ⟨located, sockfd, registration, epoll, facts⟩ := here
      have near : s.main.role fd ≠ .away := by
        rw [located.role]
        exact fun impossible => nomatch impossible
      refine
        ⟨located.apart apart same, apart.sockfd.trans sockfd, registration,
          apart.epoll.trans epoll, ?_⟩
      rw [apart.main_eq near]
      exact facts
  | shutting =>
      obtain ⟨located, sockfd, epoll, main⟩ := here
      have near : s.main.role fd ≠ .away := by
        rw [located.role]
        exact fun impossible => nomatch impossible
      exact
        ⟨located.apart apart same, apart.sockfd.trans sockfd,
          apart.epoll.trans epoll, (apart.main_eq near).trans main⟩
  | armed | reported | queued | stranded =>
      obtain ⟨located, sockfd, interest, epoll⟩ := here
      exact
        ⟨located.apart apart same, apart.sockfd.trans sockfd, interest,
          apart.epoll.trans epoll⟩
  | worked owner =>
      obtain ⟨located, sockfd, phase, isBusy, owns⟩ := here
      refine
        ⟨located.apart apart (fun _ _ _ isOwner => isOwner),
          apart.sockfd.trans sockfd, phase, ?_, ?_⟩
      · rw [apart.generation]
        exact (apart.workers _ _ _).mpr isBusy
      · unfold Owns at owns ⊢
        rw [apart.epoll]
        exact owns

/-- The place is that at which `main` plays its role. -/
theorem Here.spot_of_role
    {spot : Spot} (here : s.Here fd spot) :
    (s.main.role fd = .opens → spot = .opening) ∧
      (s.main.role fd = .holds → spot = .held) ∧
      (s.main.role fd = .shuts → spot = .shutting) ∧
      (s.main.role fd = .leaves → spot = .closed) := by
  cases spot with
  | closed =>
      obtain ⟨⟨role, isAway, located⟩, _⟩ := here
      rw [located.role]
      rcases isAway with rfl | rfl <;> simp
  | opening | held | shutting | armed | reported | queued | stranded
  | worked owner =>
      rw [here.1.role]
      simp

theorem Here.eq_closed
    {spot : Spot} (here : s.Here fd spot)
    (closed : s.shared.opened fd = false) : spot = .closed := by
  cases spot with
  | closed => rfl
  | opening | held | shutting | armed | reported | queued | stranded
  | worked owner =>
      rw [here.1.opened] at closed
      cases closed

/-- A descriptor that may be reported while `main` is elsewhere. -/
theorem Here.eq_armed
    {spot : Spot} (here : s.Here fd spot) {registration : Registration}
    (epoll : s.shared.epoll fd = some registration)
    (isArmed : registration.armed = true) (away : s.main.role fd = .away) :
    spot = .armed := by
  cases spot with
  | armed => rfl
  | closed =>
      rw [here.2] at epoll
      cases epoll
  | opening | held | shutting =>
      rw [here.1.role] at away
      cases away
  | reported | queued | stranded =>
      obtain ⟨_, _, interest, disarmed⟩ := here
      rw [disarmed] at epoll
      cases epoll
      cases isArmed
  | worked owner =>
      obtain ⟨_, _, phase, _, ⟨_, interest, disarmed⟩ | ⟨_, none⟩⟩ := here
      · rw [disarmed] at epoll
        cases epoll
        cases isArmed
      · rw [none] at epoll
        cases epoll

theorem Here.eq_reported
    {spot : Spot} (here : s.Here fd spot)
    (reported : 0 < (s.batch.map Prod.fst).count fd) :
    spot = .reported := by
  cases spot with
  | reported => rfl
  | closed =>
      obtain ⟨⟨role, _, located⟩, _⟩ := here
      rw [located.batch] at reported
      cases reported
  | opening | held | shutting | armed | queued | stranded
  | worked owner =>
      rw [here.1.batch] at reported
      cases reported

theorem Here.eq_queued
    {spot : Spot} (here : s.Here fd spot)
    (queued : 0 < s.workqueue.count fd) : spot = .queued := by
  cases spot with
  | queued => rfl
  | closed =>
      obtain ⟨⟨role, _, located⟩, _⟩ := here
      rw [located.queued] at queued
      cases queued
  | opening | held | shutting | armed | reported | stranded
  | worked owner =>
      rw [here.1.queued] at queued
      cases queued

/-- The workers of a slot, by the place of its connection. -/
theorem Here.spot_of_busy
    {spot : Spot} (here : s.Here fd spot)
    {worker generation : Nat} {phase : Phase}
    (isBusy : s.workers worker = .busy fd generation phase) :
    spot = .closed ∧ s.Leaving fd worker generation phase ∨
      spot = .opening ∧ s.LeavingLate fd worker generation phase ∨
      spot = .worked worker ∧ generation = s.generation fd ∧
        s.Owns fd phase := by
  cases spot with
  | closed =>
      obtain ⟨⟨role, _, located⟩, _⟩ := here
      exact .inl ⟨rfl, located.workers _ _ _ isBusy⟩
  | opening => exact .inr (.inl ⟨rfl, here.1.workers _ _ _ isBusy⟩)
  | held | shutting | armed | reported | queued | stranded =>
      exact (here.1.workers _ _ _ isBusy).elim
  | worked owner =>
      obtain ⟨located, _, ownPhase, ownBusy, owns⟩ := here
      have isOwner := located.workers _ _ _ isBusy
      subst isOwner
      rw [ownBusy] at isBusy
      cases isBusy
      exact .inr (.inr ⟨rfl, rfl, owns⟩)

end Here

def Placed (s : Machine) : Prop :=
  ∀ fd, ∃ spot, s.Here fd spot

/-- `accept` does not return a number that a worker is about to forget, and
`main` does not register one that a worker is about to arm. -/
def Patient (s : Machine) : ThreadStep → Prop
  | .accept fd _ =>
      ∀ worker generation,
        s.workers worker ≠ .busy fd generation (.closing .reset)
  | .opens =>
      ∀ fd address, s.main = .opening fd address .add →
        ∀ worker generation phase,
          s.workers worker = .busy fd generation phase → ¬ phase.IsLate
  | _ => True

section Steps

variable {pool : Pool} {s next : Machine} {slot : Nat}

/-- A step that concerns one slot. -/
theorem placed_of_local
    (slot : Nat) (placed : s.Placed) (others : ∀ fd ≠ slot, Apart fd s next)
    (own : ∀ spot, s.Here slot spot → ∃ newSpot, next.Here slot newSpot) :
    next.Placed := by
  intro fd
  obtain ⟨spot, here⟩ := placed fd
  by_cases same : fd = slot
  · subst same
    exact own spot here
  · exact ⟨spot, here.apart (others fd same)⟩

theorem placed_start (users : Nat → Conn) : (start users).Placed := by
  intro fd
  refine ⟨.closed, ⟨.away, .inl rfl, rfl, rfl, rfl, rfl, ?_⟩, rfl⟩
  intro worker generation phase isBusy
  cases isBusy

theorem placed_accept
    {address : SockAddr} (placed : s.Placed) (main : s.main = .waiting)
    (closed : s.shared.opened slot = false)
    (patient :
      ∀ worker generation,
        s.workers worker ≠ .busy slot generation (.closing .reset)) :
    Placed
      { s with
        shared := s.shared.accept slot
        generation :=
          Function.update s.generation slot (s.generation slot + 1)
        main := .opening slot address .sockfd } := by
  refine placed_of_local slot placed (fun fd ne => ?_) (fun spot here => ?_)
  · exact
      { Apart.refl _ s with
        opened := Function.update_of_ne ne _ _
        generation := Function.update_of_ne ne _ _
        main := .inr ⟨by rw [main]; rfl, if_neg (Ne.symm ne)⟩ }
  · have isClosed := here.eq_closed closed
    subst isClosed
    obtain ⟨⟨role, _, located⟩, epoll⟩ := here
    refine ⟨.opening, ⟨Function.update_self .., located.batch,
      located.queued, if_pos rfl, ?_⟩, epoll, ?_⟩
    · intro worker generation phase isBusy
      obtain ⟨⟨reset, _⟩ | late, sockfd⟩ := located.workers _ _ _ isBusy
      · subst reset
        exact absurd isBusy (patient worker generation)
      · exact ⟨late, sockfd⟩
    · intro otherAddress phase same
      cases same
      exact .inl rfl

theorem apart_openStep
    {fd : Nat} (ne : fd ≠ slot) {address : SockAddr} {phase : OpenPhase}
    (main : s.main = .opening slot address phase) :
    Apart fd s (s.openStep slot address phase) := by
  have before : s.main.role fd = .away := by
    rw [main]
    exact if_neg (Ne.symm ne)
  have after :
      ∀ phase, (MainPc.opening slot address phase).role fd = .away :=
    fun phase => if_neg (Ne.symm ne)
  have user :
      ∀ c : Conn,
        (Function.update s.users slot c fd).sockfd = (s.users fd).sockfd := by
    intro c
    rw [Function.update_of_ne ne]
  cases phase with
  | sockfd | address =>
      exact
        { Apart.refl _ s with
          sockfd := user _
          main := .inr ⟨before, after _⟩ }
  | count => exact { Apart.refl _ s with main := .inr ⟨before, after _⟩ }
  | add =>
      refine
        { Apart.refl _ s with
          opened := ?_
          epoll := ?_
          main := .inr ⟨before, after _⟩ }
      · show (if _ then _ else _ : Shared).opened fd = _
        split <;> rfl
      · show (if _ then _ else _ : Shared).epoll fd = _
        split
        · exact Function.update_of_ne ne _ _
        · rfl
  | fields rest =>
      cases rest with
      | nil => exact { Apart.refl _ s with main := .inr ⟨before, rfl⟩ }
      | cons write rest =>
          exact
            { Apart.refl _ s with
              sockfd := user _
              main := .inr ⟨before, after _⟩ }

theorem placed_opens
    {address : SockAddr} {phase : OpenPhase} (placed : s.Placed)
    (main : s.main = .opening slot address phase)
    (patient : s.Patient .opens) :
    Placed (s.openStep slot address phase) := by
  refine
    placed_of_local slot placed (fun fd ne => apart_openStep ne main)
      (fun spot here => ?_)
  have role : s.main.role slot = phase.role := by
    rw [main]
    exact if_pos rfl
  obtain ⟨opens, holds, _, _⟩ := here.spot_of_role
  rw [role] at opens holds
  cases phase with
  | sockfd =>
      have isOpening := opens rfl
      subst isOpening
      obtain ⟨located, epoll, _⟩ := here
      have sockfd :
          (Function.update s.users slot
            { s.users slot with sockfd := slot } slot).sockfd = slot := by
        rw [Function.update_self]
      refine ⟨.opening, ⟨located.opened, located.batch, located.queued,
        if_pos rfl, ?_⟩, epoll, fun _ _ _ => .inr sockfd⟩
      intro worker generation phase isBusy
      exact ⟨(located.workers _ _ _ isBusy).1, .inr sockfd⟩
  | address =>
      have isOpening := opens rfl
      subst isOpening
      obtain ⟨located, epoll, assigned⟩ := here
      have sockfd :
          (Function.update s.users slot
            { s.users slot with address := address } slot).sockfd = slot := by
        rw [Function.update_self]
        rcases assigned _ _ main with impossible | assigned
        · cases impossible
        · exact assigned
      refine ⟨.opening, ⟨located.opened, located.batch, located.queued,
        if_pos rfl, ?_⟩, epoll, fun _ _ _ => .inr sockfd⟩
      intro worker generation phase isBusy
      exact ⟨(located.workers _ _ _ isBusy).1, .inr sockfd⟩
  | add =>
      have isOpening := opens rfl
      subst isOpening
      obtain ⟨located, epoll, assigned⟩ := here
      have sockfd : (s.users slot).sockfd = slot := by
        rcases assigned _ _ main with impossible | assigned
        · cases impossible
        · exact assigned
      have isNone : (s.shared.epoll slot).isNone := by
        rw [epoll]
        rfl
      have added :
          s.shared.apply (.epollAdd slot) =
            s.shared.register slot ⟨.epollIn, true⟩ :=
        if_pos isNone
      refine ⟨.held, ⟨?_, located.batch, located.queued, if_pos rfl, ?_⟩,
        sockfd, ⟨.epollIn, true⟩, ?_, fun _ => ?_, fun _ => rfl,
        fun _ _ _ => rfl⟩
      · show (s.shared.apply (.epollAdd slot)).opened slot = true
        rw [added]
        exact located.opened
      · intro worker generation phase isBusy
        exact
          patient slot address main worker generation phase isBusy
            (located.workers _ _ _ isBusy).1
      · show (s.shared.apply (.epollAdd slot)).epoll slot = _
        rw [added]
        exact Function.update_self ..
      · next impossible => cases impossible
  | count =>
      have isHeld := holds rfl
      subst isHeld
      obtain ⟨located, sockfd, registration, epoll, _, _, armed⟩ := here
      exact
        ⟨.held, ⟨located.opened, located.batch, located.queued, if_pos rfl,
          located.workers⟩, sockfd, registration, epoll,
          fun impossible => (nomatch impossible),
          fun impossible => (nomatch impossible),
          fun _ _ _ => armed _ _ main⟩
  | fields rest =>
      have isHeld := holds rfl
      subst isHeld
      obtain ⟨located, sockfd, registration, epoll, _, _, armed⟩ := here
      have isArmed := armed _ _ main
      cases rest with
      | nil =>
          refine ⟨.armed, ⟨located.opened, located.batch, located.queued,
            rfl, located.workers⟩, sockfd, registration.interest, ?_⟩
          rw [← isArmed]
          exact epoll
      | cons write rest =>
          have written :
              (Function.update s.users slot
                (write.apply (s.users slot)) slot).sockfd = slot := by
            rw [Function.update_self, write.keeps]
            exact sockfd
          exact
            ⟨.held, ⟨located.opened, located.batch, located.queued,
              if_pos rfl, located.workers⟩, written, registration, epoll,
              fun impossible => (nomatch impossible),
              fun impossible => (nomatch impossible),
              fun _ _ _ => isArmed⟩

theorem armed_of_reports
    {registration : Registration} {report : Report}
    (isReported : reports registration report = true) :
    registration.armed = true := by
  cases report with
  | hangUp => exact isReported
  | readable | writable =>
      have same := of_decide_eq_true isReported
      rw [same]

theorem placed_report
    {registration : Registration} {report : Report} (placed : s.Placed)
    (main : s.main = .waiting)
    (epoll : s.shared.epoll slot = some registration)
    (isReported : reports registration report = true) :
    Placed
      { s with
        shared := s.shared.register slot ⟨registration.interest, false⟩
        batch := s.batch ++ [(slot, report)] } := by
  refine placed_of_local slot placed (fun fd ne => ?_) (fun spot here => ?_)
  · refine
      { Apart.refl _ s with
        epoll := Function.update_of_ne ne _ _
        batch := ?_ }
    show ((s.batch ++ [(slot, report)]).map Prod.fst).count fd = _
    rw [List.map_append, List.count_append, List.map_singleton,
      List.count_singleton, if_neg (by simpa using Ne.symm ne), Nat.add_zero]
  · have away : s.main.role slot = .away := by
      rw [main]
      rfl
    have isArmed :=
      here.eq_armed epoll (armed_of_reports isReported) away
    subst isArmed
    obtain ⟨located, sockfd, _⟩ := here
    refine ⟨.reported, ⟨located.opened, ?_, located.queued, located.role,
      located.workers⟩, sockfd, registration.interest,
      Function.update_self ..⟩
    show ((s.batch ++ [(slot, report)]).map Prod.fst).count slot = 1
    rw [List.map_append, List.count_append, located.batch,
      List.map_singleton, List.count_singleton_self]

theorem placed_handle
    {report : Report} {batch : List (Nat × Report)} {main : MainPc}
    (placed : s.Placed) (waiting : s.main = .waiting)
    (first : s.batch = (slot, report) :: batch)
    (enters :
      main = .closing slot .del ∨ main = .reading slot ∨
        main = .writing slot false) :
    Placed { s with batch := batch, main := main } := by
  refine placed_of_local slot placed (fun fd ne => ?_) (fun spot here => ?_)
  · refine
      { Apart.refl _ s with
        batch := ?_
        main := .inr ⟨by rw [waiting]; rfl, ?_⟩ }
    · rw [first, List.map_cons, List.count_cons_of_ne (Ne.symm ne)]
    · rcases enters with rfl | rfl | rfl <;> exact if_neg (Ne.symm ne)
  · have counted : (s.batch.map Prod.fst).count slot =
        (batch.map Prod.fst).count slot + 1 := by
      rw [first, List.map_cons, List.count_cons_self]
    have isReported := here.eq_reported (by omega)
    subst isReported
    obtain ⟨located, sockfd, interest, epoll⟩ := here
    have notLeft : (batch.map Prod.fst).count slot = 0 := by
      have once := located.batch
      omega
    have role : main.role slot = .holds := by
      rcases enters with rfl | rfl | rfl <;> exact if_pos rfl
    refine ⟨.held, ⟨located.opened, notLeft, located.queued, role,
      located.workers⟩, sockfd, _, epoll, fun _ => rfl, ?_, ?_⟩
    · intro impossible
      rcases enters with rfl | rfl | rfl <;> cases impossible
    · intro address phase impossible
      rcases enters with rfl | rfl | rfl <;> cases impossible

/-- An assignment in `read` or `write`. -/
theorem placed_assigns
    {write : FieldWrite} (placed : s.Placed) :
    Placed (s.setUser slot (write.apply (s.users slot))) := by
  have same :
      ∀ fd,
        (Function.update s.users slot (write.apply (s.users slot))
          fd).sockfd = (s.users fd).sockfd := by
    intro fd
    by_cases isSlot : fd = slot
    · subst isSlot
      rw [Function.update_self, write.keeps]
    · rw [Function.update_of_ne isSlot]
  intro fd
  obtain ⟨spot, here⟩ := placed fd
  exact ⟨spot, here.apart { Apart.refl _ s with sockfd := same fd }⟩

theorem placed_readReturns
    {workqueue : List Nat} (placed : s.Placed) (main : s.main = .reading slot)
    (appended :
      workqueue = s.workqueue ∨ workqueue = s.workqueue ++ [slot]) :
    Placed { s with workqueue := workqueue, main := .waiting } := by
  refine placed_of_local slot placed (fun fd ne => ?_) (fun spot here => ?_)
  · refine { Apart.refl _ s with queued := ?_, main := .inr ⟨?_, rfl⟩ }
    · rcases appended with rfl | rfl
      · rfl
      · show (s.workqueue ++ [slot]).count fd = _
        rw [List.count_append, List.count_singleton,
          if_neg (by simpa using Ne.symm ne), Nat.add_zero]
    · rw [main]
      exact if_neg (Ne.symm ne)
  · have role : s.main.role slot = .holds := by
      rw [main]
      exact if_pos rfl
    have isHeld := here.spot_of_role.2.1 role
    subst isHeld
    obtain ⟨located, sockfd, ⟨interest, armed⟩, epoll, disarmed, _⟩ := here
    have notArmed : armed = false := disarmed main
    subst notArmed
    rcases appended with rfl | rfl
    · exact
        ⟨.stranded, ⟨located.opened, located.batch, located.queued, rfl,
          located.workers⟩, sockfd, interest, epoll⟩
    · refine
        ⟨.queued, ⟨located.opened, located.batch, ?_, rfl, located.workers⟩,
          sockfd, interest, epoll⟩
      show (s.workqueue ++ [slot]).count slot = 1
      rw [List.count_append, located.queued, List.count_singleton_self]

/-- `read` or `write` returns false, and `main` calls `close_conn`. -/
theorem placed_startsClosing
    (placed : s.Placed)
    (main : s.main = .reading slot ∨ ∃ armed, s.main = .writing slot armed) :
    Placed { s with main := .closing slot .del } := by
  have role : ∀ fd, s.main.role fd = if slot = fd then .holds else .away := by
    intro fd
    rcases main with main | ⟨armed, main⟩ <;> rw [main] <;> rfl
  refine placed_of_local slot placed (fun fd ne => ?_) (fun spot here => ?_)
  · refine { Apart.refl _ s with main := .inr ⟨?_, if_neg (Ne.symm ne)⟩ }
    rw [role, if_neg (Ne.symm ne)]
  · have isHeld :=
      here.spot_of_role.2.1 ((role slot).trans (if_pos rfl))
    subst isHeld
    obtain ⟨located, sockfd, registration, epoll, _⟩ := here
    exact
      ⟨.held, ⟨located.opened, located.batch, located.queued, if_pos rfl,
        located.workers⟩, sockfd, registration, epoll,
        fun impossible => (nomatch impossible),
        fun impossible => (nomatch impossible),
        fun _ _ impossible => (nomatch impossible)⟩

theorem modfd_registered
    {registration : Registration} (interest : Interest)
    (sockfd : (s.users slot).sockfd = slot)
    (epoll : s.shared.epoll slot = some registration) :
    s.modfd slot interest =
      { s with shared := s.shared.register slot ⟨interest, true⟩ } := by
  have isSome : (s.shared.epoll slot).isSome := by
    rw [epoll]
    rfl
  have applied :
      s.shared.apply (.epollMod slot interest) =
        s.shared.register slot ⟨interest, true⟩ :=
    if_pos isSome
  unfold modfd
  rw [sockfd, applied]

/-- `modfd` fails on a descriptor that is not registered. -/
theorem modfd_unregistered
    (interest : Interest)
    (sockfd : (s.users slot).sockfd = -1 ∨ (s.users slot).sockfd = slot)
    (epoll : s.shared.epoll slot = none) : s.modfd slot interest = s := by
  unfold modfd
  rcases sockfd with minus | own
  · rw [minus]
    rfl
  · have notSome : ¬ (s.shared.epoll slot).isSome := by
      rw [epoll]
      exact Bool.false_ne_true
    have applied :
        s.shared.apply (.epollMod slot interest) = s.shared :=
      if_neg notSome
    rw [own, applied]

theorem placed_writeArms
    {armed : Bool} {interest : Interest} (placed : s.Placed)
    (main : s.main = .writing slot armed) :
    Placed { s.modfd slot interest with main := .writing slot true } := by
  have role : s.main.role slot = .holds := by
    rw [main]
    exact if_pos rfl
  obtain ⟨spot, here⟩ := placed slot
  have isHeld := here.spot_of_role.2.1 role
  subst isHeld
  obtain ⟨located, sockfd, registration, epoll, _⟩ := here
  rw [modfd_registered interest sockfd epoll]
  refine placed_of_local slot placed (fun fd ne => ?_) (fun spot _ => ?_)
  · refine
      { Apart.refl _ s with
        epoll := Function.update_of_ne ne _ _
        main := .inr ⟨?_, if_neg (Ne.symm ne)⟩ }
    rw [main]
    exact if_neg (Ne.symm ne)
  · exact
      ⟨.held, ⟨located.opened, located.batch, located.queued, if_pos rfl,
        located.workers⟩, sockfd, ⟨interest, true⟩,
        Function.update_self .., fun impossible => (nomatch impossible),
        fun _ => rfl, fun _ _ impossible => (nomatch impossible)⟩

theorem placed_writeReturns
    (placed : s.Placed) (main : s.main = .writing slot true) :
    Placed { s with main := .waiting } := by
  refine placed_of_local slot placed (fun fd ne => ?_) (fun spot here => ?_)
  · refine { Apart.refl _ s with main := .inr ⟨?_, rfl⟩ }
    rw [main]
    exact if_neg (Ne.symm ne)
  · have role : s.main.role slot = .holds := by
      rw [main]
      exact if_pos rfl
    have isHeld := here.spot_of_role.2.1 role
    subst isHeld
    obtain ⟨located, sockfd, ⟨interest, armed⟩, epoll, _, isArmed, _⟩ := here
    have armedEq : armed = true := isArmed main
    subst armedEq
    exact
      ⟨.armed, ⟨located.opened, located.batch, located.queued, rfl,
        located.workers⟩, sockfd, interest, epoll⟩

theorem closeStep_del
    {c : Conn} {shared : Shared} (sockfd : c.sockfd = slot) :
    ClosePhase.step c shared .del =
      (c, shared.deregister slot, some (.close slot)) := by
  have isOpen : c.sockfd ≠ -1 := by omega
  show (if c.sockfd ≠ -1 then _ else _) = _
  rw [if_pos isOpen, sockfd]
  rfl

theorem placed_closes
    {phase : ClosePhase} (placed : s.Placed)
    (main : s.main = .closing slot phase) :
    Placed (s.closeStep slot phase) := by
  have role : s.main.role slot = phase.role := by
    rw [main]
    exact if_pos rfl
  have before : ∀ fd ≠ slot, s.main.role fd = .away := by
    intro fd ne
    rw [main]
    exact if_neg (Ne.symm ne)
  have after :
      ∀ fd ≠ slot, ∀ phase, (MainPc.closing slot phase).role fd = .away :=
    fun fd ne _ => if_neg (Ne.symm ne)
  have unchanged :
      Function.update s.users slot (s.users slot) = s.users :=
    Function.update_eq_self slot s.users
  obtain ⟨spot, here⟩ := placed slot
  obtain ⟨_, holds, shuts, leaves⟩ := here.spot_of_role
  rw [role] at holds shuts leaves
  unfold closeStep
  cases phase with
  | del =>
      have isHeld := holds rfl
      subst isHeld
      obtain ⟨located, sockfd, _⟩ := here
      rw [closeStep_del sockfd]
      simp only [setUser, unchanged]
      refine placed_of_local slot placed (fun fd ne => ?_) (fun spot _ => ?_)
      · exact
          { Apart.refl _ s with
            epoll := Function.update_of_ne ne _ _
            main := .inr ⟨before fd ne, after fd ne _⟩ }
      · exact
          ⟨.shutting, ⟨located.opened, located.batch, located.queued,
            if_pos rfl, located.workers⟩, sockfd, Function.update_self ..,
            rfl⟩
  | close fd =>
      have isShutting := shuts rfl
      subst isShutting
      obtain ⟨located, sockfd, epoll, isClosing⟩ := here
      rw [isClosing] at main
      cases main
      simp only [ClosePhase.step, setUser, unchanged]
      refine placed_of_local slot placed (fun fd ne => ?_) (fun spot _ => ?_)
      · exact
          { Apart.refl _ s with
            opened := Function.update_of_ne ne _ _
            epoll := Function.update_of_ne ne _ _
            main := .inr ⟨before fd ne, after fd ne _⟩ }
      · refine ⟨.closed, ⟨.leaves, .inr rfl, Function.update_self ..,
          located.batch, located.queued, if_pos rfl, ?_⟩,
          Function.update_self ..⟩
        intro worker generation phase isBusy
        exact (located.workers _ _ _ isBusy).elim
  | reset =>
      have isClosed := leaves rfl
      subst isClosed
      obtain ⟨⟨_, _, located⟩, epoll⟩ := here
      simp only [ClosePhase.step, setUser]
      refine placed_of_local slot placed (fun fd ne => ?_) (fun spot _ => ?_)
      · refine
          { Apart.refl _ s with
            sockfd := ?_
            main := .inr ⟨before fd ne, after fd ne _⟩ }
        show (Function.update s.users slot _ fd).sockfd = _
        rw [Function.update_of_ne ne]
      · refine ⟨.closed, ⟨.leaves, .inr rfl, located.opened, located.batch,
          located.queued, if_pos rfl, ?_⟩, epoll⟩
        intro worker generation phase isBusy
        refine ⟨(located.workers _ _ _ isBusy).1, .inl ?_⟩
        show (Function.update s.users slot _ slot).sockfd = -1
        rw [Function.update_self]
  | count =>
      have isClosed := leaves rfl
      subst isClosed
      obtain ⟨⟨_, _, located⟩, epoll⟩ := here
      simp only [ClosePhase.step, setUser, unchanged]
      refine placed_of_local slot placed (fun fd ne => ?_) (fun spot _ => ?_)
      · exact { Apart.refl _ s with main := .inr ⟨before fd ne, rfl⟩ }
      · exact
          ⟨.closed, ⟨.away, .inl rfl, located.opened, located.batch,
            located.queued, rfl, located.workers⟩, epoll⟩

/-! ### The workers -/

def WorkerPc.Stays (slot : Nat) (pc : WorkerPc) : Prop :=
  ∀ fd ≠ slot, ∀ generation phase, pc ≠ .busy fd generation phase

theorem stays_idle : WorkerPc.Stays slot .idle :=
  fun _ _ _ _ impossible => nomatch impossible

theorem stays_busy (generation : Nat) (phase : Phase) :
    WorkerPc.Stays slot (.busy slot generation phase) := by
  intro fd ne _ _ same
  cases same
  exact ne rfl

/-- A worker that stays on one slot does not show on the others. -/
theorem workers_of_ne
    {fd worker : Nat} {after : WorkerPc} (ne : fd ≠ slot)
    (before : WorkerPc.Stays slot (s.workers worker))
    (stays : WorkerPc.Stays slot after)
    (other generation : Nat) (phase : Phase) :
    Function.update s.workers worker after other =
        .busy fd generation phase ↔
      s.workers other = .busy fd generation phase := by
  by_cases same : other = worker
  · subst same
    rw [Function.update_self]
    exact
      iff_of_false (stays fd ne generation phase)
        (before fd ne generation phase)
  · rw [Function.update_of_ne same]

theorem stays_of_eq
    {worker generation : Nat} {phase : Phase}
    (isBusy : s.workers worker = .busy slot generation phase) :
    WorkerPc.Stays slot (s.workers worker) := by
  rw [isBusy]
  exact stays_busy generation phase

theorem worker_of_update
    {worker other generation : Nat} {pc : WorkerPc} {phase : Phase}
    (isBusy :
      Function.update s.workers worker pc other =
        .busy slot generation phase) :
    other = worker ∧ pc = .busy slot generation phase ∨
      other ≠ worker ∧ s.workers other = .busy slot generation phase := by
  by_cases same : other = worker
  · subst same
    rw [Function.update_self] at isBusy
    exact .inl ⟨rfl, isBusy⟩
  · rw [Function.update_of_ne same] at isBusy
    exact .inr ⟨same, isBusy⟩

theorem placed_take
    {worker : Nat} {workqueue : List Nat} (placed : s.Placed)
    (idle : s.workers worker = .idle)
    (first : s.workqueue = slot :: workqueue) :
    Placed
      { s.setWorker worker (.busy slot (s.generation slot) .working) with
        workqueue := workqueue } := by
  have stays : WorkerPc.Stays slot (s.workers worker) := by
    rw [idle]
    exact stays_idle
  refine placed_of_local slot placed (fun fd ne => ?_) (fun spot here => ?_)
  · refine
      { Apart.refl _ s with
        queued := ?_
        workers := workers_of_ne ne stays (stays_busy _ _) }
    rw [first, List.count_cons_of_ne (Ne.symm ne)]
  · have counted := congrArg (List.count slot) first
    rw [List.count_cons_self] at counted
    have isQueued := here.eq_queued (by omega)
    subst isQueued
    obtain ⟨located, sockfd, interest, epoll⟩ := here
    have once := located.queued
    have notLeft : workqueue.count slot = 0 := by omega
    refine ⟨.worked worker, ⟨located.opened, located.batch, notLeft,
      located.role, ?_⟩, sockfd, .working, Function.update_self ..,
      .inl ⟨.inl rfl, interest, epoll⟩⟩
    intro other generation phase isBusy
    rcases worker_of_update isBusy with ⟨same, _⟩ | ⟨_, was⟩
    · exact same
    · exact (located.workers _ _ _ was).elim

/-- A worker that has not called `close_conn` owns its connection. -/
theorem owner_of_working
    {worker generation : Nat} {phase : Phase} (placed : s.Placed)
    (isBusy : s.workers worker = .busy slot generation phase)
    (early : phase = .working ∨ phase = .closing .del ∨
      ∃ fd, phase = .closing (.close fd)) :
    s.Here slot (.worked worker) ∧ generation = s.generation slot ∧
      s.Owns slot phase := by
  have notLate : ¬ phase.IsLate := by
    rintro (late | late) <;> rcases early with rfl | rfl | ⟨fd, rfl⟩ <;>
      cases late
  have notReset : phase ≠ .closing .reset := by
    rcases early with rfl | rfl | ⟨fd, rfl⟩ <;>
      exact fun impossible => nomatch impossible
  obtain ⟨spot, here⟩ := placed slot
  rcases here.spot_of_busy isBusy with
    ⟨_, ⟨reset, _⟩ | late, _⟩ | ⟨_, late, _⟩ | ⟨rfl, owns⟩
  · exact absurd reset notReset
  · exact absurd late notLate
  · exact absurd late notLate
  · exact ⟨here, owns⟩

theorem placed_finishes
    {worker generation : Nat} {interest : Interest} (placed : s.Placed)
    (isBusy : s.workers worker = .busy slot generation .working) :
    Placed ((s.modfd slot interest).setWorker worker .idle) := by
  obtain ⟨here, _, owns⟩ := owner_of_working placed isBusy (.inl rfl)
  obtain ⟨located, sockfd, _⟩ := here
  rcases owns with ⟨_, old, epoll⟩ | ⟨impossible, _⟩
  · rw [modfd_registered interest sockfd epoll]
    refine placed_of_local slot placed (fun fd ne => ?_) (fun spot _ => ?_)
    · exact
        { Apart.refl _ s with
          epoll := Function.update_of_ne ne _ _
          workers := workers_of_ne ne (stays_of_eq isBusy) stays_idle }
    · refine ⟨.armed, ⟨located.opened, located.batch, located.queued,
        located.role, ?_⟩, sockfd, interest, Function.update_self ..⟩
      intro other otherGeneration phase isOther
      rcases worker_of_update isOther with ⟨_, impossible⟩ | ⟨ne, was⟩
      · cases impossible
      · exact absurd (located.workers _ _ _ was) ne
  · cases impossible

theorem placed_fails
    {worker generation : Nat} (placed : s.Placed)
    (isBusy : s.workers worker = .busy slot generation .working) :
    Placed
      (s.setWorker worker (.busy slot generation (.closing .del))) := by
  obtain ⟨here, isLatest, owns⟩ := owner_of_working placed isBusy (.inl rfl)
  obtain ⟨located, sockfd, _⟩ := here
  rcases owns with ⟨_, epoll⟩ | ⟨impossible, _⟩
  · refine placed_of_local slot placed (fun fd ne => ?_) (fun spot _ => ?_)
    · exact
        { Apart.refl _ s with
          workers :=
            workers_of_ne ne (stays_of_eq isBusy) (stays_busy _ _) }
    · refine ⟨.worked worker, ⟨located.opened, located.batch,
        located.queued, located.role, ?_⟩, sockfd, .closing .del, ?_,
        .inl ⟨.inr rfl, epoll⟩⟩
      · intro other otherGeneration phase isOther
        rcases worker_of_update isOther with ⟨same, _⟩ | ⟨_, was⟩
        · exact same
        · exact located.workers _ _ _ was
      · show Function.update s.workers worker _ worker = _
        rw [Function.update_self, isLatest]
        rfl
  · cases impossible

/-- The last steps of a worker whose connection is closed and, it may be,
accepted anew: they find the descriptor not registered. -/
theorem spot_of_late
    {worker generation : Nat} {phase : Phase} (placed : s.Placed)
    (isBusy : s.workers worker = .busy slot generation phase)
    (late : phase.IsLate) :
    (s.Here slot .closed ∨ s.Here slot .opening) ∧
      s.shared.epoll slot = none ∧
      ((s.users slot).sockfd = -1 ∨ (s.users slot).sockfd = slot) := by
  obtain ⟨spot, here⟩ := placed slot
  rcases here.spot_of_busy isBusy with
    ⟨rfl, _, sockfd⟩ | ⟨rfl, _, sockfd⟩ | ⟨_, _, owns⟩
  · exact ⟨.inl here, here.2, sockfd⟩
  · exact ⟨.inr here, here.2.1, sockfd⟩
  · rcases late with rfl | rfl <;>
      rcases owns with ⟨impossible | impossible, _⟩ | ⟨impossible, _⟩ <;>
      cases impossible

/-- Between `close` and `m_sockfd = -1` the connection has not been accepted
anew. -/
theorem spot_of_reset
    {worker generation : Nat} (placed : s.Placed)
    (isBusy : s.workers worker = .busy slot generation (.closing .reset)) :
    s.Here slot .closed ∧ generation = s.generation slot := by
  have notLate : ¬ (Phase.closing .reset).IsLate := by
    rintro (late | late) <;> cases late
  obtain ⟨spot, here⟩ := placed slot
  rcases here.spot_of_busy isBusy with
    ⟨rfl, ⟨_, isLatest⟩ | late, _⟩ | ⟨_, late, _⟩ | ⟨_, _, owns⟩
  · exact ⟨here, isLatest⟩
  · exact absurd late notLate
  · exact absurd late notLate
  · rcases owns with ⟨impossible | impossible, _⟩ | ⟨impossible, _⟩ <;>
      cases impossible

/-- A late worker that moves on, or is done, keeps the slot where it is. -/
theorem placed_late
    {worker generation : Nat} {phase : Phase} {pc : WorkerPc}
    {userCount : Int} (placed : s.Placed)
    (isBusy : s.workers worker = .busy slot generation phase)
    (late : phase.IsLate)
    (moves : pc = .idle ∨ pc = .busy slot generation .rearm) :
    Placed
      { s.setWorker worker pc with
        shared := { s.shared with userCount := userCount } } := by
  have stays : WorkerPc.Stays slot pc := by
    rcases moves with rfl | rfl
    · exact stays_idle
    · exact stays_busy _ _
  have stillLate :
      ∀ {otherGeneration : Nat} {otherPhase : Phase},
        pc = .busy slot otherGeneration otherPhase →
          otherPhase.IsLate := by
    intro otherGeneration otherPhase same
    rcases moves with rfl | rfl
    · cases same
    · cases same
      exact .inr rfl
  obtain ⟨here, epoll, sockfd⟩ := spot_of_late placed isBusy late
  refine placed_of_local slot placed (fun fd ne => ?_) (fun spot _ => ?_)
  · exact
      { Apart.refl _ s with
        workers := workers_of_ne ne (stays_of_eq isBusy) stays }
  · rcases here with ⟨⟨role, isAway, located⟩, _⟩ | ⟨located, _, assigned⟩
    · refine ⟨.closed, ⟨role, isAway, located.opened, located.batch,
        located.queued, located.role, ?_⟩, epoll⟩
      intro other otherGeneration otherPhase isOther
      rcases worker_of_update isOther with ⟨_, same⟩ | ⟨_, was⟩
      · exact ⟨.inr (stillLate same), sockfd⟩
      · exact located.workers _ _ _ was
    · refine ⟨.opening, ⟨located.opened, located.batch, located.queued,
        located.role, ?_⟩, epoll, assigned⟩
      intro other otherGeneration otherPhase isOther
      rcases worker_of_update isOther with ⟨_, same⟩ | ⟨_, was⟩
      · exact ⟨stillLate same, sockfd⟩
      · exact located.workers _ _ _ was

theorem placed_rearms
    {worker generation : Nat} (placed : s.Placed)
    (isBusy : s.workers worker = .busy slot generation .rearm) :
    Placed ((s.modfd slot .epollOut).setWorker worker .idle) := by
  obtain ⟨_, epoll, sockfd⟩ := spot_of_late placed isBusy (.inr rfl)
  rw [modfd_unregistered .epollOut sockfd epoll]
  exact placed_late placed isBusy (.inr rfl) (.inl rfl)

theorem placed_workerCloses
    {worker generation : Nat} {phase : ClosePhase} (placed : s.Placed)
    (isBusy : s.workers worker = .busy slot generation (.closing phase)) :
    Placed (s.workerCloseStep worker slot generation phase) := by
  have unchanged :
      Function.update s.users slot (s.users slot) = s.users :=
    Function.update_eq_self slot s.users
  unfold workerCloseStep
  cases phase with
  | del =>
      obtain ⟨⟨located, sockfd, _⟩, isLatest, _⟩ :=
        owner_of_working placed isBusy (.inr (.inl rfl))
      rw [closeStep_del sockfd]
      simp only [setUser, unchanged]
      refine placed_of_local slot placed (fun fd ne => ?_) (fun spot _ => ?_)
      · exact
          { Apart.refl _ s with
            epoll := Function.update_of_ne ne _ _
            workers :=
              workers_of_ne ne (stays_of_eq isBusy) (stays_busy _ _) }
      · refine ⟨.worked worker, ⟨located.opened, located.batch,
          located.queued, located.role, ?_⟩, sockfd, .closing (.close slot),
          ?_, .inr ⟨rfl, Function.update_self ..⟩⟩
        · intro other otherGeneration otherPhase isOther
          rcases worker_of_update isOther with ⟨same, _⟩ | ⟨_, was⟩
          · exact same
          · exact located.workers _ _ _ was
        · show Function.update s.workers worker _ worker = _
          rw [Function.update_self, isLatest]
          rfl
  | close fd =>
      obtain ⟨⟨located, sockfd, _⟩, isLatest, owns⟩ :=
        owner_of_working placed isBusy (.inr (.inr ⟨fd, rfl⟩))
      rcases owns with ⟨impossible | impossible, _⟩ | ⟨same, _⟩
      · cases impossible
      · cases impossible
      · cases same
        simp only [ClosePhase.step, setUser, unchanged]
        refine
          placed_of_local slot placed (fun fd ne => ?_) (fun spot _ => ?_)
        · exact
            { Apart.refl _ s with
              opened := Function.update_of_ne ne _ _
              epoll := Function.update_of_ne ne _ _
              workers :=
                workers_of_ne ne (stays_of_eq isBusy) (stays_busy _ _) }
        · refine ⟨.closed, ⟨.away, .inl rfl, Function.update_self ..,
            located.batch, located.queued, located.role, ?_⟩,
            Function.update_self ..⟩
          intro other otherGeneration otherPhase isOther
          rcases worker_of_update isOther with ⟨_, same⟩ | ⟨ne, was⟩
          · cases same
            exact ⟨.inl ⟨rfl, isLatest⟩, .inr sockfd⟩
          · exact absurd (located.workers _ _ _ was) ne
  | reset =>
      obtain ⟨⟨⟨role, isAway, located⟩, epoll⟩, _⟩ :=
        spot_of_reset placed isBusy
      simp only [ClosePhase.step, setUser]
      refine placed_of_local slot placed (fun fd ne => ?_) (fun spot _ => ?_)
      · refine
          { Apart.refl _ s with
            sockfd := ?_
            workers :=
              workers_of_ne ne (stays_of_eq isBusy) (stays_busy _ _) }
        show (Function.update s.users slot _ fd).sockfd = _
        rw [Function.update_of_ne ne]
      · refine ⟨.closed, ⟨role, isAway, located.opened, located.batch,
          located.queued, located.role, ?_⟩, epoll⟩
        intro other otherGeneration otherPhase isOther
        have sockfd :
            (Function.update s.users slot
              { s.users slot with sockfd := -1 } slot).sockfd = -1 := by
          rw [Function.update_self]
        rcases worker_of_update isOther with ⟨_, same⟩ | ⟨_, was⟩
        · cases same
          exact ⟨.inr (.inl rfl), .inl sockfd⟩
        · exact ⟨(located.workers _ _ _ was).1, .inl sockfd⟩
  | count =>
      simp only [ClosePhase.step, setUser, unchanged]
      exact placed_late placed isBusy (.inl rfl) (.inr rfl)

/-- Every patient step keeps every connection at a place. -/
theorem placed_step
    (s : Machine) (label : ThreadStep) (next : Machine) (placed : s.Placed)
    (patient : s.Patient label) (stepped : s.step pool label = some next) :
    next.Placed := by
  cases label with
  | accept fd address =>
      simp only [step] at stepped
      split at stepped
      · next main =>
          split at stepped
          · cases stepped
          · next closed =>
              split at stepped
              · cases stepped
                exact placed
              · cases stepped
                exact
                  placed_accept placed main (Bool.eq_false_iff.mpr closed)
                    patient
      · cases stepped
  | opens =>
      simp only [step] at stepped
      split at stepped
      · next main =>
          cases stepped
          exact placed_opens placed main patient
      · cases stepped
  | report fd report =>
      simp only [step] at stepped
      split at stepped
      · next main epoll =>
          split at stepped
          · next isReported =>
              cases stepped
              exact placed_report placed main epoll isReported
          · cases stepped
      · cases stepped
  | handle =>
      simp only [step] at stepped
      split at stepped
      · next fd report batch main first =>
          cases stepped
          refine placed_handle placed main first ?_
          cases report with
          | hangUp => exact .inl rfl
          | readable => exact .inr (.inl rfl)
          | writable => exact .inr (.inr rfl)
      · cases stepped
  | assigns write =>
      simp only [step] at stepped
      split at stepped
      · cases stepped
        exact placed_assigns placed
      · cases stepped
        exact placed_assigns placed
      · cases stepped
  | readReturns ret =>
      simp only [step] at stepped
      split at stepped
      · next slot main =>
          split at stepped
          · cases stepped
            refine placed_readReturns placed main ?_
            unfold Pool.append
            split
            · exact .inl rfl
            · exact .inr rfl
          · cases stepped
            exact placed_startsClosing placed (.inl main)
      · cases stepped
  | writeArms interest =>
      simp only [step] at stepped
      split at stepped
      · next main =>
          cases stepped
          exact placed_writeArms placed main
      · cases stepped
  | writeReturns ret =>
      simp only [step] at stepped
      split at stepped
      · next slot armed main =>
          split at stepped
          · split at stepped
            · next isArmed =>
                cases stepped
                subst isArmed
                exact placed_writeReturns placed main
            · cases stepped
          · cases stepped
            exact placed_startsClosing placed (.inr ⟨armed, main⟩)
      · cases stepped
  | closes =>
      simp only [step] at stepped
      split at stepped
      · next main =>
          cases stepped
          exact placed_closes placed main
      · cases stepped
  | take worker =>
      simp only [step] at stepped
      split at stepped
      · next idle first =>
          cases stepped
          exact placed_take placed idle first
      · cases stepped
  | works worker write =>
      simp only [step] at stepped
      split at stepped
      · cases stepped
        exact placed_assigns placed
      · cases stepped
  | finishes worker interest =>
      simp only [step] at stepped
      split at stepped
      · next isBusy =>
          cases stepped
          exact placed_finishes placed isBusy
      · cases stepped
  | fails worker =>
      simp only [step] at stepped
      split at stepped
      · next isBusy =>
          cases stepped
          exact placed_fails placed isBusy
      · cases stepped
  | workerCloses worker =>
      simp only [step] at stepped
      split at stepped
      · next isBusy =>
          cases stepped
          exact placed_workerCloses placed isBusy
      · cases stepped
  | rearms worker =>
      simp only [step] at stepped
      split at stepped
      · next isBusy =>
          cases stepped
          exact placed_rearms placed isBusy
      · cases stepped

/-! ## Isolation -/

/-- A worker that has left `process_write` does not touch a connection that
was accepted after its own. -/
theorem isolated_step
    {worker generation : Nat} {phase : Phase} {label : ThreadStep}
    (placed : s.Placed)
    (isBusy : s.workers worker = .busy slot generation phase)
    (left : phase ≠ .working) (reused : generation ≠ s.generation slot)
    (own : label = .workerCloses worker ∨ label = .rearms worker)
    (stepped : s.step pool label = some next) :
    next.users slot = s.users slot ∧
      next.shared.epoll slot = s.shared.epoll slot := by
  cases phase with
  | working => exact absurd rfl left
  | rearm =>
      obtain ⟨_, epoll, sockfd⟩ := spot_of_late placed isBusy (.inr rfl)
      rcases own with rfl | rfl
      · simp only [step, isBusy] at stepped
        cases stepped
      · simp only [step, isBusy] at stepped
        rw [modfd_unregistered .epollOut sockfd epoll] at stepped
        cases stepped
        exact ⟨rfl, rfl⟩
  | closing phase =>
      rcases own with rfl | rfl
      · simp only [step, isBusy] at stepped
        cases stepped
        cases phase with
        | del =>
            exact
              absurd (owner_of_working placed isBusy (.inr (.inl rfl))).2.1
                reused
        | close fd =>
            exact
              absurd
                (owner_of_working placed isBusy (.inr (.inr ⟨fd, rfl⟩))).2.1
                reused
        | reset => exact absurd (spot_of_reset placed isBusy).2 reused
        | count => exact ⟨Function.update_self .., rfl⟩
      · simp only [step, isBusy] at stepped
        cases stepped

end Steps

/-- Closing is isolated from the reuse of a descriptor: in a run in which
`accept` does not return a number between `close` and `m_sockfd = -1`, and
`main` does not register it between `m_sockfd = -1` and the last `modfd`, no
step of a worker after `process_write` has returned false changes the slot or
the registration of a connection accepted later on its number. -/
theorem close_isolated
    {pool : Pool} {users : Nat → Conn} {labels : List ThreadStep}
    {s next : Machine} {worker slot generation : Nat} {phase : Phase}
    {label : ThreadStep}
    (patient : StepsMeet (step pool) Patient (start users) labels)
    (ran : run (step pool) (start users) labels = some s)
    (isBusy : s.workers worker = .busy slot generation phase)
    (left : phase ≠ .working) (reused : generation ≠ s.generation slot)
    (own : label = .workerCloses worker ∨ label = .rearms worker)
    (stepped : s.step pool label = some next) :
    next.users slot = s.users slot ∧
      next.shared.epoll slot = s.shared.epoll slot := by
  have placed : s.Placed :=
    guarded_run_keeps Patient Placed placed_step (placed_start users)
      patient ran
  exact isolated_step placed isBusy left reused own stepped

/-- With no worker at work, every step is patient. -/
theorem patient_of_idle
    {s : Machine} {label : ThreadStep}
    (idle : ∀ worker, s.workers worker = .idle) : s.Patient label := by
  cases label with
  | accept fd address =>
      intro worker generation isBusy
      rw [idle] at isBusy
      cases isBusy
  | opens =>
      intro fd address _ worker generation phase isBusy
      rw [idle] at isBusy
      cases isBusy
  | _ => trivial

/-- A connection is served up to the point where a worker has closed it. -/
def serveAndClose : List ThreadStep :=
  [.accept 5 ⟨0, 0⟩] ++ List.replicate 19 .opens ++
    [.report 5 .readable, .handle, .readReturns true, .take 0, .fails 0,
      .workerCloses 0, .workerCloses 0]

/-- All the workers are idle up to `take`, and only the last step is an
`accept` again. -/
theorem patient_before_add :
    StepsMeet (step {}) Patient (start fun _ => Conn.zeroed)
      (serveAndClose ++
        [.workerCloses 0, .workerCloses 0, .accept 5 ⟨0, 0⟩]) := by
  iterate 23 refine stepsMeet_cons (patient_of_idle fun _ => rfl) rfl ?_
  iterate 6 refine stepsMeet_cons trivial rfl ?_
  refine ⟨?_, fun _ _ => trivial⟩
  intro worker generation isBusy
  cases worker with
  | zero => cases isBusy
  | succ worker => cases isBusy

/-- The last `modfd` of the worker does not hurt a connection that is
accepted, but not registered, when it is called. -/
theorem close_isolated_before_add :
    ∃ s next : Machine,
      run (step {}) (start fun _ => Conn.zeroed)
          (serveAndClose ++
            [.workerCloses 0, .workerCloses 0, .accept 5 ⟨0, 0⟩]) =
        some s ∧
      s.workers 0 = .busy 5 1 .rearm ∧ s.generation 5 = 2 ∧
      s.step {} (.rearms 0) = some next ∧
      next.users 5 = s.users 5 ∧
        next.shared.epoll 5 = s.shared.epoll 5 := by
  have ran :
      (run (step {}) (start fun _ => Conn.zeroed)
          (serveAndClose ++
            [.workerCloses 0, .workerCloses 0, .accept 5 ⟨0, 0⟩])).map
        (fun s => (s.workers 0, s.generation 5)) =
      some (.busy 5 1 .rearm, 2) := by
    decide +kernel
  obtain ⟨s, ran, facts⟩ := Option.map_eq_some_iff.mp ran
  obtain ⟨isBusy, generation⟩ := Prod.mk.inj facts
  have stepped :
      s.step {} (.rearms 0) =
        some ((s.modfd 5 .epollOut).setWorker 0 .idle) := by
    simp only [step, isBusy]
  have reused : 1 ≠ s.generation 5 := by omega
  refine
    ⟨s, _, ran, isBusy, generation, stepped,
      close_isolated patient_before_add ran isBusy
        (fun impossible => nomatch impossible) reused (.inr rfl) stepped⟩

/-- When `accept` returns the number between `close` and `m_sockfd = -1`, the
worker overwrites the descriptor of the new connection. -/
theorem close_forgets_new_connection :
    ∃ s next : Machine,
      run (step {}) (start fun _ => Conn.zeroed)
          (serveAndClose ++ [.accept 5 ⟨0, 0⟩, .opens]) = some s ∧
      s.workers 0 = .busy 5 1 (.closing .reset) ∧ s.generation 5 = 2 ∧
      s.step {} (.workerCloses 0) = some next ∧
      (s.users 5).sockfd = 5 ∧ (next.users 5).sockfd = -1 := by
  have ran :
      (run (step {}) (start fun _ => Conn.zeroed)
          (serveAndClose ++ [.accept 5 ⟨0, 0⟩, .opens])).map
        (fun s => (s.workers 0, s.generation 5, (s.users 5).sockfd)) =
      some (.busy 5 1 (.closing .reset), 2, 5) := by
    decide +kernel
  obtain ⟨s, ran, facts⟩ := Option.map_eq_some_iff.mp ran
  obtain ⟨isBusy, others⟩ := Prod.mk.inj facts
  obtain ⟨generation, sockfd⟩ := Prod.mk.inj others
  have stepped :
      s.step {} (.workerCloses 0) =
        some (s.workerCloseStep 0 5 1 .reset) := by
    simp only [step, isBusy]
  refine ⟨s, _, ran, isBusy, generation, stepped, sockfd, ?_⟩
  show (Function.update s.users 5 _ 5).sockfd = -1
  rw [Function.update_self]
  rfl

end Machine

end LinuxNet.WebServer
