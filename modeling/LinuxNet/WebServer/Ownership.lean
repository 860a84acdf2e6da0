import LinuxNet.WebServer.EventLoop

/-!
# Who owns a connection

Seen from one descriptor the server is a small automaton: the connection is
closed, armed in epoll, queued, taken by a worker, or stranded.
`step_moves` says how each step of the server moves each connection between
these places, unless `process()` stores outside `m_read_buf`: in front of it
lies `m_sockfd`, by which the connection is armed and closed.  A connection
gets stranded only when `append` refuses it, and then it stays so; without
that every open connection is in exactly one of the three places at all times
(`ownership`).
-/

namespace LinuxNet.WebServer

open LinuxNet.StepSystem

/-- Events that change nothing but their connection and its mapping.  So does
`epoll_ctl` on the descriptor -1, which fails. -/
def Event.IsCalm : Event → Prop
  | .epollAdd _ | .epollDel _ | .close _ | .userCount _ => False
  | .epollMod (.ofNat _) _ => False
  | _ => True

/-- Calm events, and arming one descriptor. -/
def Event.Touches (fd : Nat) : Event → Prop
  | .epollMod (.ofNat sockfd) _ => sockfd = fd
  | event => event.IsCalm

theorem Event.IsQuiet.isCalm
    {event : Event} (quiet : event.IsQuiet) : event.IsCalm := by
  cases event <;> trivial

namespace Shared

variable {shared : Shared} {fd : Nat}

theorem after_append (shared : Shared) (events later : List Event) :
    shared.after (events ++ later) = (shared.after events).after later :=
  List.foldl_append

theorem apply_calm {event : Event} (calm : event.IsCalm) :
    shared.apply event = shared := by
  cases event with
  | epollAdd | epollDel | close | userCount => exact calm.elim
  | epollMod sockfd interest =>
      cases sockfd with
      | ofNat fd => exact calm.elim
      | negSucc fd => rfl
  | store | scan | sum | vsnprintf | mmap | munmap | sent | responseSent =>
      rfl

theorem after_calm
    {events : List Event} (calm : ∀ event ∈ events, event.IsCalm) :
    shared.after events = shared := by
  induction events with
  | nil =>
      rfl
  | cons event events inductionHypothesis =>
      rw [List.forall_mem_cons] at calm
      unfold after at inductionHypothesis ⊢
      rw [List.foldl_cons, apply_calm calm.1]
      exact inductionHypothesis calm.2

theorem apply_touches
    (shared : Shared) {event : Event} (touches : event.Touches fd) :
    ∃ registration, shared.apply event =
      { shared with
        epoll := Function.update shared.epoll fd registration } := by
  have same :
      shared =
        { shared with
          epoll := Function.update shared.epoll fd (shared.epoll fd) } := by
    rw [Function.update_eq_self]
  cases event with
  | epollAdd | epollDel | close | userCount => exact touches.elim
  | epollMod sockfd interest =>
      cases sockfd with
      | negSucc sockfd => exact ⟨_, same⟩
      | ofNat sockfd =>
          have sockfdEq : sockfd = fd := touches
          subst sockfdEq
          show ∃ registration,
            (if (shared.epoll sockfd).isSome then
                shared.register sockfd ⟨interest, true⟩
              else
                shared) = _
          split
          · exact ⟨_, rfl⟩
          · exact ⟨_, same⟩
  | store | scan | sum | vsnprintf | mmap | munmap | sent | responseSent =>
      exact ⟨_, same⟩

theorem after_touches
    (shared : Shared) {events : List Event}
    (touches : ∀ event ∈ events, event.Touches fd) :
    ∃ registration, shared.after events =
      { shared with
        epoll := Function.update shared.epoll fd registration } := by
  induction events generalizing shared with
  | nil =>
      exact ⟨shared.epoll fd, by rw [Function.update_eq_self]; rfl⟩
  | cons event events inductionHypothesis =>
      rw [List.forall_mem_cons] at touches
      obtain ⟨first, firstEq⟩ := apply_touches shared touches.1
      obtain ⟨last, lastEq⟩ :=
        inductionHypothesis (shared.apply event) touches.2
      refine ⟨last, ?_⟩
      unfold after at lastEq ⊢
      rw [List.foldl_cons, lastEq, firstEq]
      simp only [Function.update_idem]

def forget (shared : Shared) (fd : Nat) : Shared where
  opened := Function.update shared.opened fd false
  epoll := Function.update shared.epoll fd none
  userCount := shared.userCount + -1

end Shared

namespace Conn

structure Arms (fd : Nat) (interest : Interest) (c d : Conn) : Prop where
  sockfd_eq : d.sockfd = fd
  since : ∃ e, Since Event.IsCalm c e ∧
    d.trace = e.trace ++ [.epollMod fd interest]

structure Closes (fd : Nat) (c d : Conn) : Prop where
  sockfd_eq : d.sockfd = -1
  since : ∃ e f, Since (Event.Touches fd) c e ∧
    f.trace =
      e.trace ++ [.epollDel fd, .close fd, .userCount (-1)] ∧
    Since Event.IsCalm f d

section Effects

variable {shared : Shared} {fd : Nat} {c d e : Conn}

theorem Since.shared_eq (since : Since Event.IsCalm c d) :
    shared.after (d.trace.drop c.trace.length) = shared := by
  obtain ⟨events, shape, calm⟩ := since
  rw [shape, List.drop_left]
  exact Shared.after_calm calm

theorem Arms.shared_eq
    {interest : Interest} (arms : Arms fd interest c d)
    (registered : (shared.epoll fd).isSome) :
    shared.after (d.trace.drop c.trace.length) =
      shared.register fd ⟨interest, true⟩ := by
  obtain ⟨e, ⟨events, shape, calm⟩, ending⟩ := arms.since
  rw [ending, shape, List.append_assoc, List.drop_left,
    Shared.after_append, Shared.after_calm calm]
  show (if (shared.epoll fd).isSome then _ else _) = _
  rw [if_pos registered]

theorem Closes.shared_eq (closes : Closes fd c d) :
    shared.after (d.trace.drop c.trace.length) = shared.forget fd := by
  obtain ⟨e, f, ⟨events, shape, touches⟩, ending, later, laterShape, calm⟩ :=
    closes.since
  rw [laterShape, ending, shape, List.append_assoc, List.append_assoc,
    List.drop_left, Shared.after_append, Shared.after_append]
  obtain ⟨registration, middle⟩ :=
    Shared.after_touches shared touches
  rw [Shared.after_calm calm, middle]
  show
    Shared.mk (Function.update shared.opened fd false)
        (Function.update
          (Function.update
            (Function.update shared.epoll fd registration) fd none) fd none)
        (shared.userCount + -1) =
      shared.forget fd
  rw [Function.update_idem, Function.update_idem]
  rfl

/-! ## The effect of each handler -/

theorem shared_initWith
    (c : Conn) (address : SockAddr) (unregistered : shared.epoll fd = none) :
    shared.after ((c.initWith fd address).trace.drop c.trace.length) =
      { shared with
        epoll :=
          Function.update shared.epoll fd (some ⟨.epollIn, true⟩)
        userCount := shared.userCount + 1 } := by
  have trace :
      (c.initWith fd address).trace =
        c.trace ++ [Event.epollAdd fd, Event.userCount 1] := by
    show (c.trace ++ [Event.epollAdd fd]) ++ [Event.userCount 1] = _
    rw [List.append_assoc]
    rfl
  have isNone : (shared.epoll fd).isNone := by
    rw [unregistered]
    rfl
  rw [trace, List.drop_left]
  show
    (if (shared.epoll fd).isNone then _ else shared).apply
        (.userCount 1) = _
  rw [if_pos isNone]
  rfl

theorem Quiet.calm (quiet : Quiet c d) : Since Event.IsCalm c d :=
  quiet.since.mono fun _ isQuiet => isQuiet.isCalm

theorem unmap_sockfd (c : Conn) : c.unmap.sockfd = c.sockfd := by
  unfold unmap
  split <;> rfl

theorem since_unmap (c : Conn) : Since Event.IsCalm c c.unmap := by
  unfold unmap
  split
  · have calm :
        (Event.munmap c.fileAddress c.fileStat.stSize).IsCalm := trivial
    exact .single calm rfl
  · exact .of_trace_eq rfl

theorem Requested.calm
    {fs : FileSystem} {code : HttpCode} (requested : Requested fs c code d) :
    Since Event.IsCalm c d := by
  cases requested with
  | missing | refused | unmapped => exact .of_trace_eq rfl
  | @mapped fileStat address serves succeeded =>
      have calm : (Event.mmap address fileStat.stSize).IsCalm := trivial
      exact .single calm rfl

theorem Since.arms
    {interest : Interest} (since : Since Event.IsCalm c d)
    (sockfd_eq : d.sockfd = fd) : Arms fd interest c (d.modfd interest) where
  sockfd_eq := sockfd_eq
  since := ⟨d, since, by rw [← sockfd_eq]; rfl⟩

theorem closeConn_of_open (isOpen : c.sockfd ≠ -1) :
    c.closeConn =
      { c with
        sockfd := -1
        trace :=
          c.trace ++
            [.epollDel c.sockfd, .close c.sockfd, .userCount (-1)] } := by
  unfold closeConn
  rw [if_pos isOpen]
  simp only [emit, List.append_assoc]
  rfl

theorem Since.closes
    (since : Since (Event.Touches fd) c d) (sockfd_eq : d.sockfd = fd) :
    Closes fd c d.closeConn := by
  have isOpen : d.sockfd ≠ -1 := by omega
  rw [closeConn_of_open isOpen, sockfd_eq]
  exact ⟨rfl, d, _, since, rfl, .of_trace_eq rfl⟩

theorem Since.touches (since : Since Event.IsCalm c d) :
    Since (Event.Touches fd) c d := by
  refine since.mono fun event calm => ?_
  cases event with
  | epollMod sockfd interest =>
      cases sockfd with
      | ofNat sockfd => exact calm.elim
      | negSucc sockfd => trivial
  | _ => exact calm

/-- `write` arms its descriptor, or its caller closes it. -/
theorem WriteReturns.arms
    {interest : Interest} (returns : WriteReturns c (some interest) d)
    (sockfd_eq : c.sockfd = fd) : Arms fd interest c d := by
  cases returns with
  | idle empty =>
      have modfd : Arms fd .epollIn c (c.modfd .epollIn) :=
        Since.arms (.of_trace_eq rfl) sockfd_eq
      exact ⟨modfd.sockfd_eq, modfd.since⟩
  | @again d pending sends =>
      exact
        sends.quiet.calm.arms (sends.quiet.sockfd_eq.trans sockfd_eq)
  | @kept d pending sends linger =>
      have calm : Since Event.IsCalm c d.unmap.init :=
        (sends.quiet.calm.trans (since_unmap d)).trans (.of_trace_eq rfl)
      have sockfd : d.unmap.init.sockfd = fd :=
        (unmap_sockfd d).trans (sends.quiet.sockfd_eq.trans sockfd_eq)
      exact calm.arms sockfd

theorem WriteReturns.closes
    (returns : WriteReturns c none d) (sockfd_eq : c.sockfd = fd) :
    Closes fd c d.closeConn := by
  cases returns with
  | @error d pending sends =>
      have calm : Since Event.IsCalm c d.unmap :=
        sends.quiet.calm.trans (since_unmap d)
      exact
        calm.touches.closes
          ((unmap_sockfd d).trans (sends.quiet.sockfd_eq.trans sockfd_eq))
  | @dropped d pending sends linger =>
      have calm : Since Event.IsCalm c d.unmap :=
        sends.quiet.calm.trans (since_unmap d)
      have sockfd : d.unmap.sockfd = fd :=
        (unmap_sockfd d).trans (sends.quiet.sockfd_eq.trans sockfd_eq)
      have modfd :
          Since (Event.Touches fd) d.unmap (d.unmap.modfd .epollIn) := by
        have touches : (Event.epollMod fd .epollIn).Touches fd := rfl
        refine .single touches ?_
        rw [← sockfd]
        rfl
      exact (calm.touches.trans modfd).closes sockfd

theorem Answers.since
    {fs : FileSystem} {code : HttpCode} {f : Conn}
    (answers : Answers fs c e code f) :
    Since Event.IsCalm e (f.processWrite code).2 := by
  have prints := (processWrite_printsOnly f code).quiet.calm
  rcases answers with ⟨rfl, rfl⟩ | ⟨_, requested⟩
  · exact prints
  · exact requested.calm.trans prints

/-- What is stored in the whole of `process` is stored by `process_read`. -/
theorem Answers.inside
    {fs : FileSystem} {code : HttpCode} {f last : Conn}
    (answers : Answers fs c e code f) (reads : ReadsOnly c e)
    (inside : StoresInside c last)
    (later : Since (fun _ => True) (f.processWrite code).2 last) :
    StoresInside c e :=
  inside.of_since reads.trace_eq
    ((answers.since.mono fun _ _ => trivial).trans later)

/-- What `process` does before its last two calls. -/
theorem Answers.calm
    {fs : FileSystem} {code : HttpCode} {f : Conn}
    (answers : Answers fs c e code f) (reads : ReadsOnly c e)
    (inside : StoresInside c e) (sockfd_eq : c.sockfd = fd) :
    Since Event.IsCalm c (f.processWrite code).2 ∧
      (f.processWrite code).2.sockfd = fd := by
  have quiet := reads.quiet inside
  refine ⟨quiet.calm.trans answers.since, ?_⟩
  have prints := (processWrite_printsOnly f code).sockfd_eq
  rcases answers with ⟨rfl, rfl⟩ | ⟨_, requested⟩
  · exact prints.trans (quiet.sockfd_eq.trans sockfd_eq)
  · exact
      (prints.trans requested.sockfd_eq).trans
        (quiet.sockfd_eq.trans sockfd_eq)

/-- `process` arms its descriptor or closes it. -/
theorem ProcessEnds.arms
    {fs : FileSystem} {interest : Interest}
    (ends : ProcessEnds fs c (some interest) d) (inside : StoresInside c d)
    (sockfd_eq : c.sockfd = fd) : Arms fd interest c d := by
  cases ends with
  | @waits d framed reads =>
      have later : Since (fun _ => True) d (d.modfd .epollIn) :=
        .single trivial rfl
      have quiet := reads.quiet (inside.of_since reads.trace_eq later)
      exact quiet.calm.arms (quiet.sockfd_eq.trans sockfd_eq)
  | @answers e f code reads answers framed written =>
      obtain ⟨calm, sockfd⟩ :=
        answers.calm reads
          (answers.inside reads inside (.single trivial rfl)) sockfd_eq
      exact calm.arms sockfd

theorem since_closeConn (c : Conn) :
    Since (fun _ => True) c c.closeConn := by
  by_cases isOpen : c.sockfd ≠ -1
  · rw [closeConn_of_open isOpen]
    exact ⟨_, rfl, fun _ _ => trivial⟩
  · unfold closeConn
    rw [if_neg isOpen]
    exact .of_trace_eq rfl

theorem ProcessEnds.closes
    {fs : FileSystem} (ends : ProcessEnds fs c none d)
    (inside : StoresInside c d) (sockfd_eq : c.sockfd = fd) :
    Closes fd c d := by
  cases ends with
  | @fails e f code reads answers framed unwritten =>
      have later :
          Since (fun _ => True) (f.processWrite code).2
            ((f.processWrite code).2.closeConn.modfd .epollOut) :=
        (since_closeConn _).trans (.single trivial rfl)
      obtain ⟨calm, sockfd⟩ :=
        answers.calm reads (answers.inside reads inside later) sockfd_eq
      have closes := calm.touches.closes sockfd
      obtain ⟨e, f, touches, ending, later⟩ := closes.since
      refine ⟨closes.sockfd_eq, e, f, touches, ending, later.trans ?_⟩
      have modfd : (Event.epollMod (-1) .epollOut).IsCalm := trivial
      refine .single modfd ?_
      rw [← closes.sockfd_eq]
      rfl

theorem Framed.prints (framed : c.Framed) (prints : PrintsOnly c d) :
    d.Framed where
  length_eq := by
    rw [prints.readBuf_eq]
    exact framed.length_eq
  startLine_le := by
    rw [prints.startLine_eq, prints.checkedIdx_eq]
    exact framed.startLine_le
  checkedIdx_le := by
    rw [prints.checkedIdx_eq, prints.readIdx_eq]
    exact framed.checkedIdx_le
  readIdx_le := by
    rw [prints.readIdx_eq]
    exact framed.readIdx_le
  behind := by
    rw [prints.checkedIdx_eq, prints.readBuf_eq]
    exact framed.behind

theorem unmap_framed (framed : c.Framed) : c.unmap.Framed := by
  unfold unmap
  split
  · exact { framed with }
  · exact framed

theorem WriteReturns.framed
    {interest : Option Interest} (returns : WriteReturns c interest d)
    (framed : c.Framed) : d.Framed := by
  cases returns with
  | idle empty => exact { init_framed (c.modfd .epollIn) with }
  | @again d pending sends =>
      obtain ⟨events, _, rfl⟩ := sends
      exact { framed with }
  | error pending sends =>
      obtain ⟨events, _, rfl⟩ := sends
      exact unmap_framed { framed with }
  | @kept d pending sends linger => exact { init_framed d.unmap with }
  | dropped pending sends linger =>
      obtain ⟨events, _, rfl⟩ := sends
      have sent : ({ c with trace := c.trace ++ events } : Conn).Framed :=
        { framed with }
      exact { unmap_framed sent with }

theorem ProcessEnds.framed
    {fs : FileSystem} {interest : Option Interest}
    (ends : ProcessEnds fs c interest d) : d.Framed := by
  cases ends with
  | waits framed reads => exact { framed with }
  | @answers d e code reads answers framed written =>
      exact { framed.prints (processWrite_printsOnly e code) with }
  | @fails d e code reads answers framed unwritten =>
      have printed := framed.prints (processWrite_printsOnly e code)
      unfold closeConn
      split
      · exact { printed with }
      · exact { printed with }

end Effects

end Conn

/-- Where the connection on a descriptor is. -/
inductive Place where
  | closed
  | armed (interest : Interest)
  | queued
  | taken
  /-- Open, but no event will be reported and no worker will look at it. -/
  | stranded
  deriving DecidableEq, Repr

namespace Pool

variable {pool : Pool} {workqueue : List Nat} {fd other : Nat}

theorem append_full (full : pool.maxRequests < workqueue.length) :
    (pool.append workqueue fd).2 = workqueue := by
  rw [append, if_pos full]

theorem append_room (room : workqueue.length ≤ pool.maxRequests) :
    (pool.append workqueue fd).2 = workqueue ++ [fd] := by
  rw [append, if_neg (by omega)]

theorem count_append_of_ne (ne : other ≠ fd) :
    (pool.append workqueue fd).2.count other = workqueue.count other := by
  by_cases full : pool.maxRequests < workqueue.length
  · rw [append_full full]
  · rw [append_room (by omega), List.count_append,
      List.count_singleton, if_neg (by simpa using ne.symm), Nat.add_zero]

end Pool

namespace Server

/-- An open connection, its registration, and how often it stands in the
queue and among the requests taken. -/
structure Held
    (s : Server) (fd : Nat) (registration : Registration)
    (queued taken : Nat) : Prop where
  opened : s.shared.opened fd = true
  epoll : s.shared.epoll fd = some registration
  sockfd : (s.users fd).sockfd = fd
  framed : (s.users fd).Framed
  queued : s.workqueue.count fd = queued
  taken : s.taken.count fd = taken

def At (s : Server) (fd : Nat) : Place → Prop
  | .closed =>
      s.shared.opened fd = false ∧ s.shared.epoll fd = none ∧
        s.workqueue.count fd = 0 ∧ s.taken.count fd = 0
  | .armed interest => s.Held fd ⟨interest, true⟩ 0 0
  | .queued => s.Held fd ⟨.epollIn, false⟩ 1 0
  | .taken => s.Held fd ⟨.epollIn, false⟩ 0 1
  | .stranded => s.Held fd ⟨.epollIn, false⟩ 0 0

/-- What a step on another descriptor leaves alone. -/
structure Frame (fd : Nat) (s next : Server) : Prop where
  users : next.users fd = s.users fd
  opened : next.shared.opened fd = s.shared.opened fd
  epoll : next.shared.epoll fd = s.shared.epoll fd
  queued : next.workqueue.count fd = s.workqueue.count fd
  taken : next.taken.count fd = s.taken.count fd

section At

variable {s next : Server} {fd : Nat} {place : Place}

theorem Held.frame
    {registration : Registration} {queued taken : Nat}
    (held : s.Held fd registration queued taken) (frame : Frame fd s next) :
    next.Held fd registration queued taken where
  opened := frame.opened.trans held.opened
  epoll := frame.epoll.trans held.epoll
  sockfd := by
    rw [frame.users]
    exact held.sockfd
  framed := by
    rw [frame.users]
    exact held.framed
  queued := frame.queued.trans held.queued
  taken := frame.taken.trans held.taken

theorem At.frame (isAt : s.At fd place) (frame : Frame fd s next) :
    next.At fd place := by
  cases place with
  | closed =>
      obtain ⟨opened, epoll, queued, taken⟩ := isAt
      exact
        ⟨frame.opened.trans opened, frame.epoll.trans epoll,
          frame.queued.trans queued, frame.taken.trans taken⟩
  | armed interest => exact Held.frame isAt frame
  | queued | taken | stranded => exact Held.frame isAt frame

theorem At.framed (isAt : s.At fd place) (notClosed : place ≠ .closed) :
    (s.users fd).Framed := by
  cases place with
  | closed => exact absurd rfl notClosed
  | armed | queued | taken | stranded => exact Held.framed isAt

/-- An armed registration is that of the place. -/
theorem At.eq_armed
    (isAt : s.At fd place) {interest : Interest}
    (armed : s.shared.epoll fd = some ⟨interest, true⟩) :
    place = .armed interest := by
  cases place with
  | closed =>
      rw [isAt.2.1] at armed
      cases armed
  | armed other =>
      rw [Held.epoll isAt] at armed
      cases armed
      rfl
  | queued | taken | stranded =>
      rw [Held.epoll isAt] at armed
      cases armed

theorem At.eq_closed
    (isAt : s.At fd place) (closed : s.shared.opened fd = false) :
    place = .closed := by
  cases place with
  | closed => rfl
  | armed | queued | taken | stranded =>
      rw [Held.opened isAt] at closed
      cases closed

theorem At.eq_queued
    (isAt : s.At fd place) (queued : fd ∈ s.workqueue) :
    place = .queued := by
  have positive := List.count_pos_iff.mpr queued
  cases place with
  | queued => rfl
  | closed =>
      rw [isAt.2.2.1] at positive
      cases positive
  | armed | taken | stranded =>
      rw [Held.queued isAt] at positive
      cases positive

theorem At.eq_taken
    (isAt : s.At fd place) (taken : fd ∈ s.taken) : place = .taken := by
  have positive := List.count_pos_iff.mpr taken
  cases place with
  | taken => rfl
  | closed =>
      rw [isAt.2.2.2] at positive
      cases positive
  | armed | queued | stranded =>
      rw [Held.taken isAt] at positive
      cases positive

end At

/-! ## The steps, by what they do to what is shared -/

section Perform

variable {s : Server} {fd : Nat} {c : Conn}

theorem perform_calm (calm : Conn.Since Event.IsCalm (s.users fd) c) :
    s.perform fd c =
      { s with users := Function.update s.users fd c } := by
  unfold perform
  rw [calm.shared_eq]

theorem perform_arms
    {interest : Interest} (arms : Conn.Arms fd interest (s.users fd) c)
    (registered : (s.shared.epoll fd).isSome) :
    s.perform fd c =
      { s with
        users := Function.update s.users fd c
        shared := s.shared.register fd ⟨interest, true⟩ } := by
  unfold perform
  rw [arms.shared_eq registered]

theorem perform_closes (closes : Conn.Closes fd (s.users fd) c) :
    s.perform fd c =
      { s with
        users := Function.update s.users fd c
        shared := s.shared.forget fd } := by
  unfold perform
  rw [closes.shared_eq]

/-- The handler of a descriptor does not touch the others. -/
theorem frame_of_ne
    {s next : Server} {fd other : Nat} (ne : other ≠ fd) {c : Conn}
    {opened : Bool} {registration : Option Registration}
    (users : next.users = Function.update s.users fd c)
    (openedEq :
      next.shared.opened = Function.update s.shared.opened fd opened)
    (epollEq :
      next.shared.epoll = Function.update s.shared.epoll fd registration)
    (queued : next.workqueue.count other = s.workqueue.count other)
    (taken : next.taken.count other = s.taken.count other) :
    Frame other s next where
  users := by rw [users, Function.update_of_ne ne]
  opened := by rw [openedEq, Function.update_of_ne ne]
  epoll := by rw [epollEq, Function.update_of_ne ne]
  queued := queued
  taken := taken

end Perform

/-- How a step moves the connection on a descriptor: the label, the place
before, the object and the place after. -/
inductive Move (pool : Pool) (s : Server) (fd : Nat) :
    Label → Place → Conn → Place → Prop
  | accept (address : SockAddr) :
      Move pool s fd (.accept fd address) .closed
        ((s.users fd).initWith fd address) (.armed .epollIn)
  | hangUp (interest : Interest) :
      Move pool s fd (.hangUp fd) (.armed interest)
        (s.users fd).closeConn .closed
  | read {blocks : List (List UInt8)} {last : RecvEnd}
      (receivable : (s.users fd).Receivable blocks)
      (drained : ((s.users fd).read blocks last).1 = true)
      (room : s.workqueue.length ≤ pool.maxRequests) :
      Move pool s fd (.epollIn fd blocks last) (.armed .epollIn)
        ((s.users fd).read blocks last).2 .queued
  | refused {blocks : List (List UInt8)} {last : RecvEnd}
      (receivable : (s.users fd).Receivable blocks)
      (drained : ((s.users fd).read blocks last).1 = true)
      (full : pool.maxRequests < s.workqueue.length) :
      Move pool s fd (.epollIn fd blocks last) (.armed .epollIn)
        ((s.users fd).read blocks last).2 .stranded
  | readFails {blocks : List (List UInt8)} {last : RecvEnd}
      (receivable : (s.users fd).Receivable blocks)
      (failed : ((s.users fd).read blocks last).1 = false) :
      Move pool s fd (.epollIn fd blocks last) (.armed .epollIn)
        ((s.users fd).read blocks last).2.closeConn .closed
  | written {outcomes : List WritevOutcome} {c : Conn}
      {interest : Interest}
      (returns : Conn.WriteReturns (s.users fd) (some interest) c) :
      Move pool s fd (.epollOut fd outcomes) (.armed .epollOut) c
        (.armed interest)
  | writeFails {outcomes : List WritevOutcome} {c : Conn}
      (returns : Conn.WriteReturns (s.users fd) none c) :
      Move pool s fd (.epollOut fd outcomes) (.armed .epollOut)
        c.closeConn .closed
  | dequeue :
      Move pool s fd .dequeue .queued (s.users fd) .taken
  | processed {fs : FileSystem} {c : Conn} {interest : Interest}
      (inside : Conn.StoresInside (s.users fd) c)
      (ends : Conn.ProcessEnds fs (s.users fd) (some interest) c) :
      Move pool s fd (.process fd fs) .taken c (.armed interest)
  | processFails {fs : FileSystem} {c : Conn}
      (inside : Conn.StoresInside (s.users fd) c)
      (ends : Conn.ProcessEnds fs (s.users fd) none c) :
      Move pool s fd (.process fd fs) .taken c .closed

def Moves (pool : Pool) (s : Server) (label : Label) (next : Server) : Prop :=
  ∀ fd place, s.At fd place →
    next.users fd = s.users fd ∧ next.At fd place ∨
      ∃ newPlace, Move pool s fd label place (next.users fd) newPlace ∧
        next.At fd newPlace

section Moves

variable {pool : Pool} {s next : Server} {fd : Nat} {c : Conn}

/-- A handler that moves its own connection and does not touch the others. -/
theorem moves_of_handler
    {label : Label} {opened : Bool} {registration : Option Registration}
    (users : next.users = Function.update s.users fd c)
    (openedEq :
      next.shared.opened = Function.update s.shared.opened fd opened)
    (epollEq :
      next.shared.epoll = Function.update s.shared.epoll fd registration)
    (queued :
      ∀ other ≠ fd, next.workqueue.count other = s.workqueue.count other)
    (taken : ∀ other ≠ fd, next.taken.count other = s.taken.count other)
    (own : ∀ place, s.At fd place →
      ∃ newPlace, Move pool s fd label place c newPlace ∧
        next.At fd newPlace) :
    Moves pool s label next := by
  intro other place isAt
  by_cases same : other = fd
  · subst same
    have user : next.users other = c := by
      rw [users, Function.update_self]
    rw [user]
    exact .inr (own place isAt)
  · have frame :=
      frame_of_ne same users openedEq epollEq (queued other same)
        (taken other same)
    exact .inl ⟨frame.users, isAt.frame frame⟩

theorem moves_accept
    {address : SockAddr} (closed : s.shared.opened fd = false)
    (isAt : ∃ place, s.At fd place) :
    Moves pool s (.accept fd address)
      (({ s with shared := s.shared.accept fd } : Server).perform fd
        ((s.users fd).initWith fd address)) := by
  obtain ⟨place, isAt⟩ := isAt
  have isClosed := isAt.eq_closed closed
  subst isClosed
  obtain ⟨_, unregistered, queued, taken⟩ := isAt
  have fresh : (s.shared.accept fd).epoll fd = none := unregistered
  have effect := Conn.shared_initWith (s.users fd) address fresh
  unfold perform
  simp only [effect]
  refine
    moves_of_handler rfl rfl rfl (fun _ _ => rfl) (fun _ _ => rfl)
      (fun other isAt => ?_)
  have isClosed := isAt.eq_closed closed
  subst isClosed
  refine ⟨.armed .epollIn, .accept address, ?_⟩
  refine ⟨?_, ?_, ?_, ?_, queued, taken⟩
  · simp only [Shared.accept, Function.update_self]
  · simp only [Shared.accept, Function.update_self]
  · simp only [Function.update_self]
    rfl
  · simp only [Function.update_self]
    exact Conn.init_framed _

/-- After a handler that arms its descriptor. -/
theorem at_armed
    {interest : Interest} {old : Registration} {queued taken : Nat}
    (held : s.Held fd old queued taken)
    (arms : Conn.Arms fd interest (s.users fd) c) (framed : c.Framed)
    (users : next.users = Function.update s.users fd c)
    (opened : next.shared.opened = s.shared.opened)
    (epoll :
      next.shared.epoll =
        Function.update s.shared.epoll fd (some ⟨interest, true⟩))
    (notQueued : next.workqueue.count fd = 0)
    (notTaken : next.taken.count fd = 0) :
    next.At fd (.armed interest) where
  opened := by
    rw [opened]
    exact held.opened
  epoll := by rw [epoll, Function.update_self]
  sockfd := by
    rw [users, Function.update_self]
    exact arms.sockfd_eq
  framed := by
    rw [users, Function.update_self]
    exact framed
  queued := notQueued
  taken := notTaken

/-- The disarmed connection is closed by its handler. -/
theorem moves_closes
    {label : Label} {interest : Interest}
    (armed : s.shared.epoll fd = some ⟨interest, true⟩)
    (closes : Conn.Closes fd (s.users fd) c)
    (move : Move pool s fd label (.armed interest) c .closed) :
    Moves pool s label ((s.deliver fd interest).perform fd c) := by
  have closesNow : Conn.Closes fd ((s.deliver fd interest).users fd) c :=
    closes
  rw [perform_closes closesNow]
  have epoll :
      ((s.deliver fd interest).shared.forget fd).epoll =
        Function.update s.shared.epoll fd none :=
    Function.update_idem _ _ _
  refine
    moves_of_handler rfl rfl epoll (fun _ _ => rfl) (fun _ _ => rfl)
      (fun place isAt => ?_)
  have isArmed := isAt.eq_armed armed
  subst isArmed
  have held : s.Held fd ⟨interest, true⟩ 0 0 := isAt
  exact
    ⟨.closed, move, Function.update_self .., Function.update_self ..,
      held.queued, held.taken⟩

theorem moves_hangUp
    {interest : Interest} (isAt : ∃ place, s.At fd place)
    (armed : s.shared.epoll fd = some ⟨interest, true⟩) :
    Moves pool s (.hangUp fd)
      ((s.deliver fd interest).perform fd (s.users fd).closeConn) := by
  obtain ⟨place, isAt⟩ := isAt
  have isArmed := isAt.eq_armed armed
  subst isArmed
  have same : Conn.Since (Event.Touches fd) (s.users fd) (s.users fd) :=
    .of_trace_eq rfl
  exact
    moves_closes armed (same.closes (Held.sockfd isAt)) (.hangUp interest)

theorem moves_readFails
    {blocks : List (List UInt8)} {last : RecvEnd}
    (isAt : ∃ place, s.At fd place)
    (armed : s.shared.epoll fd = some ⟨.epollIn, true⟩)
    (receivable : (s.users fd).Receivable blocks)
    (failed : ((s.users fd).read blocks last).1 = false) :
    Moves pool s (.epollIn fd blocks last)
      ((s.deliver fd .epollIn).perform fd
        ((s.users fd).read blocks last).2.closeConn) := by
  obtain ⟨place, isAt⟩ := isAt
  have isArmed := isAt.eq_armed armed
  subst isArmed
  have quiet := Conn.quiet_read (Held.framed isAt) receivable last
  exact
    moves_closes armed
      (quiet.calm.touches.closes
        (quiet.sockfd_eq.trans (Held.sockfd isAt)))
      (.readFails receivable failed)

/-- After `append`, the connection is queued or stranded. -/
theorem moves_read
    {blocks : List (List UInt8)} {last : RecvEnd}
    (isAt : ∃ place, s.At fd place)
    (armed : s.shared.epoll fd = some ⟨.epollIn, true⟩)
    (receivable : (s.users fd).Receivable blocks)
    (drained : ((s.users fd).read blocks last).1 = true) :
    Moves pool s (.epollIn fd blocks last)
      (((s.deliver fd .epollIn).perform fd
        ((s.users fd).read blocks last).2).append pool fd) := by
  obtain ⟨place, isAt⟩ := isAt
  have isArmed := isAt.eq_armed armed
  subst isArmed
  have quiet := Conn.quiet_read (Held.framed isAt) receivable last
  have calm :
      Conn.Since Event.IsCalm ((s.deliver fd .epollIn).users fd)
        ((s.users fd).read blocks last).2 :=
    quiet.calm
  have opened : s.shared.opened = Function.update s.shared.opened fd true := by
    rw [← Held.opened isAt, Function.update_eq_self]
  rw [perform_calm calm]
  refine
    moves_of_handler rfl opened rfl ?_ (fun _ _ => rfl)
      (fun place isAt => ?_)
  · exact fun other ne => Pool.count_append_of_ne ne
  · have isArmed := isAt.eq_armed armed
    subst isArmed
    have held : s.Held fd ⟨.epollIn, true⟩ 0 0 := isAt
    have framed := held.framed.read receivable last
    have sockfd := quiet.sockfd_eq.trans held.sockfd
    by_cases full : pool.maxRequests < s.workqueue.length
    · refine ⟨.stranded, .refused receivable drained full, ?_⟩
      refine
        ⟨held.opened, Function.update_self .., ?_, ?_, ?_, held.taken⟩
      · simp only [append, Function.update_self]
        exact sockfd
      · simp only [append, Function.update_self]
        exact framed
      · show (pool.append s.workqueue fd).2.count fd = 0
        rw [Pool.append_full full]
        exact held.queued
    · refine ⟨.queued, .read receivable drained (by omega), ?_⟩
      refine
        ⟨held.opened, Function.update_self .., ?_, ?_, ?_, held.taken⟩
      · simp only [append, Function.update_self]
        exact sockfd
      · simp only [append, Function.update_self]
        exact framed
      · show (pool.append s.workqueue fd).2.count fd = 1
        rw [Pool.append_room (by omega), List.count_append, held.queued,
          List.count_singleton_self]

theorem moves_written
    {outcomes : List WritevOutcome} {c : Conn} {interest : Interest}
    (isAt : ∃ place, s.At fd place)
    (armed : s.shared.epoll fd = some ⟨.epollOut, true⟩)
    (returns : Conn.WriteReturns (s.users fd) (some interest) c) :
    Moves pool s (.epollOut fd outcomes)
      ((s.deliver fd .epollOut).perform fd c) := by
  obtain ⟨place, isAt⟩ := isAt
  have isArmed := isAt.eq_armed armed
  subst isArmed
  have held : s.Held fd ⟨.epollOut, true⟩ 0 0 := isAt
  have arms := returns.arms held.sockfd
  have armsNow :
      Conn.Arms fd interest ((s.deliver fd .epollOut).users fd) c :=
    arms
  have registered : ((s.deliver fd .epollOut).shared.epoll fd).isSome := by
    show (Function.update s.shared.epoll fd _ fd).isSome
    rw [Function.update_self]
    rfl
  have epoll :
      ((s.deliver fd .epollOut).shared.register fd ⟨interest, true⟩).epoll =
        Function.update s.shared.epoll fd (some ⟨interest, true⟩) :=
    Function.update_idem _ _ _
  have opened : s.shared.opened = Function.update s.shared.opened fd true := by
    rw [← held.opened, Function.update_eq_self]
  rw [perform_arms armsNow registered]
  refine
    moves_of_handler rfl opened epoll (fun _ _ => rfl) (fun _ _ => rfl)
      (fun place isAt => ?_)
  have isArmed := isAt.eq_armed armed
  subst isArmed
  exact
    ⟨.armed interest, .written returns,
      at_armed held arms (returns.framed held.framed) rfl rfl epoll
        held.queued held.taken⟩

theorem moves_writeFails
    {outcomes : List WritevOutcome} {c : Conn}
    (isAt : ∃ place, s.At fd place)
    (armed : s.shared.epoll fd = some ⟨.epollOut, true⟩)
    (returns : Conn.WriteReturns (s.users fd) none c) :
    Moves pool s (.epollOut fd outcomes)
      ((s.deliver fd .epollOut).perform fd c.closeConn) := by
  obtain ⟨place, isAt⟩ := isAt
  have isArmed := isAt.eq_armed armed
  subst isArmed
  exact
    moves_closes armed (returns.closes (Held.sockfd isAt))
      (.writeFails returns)

theorem moves_dequeue
    {request : Nat} {rest : List Nat} (isAt : ∃ place, s.At request place)
    (first : s.workqueue = request :: rest) :
    Moves pool s .dequeue
      { s with workqueue := rest, taken := request :: s.taken } := by
  intro fd place fdAt
  by_cases same : fd = request
  · subst same
    have member : fd ∈ s.workqueue := by
      rw [first]
      exact List.mem_cons_self
    have isQueued := fdAt.eq_queued member
    subst isQueued
    have held : s.Held fd ⟨.epollIn, false⟩ 1 0 := fdAt
    have queued := held.queued
    rw [first, List.count_cons_self] at queued
    refine .inr ⟨.taken, .dequeue, ?_⟩
    refine
      ⟨held.opened, held.epoll, held.sockfd, held.framed, ?_, ?_⟩
    · simpa using queued
    · rw [List.count_cons_self, held.taken]
  · refine .inl ⟨rfl, fdAt.frame ⟨rfl, rfl, rfl, ?_, ?_⟩⟩
    · rw [first, List.count_cons_of_ne (Ne.symm same)]
    · exact List.count_cons_of_ne (Ne.symm same)

theorem moves_process
    (fs : FileSystem) (isAt : ∃ place, s.At fd place)
    (member : fd ∈ s.taken)
    (inside :
      Conn.StoresInside (s.users fd) ((s.users fd).process fs)) :
    Moves pool s (.process fd fs)
      (({ s with taken := s.taken.erase fd } : Server).perform fd
        ((s.users fd).process fs)) := by
  obtain ⟨place, isAt⟩ := isAt
  have isTaken := isAt.eq_taken member
  subst isTaken
  have held : s.Held fd ⟨.epollIn, false⟩ 0 1 := isAt
  obtain ⟨ended, ends⟩ := Conn.processEnds_process held.framed fs
  have others :
      ∀ other ≠ fd, (s.taken.erase fd).count other = s.taken.count other :=
    fun other ne => List.count_erase_of_ne ne
  have notTaken : (s.taken.erase fd).count fd = 0 := by
    rw [List.count_erase_self, held.taken]
  rcases ended with _ | interest
  · have closes := ends.closes inside held.sockfd
    rw [perform_closes
      (s := ({ s with taken := s.taken.erase fd } : Server)) closes]
    refine
      moves_of_handler rfl rfl rfl (fun _ _ => rfl) others
        (fun place isAt => ?_)
    have isTaken := isAt.eq_taken member
    subst isTaken
    exact
      ⟨.closed, .processFails inside ends, Function.update_self ..,
        Function.update_self .., held.queued, notTaken⟩
  · have arms := ends.arms inside held.sockfd
    have opened :
        s.shared.opened = Function.update s.shared.opened fd true := by
      rw [← held.opened, Function.update_eq_self]
    have registered : (s.shared.epoll fd).isSome := by
      rw [held.epoll]
      rfl
    rw [perform_arms
      (s := ({ s with taken := s.taken.erase fd } : Server)) arms registered]
    refine
      moves_of_handler rfl opened rfl (fun _ _ => rfl) others
        (fun place isAt => ?_)
    have isTaken := isAt.eq_taken member
    subst isTaken
    exact
      ⟨.armed interest, .processed inside ends,
        at_armed held arms ends.framed rfl rfl rfl held.queued
          notTaken⟩

/-- No `process()` stores outside `m_read_buf`. -/
def StoresInside (s : Server) : Label → Prop
  | .process request fs =>
      Conn.StoresInside (s.users request) ((s.users request).process fs)
  | .overrun _ _ _ => False
  | _ => True

/-- Every step of the server that stores inside `m_read_buf` moves each
connection as `Move` says. -/
theorem step_moves
    {pages : Nat → List UInt8} {label : Label}
    (places : ∀ fd, ∃ place, s.At fd place) (inside : s.StoresInside label)
    (stepped : s.step pool pages label = some next) :
    Moves pool s label next := by
  cases label with
  | accept connfd address =>
      simp only [step] at stepped
      split at stepped
      · cases stepped
      · next closed =>
          split at stepped
          · cases stepped
            exact fun fd place isAt => .inl ⟨rfl, isAt⟩
          · cases stepped
            exact
              moves_accept (Bool.eq_false_iff.mpr closed) (places connfd)
  | hangUp sockfd =>
      simp only [step] at stepped
      split at stepped
      · next armed =>
          cases stepped
          exact moves_hangUp (places sockfd) armed
      · cases stepped
  | epollIn sockfd blocks last =>
      simp only [step] at stepped
      split at stepped
      · next ready =>
          have drained :
              ((s.users sockfd).read blocks last).1 = true →
                Moves pool s (.epollIn sockfd blocks last) _ :=
            moves_read (places sockfd) ready.1 ready.2
          have failed :
              ((s.users sockfd).read blocks last).1 = false →
                Moves pool s (.epollIn sockfd blocks last) _ :=
            moves_readFails (places sockfd) ready.1 ready.2
          have users :
              (s.deliver sockfd .epollIn).users sockfd = s.users sockfd :=
            rfl
          rw [users] at stepped
          rcases result : (s.users sockfd).read blocks last with ⟨_ | _, c⟩
          · rw [result] at stepped failed
            cases stepped
            exact failed rfl
          · rw [result] at stepped drained
            cases stepped
            exact drained rfl
      · cases stepped
  | epollOut sockfd outcomes =>
      simp only [step] at stepped
      split at stepped
      · next armed =>
          have returns :
              ∀ {ret : Bool},
                ((s.users sockfd).write pages outcomes).ret = some ret →
                  ∃ interest, ret = interest.isSome ∧
                    Conn.WriteReturns (s.users sockfd) interest
                      ((s.users sockfd).write pages outcomes).conn :=
            fun returned => Conn.writeReturns_write pages returned
          have users :
              (s.deliver sockfd .epollOut).users sockfd = s.users sockfd :=
            rfl
          rw [users] at stepped
          split at stepped
          · next result =>
              rw [result] at returns
              cases stepped
              obtain ⟨_ | interest, isSome, written⟩ := returns rfl
              · cases isSome
              · exact moves_written (places sockfd) armed written
          · next result =>
              rw [result] at returns
              cases stepped
              obtain ⟨_ | interest, isNone, written⟩ := returns rfl
              · exact moves_writeFails (places sockfd) armed written
              · cases isNone
          · cases stepped
      · cases stepped
  | dequeue =>
      simp only [step] at stepped
      split at stepped
      · cases stepped
      · next request rest first =>
          split at stepped
          · cases stepped
            exact moves_dequeue (places request) first
          · cases stepped
  | process request fs =>
      simp only [step] at stepped
      split at stepped
      · next ready =>
          cases stepped
          exact moves_process fs (places request) ready.1 inside
      · cases stepped
  | overrun request fs users => exact inside.elim

end Moves

section Runs

variable {pool : Pool} {pages : Nat → List UInt8}

def Placed (s : Server) : Prop :=
  ∀ fd, ∃ place, s.At fd place

/-- Every connection has a place, and none is stranded. -/
def Owned (s : Server) : Prop :=
  ∀ fd, ∃ place, s.At fd place ∧ place ≠ .stranded

theorem owned_start (users : Nat → Conn) : (start users).Owned :=
  fun _ => ⟨.closed, ⟨rfl, rfl, rfl, rfl⟩, by decide⟩

/-- Every connection has a place, and is as it should be there. -/
def Everywhere (slot : Place → Conn → Prop) (s : Server) : Prop :=
  ∀ fd, ∃ place, s.At fd place ∧ slot place (s.users fd)

theorem Everywhere.placed
    {slot : Place → Conn → Prop} {s : Server}
    (everywhere : s.Everywhere slot) : s.Placed := by
  intro fd
  obtain ⟨place, isAt, _⟩ := everywhere fd
  exact ⟨place, isAt⟩

theorem Owned.placed {s : Server} (owned : s.Owned) : s.Placed := by
  have everywhere : s.Everywhere fun place _ => place ≠ .stranded := owned
  exact everywhere.placed

/-- When `append` is called, it finds room in the queue. -/
def Appendable (pool : Pool) (s : Server) : Label → Prop
  | .epollIn sockfd _ last =>
      (s.users sockfd).readIdx < readBufferSize → last = .eagain →
        s.workqueue.length ≤ pool.maxRequests
  | _ => True

theorem placed_step
    (s : Server) (label : Label) (next : Server) (placed : s.Placed)
    (inside : s.StoresInside label)
    (stepped : s.step pool pages label = some next) : next.Placed := by
  intro fd
  obtain ⟨place, isAt⟩ := placed fd
  rcases step_moves placed inside stepped fd place isAt with
    ⟨_, stays⟩ | ⟨newPlace, _, moved⟩
  · exact ⟨place, stays⟩
  · exact ⟨newPlace, moved⟩

/-- What every move keeps of a connection at its place, every step keeps. -/
theorem everywhere_step
    {guard : Server → Label → Prop} (slot : Place → Conn → Prop)
    (insideOf : ∀ {s : Server} {label : Label},
      guard s label → s.StoresInside label)
    (keeps :
      ∀ {s : Server} {fd : Nat} {label : Label} {place newPlace : Place}
        {c : Conn},
        guard s label → (place ≠ .closed → (s.users fd).Framed) →
          slot place (s.users fd) →
            Move pool s fd label place c newPlace → slot newPlace c)
    (s : Server) (label : Label) (next : Server)
    (everywhere : s.Everywhere slot) (met : guard s label)
    (stepped : s.step pool pages label = some next) :
    next.Everywhere slot := by
  intro fd
  obtain ⟨place, isAt, here⟩ := everywhere fd
  rcases
      step_moves everywhere.placed (insideOf met) stepped fd place isAt with
    ⟨same, stays⟩ | ⟨newPlace, move, moved⟩
  · exact ⟨place, stays, same ▸ here⟩
  · exact ⟨newPlace, moved, keeps met isAt.framed here move⟩

theorem owned_step
    (s : Server) (label : Label) (next : Server) (owned : s.Owned)
    (met : Appendable pool s label ∧ s.StoresInside label)
    (stepped : s.step pool pages label = some next) : next.Owned := by
  refine
    everywhere_step (fun place _ => place ≠ .stranded)
      (fun {s label} (met : Appendable pool s label ∧ s.StoresInside label) =>
        met.2)
      (fun met _ owner move => ?_) s label next owned met stepped
  cases move with
  | refused receivable drained full =>
      obtain ⟨below, last⟩ := (Conn.read_fst _ _ _).mp drained
      have enough := met.1 below last
      omega
  | accept | hangUp | read | readFails | written | writeFails | dequeue
  | processed | processFails => simp

/-- In how many places a connection is: armed in epoll, in `m_workqueue`,
taken by a worker. -/
def places (s : Server) (fd : Nat) : Nat :=
  (if (s.shared.epoll fd).any Registration.armed then 1 else 0) +
    s.workqueue.count fd + s.taken.count fd

theorem At.places_eq
    {s : Server} {fd : Nat} {place : Place} (isAt : s.At fd place)
    (isOpen : s.shared.opened fd = true) :
    s.places fd = if place = .stranded then 0 else 1 := by
  unfold places
  cases place with
  | closed =>
      rw [isAt.1] at isOpen
      cases isOpen
  | armed | queued | taken | stranded =>
      rw [Held.epoll isAt, Held.queued isAt, Held.taken isAt]
      rfl

/-- No connection is ever in two places. -/
theorem places_le_one
    {users : Nat → Conn} {labels : List Label} {last : Server}
    (inside :
      StepsMeet (step pool pages) StoresInside (start users) labels)
    (ran : run (step pool pages) (start users) labels = some last)
    (fd : Nat) (isOpen : last.shared.opened fd = true) :
    last.places fd ≤ 1 := by
  have placed :=
    guarded_run_keeps StoresInside Placed placed_step
      (owned_start users).placed inside ran
  obtain ⟨place, isAt⟩ := placed fd
  rw [isAt.places_eq isOpen]
  split <;> omega

/-- One-shot ownership: while `append` finds room in the queue and no
`process()` stores outside `m_read_buf`, every open connection is armed in
epoll, in `m_workqueue`, or taken by a worker, and in only one of these
places. -/
theorem ownership
    {users : Nat → Conn} {labels : List Label} {last : Server}
    (room :
      StepsMeet (step pool pages) (Appendable pool) (start users) labels)
    (inside :
      StepsMeet (step pool pages) StoresInside (start users) labels)
    (ran : run (step pool pages) (start users) labels = some last)
    (fd : Nat) (isOpen : last.shared.opened fd = true) :
    last.places fd = 1 := by
  have owned :=
    guarded_run_keeps
      (fun s label => Appendable pool s label ∧ s.StoresInside label)
      Owned owned_step (owned_start users) (room.and inside) ran
  obtain ⟨place, isAt, owner⟩ := owned fd
  rw [isAt.places_eq isOpen, if_neg owner]

/-- A client that has sent a byte is in the queue. -/
theorem ownership_arrival :
    ∃ last, run (step {} fun _ => []) (start fun _ => Conn.zeroed)
        [.accept 5 ⟨0, 0⟩, .epollIn 5 [[71]] .eagain] = some last ∧
      last.places 5 = 1 := by
  have isSome :
      ((run (step {} fun _ => []) (start fun _ => Conn.zeroed)
        [.accept 5 ⟨0, 0⟩, .epollIn 5 [[71]] .eagain]).map
          (fun s => s.shared.opened 5)) = some true := by
    decide +kernel
  obtain ⟨last, ran, isOpen⟩ := Option.map_eq_some_iff.mp isSome
  have inside :
      StepsMeet (step {} fun _ => []) StoresInside
        (start fun _ => Conn.zeroed)
        [.accept 5 ⟨0, 0⟩, .epollIn 5 [[71]] .eagain] :=
    ⟨trivial, fun _ _ => ⟨trivial, fun _ _ => trivial⟩⟩
  refine ⟨last, ran, ownership ?_ inside ran 5 isOpen⟩
  refine ⟨trivial, fun next stepped => ⟨fun _ _ => ?_, fun _ _ => trivial⟩⟩
  cases stepped
  exact Nat.zero_le _

/-! ## A full queue -/

/-- A client connects and sends one byte. -/
def arrival (fd : Nat) : List Label :=
  [.accept fd ⟨0, 0⟩, .epollIn fd [[71]] .eagain]

theorem run_arrival
    {s : Server} {fd : Nat} (isAt : s.At fd .closed)
    (below : s.shared.userCount < maxFd) :
    ∃ next, run (step pool pages) s (arrival fd) = some next ∧
      next.shared =
        ⟨Function.update s.shared.opened fd true,
          Function.update s.shared.epoll fd (some ⟨.epollIn, false⟩),
          s.shared.userCount + 1⟩ ∧
      next.workqueue = (pool.append s.workqueue fd).2 ∧
      next.taken = s.taken := by
  obtain ⟨closed, unregistered, _, _⟩ := isAt
  generalize accepted :
    ({ s with shared := s.shared.accept fd } : Server).perform fd
      ((s.users fd).initWith fd ⟨0, 0⟩) = middle
  have fresh : (s.shared.accept fd).epoll fd = none := unregistered
  have shared : middle.shared =
      ⟨Function.update s.shared.opened fd true,
        Function.update s.shared.epoll fd (some ⟨.epollIn, true⟩),
        s.shared.userCount + 1⟩ := by
    rw [← accepted]
    exact Conn.shared_initWith (s.users fd) ⟨0, 0⟩ fresh
  have user : middle.users fd = (s.users fd).initWith fd ⟨0, 0⟩ := by
    rw [← accepted]
    exact Function.update_self ..
  have first :
      s.step pool pages (.accept fd ⟨0, 0⟩) = some middle := by
    simp only [step]
    rw [if_neg (by rw [closed]; decide), if_neg (by omega), accepted]
  have framed : (middle.users fd).Framed := by
    rw [user]
    exact Conn.init_framed _
  have receivable : (middle.users fd).Receivable [[71]] := by
    rw [user]
    exact ⟨by decide, show 0 + 1 ≤ readBufferSize by decide⟩
  have ready :
      middle.shared.epoll fd = some ⟨.epollIn, true⟩ ∧
        (middle.users fd).Receivable [[71]] := by
    refine ⟨?_, receivable⟩
    rw [shared]
    exact Function.update_self ..
  have drained : ((middle.users fd).read [[71]] .eagain).1 = true := by
    rw [Conn.read_fst, user]
    exact ⟨show 0 < readBufferSize by decide, rfl⟩
  have calm :
      Conn.Since Event.IsCalm ((middle.deliver fd .epollIn).users fd)
        ((middle.users fd).read [[71]] .eagain).2 :=
    (Conn.quiet_read framed receivable .eagain).calm
  have second :
      middle.step pool pages (.epollIn fd [[71]] .eagain) =
        some
          (((middle.deliver fd .epollIn).perform fd
            ((middle.users fd).read [[71]] .eagain).2).append pool fd) := by
    simp only [step]
    rw [if_pos ready]
    have users :
        (middle.deliver fd .epollIn).users fd = middle.users fd := rfl
    rw [users]
    rcases result : (middle.users fd).read [[71]] .eagain with ⟨_ | _, c⟩
    · rw [result] at drained
      cases drained
    · rfl
  refine
    ⟨_, (run_cons_eq_some_iff _ _ _ _).mpr
        ⟨middle, first,
          (run_cons_eq_some_iff _ _ _ _).mpr ⟨_, second, rfl⟩⟩, ?_, ?_, ?_⟩
  · rw [perform_calm calm]
    show middle.shared.register fd ⟨.epollIn, false⟩ = _
    rw [shared]
    simp only [Shared.register, Function.update_idem]
  · rw [perform_calm calm]
    show (pool.append middle.workqueue fd).2 = _
    rw [← accepted]
    rfl
  · rw [perform_calm calm]
    show middle.taken = _
    rw [← accepted]
    rfl

/-- Some clients have connected and sent a byte, and no worker has woken
up. -/
structure Filled (count : Nat) (s : Server) : Prop where
  workqueue : s.workqueue.length = count
  userCount : s.shared.userCount = count
  later : ∀ fd, count ≤ fd → s.At fd .closed

theorem run_fills
    (count : Nat) (room : count ≤ pool.maxRequests + 1)
    (below : (count : Int) ≤ maxFd) (users : Nat → Conn) :
    ∃ labels s, run (step pool pages) (start users) labels = some s ∧
      Filled count s := by
  induction count with
  | zero =>
      exact
        ⟨[], start users, rfl, rfl, rfl, fun _ _ => ⟨rfl, rfl, rfl, rfl⟩⟩
  | succ count inductionHypothesis =>
      obtain ⟨labels, s, ran, filled⟩ :=
        inductionHypothesis (by omega) (by omega)
      have length := filled.workqueue
      have users := filled.userCount
      have notFull : s.workqueue.length ≤ pool.maxRequests := by omega
      obtain ⟨next, arrived, shared, workqueue, taken⟩ :=
        run_arrival (filled.later count (Nat.le_refl count)) (by omega)
      rw [Pool.append_room notFull] at workqueue
      refine
        ⟨labels ++ arrival count, next,
          (run_append_eq_some_iff _ _ _ _).mpr ⟨s, ran, arrived⟩, ?_, ?_, ?_⟩
      · rw [workqueue, List.length_append, length]
        rfl
      · rw [shared]
        show s.shared.userCount + 1 = _
        omega
      · intro fd after
        have ne : fd ≠ count := by omega
        obtain ⟨closed, unregistered, notQueued, notTaken⟩ :=
          filled.later fd (by omega)
        refine ⟨?_, ?_, ?_, ?_⟩
        · rw [shared]
          show Function.update s.shared.opened count true fd = _
          rw [Function.update_of_ne ne, closed]
        · rw [shared]
          show Function.update s.shared.epoll count _ fd = _
          rw [Function.update_of_ne ne, unregistered]
        · rw [workqueue, List.count_append, notQueued,
            List.count_singleton, if_neg (by simpa using ne.symm)]
        · rw [taken, notTaken]

/-- With the pool of `main`, a client that connects behind 10001 waiting
requests is left disarmed, unqueued and unowned. -/
theorem ownership_lost_when_full :
    ∃ labels last fd,
      run (step {} fun _ => []) (start fun _ => Conn.zeroed) labels =
          some last ∧
        last.shared.opened fd = true ∧ last.places fd = 0 := by
  have room : 10001 ≤ ({} : Pool).maxRequests + 1 := by decide
  obtain ⟨labels, s, ran, filled⟩ :
      ∃ labels s,
        run (step {} fun _ => []) (start fun _ => Conn.zeroed) labels =
            some s ∧ Filled 10001 s :=
    run_fills 10001 room (by decide) (fun _ => Conn.zeroed)
  have below : s.shared.userCount < maxFd := by
    rw [filled.userCount]
    decide
  have isAt := filled.later 10001 (Nat.le_refl _)
  obtain ⟨_, _, notQueued, notTaken⟩ := isAt
  obtain ⟨last, arrived, shared, workqueue, taken⟩ :=
    run_arrival (filled.later 10001 (Nat.le_refl _)) below
  have full : ({} : Pool).maxRequests < s.workqueue.length := by
    rw [filled.workqueue]
    decide
  rw [Pool.append_full full] at workqueue
  refine
    ⟨labels ++ arrival 10001, last, 10001,
      (run_append_eq_some_iff _ _ _ _).mpr ⟨s, ran, arrived⟩, ?_, ?_⟩
  · rw [shared]
    show Function.update s.shared.opened 10001 true 10001 = true
    rw [Function.update_self]
  · unfold places
    rw [workqueue, notQueued, taken, notTaken, shared]
    simp

end Runs

end Server

end LinuxNet.WebServer
