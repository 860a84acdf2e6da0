import LinuxNet.HttpServer.Disconnect
import LinuxNet.Lib.EventBatch
import LinuxNet.Lib.StepSystem

/-!
# The loop of `epoll_run`

`epoll_run` fetches events in batches and handles them in order.  An event of
the listening descriptor accepts a client, an event of a client leads to a
call of `do_read`, during which nothing else of the server runs: it is one
step here, and no step where it does not come back.  Which descriptors are
reported, and when, is left to the labels.
-/

namespace LinuxNet.HttpServer

open LinuxNet.EventBatch LinuxNet.StepSystem

/-- `MAX_CLIENTS`, the length of `ret_events`. -/
def maxClients : Nat := 1000

/-- The bytes that a client sends, and what the calls of `recv` on its socket
do. -/
structure Visitor where
  stream : List UInt8
  outcomes : Nat → RecvOutcome

/-- What is left to read from a client, how many events of it were handled,
what `do_read` has called, and how often `disconnect` came back. -/
structure Visit where
  sock : Sock
  events : Nat
  effects : List ReadEffect
  disconnects : Nat

/-- Whether the program runs, and how it has ended: with an error, with one of
the `epoll_ctl` in `disconnect`, or outside an array. -/
inductive Standing where
  | running
  | exited
  | delFailed
  | undefined
  deriving DecidableEq, Repr

/-- A call of the loop with what it returns: `none` stands for −1, and an
event may be one without `EPOLLIN`.  A call of `do_read` finds the files of
its time, and something in the arrays. -/
inductive RunLabel where
  | epollWait (ready : Option (List Nat))
  | skip
  | doAccept (clientFd : Option Nat) (added : Bool)
  | doRead (disk : Disk) (arrays : RequestArrays)

/-- The epoll instance, the events of the batch that are left, the connections
of the open descriptors, and what was done on each connection. -/
structure EpollRun where
  watched : Nat → Bool
  pending : List Nat
  connOf : Nat → Option Nat
  accepted : Nat
  visits : Nat → Visit
  standing : Standing

def Visitor.first (visitor : Visitor) : Sock :=
  ⟨visitor.stream, 0⟩

/-- The visit behind a call of `do_read`. -/
def Visit.after
    (visit : Visit) (effects : List ReadEffect) (sock : Sock)
    (client : Client) : Visit where
  sock := sock
  events := visit.events + 1
  effects := visit.effects ++ effects
  disconnects := client.disconnects

namespace EpollRun

/-- Behind `init_listen_fd`. -/
def start (listenFd : Nat) (visitors : Nat → Visitor) : EpollRun where
  watched := fun fd => fd == listenFd
  pending := []
  connOf := fun _ => none
  accepted := 0
  visits := fun conn => ⟨(visitors conn).first, 0, [], 0⟩
  standing := .running

def ends (server : EpollRun) (standing : Standing) : EpollRun :=
  { server with standing := standing }

/-- `epoll_wait` reports some of the watched descriptors, each of them once. -/
def epollWait (server : EpollRun) : Option (List Nat) → Option EpollRun
  | none => if server.pending = [] then some (server.ends .exited) else none
  | some ready =>
      if server.pending = [] ∧ ready.length ≤ maxClients ∧ ready.Nodup ∧
          ∀ fd ∈ ready, server.watched fd = true then
        some { server with pending := ready }
      else
        none

/-- An event without `EPOLLIN`. -/
def skip (server : EpollRun) : Option EpollRun :=
  match server.pending with
  | [] => none
  | _ :: later => some { server with pending := later }

def joined (server : EpollRun) (clientFd : Nat) (later : List Nat) :
    EpollRun :=
  { server with
    watched := Function.update server.watched clientFd true
    pending := later
    connOf :=
      Function.update server.connOf clientFd (some server.accepted)
    accepted := server.accepted + 1 }

/-- `do_accept`; `epoll_ctl` fails for a descriptor that is there already, and
may fail for want of memory. -/
def doAccept
    (listenFd : Nat) (server : EpollRun) (clientFd : Option Nat)
    (added : Bool) : Option EpollRun :=
  match server.pending, clientFd with
  | fd :: later, some clientFd =>
      if fd = listenFd ∧ clientFd ≠ listenFd ∧
          server.connOf clientFd = none then
        if added = true ∧ server.watched clientFd = false then
          some (server.joined clientFd later)
        else
          some (server.ends .exited)
      else
        none
  | fd :: _, none =>
      if fd = listenFd then some (server.ends .exited) else none
  | [], _ => none

/-- The call of `do_read` for the first event has come to its end. -/
def concluded
    (server : EpollRun) (fd conn : Nat) (later : List Nat)
    (effects : List ReadEffect) (sock : Sock) : Ending Client → EpollRun
  | .returns client =>
      { server with
        watched := Function.update server.watched fd client.registered
        pending := later
        connOf :=
          if client.isOpen then
            server.connOf
          else
            Function.update server.connOf fd none
        visits :=
          Function.update server.visits conn
            ((server.visits conn).after effects sock client) }
  | .exits => server.ends .exited
  | .delFails => server.ends .delFailed
  | .undefined => server.ends .undefined

/-- `do_read`.  On a descriptor that is closed `recv` fails, and `epoll_ctl`
behind it. -/
def doRead
    (listenFd fuel : Nat) (visitors : Nat → Visitor) (server : EpollRun)
    (disk : Disk) (arrays : RequestArrays) : Option EpollRun :=
  match server.pending with
  | [] => none
  | fd :: later =>
      if fd = listenFd then
        none
      else
        match server.connOf fd with
        | none => some (server.ends .delFailed)
        | some conn =>
            (HttpServer.doRead (visitors conn).outcomes fuel
                (server.visits conn).sock).map fun result =>
              server.concluded fd conn later result.1 result.2
                (disk.runEffects arrays result.1
                  ⟨server.watched fd, true, (server.visits conn).disconnects⟩)

/-- A turn of the loop; `fuel` bounds the turns of a call of `do_read`. -/
def step
    (listenFd fuel : Nat) (visitors : Nat → Visitor) (server : EpollRun)
    (label : RunLabel) : Option EpollRun :=
  if server.standing = .running then
    match label with
    | .epollWait ready => server.epollWait ready
    | .skip => server.skip
    | .doAccept clientFd added => server.doAccept listenFd clientFd added
    | .doRead disk arrays => server.doRead listenFd fuel visitors disk arrays
  else
    none

end EpollRun

section Calls

variable {outcomes : Nat → RecvOutcome} {fuel : Nat} {sock later : Sock}
  {effects : List ReadEffect}

/-- `do_read` calls nothing, or `disconnect` once and last. -/
theorem effects_of_doRead
    (finished : doRead outcomes fuel sock = some (effects, later)) :
    effects = [] ∨ effects = [.disconnect] ∨
      ∃ request, effects = [.httpRequest request, .disconnect] := by
  rw [doRead] at finished
  split at finished
  · next nothing =>
      cases finished
      have isEmpty : (getLine outcomes lineSize sock).buf = [] :=
        List.length_eq_zero_iff.mp (Int.ofNat_eq_zero.mp nothing)
      have calls : handleLine (getLine outcomes lineSize sock) = [] := by
        rw [handleLine, isEmpty]
        exact if_neg (by decide)
      rw [calls]
      exact Or.inr (Or.inl rfl)
  · obtain ⟨next, -, same⟩ := Option.map_eq_some_iff.mp finished
    cases same
    rw [handleLine]
    split
    · exact Or.inr (Or.inr ⟨_, rfl⟩)
    · exact Or.inl rfl

theorem sendFile_ne_delFails (disk : Disk) (filename : List UInt8) :
    disk.sendFile filename ≠ .delFails := by
  rcases disk.sendFile_ends filename with returns | exits
  · rw [returns]
    intro impossible
    cases impossible
  · rw [exits]
    intro impossible
    cases impossible

theorem sendDir_ne_delFails (disk : Disk) (dirname : List UInt8) :
    disk.sendDir dirname ≠ .delFails := by
  rw [Disk.sendDir]
  split
  · split
    · intro impossible
      cases impossible
    · intro impossible
      cases impossible
  · intro impossible
    cases impossible

/-- Only `disconnect` ends the program that way. -/
theorem httpRequest_ne_delFails
    (disk : Disk) (arrays : RequestArrays) (request : List UInt8) :
    disk.httpRequest arrays request ≠ .delFails := by
  rw [Disk.httpRequest]
  split
  · intro impossible
    cases impossible
  · next requested isRequested =>
      rw [Disk.answer]
      split
      · intro impossible
        cases impossible
      · exact sendDir_ne_delFails disk requested.filename
      · exact sendFile_ne_delFails disk requested.filename
      · intro impossible
        cases impossible

/-- The socket behind some calls of `do_read`. -/
def socketAfter (outcomes : Nat → RecvOutcome) (fuel : Nat) :
    Nat → Sock → Option Sock
  | 0, sock => some sock
  | events + 1, sock =>
      (doRead outcomes fuel sock).bind fun result =>
        socketAfter outcomes fuel events result.2

/-- As long as the client was not disconnected, one more event is one more
call. -/
theorem serve_concat
    {events : Nat} {first : Sock} {more : List ReadEffect}
    (served : serve outcomes fuel events first = some effects)
    (stays : .disconnect ∉ effects)
    (reached : socketAfter outcomes fuel events first = some sock)
    (finished : doRead outcomes fuel sock = some (more, later)) :
    serve outcomes fuel (events + 1) first = some (effects ++ more) ∧
      socketAfter outcomes fuel (events + 1) first = some later := by
  induction events generalizing first effects with
  | zero =>
      cases served
      cases reached
      constructor
      · rw [serve, finished]
        by_cases leaves : .disconnect ∈ more
        · simp [leaves]
        · simp [leaves, serve]
      · simp [socketAfter, finished]
  | succ events inductionHypothesis =>
      rw [serve] at served
      rw [socketAfter] at reached
      cases read : doRead outcomes fuel first with
      | none =>
          rw [read] at served
          cases served
      | some result =>
          obtain ⟨now, next⟩ := result
          rw [read] at served reached
          simp only at served
          split at served
          · next leaves =>
              cases served
              exact absurd leaves stays
          · next goesOn =>
              obtain ⟨rest, isRest, rfl⟩ := Option.map_eq_some_iff.mp served
              have staysOn : .disconnect ∉ rest := by
                intro leaves
                exact stays (List.mem_append_right now leaves)
              obtain ⟨servedOn, reachedOn⟩ :=
                inductionHypothesis isRest staysOn reached
              constructor
              · rw [serve, read]
                simp only
                rw [if_neg goesOn, servedOn, Option.map_some,
                  List.append_assoc]
              · rw [socketAfter, read]
                exact reachedOn

end Calls

/-- The client was served as if no other were there. -/
structure Visit.Alone (visitor : Visitor) (fuel : Nat) (visit : Visit) :
    Prop where
  served :
    serve visitor.outcomes fuel visit.events visitor.first =
      some visit.effects
  stays :
    visit.disconnects = 0 →
      .disconnect ∉ visit.effects ∧
        socketAfter visitor.outcomes fuel visit.events visitor.first =
          some visit.sock
  requests :
    (visit.effects.filterMap ReadEffect.request).length ≤ visit.disconnects
  once : visit.disconnects ≤ 1

section Visits

variable {visitor : Visitor} {fuel : Nat} {visit : Visit} {sock : Sock}
  {effects : List ReadEffect}

theorem Visit.Alone.stayed
    (alone : visit.Alone visitor fuel) (here : visit.disconnects = 0)
    (finished : doRead visitor.outcomes fuel visit.sock = some ([], sock))
    (registered isOpen : Bool) :
    (visit.after [] sock ⟨registered, isOpen, visit.disconnects⟩).Alone visitor
      fuel := by
  obtain ⟨stays, reached⟩ := alone.stays here
  obtain ⟨served, reachedOn⟩ :=
    serve_concat alone.served stays reached finished
  rw [List.append_nil] at served
  constructor
  · rw [Visit.after, List.append_nil]
    exact served
  · intro
    rw [Visit.after, List.append_nil]
    exact ⟨stays, reachedOn⟩
  · rw [Visit.after, List.append_nil]
    exact alone.requests
  · exact alone.once

theorem Visit.Alone.left
    (alone : visit.Alone visitor fuel) (here : visit.disconnects = 0)
    (finished :
      doRead visitor.outcomes fuel visit.sock = some (effects, sock))
    (short : (effects.filterMap ReadEffect.request).length ≤ 1)
    (registered isOpen : Bool) :
    (visit.after effects sock
      ⟨registered, isOpen, visit.disconnects + 1⟩).Alone visitor fuel := by
  obtain ⟨stays, reached⟩ := alone.stays here
  obtain ⟨served, -⟩ := serve_concat alone.served stays reached finished
  have before := alone.requests
  constructor
  · exact served
  · intro impossible
    exact absurd impossible (Nat.succ_ne_zero _)
  · rw [Visit.after, List.filterMap_append, List.length_append]
    simp only
    omega
  · rw [Visit.after]
    simp only
    omega

end Visits

/-! ## The epoll instance and the connections -/

namespace EpollRun

/-- The call of `do_read` for the first event passes the request on to
`http_request`. -/
def Passes
    (fuel : Nat) (visitors : Nat → Visitor) (server : EpollRun)
    (request : List UInt8) : Prop :=
  ∃ fd conn later effects sock,
    server.pending = fd :: later ∧ server.connOf fd = some conn ∧
      HttpServer.doRead (visitors conn).outcomes fuel
            (server.visits conn).sock =
          some (effects, sock) ∧
        .httpRequest request ∈ effects

def Fatal (fuel : Nat) (visitors : Nat → Visitor) (server : EpollRun) :
    RunLabel → Prop
  | .epollWait none | .doAccept none _ | .doAccept (some _) false => True
  | .doRead disk arrays =>
      ∃ request, server.Passes fuel visitors request ∧
        disk.httpRequest arrays request = .exits
  | .epollWait (some _) | .skip | .doAccept (some _) true => False

inductive Took (listenFd fuel : Nat) (visitors : Nat → Visitor) :
    EpollRun → RunLabel → EpollRun → Prop
  | fetched {server : EpollRun} {label : RunLabel} {ready : List Nat}
      (distinct : ready.Nodup)
      (reported : ∀ fd ∈ ready, server.watched fd = true) :
      Took listenFd fuel visitors server label
        { server with pending := ready }
  | skipped {server : EpollRun} {label : RunLabel} {fd : Nat} {later : List Nat}
      (isFirst : server.pending = fd :: later) :
      Took listenFd fuel visitors server label
        { server with pending := later }
  | accepted {server : EpollRun} {label : RunLabel} {clientFd : Nat}
      {later : List Nat} (isFirst : server.pending = listenFd :: later)
      (different : clientFd ≠ listenFd)
      (free : server.connOf clientFd = none) :
      Took listenFd fuel visitors server label
        (server.joined clientFd later)
  | stayed {server : EpollRun} {label : RunLabel} {fd conn : Nat}
      {later : List Nat} {sock : Sock} (isFirst : server.pending = fd :: later)
      (isConn : server.connOf fd = some conn)
      (finished :
        HttpServer.doRead (visitors conn).outcomes fuel
          (server.visits conn).sock = some ([], sock)) :
      Took listenFd fuel visitors server label
        (server.concluded fd conn later [] sock
          (.returns ⟨true, true, (server.visits conn).disconnects⟩))
  | left {server : EpollRun} {label : RunLabel} {fd conn : Nat}
      {later : List Nat} {effects : List ReadEffect}
      {sock : Sock} (isFirst : server.pending = fd :: later)
      (isConn : server.connOf fd = some conn)
      (finished :
        HttpServer.doRead (visitors conn).outcomes fuel
          (server.visits conn).sock = some (effects, sock))
      (short : (effects.filterMap ReadEffect.request).length ≤ 1) :
      Took listenFd fuel visitors server label
        (server.concluded fd conn later effects sock
          (.returns ⟨false, false, (server.visits conn).disconnects + 1⟩))
  | ended {server : EpollRun} {label : RunLabel} {standing : Standing}
      (other : standing ≠ .delFailed)
      (cause : standing = .exited → server.Fatal fuel visitors label) :
      Took listenFd fuel visitors server label (server.ends standing)

/-- The epoll instance holds the listening descriptor and those of the open
connections, each pending event is for one of them, and each client was served
as if it were alone. -/
structure Valid
    (listenFd fuel : Nat) (visitors : Nat → Visitor) (server : EpollRun) :
    Prop where
  fresh : Fresh ⟨server.watched, server.pending⟩
  watched_iff :
    ∀ fd, server.watched fd = true ↔
      fd = listenFd ∨ ∃ conn, server.connOf fd = some conn
  listening : server.connOf listenFd = none
  standing : server.standing ≠ .delFailed
  apart :
    ∀ fd other conn, server.connOf fd = some conn →
      server.connOf other = some conn → fd = other
  open_iff :
    ∀ conn, (∃ fd, server.connOf fd = some conn) ↔
      conn < server.accepted ∧ (server.visits conn).disconnects = 0
  unborn :
    ∀ conn, server.accepted ≤ conn → (server.visits conn).disconnects = 0
  alone : ∀ conn, (server.visits conn).Alone (visitors conn) fuel

variable {listenFd fuel : Nat} {visitors : Nat → Visitor}
  {server next last : EpollRun} {label : RunLabel}

theorem valid_start (listenFd fuel : Nat) (visitors : Nat → Visitor) :
    (start listenFd visitors).Valid listenFd fuel visitors where
  fresh := fresh_nil _
  watched_iff := by
    intro fd
    constructor
    · intro isWatched
      exact Or.inl (beq_iff_eq.mp isWatched)
    · rintro (isListen | ⟨conn, isConn⟩)
      · exact beq_iff_eq.mpr isListen
      · cases isConn
  listening := rfl
  standing := by
    intro impossible
    cases impossible
  apart := by
    intro fd other conn isConn
    cases isConn
  open_iff := by
    intro conn
    constructor
    · rintro ⟨fd, isConn⟩
      cases isConn
    · rintro ⟨below, -⟩
      exact absurd below (Nat.not_lt_zero conn)
  unborn := by
    intro conn _
    rfl
  alone := by
    intro conn
    exact
      ⟨rfl, fun _ => ⟨List.not_mem_nil, rfl⟩, Nat.le_refl 0, Nat.zero_le 1⟩

/-- The first event of a batch is for an open connection that is registered,
where it is not for the listening descriptor. -/
theorem Valid.conn_of_first
    (valid : server.Valid listenFd fuel visitors) {fd : Nat}
    {later : List Nat} (isFirst : server.pending = fd :: later)
    (client : fd ≠ listenFd) :
    server.watched fd = true ∧ ∃ conn, server.connOf fd = some conn := by
  have isWatched : server.watched fd = true := by
    apply valid.fresh.watched
    rw [isFirst]
    exact List.mem_cons_self
  exact ⟨isWatched, ((valid.watched_iff fd).mp isWatched).resolve_left client⟩

theorem exited_ne : Standing.exited ≠ .delFailed := by
  intro impossible
  cases impossible

/-- `disconnect` is called once, for a registered client, and does not fail. -/
theorem Valid.took_doRead
    (valid : server.Valid listenFd fuel visitors) {disk : Disk}
    {arrays : RequestArrays}
    (stepped :
      server.doRead listenFd fuel visitors disk arrays = some next) :
    Took listenFd fuel visitors server (.doRead disk arrays) next := by
  rw [EpollRun.doRead] at stepped
  split at stepped
  · cases stepped
  · next fd later isFirst =>
      split at stepped
      · cases stepped
      · next client =>
          obtain ⟨isWatched, conn, isConn⟩ := valid.conn_of_first isFirst client
          rw [isConn] at stepped
          simp only at stepped
          rw [isWatched] at stepped
          obtain ⟨⟨effects, sock⟩, finished, rfl⟩ :=
            Option.map_eq_some_iff.mp stepped
          rcases effects_of_doRead finished with rfl | rfl | ⟨request, rfl⟩
          · exact .stayed isFirst isConn finished
          · exact .left isFirst isConn finished (Nat.zero_le 1)
          · have notDel := httpRequest_ne_delFails disk arrays request
            simp only [Disk.runEffects]
            cases ending : disk.httpRequest arrays request with
            | returns =>
                exact .left isFirst isConn finished (Nat.le_refl 1)
            | exits =>
                have passes : server.Passes fuel visitors request :=
                  ⟨fd, conn, later, _, sock, isFirst, isConn, finished,
                    List.mem_cons_self⟩
                exact .ended exited_ne fun _ => ⟨request, passes, ending⟩
            | delFails => exact absurd ending notDel
            | undefined =>
                apply Took.ended
                · intro impossible
                  cases impossible
                · intro impossible
                  cases impossible

/-- `epoll_ctl` does not find the new client in the epoll instance. -/
theorem Valid.took_doAccept
    (valid : server.Valid listenFd fuel visitors) {clientFd : Option Nat}
    {added : Bool}
    (stepped : server.doAccept listenFd clientFd added = some next) :
    Took listenFd fuel visitors server (.doAccept clientFd added) next := by
  simp only [doAccept] at stepped
  split at stepped
  · next fd later clientFd isFirst =>
      obtain ⟨⟨isListen, different, free⟩, stepped⟩ :=
        Option.ite_none_right_eq_some.mp stepped
      have new : server.watched clientFd = false := by
        rw [Bool.eq_false_iff]
        intro isWatched
        rcases (valid.watched_iff clientFd).mp isWatched with
          same | ⟨conn, isConn⟩
        · exact different same
        · rw [free] at isConn
          cases isConn
      cases added with
      | true =>
          rw [if_pos ⟨rfl, new⟩] at stepped
          cases stepped
          rw [isListen] at isFirst
          exact .accepted isFirst different free
      | false =>
          rw [if_neg (fun both => Bool.false_ne_true both.1)] at stepped
          cases stepped
          exact .ended exited_ne fun _ => trivial
  · obtain ⟨-, stepped⟩ := Option.ite_none_right_eq_some.mp stepped
    cases stepped
    exact .ended exited_ne fun _ => trivial
  · cases stepped

theorem Valid.took
    (valid : server.Valid listenFd fuel visitors)
    (stepped : server.step listenFd fuel visitors label = some next) :
    Took listenFd fuel visitors server label next := by
  obtain ⟨-, stepped⟩ := Option.ite_none_right_eq_some.mp stepped
  cases label with
  | epollWait ready =>
      cases ready with
      | none =>
          obtain ⟨-, stepped⟩ := Option.ite_none_right_eq_some.mp stepped
          cases stepped
          exact .ended exited_ne fun _ => trivial
      | some ready =>
          obtain ⟨⟨-, -, distinct, reported⟩, stepped⟩ :=
            Option.ite_none_right_eq_some.mp stepped
          cases stepped
          exact .fetched distinct reported
  | skip =>
      simp only [skip] at stepped
      split at stepped
      · cases stepped
      · next fd later isFirst =>
          cases stepped
          exact .skipped isFirst
  | doAccept clientFd added => exact valid.took_doAccept stepped
  | doRead disk arrays => exact valid.took_doRead stepped

/-! ## What each turn keeps -/

theorem connOf_joined_iff
    {clientFd fd conn : Nat} {later : List Nat} :
    (server.joined clientFd later).connOf fd = some conn ↔
      fd = clientFd ∧ conn = server.accepted ∨
        fd ≠ clientFd ∧ server.connOf fd = some conn := by
  by_cases same : fd = clientFd
  · subst same
    rw [joined]
    simp only [Function.update_self, Option.some.injEq, ne_eq, not_true,
      true_and, false_and, or_false]
    exact eq_comm
  · rw [joined]
    simp only [Function.update_of_ne same, same, ne_eq, not_false_eq_true,
      true_and, false_and, false_or]

theorem Valid.joined
    (valid : server.Valid listenFd fuel visitors) {clientFd : Nat}
    {later : List Nat} (isFirst : server.pending = listenFd :: later)
    (different : clientFd ≠ listenFd)
    (free : server.connOf clientFd = none) :
    (server.joined clientFd later).Valid listenFd fuel visitors where
  fresh := by
    have fresh := valid.fresh
    rw [isFirst] at fresh
    exact
      (fresh.move (.handles _ listenFd later)).move
        (.watches _ clientFd later)
  watched_iff := by
    intro fd
    simp only [connOf_joined_iff]
    by_cases same : fd = clientFd
    · subst same
      apply iff_of_true
      · exact Function.update_self ..
      · exact Or.inr ⟨server.accepted, Or.inl ⟨rfl, rfl⟩⟩
    · have before := valid.watched_iff fd
      simpa [EpollRun.joined, Function.update_of_ne same, same] using before
  listening := by
    have before := valid.listening
    simpa [EpollRun.joined, Function.update_of_ne (Ne.symm different)] using
      before
  standing := valid.standing
  apart := by
    intro fd other conn isConn isOther
    rcases connOf_joined_iff.mp isConn with ⟨rfl, rfl⟩ | ⟨-, before⟩
    · rcases connOf_joined_iff.mp isOther with ⟨rfl, -⟩ | ⟨-, old⟩
      · rfl
      · have below := ((valid.open_iff _).mp ⟨other, old⟩).1
        exact absurd below (Nat.lt_irrefl _)
    · rcases connOf_joined_iff.mp isOther with ⟨-, rfl⟩ | ⟨-, old⟩
      · have below := ((valid.open_iff _).mp ⟨fd, before⟩).1
        exact absurd below (Nat.lt_irrefl _)
      · exact valid.apart fd other conn before old
  open_iff := by
    intro conn
    constructor
    · rintro ⟨fd, isConn⟩
      rcases connOf_joined_iff.mp isConn with ⟨-, rfl⟩ | ⟨-, before⟩
      · exact ⟨Nat.lt_succ_self _, valid.unborn _ (Nat.le_refl _)⟩
      · obtain ⟨below, here⟩ := (valid.open_iff conn).mp ⟨fd, before⟩
        exact ⟨Nat.lt_succ_of_lt below, here⟩
    · rintro ⟨below, here⟩
      rcases Nat.lt_succ_iff_lt_or_eq.mp below with old | new
      · obtain ⟨fd, isConn⟩ := (valid.open_iff conn).mpr ⟨old, here⟩
        have other : fd ≠ clientFd := by
          intro same
          rw [same, free] at isConn
          cases isConn
        exact ⟨fd, connOf_joined_iff.mpr (Or.inr ⟨other, isConn⟩)⟩
      · exact ⟨clientFd, connOf_joined_iff.mpr (Or.inl ⟨rfl, new⟩)⟩
  unborn := by
    intro conn beyond
    exact valid.unborn conn (Nat.le_of_succ_le beyond)
  alone := valid.alone

section Concluded

variable {fd conn other : Nat} {later : List Nat} {effects : List ReadEffect}
  {sock : Sock} {client : Client}

theorem visits_concluded_self :
    (server.concluded fd conn later effects sock
      (.returns client)).visits conn =
        (server.visits conn).after effects sock client :=
  Function.update_self ..

theorem visits_concluded_ne (differs : other ≠ conn) :
    (server.concluded fd conn later effects sock
      (.returns client)).visits other = server.visits other :=
  Function.update_of_ne differs ..

/-- Nothing changes for other clients. -/
theorem Valid.alone_concluded
    (valid : server.Valid listenFd fuel visitors)
    (own :
      ((server.visits conn).after effects sock client).Alone (visitors conn)
        fuel) (other : Nat) :
    ((server.concluded fd conn later effects sock
      (.returns client)).visits other).Alone (visitors other) fuel := by
  by_cases same : other = conn
  · subst same
    rw [visits_concluded_self]
    exact own
  · rw [visits_concluded_ne same]
    exact valid.alone other

theorem disconnects_stayed :
    ((server.concluded fd conn later effects sock
      (.returns ⟨true, true, (server.visits conn).disconnects⟩)).visits
        other).disconnects = (server.visits other).disconnects := by
  by_cases same : other = conn
  · subst same
    rw [visits_concluded_self]
    rfl
  · rw [visits_concluded_ne same]

theorem connOf_left_iff {disconnects held : Nat} :
    (server.concluded fd conn later effects sock
      (.returns ⟨false, false, disconnects⟩)).connOf other = some held ↔
        other ≠ fd ∧ server.connOf other = some held := by
  by_cases same : other = fd
  · subst same
    simp [concluded]
  · simp [concluded, same]

end Concluded

theorem Valid.stayed
    (valid : server.Valid listenFd fuel visitors) {fd conn : Nat}
    {later : List Nat} {sock : Sock}
    (isFirst : server.pending = fd :: later)
    (isConn : server.connOf fd = some conn)
    (finished :
      HttpServer.doRead (visitors conn).outcomes fuel
        (server.visits conn).sock = some ([], sock)) :
    (server.concluded fd conn later [] sock
      (.returns ⟨true, true, (server.visits conn).disconnects⟩)).Valid listenFd
        fuel visitors where
  fresh := by
    have fresh := valid.fresh
    rw [isFirst] at fresh
    exact (fresh.move (.handles _ fd later)).move (.watches _ fd later)
  watched_iff := by
    intro other
    by_cases same : other = fd
    · subst same
      apply iff_of_true
      · exact Function.update_self ..
      · exact Or.inr ⟨conn, isConn⟩
    · have before := valid.watched_iff other
      simpa [concluded, Function.update_of_ne same] using before
  listening := valid.listening
  standing := valid.standing
  apart := valid.apart
  open_iff := by
    intro other
    rw [disconnects_stayed]
    exact valid.open_iff other
  unborn := by
    intro other beyond
    rw [disconnects_stayed]
    exact valid.unborn other beyond
  alone := by
    have here := ((valid.open_iff conn).mp ⟨fd, isConn⟩).2
    exact valid.alone_concluded ((valid.alone conn).stayed here finished _ _)

theorem Valid.left
    (valid : server.Valid listenFd fuel visitors) {fd conn : Nat}
    {later : List Nat} {effects : List ReadEffect} {sock : Sock}
    (isFirst : server.pending = fd :: later)
    (isConn : server.connOf fd = some conn)
    (finished :
      HttpServer.doRead (visitors conn).outcomes fuel
        (server.visits conn).sock = some (effects, sock))
    (short : (effects.filterMap ReadEffect.request).length ≤ 1) :
    (server.concluded fd conn later effects sock
      (.returns ⟨false, false, (server.visits conn).disconnects + 1⟩)).Valid
        listenFd fuel visitors where
  fresh := by
    have fresh := valid.fresh
    rw [isFirst] at fresh
    exact fresh.move (.forgets _ fd later)
  watched_iff := by
    intro other
    simp only [connOf_left_iff]
    by_cases same : other = fd
    · subst same
      apply iff_of_false
      · simp [concluded]
      · rintro (isListen | ⟨conn, differs, -⟩)
        · rw [isListen, valid.listening] at isConn
          cases isConn
        · exact differs rfl
    · have before := valid.watched_iff other
      simpa [concluded, Function.update_of_ne same, same] using before
  listening := by
    have differs : listenFd ≠ fd := by
      intro same
      rw [← same, valid.listening] at isConn
      cases isConn
    have before := valid.listening
    simpa [concluded, Function.update_of_ne differs] using before
  standing := valid.standing
  apart := by
    intro first second other isFirst isSecond
    exact
      valid.apart first second other (connOf_left_iff.mp isFirst).2
        (connOf_left_iff.mp isSecond).2
  open_iff := by
    intro other
    simp only [connOf_left_iff]
    by_cases same : other = conn
    · subst same
      rw [visits_concluded_self]
      apply iff_of_false
      · rintro ⟨otherFd, differs, before⟩
        exact differs (valid.apart otherFd fd other before isConn)
      · rintro ⟨-, impossible⟩
        exact absurd impossible (Nat.succ_ne_zero _)
    · rw [visits_concluded_ne same]
      constructor
      · rintro ⟨otherFd, -, before⟩
        exact (valid.open_iff other).mp ⟨otherFd, before⟩
      · intro stands
        obtain ⟨otherFd, before⟩ := (valid.open_iff other).mpr stands
        refine ⟨otherFd, ?_, before⟩
        intro sameFd
        rw [sameFd, isConn] at before
        exact same (Option.some.inj before).symm
  unborn := by
    intro other beyond
    have below := ((valid.open_iff conn).mp ⟨fd, isConn⟩).1
    have differs : other ≠ conn := by
      intro same
      rw [same] at beyond
      exact absurd below (Nat.not_lt_of_le beyond)
    rw [visits_concluded_ne differs]
    exact valid.unborn other beyond
  alone := by
    have here := ((valid.open_iff conn).mp ⟨fd, isConn⟩).2
    exact
      valid.alone_concluded ((valid.alone conn).left here finished short _ _)

theorem Valid.step
    (server : EpollRun) (label : RunLabel) (next : EpollRun)
    (valid : server.Valid listenFd fuel visitors)
    (stepped : server.step listenFd fuel visitors label = some next) :
    next.Valid listenFd fuel visitors := by
  cases valid.took stepped with
  | fetched distinct reported =>
      exact { valid with fresh := ⟨distinct, reported⟩ }
  | @skipped fd later isFirst =>
      have fresh := valid.fresh
      rw [isFirst] at fresh
      exact { valid with fresh := fresh.move (.handles _ fd later) }
  | accepted isFirst different free =>
      exact valid.joined isFirst different free
  | stayed isFirst isConn finished =>
      exact valid.stayed isFirst isConn finished
  | left isFirst isConn finished short =>
      exact valid.left isFirst isConn finished short
  | ended other cause => exact { valid with standing := other }

theorem valid_of_run
    {labels : List RunLabel}
    (ran :
      run (step listenFd fuel visitors) (start listenFd visitors) labels =
        some last) : last.Valid listenFd fuel visitors :=
  run_keeps (Valid listenFd fuel visitors) Valid.step
    (valid_start listenFd fuel visitors) ran

/-- What the server does for a client is what it does for it alone, over as
many events: it calls `http_request` at most once, disconnects the client at
most once, and the client's descriptor is open until then. -/
theorem served_as_alone
    {labels : List RunLabel}
    (ran :
      run (step listenFd fuel visitors) (start listenFd visitors) labels =
        some last)
    (conn : Nat) :
    serve (visitors conn).outcomes fuel (last.visits conn).events
        ⟨(visitors conn).stream, 0⟩ = some (last.visits conn).effects ∧
      ((last.visits conn).effects.filterMap ReadEffect.request).length ≤
          (last.visits conn).disconnects ∧
        (last.visits conn).disconnects ≤ 1 ∧
          ((∃ fd, last.connOf fd = some conn) ↔
            conn < last.accepted ∧ (last.visits conn).disconnects = 0) := by
  have valid := valid_of_run ran
  have alone := valid.alone conn
  exact ⟨alone.served, alone.requests, alone.once, valid.open_iff conn⟩

/-- The first client sends a `POST`, the others send nothing. -/
def postAndSilent : Nat → Visitor
  | 0 => ⟨[80, 79, 83, 84, 13, 10, 13, 10], allAvailable⟩
  | _ + 1 => ⟨[], allAvailable⟩

/-- The second client is disconnected, and the third one gets its number. -/
def numberReused : List RunLabel :=
  [.epollWait (some [3]), .doAccept (some 4) true,
    .epollWait (some [3, 4]), .doAccept (some 5) true,
    .doRead ⟨fun _ => none, fun _ => [], fun _ => .openFails⟩ blankArrays,
    .epollWait (some [5]),
    .doRead ⟨fun _ => none, fun _ => [], fun _ => .openFails⟩ blankArrays,
    .epollWait (some [3]), .doAccept (some 5) true]

theorem served_as_alone_reused :
    ∃ last,
      run (step 3 2 postAndSilent) (start 3 postAndSilent) numberReused =
          some last ∧
        serve (postAndSilent 1).outcomes 2 (last.visits 1).events
            ⟨(postAndSilent 1).stream, 0⟩ = some (last.visits 1).effects ∧
          ((last.visits 1).effects.filterMap ReadEffect.request).length ≤
              (last.visits 1).disconnects ∧
            (last.visits 1).disconnects ≤ 1 ∧
              ((∃ fd, last.connOf fd = some 1) ↔
                1 < last.accepted ∧ (last.visits 1).disconnects = 0) :=
  ⟨_, rfl, @served_as_alone 3 2 postAndSilent _ numberReused rfl 1⟩

theorem Valid.fatal_of_exited
    (valid : server.Valid listenFd fuel visitors)
    (stepped : server.step listenFd fuel visitors label = some next)
    (exited : next.standing = .exited) :
    server.Fatal fuel visitors label := by
  have running : server.standing ≠ .exited := by
    rw [(Option.ite_none_right_eq_some.mp stepped).1]
    intro impossible
    cases impossible
  cases valid.took stepped with
  | fetched distinct reported => exact absurd exited running
  | skipped isFirst => exact absurd exited running
  | accepted isFirst different free => exact absurd exited running
  | stayed isFirst isConn finished => exact absurd exited running
  | left isFirst isConn finished short => exact absurd exited running
  | ended other cause => exact cause exited

/-- `EPOLL_CTL_DEL` never fails, and the program ends with an error only where
its last call is one on something outside that fails, or a call of `do_read`
that passes a request on to an `http_request` that exits; each event that is
left is for a descriptor of its own, which is the listening one or that of an
open client. -/
theorem disconnect_never_fails
    {labels : List RunLabel}
    (ran :
      run (step listenFd fuel visitors) (start listenFd visitors) labels =
        some last) :
    last.standing ≠ .delFailed ∧
      (last.standing = .exited →
        ∃ initial label before, labels = initial ++ [label] ∧
          run (step listenFd fuel visitors) (start listenFd visitors)
              initial =
            some before ∧ before.Fatal fuel visitors label) ∧
        last.pending.Nodup ∧
          (∀ fd ∈ last.pending, last.watched fd = true) ∧
            ∀ fd, last.watched fd = true ↔
              fd = listenFd ∨ ∃ conn, last.connOf fd = some conn := by
  have valid := valid_of_run ran
  refine
    ⟨valid.standing, fun exited => ?_, valid.fresh.distinct,
      valid.fresh.watched, valid.watched_iff⟩
  rcases List.eq_nil_or_concat' labels with rfl | ⟨initial, label, rfl⟩
  · cases ran
    cases exited
  · obtain ⟨before, reached, lastStep⟩ := (run_append_eq_some_iff _ _ _ _).mp ran
    obtain ⟨next, stepped, done⟩ :=
      (run_cons_eq_some_iff before last label []).mp lastStep
    cases done
    exact
      ⟨initial, label, before, rfl, reached,
        (valid_of_run reached).fatal_of_exited stepped exited⟩

theorem disconnect_never_fails_reused :
    ∃ last,
      run (step 3 2 postAndSilent) (start 3 postAndSilent) numberReused =
          some last ∧
        last.standing ≠ .delFailed ∧
          (last.standing = .exited →
            ∃ initial label before, numberReused = initial ++ [label] ∧
              run (step 3 2 postAndSilent) (start 3 postAndSilent) initial =
                some before ∧ before.Fatal 2 postAndSilent label) ∧
            last.pending.Nodup ∧
              (∀ fd ∈ last.pending, last.watched fd = true) ∧
                ∀ fd, last.watched fd = true ↔
                  fd = 3 ∨ ∃ conn, last.connOf fd = some conn :=
  ⟨_, rfl, @disconnect_never_fails 3 2 postAndSilent _ numberReused rfl⟩

end EpollRun

end LinuxNet.HttpServer
