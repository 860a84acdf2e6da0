import LinuxNet.Lib.StepSystem
import LinuxNet.Reactor.MyEvent

/-!
# The echo of one connection

A connection is followed from the moment `acceptconn` gives it a slot.  In
both reactors `recvdata` and `senddata` take turns on the one buffer of the
slot.  The bytes sent back are all of the bytes received whenever the slot
waits for `EPOLLIN`, and every access stays inside `buf`, in exactly the runs
in which no `recv` fills the buffer and no `send` takes less than it is
offered.
-/

namespace LinuxNet.Reactor

open LinuxNet.CString
open LinuxNet.StepSystem

/-- The slot of a connection, all bytes received and sent on it, and the
accesses to `buf`. -/
structure Connection where
  slot : MyEvent
  received : List UInt8
  sent : List UInt8
  accesses : List Access

/-- A callback of the connection, with what its system call returns, or the
timeout check of `main`. -/
inductive Occurrence where
  | readable (result : RecvResult) (now : Int)
  | writable (result : SendResult) (now : Int)
  | timeout
  deriving DecidableEq, Repr

/-- The bytes that `recv` hands over. -/
def RecvResult.bytes : RecvResult → List UInt8
  | .data bytes => bytes
  | .closed => []
  | .failed => []

/-- The number of bytes that `send` takes. -/
def SendResult.count : SendResult → Nat
  | .accepts count => count
  | .failed => 0

/-- A callback runs on a slot with status 1, and it is the one that
`call_back` points to. -/
def Connection.step
    (program : Program) (connection : Connection) :
    Occurrence → Option Connection
  | .readable result now =>
      if connection.slot.status = 1 ∧
          connection.slot.callBack = .recvdata ∧ result.Possible then
        let effect :=
          recvdata program connection.slot.fd result now connection.slot
        some
          { slot := effect.slot
            received := connection.received ++ result.bytes
            sent := connection.sent
            accesses := connection.accesses ++ effect.accesses }
      else
        none
  | .writable result now =>
      if connection.slot.status = 1 ∧
          connection.slot.callBack = .senddata ∧
            result.Possible connection.slot.len then
        let effect :=
          senddata program connection.slot.fd result now connection.slot
        some
          { slot := effect.slot
            received := connection.received
            sent :=
              connection.sent ++ connection.slot.buf.take result.count
            accesses := connection.accesses ++ effect.accesses }
      else
        none
  | .timeout =>
      if connection.slot.status = 1 then
        let effect := expire program connection.slot
        some
          { slot := effect.slot
            received := connection.received
            sent := connection.sent
            accesses := connection.accesses ++ effect.accesses }
      else
        none

/-- The connection when `acceptconn` returns. -/
def Connection.start
    (program : Program) (fd : Nat) (now : Int) (free : MyEvent) :
    Connection where
  slot := (giveSlot program fd now free).slot
  received := []
  sent := []
  accesses := (giveSlot program fd now free).accesses

structure Exact (connection : Connection) : Prop where
  inOrder : connection.sent <+: connection.received
  complete :
    connection.slot.status = 1 → connection.slot.events = epollin →
      connection.sent = connection.received
  inside : ∀ access ∈ connection.accesses, access.Inside

/-- `recv` leaves room for the terminator, and `send` takes all that it is
offered. -/
def KeepsEcho (connection : Connection) : Occurrence → Prop
  | .readable (.data bytes) _ => bytes.length < maxBufsize
  | .writable (.accepts count) _ => count = connection.slot.len
  | _ => True

inductive Phase (connection : Connection) : Prop
  | waitsForData
      (callBack : connection.slot.callBack = .recvdata)
      (size : connection.slot.buf.length = maxBufsize)
      (echoed : connection.sent = connection.received) :
      Phase connection
  | waitsForSpace
      (callBack : connection.slot.callBack = .senddata)
      (events : connection.slot.events = epollout)
      (size : connection.slot.buf.length = maxBufsize)
      (room : connection.slot.len < maxBufsize)
      (terminated : Terminated connection.slot.buf 0)
      (buffered :
        connection.received =
          connection.sent ++ connection.slot.buf.take connection.slot.len) :
      Phase connection
  | closed
      (status : connection.slot.status ≠ 1)
      (inOrder : connection.sent <+: connection.received) :
      Phase connection

structure EchoInvariant (connection : Connection) : Prop where
  phase : Phase connection
  inside : ∀ access ∈ connection.accesses, access.Inside

theorem exact_of_echoInvariant
    {connection : Connection} (invariant : EchoInvariant connection) :
    Exact connection := by
  obtain ⟨phase, inside⟩ := invariant
  cases phase with
  | waitsForData callBack size echoed =>
      exact ⟨echoed ▸ List.prefix_refl _, fun _ _ => echoed, inside⟩
  | waitsForSpace callBack events size room terminated buffered =>
      refine ⟨?_, fun _ waiting => ?_, inside⟩
      · rw [buffered]
        exact List.prefix_append _ _
      · rw [events] at waiting
        exact absurd waiting (by decide)
  | closed status inOrder =>
      exact ⟨inOrder, fun registered => absurd registered status, inside⟩

/-- A terminated buffer is printed without leaving it. -/
theorem length_cstr_lt
    {memory : List UInt8} (terminated : Terminated memory 0) :
    (cstr memory 0).length + 1 ≤ memory.length := by
  obtain ⟨tail, shape⟩ := exists_drop_eq_of_terminated terminated
  have lengths := congrArg List.length shape
  rw [List.drop_zero, List.length_append, List.length_cons] at lengths
  omega

/-- The buffer after a `recv` that leaves room for the terminator. -/
theorem terminated_store
    {bytes memory : List UInt8} (room : bytes.length < memory.length) :
    Terminated
      ((bytes ++ memory.drop bytes.length).set bytes.length 0) 0 := by
  unfold Terminated
  rw [List.drop_zero]
  apply List.mem_set
  rw [List.length_append, List.length_drop]
  omega

theorem take_store (bytes memory : List UInt8) :
    ((bytes ++ memory.drop bytes.length).set bytes.length 0).take
        bytes.length =
      bytes := by
  rw [List.take_set_of_le (Nat.le_refl _), List.take_left]

theorem length_store
    {bytes memory : List UInt8} (fits : bytes.length ≤ memory.length) :
    ((bytes ++ memory.drop bytes.length).set bytes.length 0).length =
      memory.length := by
  rw [List.length_set, List.length_append, List.length_drop]
  omega

theorem readable_step
    {program : Program} {connection next : Connection}
    {result : RecvResult} {now : Int}
    (stepped :
      connection.step program (.readable result now) = some next) :
    connection.slot.status = 1 ∧ connection.slot.callBack = .recvdata ∧
      result.Possible ∧
        next =
          { slot :=
              (recvdata program connection.slot.fd result now
                connection.slot).slot
            received := connection.received ++ result.bytes
            sent := connection.sent
            accesses :=
              connection.accesses ++
                (recvdata program connection.slot.fd result now
                  connection.slot).accesses } := by
  rw [Connection.step] at stepped
  split at stepped
  · rename_i enabled
    cases stepped
    exact ⟨enabled.1, enabled.2.1, enabled.2.2, rfl⟩
  · cases stepped

theorem writable_step
    {program : Program} {connection next : Connection}
    {result : SendResult} {now : Int}
    (stepped :
      connection.step program (.writable result now) = some next) :
    connection.slot.status = 1 ∧ connection.slot.callBack = .senddata ∧
      result.Possible connection.slot.len ∧
        next =
          { slot :=
              (senddata program connection.slot.fd result now
                connection.slot).slot
            received := connection.received
            sent :=
              connection.sent ++ connection.slot.buf.take result.count
            accesses :=
              connection.accesses ++
                (senddata program connection.slot.fd result now
                  connection.slot).accesses } := by
  rw [Connection.step] at stepped
  split at stepped
  · rename_i enabled
    cases stepped
    exact ⟨enabled.1, enabled.2.1, enabled.2.2, rfl⟩
  · cases stepped

theorem timeout_step
    {program : Program} {connection next : Connection}
    (stepped : connection.step program .timeout = some next) :
    connection.slot.status = 1 ∧
      next =
        { slot := (expire program connection.slot).slot
          received := connection.received
          sent := connection.sent
          accesses :=
            connection.accesses ++
              (expire program connection.slot).accesses } := by
  rw [Connection.step] at stepped
  split at stepped
  · rename_i registered
    cases stepped
    exact ⟨registered, rfl⟩
  · cases stepped

/-! ## What the phases become -/

theorem phase_of_released
    {connection : Connection} {slot : MyEvent}
    (released : connection.slot = { slot with status := 0 })
    (inOrder : connection.sent <+: connection.received) :
    Phase connection := by
  refine .closed ?_ inOrder
  rw [released]
  exact Nat.zero_ne_one

theorem readable_keeps
    {program : Program} {connection next : Connection}
    {result : RecvResult} {now : Int}
    (invariant : EchoInvariant connection)
    (room : KeepsEcho connection (.readable result now))
    (stepped :
      connection.step program (.readable result now) = some next) :
    EchoInvariant next := by
  obtain ⟨registered, callBack, possible, rfl⟩ := readable_step stepped
  obtain ⟨phase, inside⟩ := invariant
  cases phase with
  | closed status inOrder => exact absurd registered status
  | waitsForSpace other events size room terminated buffered =>
      rw [callBack] at other
      cases other
  | waitsForData same size echoed =>
      have released :
          result = .closed ∨ result = .failed →
            EchoInvariant
              { slot :=
                  (recvdata program connection.slot.fd result now
                    connection.slot).slot
                received := connection.received ++ result.bytes
                sent := connection.sent
                accesses :=
                  connection.accesses ++
                    (recvdata program connection.slot.fd result now
                      connection.slot).accesses } := by
        intro ends
        obtain ⟨slotEq, accessesEq⟩ :=
          recvdata_without_data program connection.slot.fd now ends
            registered
        constructor
        · apply phase_of_released slotEq
          rw [echoed]
          exact List.prefix_append _ _
        · rw [accessesEq, List.append_nil]
          exact inside
      cases result with
      | closed => exact released (.inl rfl)
      | failed => exact released (.inr rfl)
      | data bytes =>
          have short : bytes.length < maxBufsize := room
          have fits : bytes.length < connection.slot.buf.length := by
            rw [size]
            exact short
          have stored := length_store (Nat.le_of_lt fits)
          have terminated := terminated_store fits
          rw [recvdata_data program _ bytes now registered]
          constructor
          · refine .waitsForSpace rfl rfl (stored.trans size) short
              terminated ?_
            rw [take_store, echoed]
            rfl
          · intro access member
            rcases List.mem_append.mp member with earlier | new
            · exact inside access earlier
            · have printed := length_cstr_lt terminated
              rw [stored, size] at printed
              simp only [List.mem_cons, List.not_mem_nil, or_false] at new
              unfold Access.Inside
              rcases new with rfl | rfl | rfl
              · show 0 + bytes.length ≤ maxBufsize
                omega
              · exact short
              · rw [Nat.zero_add]
                exact printed

theorem writable_keeps
    {program : Program} {connection next : Connection}
    {result : SendResult} {now : Int}
    (invariant : EchoInvariant connection)
    (whole : KeepsEcho connection (.writable result now))
    (stepped :
      connection.step program (.writable result now) = some next) :
    EchoInvariant next := by
  obtain ⟨registered, callBack, possible, rfl⟩ := writable_step stepped
  obtain ⟨phase, inside⟩ := invariant
  cases phase with
  | closed status inOrder => exact absurd registered status
  | waitsForData other size echoed =>
      rw [callBack] at other
      cases other
  | waitsForSpace same events size room terminated buffered =>
      have offered : Access.Inside ⟨0, connection.slot.len⟩ := by
        show 0 + connection.slot.len ≤ maxBufsize
        omega
      cases result with
      | failed =>
          obtain ⟨slotEq, accessesEq⟩ :=
            senddata_failed program connection.slot.fd now registered
          constructor
          · apply phase_of_released slotEq
            show connection.sent ++ connection.slot.buf.take 0 <+:
              connection.received
            rw [List.take_zero, List.append_nil, buffered]
            exact List.prefix_append _ _
          · rw [accessesEq]
            intro access member
            rcases List.mem_append.mp member with earlier | new
            · exact inside access earlier
            · cases List.mem_singleton.mp new
              exact offered
      | accepts count =>
          have all : count = connection.slot.len := whole
          rw [senddata_accepts program _ count now registered]
          constructor
          · refine .waitsForData rfl List.length_replicate ?_
            rw [buffered, ← all]
            rfl
          · intro access member
            rcases List.mem_append.mp member with earlier | new
            · exact inside access earlier
            · have printed := length_cstr_lt terminated
              rw [size] at printed
              simp only [List.mem_cons, List.not_mem_nil, or_false] at new
              unfold Access.Inside
              rcases new with rfl | rfl | rfl
              · exact offered
              · rw [Nat.zero_add]
                exact printed
              · exact Nat.le_refl _

theorem timeout_keeps
    {program : Program} {connection next : Connection}
    (invariant : EchoInvariant connection)
    (stepped : connection.step program .timeout = some next) :
    EchoInvariant next := by
  obtain ⟨registered, rfl⟩ := timeout_step stepped
  obtain ⟨slotEq, accessesEq⟩ := expire_of_registered program registered
  constructor
  · exact
      phase_of_released slotEq (exact_of_echoInvariant invariant).inOrder
  · rw [accessesEq, List.append_nil]
    exact invariant.inside

theorem step_keeps_echo
    {program : Program} {connection next : Connection}
    {occurrence : Occurrence} (invariant : EchoInvariant connection)
    (keeps : KeepsEcho connection occurrence)
    (stepped : connection.step program occurrence = some next) :
    EchoInvariant next := by
  cases occurrence with
  | readable result now => exact readable_keeps invariant keeps stepped
  | writable result now => exact writable_keeps invariant keeps stepped
  | timeout => exact timeout_keeps invariant stepped

/-- A `recv` that fills the buffer stores its terminator behind it, and after
a short `send` the slot waits for `EPOLLIN` with bytes not echoed. -/
theorem keepsEcho_of_exact
    {program : Program} {connection next : Connection}
    {occurrence : Occurrence} (invariant : EchoInvariant connection)
    (stepped : connection.step program occurrence = some next)
    (exactNext : Exact next) : KeepsEcho connection occurrence := by
  cases occurrence with
  | timeout => trivial
  | readable result now =>
      cases result with
      | closed => trivial
      | failed => trivial
      | data bytes =>
          obtain ⟨registered, callBack, possible, rfl⟩ :=
            readable_step stepped
          have inside := exactNext.inside
          rw [recvdata_data program _ bytes now registered] at inside
          have terminator :=
            inside ⟨bytes.length, 1⟩ (List.mem_append_right _ (by simp))
          exact terminator
  | writable result now =>
      cases result with
      | failed => trivial
      | accepts count =>
          obtain ⟨registered, callBack, possible, rfl⟩ :=
            writable_step stepped
          have complete := exactNext.complete
          rw [senddata_accepts program _ count now registered] at complete
          have echoed :
              connection.sent ++ connection.slot.buf.take count =
                connection.received :=
            complete rfl rfl
          cases invariant.phase with
          | closed status inOrder => exact absurd registered status
          | waitsForData other size _ =>
              rw [callBack] at other
              cases other
          | waitsForSpace same events size room terminated buffered =>
              have offered : count ≤ connection.slot.len := possible.2
              have lengths :=
                congrArg List.length
                  (List.append_cancel_left (echoed.trans buffered))
              rw [List.length_take, List.length_take, size] at lengths
              show count = connection.slot.len
              omega

theorem echoInvariant_start
    (program : Program) (fd : Nat) (now : Int) (free : MyEvent) :
    EchoInvariant (Connection.start program fd now free) := by
  unfold Connection.start
  rw [giveSlot_eq]
  constructor
  · exact .waitsForData rfl List.length_replicate rfl
  · intro access member
    cases List.mem_singleton.mp member
    exact Nat.le_refl _

/-- The echo is exact throughout a run exactly when no `recv` of the run
fills the buffer and no `send` is short. -/
theorem exact_throughout_iff
    (program : Program) (fd : Nat) (now : Int) (free : MyEvent)
    (occurrences : List Occurrence) (last : Connection)
    (ran :
      run (Connection.step program) (Connection.start program fd now free)
        occurrences = some last) :
    Throughout (Connection.step program) Exact
        (Connection.start program fd now free) occurrences ↔
      StepsMeet (Connection.step program) KeepsEcho
        (Connection.start program fd now free) occurrences :=
  throughout_iff_stepsMeet EchoInvariant
    (fun _ invariant => exact_of_echoInvariant invariant)
    (fun _ _ _ invariant keeps stepped =>
      step_keeps_echo invariant keeps stepped)
    (fun _ _ _ invariant stepped exactNext =>
      keepsEcho_of_exact invariant stepped exactNext)
    (echoInvariant_start program fd now free) ran

/-- Two bytes arrive and are sent back. -/
theorem exact_throughout_iff_two_bytes :
    Throughout (Connection.step .epollReactor) Exact
        (Connection.start .epollReactor 5 0 MyEvent.zeroed)
        [.readable (.data [104, 105]) 1, .writable (.accepts 2) 2] ↔
      StepsMeet (Connection.step .epollReactor) KeepsEcho
        (Connection.start .epollReactor 5 0 MyEvent.zeroed)
        [.readable (.data [104, 105]) 1, .writable (.accepts 2) 2] :=
  exact_throughout_iff .epollReactor 5 0 MyEvent.zeroed
    [.readable (.data [104, 105]) 1, .writable (.accepts 2) 2] _ rfl

/-- `send` takes one of two bytes, and the other one is never sent. -/
theorem short_send_loses_a_byte :
    ¬ ∀ (program : Program) (fd : Nat) (now : Int) (free : MyEvent)
        (occurrences : List Occurrence) (last : Connection),
        run (Connection.step program)
            (Connection.start program fd now free) occurrences =
            some last →
          Exact last := by
  intro always
  have exactLast :=
    always .epollReactor 5 0 MyEvent.zeroed
      [.readable (.data [104, 105]) 1, .writable (.accepts 1) 2] _ rfl
  have same := exactLast.complete rfl rfl
  revert same
  decide

end LinuxNet.Reactor
