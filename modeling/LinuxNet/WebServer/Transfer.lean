import LinuxNet.WebServer.Response

/-!
# What `write` delivers of a queued response

`write` starts each call with the two counters at `m_write_idx` and 0, offers
`m_iv` as `process_write` filled it at every `writev`, and stops as soon as
the bytes sent are at least the bytes left.  So only the first `writev` that
accepts anything can be right, and only in two ways: it takes the whole
response, or it takes less than half of the header and nothing follows.
`writeCalls_deliver_iff` states this for every sequence of outcomes.
-/

namespace LinuxNet.WebServer

open LinuxNet.CInt

/-- The bytes an event hands to the socket. -/
def Event.sentBytes : Event → List UInt8
  | .sent bytes => bytes
  | _ => []

def sentBytes (trace : List Event) : List UInt8 :=
  trace.flatMap Event.sentBytes

@[simp]
theorem sentBytes_append (initial suffix : List Event) :
    sentBytes (initial ++ suffix) =
      sentBytes initial ++ sentBytes suffix := by
  simp [sentBytes]

@[simp]
theorem sentBytes_nil : sentBytes [] = [] :=
  rfl

@[simp]
theorem sentBytes_cons (event : Event) (rest : List Event) :
    sentBytes (event :: rest) = event.sentBytes ++ sentBytes rest := by
  simp [sentBytes]

/-- Successive calls of `write` on one connection, until a call returns false
and `main` closes the connection, or the results of `writev` run out inside a
call. -/
def writeCalls (pages : Nat → List UInt8) :
    Nat → Conn → List WritevOutcome → Conn
  | 0, c, _ => c
  | count + 1, c, outcomes =>
      let call := c.write pages outcomes
      if call.ret = some true then
        writeCalls pages count call.conn call.unused
      else
        call.conn

/-- `m_iv` designates the header and the mapped file, and none of it is sent
yet. -/
structure QueuedResponse
    (pages : Nat → List UInt8) (c : Conn)
    (header file : List UInt8) : Prop where
  nonempty : header ≠ []
  writeIdx_eq : c.writeIdx = header.length
  offered_eq : c.offered pages = header ++ file
  unsent : sentBytes c.trace = []
  unfinished : .responseSent ∉ c.trace

/-- However many calls of `write` are made, the bytes accepted are a prefix of
the response, and they are all of it once `write` has taken its "response
sent" branch. -/
def Delivers
    (pages : Nat → List UInt8) (c : Conn)
    (header file : List UInt8) (outcomes : List WritevOutcome) : Prop :=
  ∀ count,
    sentBytes (writeCalls pages count c outcomes).trace <+:
        header ++ file ∧
      (.responseSent ∈ (writeCalls pages count c outcomes).trace →
        sentBytes (writeCalls pages count c outcomes).trace =
          header ++ file)

/-- The numbers of bytes accepted before the first failure other than
`EAGAIN`. -/
def acceptedCounts : List WritevOutcome → List Nat
  | [] => []
  | .eagain :: rest => acceptedCounts rest
  | .error :: _ => []
  | .accepted count :: rest => count :: acceptedCounts rest

theorem accepted_mem_of_acceptedCounts
    {outcomes : List WritevOutcome} {count : Nat}
    (member : count ∈ acceptedCounts outcomes) :
    .accepted count ∈ outcomes := by
  induction outcomes with
  | nil =>
      simp [acceptedCounts] at member
  | cons outcome rest inductionHypothesis =>
      cases outcome with
      | eagain =>
          exact List.mem_cons_of_mem _ (inductionHypothesis member)
      | error =>
          simp [acceptedCounts] at member
      | accepted first =>
          simp only [acceptedCounts, List.mem_cons] at member
          rcases member with equal | laterMember
          · simp [equal]
          · exact List.mem_cons_of_mem _ (inductionHypothesis laterMember)

/-- Each `writev` that succeeds accepts at least one byte of those offered. -/
def OutcomesFit (length : Nat) (outcomes : List WritevOutcome) : Prop :=
  ∀ count, .accepted count ∈ outcomes → 0 < count ∧ count ≤ length

/-- Nothing is accepted; or the first `writev` that accepts bytes takes the
whole response; or it takes less than half of the header and no later one
accepts any. -/
def AcceptedAtOnce (headerLen fileLen : Nat) (counts : List Nat) : Prop :=
  match counts with
  | [] => True
  | first :: later =>
      if headerLen ≤ 2 * first then
        first = headerLen + fileLen
      else
        later = []

instance (headerLen fileLen : Nat) (counts : List Nat) :
    Decidable (AcceptedAtOnce headerLen fileLen counts) := by
  unfold AcceptedAtOnce
  split <;> infer_instance

/-! ## One call of `write`, followed by further calls -/

/-- Go on with further calls after a call of `write`. -/
def callsAfter (pages : Nat → List UInt8) (count : Nat) (call : WriteCall) :
    Conn :=
  if call.ret = some true then
    writeCalls pages count call.conn call.unused
  else
    call.conn

@[simp]
theorem callsAfter_zero (pages : Nat → List UInt8) (call : WriteCall) :
    callsAfter pages 0 call = call.conn := by
  simp [callsAfter, writeCalls]

@[simp]
theorem callsAfter_true
    (pages : Nat → List UInt8) (count : Nat) (c : Conn)
    (unused : List WritevOutcome) :
    callsAfter pages count ⟨some true, c, unused⟩ =
      writeCalls pages count c unused := by
  simp [callsAfter]

@[simp]
theorem callsAfter_false
    (pages : Nat → List UInt8) (count : Nat) (c : Conn)
    (unused : List WritevOutcome) :
    callsAfter pages count ⟨some false, c, unused⟩ = c := by
  simp [callsAfter]

@[simp]
theorem callsAfter_none
    (pages : Nat → List UInt8) (count : Nat) (c : Conn)
    (unused : List WritevOutcome) :
    callsAfter pages count ⟨none, c, unused⟩ = c := by
  simp [callsAfter]

theorem writeCalls_succ
    (pages : Nat → List UInt8) (count : Nat) (c : Conn)
    (outcomes : List WritevOutcome) :
    writeCalls pages (count + 1) c outcomes =
      callsAfter pages count (c.write pages outcomes) :=
  rfl

theorem write_of_pos
    {pages : Nat → List UInt8} {c : Conn}
    (pending : 0 < c.writeIdx) (outcomes : List WritevOutcome) :
    c.write pages outcomes =
      Conn.writeLoop pages outcomes c c.writeIdx 0 := by
  rw [Conn.write, if_neg (by omega)]

theorem sentBytes_unmap (c : Conn) :
    sentBytes c.unmap.trace = sentBytes c.trace ∧
      (.responseSent ∈ c.unmap.trace ↔ .responseSent ∈ c.trace) := by
  unfold Conn.unmap
  split
  · simp [Conn.emit, Event.sentBytes]
  · simp

/-- With nothing queued, `write` sends nothing. -/
theorem writeCalls_of_writeIdx_eq_zero
    {pages : Nat → List UInt8} {c : Conn} (empty : c.writeIdx = 0)
    (count : Nat) (outcomes : List WritevOutcome) :
    sentBytes (writeCalls pages count c outcomes).trace =
      sentBytes c.trace := by
  induction count generalizing c with
  | zero =>
      rfl
  | succ count inductionHypothesis =>
      have emptyAgain : (c.modfd .epollIn).init.writeIdx = 0 := rfl
      rw [writeCalls_succ, Conn.write, if_pos empty, callsAfter_true,
        inductionHypothesis emptyAgain]
      simp [Conn.init, Conn.modfd, Event.sentBytes]

/-- While no `writev` accepts anything, nothing is sent, from wherever in the
loop the outcomes are read. -/
theorem callsAfter_writeLoop_quiet
    (pages : Nat → List UInt8) {outcomes : List WritevOutcome}
    (quiet : acceptedCounts outcomes = []) :
    ∀ (count : Nat) (c : Conn) (toSend haveSend : Int),
      0 < c.writeIdx →
        sentBytes
            (callsAfter pages count
              (Conn.writeLoop pages outcomes c toSend haveSend)).trace =
          sentBytes c.trace ∧
        (.responseSent ∈
            (callsAfter pages count
              (Conn.writeLoop pages outcomes c toSend haveSend)).trace ↔
          .responseSent ∈ c.trace) := by
  induction outcomes with
  | nil =>
      intro count c toSend haveSend _
      simp [Conn.writeLoop]
  | cons outcome rest inductionHypothesis =>
      intro count c toSend haveSend pending
      cases outcome with
      | eagain =>
          simp only [Conn.writeLoop, callsAfter_true]
          cases count with
          | zero =>
              simp [writeCalls, Conn.modfd, Conn.emit, Event.sentBytes]
          | succ count =>
              have pendingAgain : 0 < (c.modfd .epollOut).writeIdx :=
                pending
              rw [writeCalls_succ, write_of_pos pendingAgain]
              have later :=
                inductionHypothesis quiet count (c.modfd .epollOut)
                  (c.modfd .epollOut).writeIdx 0 pendingAgain
              rw [later.1, later.2]
              simp [Conn.modfd, Conn.emit, Event.sentBytes]
      | error =>
          simp only [Conn.writeLoop, callsAfter_false]
          exact sentBytes_unmap c
      | accepted temp =>
          simp [acceptedCounts] at quiet

theorem trace_prefix_unmap (c : Conn) : c.trace <+: c.unmap.trace := by
  unfold Conn.unmap
  split
  · simp [Conn.emit]
  · simp

/-- The loop only ever adds to the trace. -/
theorem trace_prefix_writeLoop
    (pages : Nat → List UInt8) (outcomes : List WritevOutcome) :
    ∀ (c : Conn) (toSend haveSend : Int),
      c.trace <+:
        (Conn.writeLoop pages outcomes c toSend haveSend).conn.trace := by
  induction outcomes with
  | nil =>
      intro c toSend haveSend
      simp [Conn.writeLoop]
  | cons outcome rest inductionHypothesis =>
      intro c toSend haveSend
      cases outcome with
      | eagain =>
          simp [Conn.writeLoop, Conn.modfd, Conn.emit]
      | error =>
          simpa [Conn.writeLoop] using trace_prefix_unmap c
      | accepted temp =>
          have grown :
              c.trace <+:
                (c.emit (.sent ((c.offered pages).take temp))).trace := by
            simp
          have finished :
              c.trace <+:
                (((c.emit (.sent ((c.offered pages).take temp))).emit
                  .responseSent).unmap).trace :=
            (grown.trans (by simp)).trans (trace_prefix_unmap _)
          simp only [Conn.writeLoop]
          split
          · split
            · exact finished.trans (by simp [Conn.init, Conn.modfd])
            · exact finished.trans (by simp [Conn.modfd])
          · exact grown.trans (inductionHypothesis _ _ _)

/-- The bytes of the first `writev` stay at the front of what the call
sends. -/
theorem trace_prefix_writeLoop_accepted
    (pages : Nat → List UInt8) (temp : Nat) (rest : List WritevOutcome)
    (c : Conn) (toSend haveSend : Int) :
    (c.emit (.sent ((c.offered pages).take temp))).trace <+:
      (Conn.writeLoop pages (.accepted temp :: rest) c
        toSend haveSend).conn.trace := by
  have finished :
      (c.emit (.sent ((c.offered pages).take temp))).trace <+:
        (((c.emit (.sent ((c.offered pages).take temp))).emit
          .responseSent).unmap).trace :=
    List.IsPrefix.trans (by simp) (trace_prefix_unmap _)
  simp only [Conn.writeLoop]
  split
  · split
    · exact finished.trans (by simp [Conn.init, Conn.modfd])
    · exact finished.trans (by simp [Conn.modfd])
  · exact trace_prefix_writeLoop pages rest _ _ _

theorem sentBytes_extends
    {initial whole : List Event} (shape : initial <+: whole) :
    sentBytes initial <+: sentBytes whole := by
  obtain ⟨suffix, rfl⟩ := shape
  simp

/-- If some `writev` accepts bytes, a later call shows the first byte of the
response added to what was sent before. -/
theorem exists_callsAfter_resends
    {pages : Nat → List UInt8} {outcomes : List WritevOutcome}
    {second : Nat} {later : List Nat} {byte : UInt8} {body : List UInt8}
    (counts : acceptedCounts outcomes = second :: later)
    (positive : 0 < second) :
    ∀ (c : Conn) (toSend haveSend : Int),
      0 < c.writeIdx → c.offered pages = byte :: body →
        ∃ count,
          sentBytes c.trace ++ [byte] <+:
            sentBytes
              (callsAfter pages count
                (Conn.writeLoop pages outcomes c toSend haveSend)).trace := by
  induction outcomes with
  | nil =>
      simp [acceptedCounts] at counts
  | cons outcome rest inductionHypothesis =>
      intro c toSend haveSend pending offered
      cases outcome with
      | eagain =>
          have pendingAgain : 0 < (c.modfd .epollOut).writeIdx := pending
          obtain ⟨count, resent⟩ :=
            inductionHypothesis counts (c.modfd .epollOut)
              (c.modfd .epollOut).writeIdx 0 pendingAgain offered
          refine ⟨count + 1, ?_⟩
          simp only [Conn.writeLoop, callsAfter_true]
          rw [writeCalls_succ, write_of_pos pendingAgain]
          simpa [Conn.modfd, Event.sentBytes] using resent
      | error =>
          simp [acceptedCounts] at counts
      | accepted temp =>
          have tempEq : temp = second := by
            simp only [acceptedCounts, List.cons.injEq] at counts
            exact counts.1
          subst tempEq
          refine ⟨0, ?_⟩
          have first :
              sentBytes c.trace ++ [byte] <+:
                sentBytes
                  (c.emit (.sent ((c.offered pages).take temp))).trace := by
            rw [offered]
            obtain ⟨room, rfl⟩ : ∃ room, temp = room + 1 :=
              ⟨temp - 1, by omega⟩
            simp [Event.sentBytes]
          rw [callsAfter_zero]
          exact
            first.trans
              (sentBytes_extends
                (trace_prefix_writeLoop_accepted pages temp rest c
                  toSend haveSend))

/-! ## Delivery -/

section Delivery

variable {pages : Nat → List UInt8} {header file : List UInt8}

/-- The two halves of `Delivers` for the object after some calls. -/
def DeliveredBy (header file : List UInt8) (c : Conn) : Prop :=
  sentBytes c.trace <+: header ++ file ∧
    (.responseSent ∈ c.trace → sentBytes c.trace = header ++ file)

theorem QueuedResponse.pending
    {c : Conn} (queued : QueuedResponse pages c header file) :
    0 < c.writeIdx := by
  rw [queued.writeIdx_eq]
  exact List.length_pos_iff.mpr queued.nonempty

/-- A call that ends with `EAGAIN` leaves the response as it was queued. -/
theorem QueuedResponse.modfd
    {c : Conn} (queued : QueuedResponse pages c header file) :
    QueuedResponse pages (c.modfd .epollOut) header file where
  nonempty := queued.nonempty
  writeIdx_eq := queued.writeIdx_eq
  offered_eq := queued.offered_eq
  unsent := by
    simp [Conn.modfd, queued.unsent, Event.sentBytes]
  unfinished := by
    simp [Conn.modfd, queued.unfinished]

theorem QueuedResponse.deliveredBy
    {c : Conn} (queued : QueuedResponse pages c header file) :
    DeliveredBy header file c := by
  constructor
  · rw [queued.unsent]
    exact List.nil_prefix
  · intro finished
    exact absurd finished queued.unfinished

theorem delivers_iff_callsAfter
    {c : Conn} {outcomes : List WritevOutcome}
    (queued : QueuedResponse pages c header file) :
    Delivers pages c header file outcomes ↔
      ∀ count,
        DeliveredBy header file
          (callsAfter pages count
            (Conn.writeLoop pages outcomes c header.length 0)) := by
  have first :
      ∀ count,
        writeCalls pages (count + 1) c outcomes =
          callsAfter pages count
            (Conn.writeLoop pages outcomes c header.length 0) := by
    intro count
    rw [writeCalls_succ, write_of_pos queued.pending, queued.writeIdx_eq]
  constructor
  · intro delivers count
    rw [← first count]
    exact delivers (count + 1)
  · intro delivered count
    cases count with
    | zero => exact queued.deliveredBy
    | succ count =>
        rw [first count]
        exact delivered count

/-- The object right after the first `writev` that accepts bytes. -/
theorem sentBytes_first
    {c : Conn} (queued : QueuedResponse pages c header file)
    (temp : Nat) :
    sentBytes (c.emit (.sent ((c.offered pages).take temp))).trace =
      (header ++ file).take temp := by
  simp [queued.unsent, queued.offered_eq, Event.sentBytes]

/-- When the first accepted count ends the loop, that count is all that is
ever sent of the response, and the branch taken is "response sent". -/
theorem callsAfter_writeLoop_first
    {c : Conn} {temp : Nat} (rest : List WritevOutcome)
    (queued : QueuedResponse pages c header file)
    (half : header.length ≤ 2 * temp) (count : Nat) :
    sentBytes
        (callsAfter pages count
          (Conn.writeLoop pages (.accepted temp :: rest) c
            header.length 0)).trace =
      (header ++ file).take temp := by
  have stops :
      (header.length : Int) - temp ≤ 0 + temp := by
    omega
  have sent := sentBytes_first queued temp
  have unmapped :=
    (sentBytes_unmap
      ((c.emit (.sent ((c.offered pages).take temp))).emit
        .responseSent)).1
  simp only [Conn.writeLoop, if_pos stops]
  split
  · rw [callsAfter_true, writeCalls_of_writeIdx_eq_zero rfl]
    simpa [Conn.init, Conn.modfd, Event.sentBytes] using
      unmapped.trans (by simpa [Event.sentBytes] using sent)
  · simpa [Conn.modfd, Event.sentBytes] using
      unmapped.trans (by simpa [Event.sentBytes] using sent)

theorem responseSent_mem_writeLoop_first
    {c : Conn} {temp : Nat} {rest : List WritevOutcome}
    (half : header.length ≤ 2 * temp) :
    .responseSent ∈
      (Conn.writeLoop pages (.accepted temp :: rest) c
        header.length 0).conn.trace := by
  have stops :
      (header.length : Int) - temp ≤ 0 + temp := by
    omega
  have branch :
      .responseSent ∈
        ((c.emit (.sent ((c.offered pages).take temp))).emit
          .responseSent).unmap.trace :=
    (sentBytes_unmap _).2.mpr (by simp)
  simp only [Conn.writeLoop, if_pos stops]
  split
  · simp [Conn.init, Conn.modfd, branch]
  · simp [Conn.modfd, branch]

theorem deliveredBy_of_acceptedAtOnce
    {outcomes : List WritevOutcome}
    (atOnce :
      AcceptedAtOnce header.length file.length
        (acceptedCounts outcomes)) :
    ∀ (count : Nat) (c : Conn),
      QueuedResponse pages c header file →
        DeliveredBy header file
          (callsAfter pages count
            (Conn.writeLoop pages outcomes c header.length 0)) := by
  induction outcomes with
  | nil =>
      intro count c queued
      simpa [Conn.writeLoop] using queued.deliveredBy
  | cons outcome rest inductionHypothesis =>
      intro count c queued
      cases outcome with
      | eagain =>
          simp only [Conn.writeLoop, callsAfter_true]
          cases count with
          | zero => exact queued.modfd.deliveredBy
          | succ count =>
              rw [writeCalls_succ, write_of_pos queued.modfd.pending,
                queued.modfd.writeIdx_eq]
              exact inductionHypothesis atOnce count _ queued.modfd
      | error =>
          obtain ⟨same, branch⟩ := sentBytes_unmap c
          have before := queued.deliveredBy
          simp only [Conn.writeLoop, callsAfter_false, DeliveredBy]
          rw [same, branch]
          exact before
      | accepted temp =>
          simp only [AcceptedAtOnce, acceptedCounts] at atOnce
          by_cases half : header.length ≤ 2 * temp
          · rw [if_pos half] at atOnce
            have sent :=
              callsAfter_writeLoop_first rest queued half count
            have whole : (header ++ file).length ≤ temp := by
              rw [List.length_append]
              omega
            rw [List.take_of_length_le whole] at sent
            exact ⟨sent.symm ▸ List.prefix_rfl, fun _ => sent⟩
          · rw [if_neg half] at atOnce
            have goesOn :
                ¬ (header.length : Int) - temp ≤ 0 + temp := by
              omega
            simp only [Conn.writeLoop, if_neg goesOn]
            obtain ⟨same, branch⟩ :=
              callsAfter_writeLoop_quiet pages atOnce count
                (c.emit (.sent ((c.offered pages).take temp)))
                (header.length - temp) (0 + temp) queued.pending
            rw [DeliveredBy, same, branch, sentBytes_first queued]
            refine ⟨List.take_prefix _ _, fun finished => ?_⟩
            exact absurd finished (by simp [queued.unfinished])

/-- A list that goes on with its own first element after some of its start
has that element twice. -/
private theorem mem_of_take_eq_append
    {byte : UInt8} {body rest : List UInt8} {count : Nat}
    (positive : 0 < count) (inside : count ≤ body.length)
    (doubled :
      (byte :: body ++ rest).take count ++ [byte] <+:
        byte :: body ++ rest) :
    byte ∈ body := by
  obtain ⟨tail, shape⟩ := doubled
  have length :
      ((byte :: body ++ rest).take count).length = count := by
    simp only [List.length_take, List.length_append, List.length_cons]
    omega
  have again := congrArg (fun whole => whole[count]?) shape
  obtain ⟨index, rfl⟩ : ∃ index, count = index + 1 :=
    ⟨count - 1, by omega⟩
  have inBody : index < body.length := by
    omega
  rw [List.append_assoc, List.getElem?_append_right (by omega),
    length] at again
  simp only [Nat.sub_self, List.cons_append, List.nil_append,
    List.getElem?_cons_zero, List.getElem?_cons_succ,
    List.getElem?_append_left inBody] at again
  exact List.mem_of_getElem? again.symm

/-- The converse, for a header whose first byte does not come again in it. -/
theorem acceptedAtOnce_of_deliveredBy
    {outcomes : List WritevOutcome} {byte : UInt8} {body : List UInt8}
    (headerShape : header = byte :: body) (once : byte ∉ body)
    (fit : OutcomesFit (header.length + file.length) outcomes) :
    ∀ c : Conn,
      QueuedResponse pages c header file →
        (∀ count,
          DeliveredBy header file
            (callsAfter pages count
              (Conn.writeLoop pages outcomes c header.length 0))) →
          AcceptedAtOnce header.length file.length
            (acceptedCounts outcomes) := by
  induction outcomes with
  | nil =>
      intro c _ _
      trivial
  | cons outcome rest inductionHypothesis =>
      have fitRest :
          OutcomesFit (header.length + file.length) rest :=
        fun count member => fit count (List.mem_cons_of_mem outcome member)
      intro c queued delivered
      cases outcome with
      | eagain =>
          refine inductionHypothesis fitRest _ queued.modfd ?_
          intro count
          have later := delivered (count + 1)
          simp only [Conn.writeLoop, callsAfter_true] at later
          rwa [writeCalls_succ, write_of_pos queued.modfd.pending,
            queued.modfd.writeIdx_eq] at later
      | error =>
          trivial
      | accepted temp =>
          obtain ⟨positive, bounded⟩ := fit temp List.mem_cons_self
          simp only [AcceptedAtOnce, acceptedCounts]
          split
          · next half =>
            have sent :=
              callsAfter_writeLoop_first rest queued half 0
            have whole :=
              (delivered 0).2 (by
                rw [callsAfter_zero]
                exact responseSent_mem_writeLoop_first half)
            have lengths :=
              congrArg List.length (sent.symm.trans whole)
            simp only [List.length_take, List.length_append] at lengths
            omega
          · next short =>
            cases laterShape : acceptedCounts rest with
            | nil => rfl
            | cons second later =>
                have goesOn :
                    ¬ (header.length : Int) - temp ≤ 0 + temp := by
                  omega
                have secondPositive : 0 < second :=
                  (fitRest second
                    (accepted_mem_of_acceptedCounts
                      (by rw [laterShape]; exact List.mem_cons_self))).1
                have offered : c.offered pages = byte :: (body ++ file) := by
                  rw [queued.offered_eq, headerShape]
                  rfl
                obtain ⟨count, resent⟩ :=
                  exists_callsAfter_resends laterShape secondPositive
                    (c.emit (.sent ((c.offered pages).take temp)))
                    (header.length - temp) (0 + temp)
                    queued.pending offered
                have sent := delivered count
                simp only [Conn.writeLoop, if_neg goesOn] at sent
                have doubled := resent.trans sent.1
                rw [sentBytes_first queued, headerShape] at doubled
                exact absurd
                  (mem_of_take_eq_append positive
                    (by simp only [headerShape, List.length_cons] at short
                        omega) doubled)
                  once

end Delivery

/-- For every response with an unrepeated first header byte, delivery is
decided by the counts that `writev` accepts. -/
theorem delivers_iff_acceptedAtOnce
    {pages : Nat → List UInt8} {c : Conn} {header file : List UInt8}
    {byte : UInt8} {body : List UInt8} {outcomes : List WritevOutcome}
    (queued : QueuedResponse pages c header file)
    (headerShape : header = byte :: body) (once : byte ∉ body)
    (fit : OutcomesFit (header.length + file.length) outcomes) :
    Delivers pages c header file outcomes ↔
      AcceptedAtOnce header.length file.length
        (acceptedCounts outcomes) := by
  rw [delivers_iff_callsAfter queued]
  constructor
  · exact acceptedAtOnce_of_deliveredBy headerShape once fit c queued
  · intro atOnce count
    exact deliveredBy_of_acceptedAtOnce atOnce count c queued

private def sampleConn (headerLen fileLen : Nat) : Conn :=
  { Conn.zeroed with
    writeBuf := 72 :: List.replicate (headerLen - 1) 32
    writeIdx := headerLen
    iv0 := ⟨.writeBuf, headerLen⟩
    iv1 := ⟨.file (.mapping 0), fileLen⟩
    ivCount := 2 }

private theorem sampleConn_queued
    {headerLen : Nat} (positive : 0 < headerLen) (fileLen : Nat) :
    QueuedResponse (fun _ => List.replicate fileLen 0)
      (sampleConn headerLen fileLen)
      (72 :: List.replicate (headerLen - 1) 32)
      (List.replicate fileLen 0) where
  nonempty := List.cons_ne_nil _ _
  writeIdx_eq := by
    simp only [sampleConn, List.length_cons, List.length_replicate]
    omega
  offered_eq := by
    have whole :
        (72 :: List.replicate (headerLen - 1) (32 : UInt8)).take headerLen =
          72 :: List.replicate (headerLen - 1) 32 :=
      List.take_of_length_le
        (by simp only [List.length_cons, List.length_replicate]; omega)
    simp [Conn.offered, Conn.iovecBytes, sampleConn, whole]
  unsent := rfl
  unfinished := by
    simp [sampleConn, Conn.zeroed]

/-- For given lengths of header and file and given outcomes of `writev`, over
any number of calls of `write`: every queued response of these lengths is
delivered as a prefix at all times and whole in the "response sent" branch,
if and only if the bytes are accepted at once. -/
theorem writeCalls_deliver_iff
    (headerLen fileLen : Nat) (outcomes : List WritevOutcome)
    (positive : 0 < headerLen)
    (fit : OutcomesFit (headerLen + fileLen) outcomes) :
    (∀ (pages : Nat → List UInt8) (c : Conn) (header file : List UInt8),
        QueuedResponse pages c header file →
          header.length = headerLen → file.length = fileLen →
            Delivers pages c header file outcomes) ↔
      AcceptedAtOnce headerLen fileLen (acceptedCounts outcomes) := by
  constructor
  · intro always
    have headerLength :
        (72 :: List.replicate (headerLen - 1) (32 : UInt8)).length =
          headerLen := by
      simp only [List.length_cons, List.length_replicate]
      omega
    have fileLength :
        (List.replicate fileLen (0 : UInt8)).length = fileLen :=
      List.length_replicate
    have queued := sampleConn_queued positive fileLen
    have decided :=
      (delivers_iff_acceptedAtOnce queued rfl (by simp)
        (by rw [headerLength, fileLength]; exact fit)).mp
        (always _ _ _ _ queued headerLength fileLength)
    rwa [headerLength, fileLength] at decided
  · rintro atOnce pages c header file queued rfl rfl
    rw [delivers_iff_callsAfter queued]
    exact fun count => deliveredBy_of_acceptedAtOnce atOnce count c queued

/-- The part of a response that `m_iv[1]` designates. -/
def mappedPart (code : HttpCode) (file : List UInt8) : List UInt8 :=
  if code = .fileRequest then file else []

private theorem letter_notMem_decimal (value : Int) :
    (72 : UInt8) ∉ Decimal.decimal value := by
  intro member
  rcases Decimal.isdigit_or_minus_of_mem_decimal member with digit | minus
  · revert digit
    decide
  · revert minus
    decide

private theorem letter_notMem_headersText (linger : Bool) (value : Int) :
    (72 : UInt8) ∉ Conn.headersText linger value := by
  have label : (72 : UInt8) ∉ ascii "Content-Length: " := by decide
  have connection : (72 : UInt8) ∉ ascii "Connection: " := by decide
  have lineEnd : (72 : UInt8) ∉ crlf := by decide
  have answer :
      (72 : UInt8) ∉
        (if linger then ascii "keep-alive" else ascii "close") := by
    cases linger <;> decide
  simp only [Conn.headersText, List.mem_append, not_or]
  exact
    ⟨⟨⟨⟨label, letter_notMem_decimal value⟩, lineEnd⟩,
      ⟨connection, answer⟩, lineEnd⟩, lineEnd⟩

private theorem statusLine_shape
    {code : HttpCode} (answered : Answered code) :
    ∃ tail, statusLine code = 72 :: tail ∧ (72 : UInt8) ∉ tail := by
  refine ⟨(statusLine code).tail, ?_⟩
  rcases answered with rfl | rfl | rfl | rfl | rfl <;> decide

private theorem letter_notMem_form
    {code : HttpCode} (answered : Answered code) :
    (72 : UInt8) ∉ bodyFor code [] := by
  rcases answered with rfl | rfl | rfl | rfl | rfl <;> decide

/-- A header that starts with a status line starts with the only `H` in it. -/
private theorem exists_header_shape
    {code : HttpCode} {header : List UInt8} {linger : Bool} {value : Int}
    (answered : Answered code)
    (shape :
      header =
        statusLine code ++ Conn.headersText linger value ++
          bodyFor code []) :
    ∃ body, header = 72 :: body ∧ (72 : UInt8) ∉ body := by
  obtain ⟨tail, statusEq, once⟩ := statusLine_shape answered
  refine
    ⟨tail ++ Conn.headersText linger value ++ bodyFor code [],
      by rw [shape, statusEq]; rfl, ?_⟩
  simp only [List.mem_append, not_or]
  exact
    ⟨⟨once, letter_notMem_headersText linger value⟩,
      letter_notMem_form answered⟩

private theorem sentBytes_prints (sizes : List Int) :
    sentBytes (sizes.map Event.vsnprintf) = [] := by
  induction sizes with
  | nil =>
      rfl
  | cons size rest inductionHypothesis =>
      simpa [Event.sentBytes] using inductionHypothesis

/-- `process_write` queues a response on which `write` can be run, and its
first byte is the only one of its kind in the header. -/
theorem processWrite_queues
    {pages : Nat → List UInt8} {c : Conn} {code : HttpCode}
    {file : List UInt8}
    (answered : Answered code)
    (size : c.writeBuf.length = writeBufferSize) (empty : c.writeIdx = 0)
    (described : code = .fileRequest → file ≠ [] ∧ FileMapped pages c file)
    (unsent : sentBytes c.trace = [])
    (unfinished : .responseSent ∉ c.trace) :
    QueuedResponse pages (c.processWrite code).2
        (c.processWrite code).2.written (mappedPart code file) ∧
      ∃ body, (c.processWrite code).2.written = 72 :: body ∧
        (72 : UInt8) ∉ body := by
  obtain ⟨sizes, traceEq⟩ := (Conn.processWrite_printsOnly c code).trace_eq
  have unsentAfter : sentBytes (c.processWrite code).2.trace = [] := by
    rw [traceEq, sentBytes_append, unsent, sentBytes_prints]
    rfl
  have unfinishedAfter :
      .responseSent ∉ (c.processWrite code).2.trace := by
    rw [traceEq]
    simp [unfinished]
  have shaped :
      ∃ value,
        (c.processWrite code).2.written =
            statusLine code ++ Conn.headersText c.linger value ++
              bodyFor code [] ∧
          (c.processWrite code).2.writeIdx =
            (c.processWrite code).2.written.length ∧
          (c.processWrite code).2.offered pages =
            (c.processWrite code).2.written ++ mappedPart code file := by
    by_cases isFile : code = .fileRequest
    · subst isFile
      obtain ⟨nonempty, fileMapped⟩ := described rfl
      obtain ⟨address, mapped, content⟩ := fileMapped.mapped nonempty
      have positive : c.fileStat.stSize ≠ 0 := by
        have := List.length_pos_iff.mpr nonempty
        rw [fileMapped.stSize_eq]
        omega
      obtain ⟨next, queued, idxEq, writtenEq, addressEq, statEq⟩ :=
        processWrite_fileRequest size empty positive
      rw [queued]
      refine ⟨toInt c.fileStat.stSize, ?_, idxEq, ?_⟩
      · exact writtenEq.trans (List.append_nil _).symm
      · exact
          offered_queueFile (addressEq.trans mapped) content
            (by rw [statEq, fileMapped.stSize_eq]; rfl)
    · obtain ⟨next, queued, idxEq, writtenEq⟩ :=
        processWrite_errorResponse answered isFile size empty
      rw [queued]
      refine ⟨_, writtenEq, idxEq, ?_⟩
      rw [Conn.offered_queueBuffer, mappedPart, if_neg isFile,
        List.append_nil]
      rfl
  obtain ⟨value, writtenEq, idxEq, offeredEq⟩ := shaped
  obtain ⟨body, shape, once⟩ := exists_header_shape answered writtenEq
  refine
    ⟨⟨?_, idxEq, offeredEq, unsentAfter, unfinishedAfter⟩,
      body, shape, once⟩
  rw [shape]
  exact List.cons_ne_nil _ _

/-- For the very bytes that `process_write` queues, delivery is decided by
the counts that `writev` accepts. -/
theorem processWrite_delivers_iff
    {pages : Nat → List UInt8} {c : Conn} {code : HttpCode}
    {file : List UInt8} {outcomes : List WritevOutcome}
    (answered : Answered code)
    (size : c.writeBuf.length = writeBufferSize) (empty : c.writeIdx = 0)
    (described : code = .fileRequest → file ≠ [] ∧ FileMapped pages c file)
    (unsent : sentBytes c.trace = [])
    (unfinished : .responseSent ∉ c.trace)
    (fit :
      OutcomesFit
        ((c.processWrite code).2.written.length +
          (mappedPart code file).length) outcomes) :
    Delivers pages (c.processWrite code).2
        (c.processWrite code).2.written (mappedPart code file) outcomes ↔
      AcceptedAtOnce (c.processWrite code).2.written.length
        (mappedPart code file).length (acceptedCounts outcomes) := by
  obtain ⟨queued, body, shape, once⟩ :=
    processWrite_queues answered size empty described unsent unfinished
  exact delivers_iff_acceptedAtOnce queued shape once fit

def helloConn : Conn :=
  (Conn.processWrite
    { Conn.zeroed with
      fileStat := ⟨0o100644, 5⟩
      fileAddress := .mapping 3 } .fileRequest).2

def helloHeader : List UInt8 :=
  ascii "HTTP/1.1 200 OK\r\nContent-Length: 5\r\nConnection: close\r\n\r\n"

theorem helloConn_queued :
    QueuedResponse (fun _ => ascii "hello") helloConn helloHeader
      (ascii "hello") :=
  ⟨by decide, by decide +kernel, by decide +kernel,
    by decide +kernel, by decide +kernel⟩

theorem writeCalls_deliver_after_eagain :
    Delivers (fun _ => ascii "hello") helloConn helloHeader (ascii "hello")
      [.eagain, .accepted 62] :=
  (writeCalls_deliver_iff 57 5 [.eagain, .accepted 62] (by decide)
    (by
      intro count member
      simp only [List.mem_cons, reduceCtorEq, WritevOutcome.accepted.injEq,
        List.not_mem_nil, or_false, false_or] at member
      omega)).mpr (by decide) _ _ _ _ helloConn_queued (by decide) (by decide)

/-- A `writev` that accepts 40 of the 62 bytes ends the response: 22 bytes of
header and body are never sent. -/
theorem write_stops_short :
    QueuedResponse (fun _ => ascii "hello") helloConn helloHeader
        (ascii "hello") ∧
      ¬ Delivers (fun _ => ascii "hello") helloConn helloHeader
        (ascii "hello") [.accepted 40] := by
  refine ⟨helloConn_queued, fun delivers => ?_⟩
  have finished := (delivers 1).2
  revert finished
  decide +kernel

end LinuxNet.WebServer
