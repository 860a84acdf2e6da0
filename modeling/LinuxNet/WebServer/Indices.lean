import LinuxNet.WebServer.BufferSafety

/-!
# The three indices of a connection

Any calls of the two `init` functions, `read` and `process_read` on a slot of
`users` that was initialised once.  The line start, the end of the checked
bytes and the end of the received bytes stay in this order inside the buffer;
`m_checked_idx` goes back in `init` only; and the loop of `process_read` comes
to an end from every state that such calls reach.
-/

namespace LinuxNet.WebServer

open LinuxNet.CString LinuxNet.CInt LinuxNet.StepSystem

inductive ReaderCall where
  | initWith (sockfd : Int) (address : SockAddr)
  | init
  | read (blocks : List (List UInt8)) (last : RecvEnd)
  | processRead (fs : FileSystem)

def ReaderCall.Resets : ReaderCall → Prop
  | .initWith _ _ | .init => True
  | .read _ _ | .processRead _ => False

namespace Conn

/-- The object after a call; `recv` delivers no more than it is asked for. -/
def call (c : Conn) : ReaderCall → Option Conn
  | .initWith sockfd address => some (c.initWith sockfd address)
  | .init => some c.init
  | .read blocks last =>
      if c.Receivable blocks then some (c.read blocks last).2 else none
  | .processRead fs => some (c.processRead fs).2

/-- `m_start_line`, `m_checked_idx` and `m_read_idx` are in order. -/
def InOrder (c : Conn) : Prop :=
  c.startLine ≤ c.checkedIdx ∧ c.checkedIdx ≤ c.readIdx ∧
    c.readIdx ≤ readBufferSize

theorem Framed.inOrder {c : Conn} (framed : c.Framed) : c.InOrder :=
  ⟨framed.startLine_le, framed.checkedIdx_le, framed.readIdx_le⟩

theorem checkedIdx_le_passed (c : Conn) (framed : c.Framed) :
    c.checkedIdx ≤ (c.passed (scanLine c.unread)).checkedIdx := by
  by_cases found : (scanLine c.unread).1 = .lineOk
  · have advanced := (passed_nul framed found).1
    omega
  · have stopped := passed_of_ne c found (scanLine c.unread).2
    rw [stopped]
    exact Nat.le_add_right _ _

theorem checkedIdx_doRequest (fs : FileSystem) (c : Conn) :
    (c.doRequest fs).2.checkedIdx = c.checkedIdx := by
  have requested := requested_doRequest fs c
  generalize c.doRequest fs = result at requested ⊢
  rcases result with ⟨code, d⟩
  cases requested <;> rfl

/-- No turn takes back bytes that were checked. -/
theorem checkedIdx_le_turn
    {c : Conn} (framed : c.Framed) (fs : FileSystem)
    (lineStatus : LineStatus) :
    c.checkedIdx ≤ (c.turn fs lineStatus).conn.checkedIdx := by
  have passed := checkedIdx_le_passed c framed
  have shape := turnShape framed fs lineStatus
  generalize c.turn fs lineStatus = outcome at shape
  cases shape with
  | stopped noneAtHand noLine =>
      exact passed
  | @requestLine line state found string ends =>
      have edit :=
        requestLineOn_edit (c.passed (scanLine c.unread)).entered
          c.startLine line
      have same := edit.indices.1
      split
      · exact passed.trans_eq same.symm
      · exact passed.trans_eq same.symm
  | @header line state found string ends =>
      have edit :=
        headersOn_edit (c.passed (scanLine c.unread)).entered
          c.startLine line
      have same := edit.indices.1
      split
      · show c.checkedIdx ≤ (doRequest fs _).2.checkedIdx
        rw [checkedIdx_doRequest]
        exact passed.trans_eq same.symm
      · exact passed.trans_eq same.symm
  | content d state fetched =>
      have checked : c.checkedIdx ≤ d.checkedIdx := by
        rcases fetched with ⟨_, rfl⟩ | ⟨_, _, rfl⟩
        · exact Nat.le_refl _
        · exact passed
      split
      · show c.checkedIdx ≤ (doRequest fs _).2.checkedIdx
        rw [checkedIdx_doRequest]
        obtain ⟨_, _, _, shape, _⟩ := bodyCut_frame d
        rw [shape]
        exact checked
      · exact checked

theorem checkedIdx_le_returns
    {fs : FileSystem} {lineStatus : LineStatus} {c last : Conn}
    {code : HttpCode} (framed : c.Framed)
    (returns : Returns fs lineStatus c code last) :
    c.checkedIdx ≤ last.checkedIdx := by
  induction returns with
  | @done lineStatus c code last turned =>
      have checked := checkedIdx_le_turn framed fs lineStatus
      rw [turned] at checked
      exact checked
  | @again lineStatus c nextStatus next code last turned _
      inductionHypothesis =>
      have checked := checkedIdx_le_turn framed fs lineStatus
      rw [turned] at checked
      have nextFramed := (turn_again framed turned).1
      exact checked.trans (inductionHypothesis nextFramed)

theorem framed_call
    {c d : Conn} {label : ReaderCall} (framed : c.Framed)
    (called : c.call label = some d) : d.Framed := by
  cases label with
  | initWith sockfd address =>
      cases called
      exact init_framed _
  | init =>
      cases called
      exact init_framed c
  | read blocks last =>
      simp only [call] at called
      split at called
      · next receivable =>
          cases called
          exact framed.read receivable last
      · cases called
  | processRead fs =>
      cases called
      exact framed.returns (returns_processRead framed fs)

theorem checkedIdx_le_call
    {c d : Conn} {label : ReaderCall} (framed : c.Framed)
    (goesOn : ¬ label.Resets) (called : c.call label = some d) :
    c.checkedIdx ≤ d.checkedIdx := by
  cases label with
  | initWith sockfd address => exact absurd trivial goesOn
  | init => exact absurd trivial goesOn
  | read blocks last =>
      simp only [call] at called
      split at called
      · next receivable =>
          cases called
          rcases read_snd framed receivable last with same | received
          · rw [same]
          · rw [received]
            exact Nat.le_refl _
      · cases called
  | processRead fs =>
      cases called
      exact checkedIdx_le_returns framed (returns_processRead framed fs)

theorem checkedIdx_le_run
    {c d : Conn} {calls : List ReaderCall} (framed : c.Framed)
    (goOn : ∀ label ∈ calls, ¬ label.Resets)
    (ran : run call c calls = some d) : c.checkedIdx ≤ d.checkedIdx := by
  induction calls generalizing c with
  | nil =>
      cases ran
      exact Nat.le_refl _
  | cons label calls inductionHypothesis =>
      obtain ⟨next, called, rest⟩ :=
        (run_cons_eq_some_iff c d label calls).mp ran
      have first :=
        checkedIdx_le_call framed (goOn label (by simp)) called
      have later :=
        inductionHypothesis (framed_call framed called)
          (fun other member => goOn other (by simp [member])) rest
      exact first.trans later

/-- After any calls on an initialised slot the indices are in order, further
calls without an `init` never move `m_checked_idx` back, and the loop of
`process_read` comes to an end, whatever `line_status` it goes on with. -/
theorem indices_in_order
    (slot : Conn) (sockfd : Int) (address : SockAddr)
    {calls : List ReaderCall} {c : Conn}
    (ran : run call (slot.initWith sockfd address) calls = some c) :
    c.InOrder ∧
      (∀ later d, (∀ label ∈ later, ¬ label.Resets) →
        run call c later = some d → c.checkedIdx ≤ d.checkedIdx) ∧
      ∀ fs lineStatus, ∃ code last, Returns fs lineStatus c code last := by
  have framed : c.Framed :=
    run_keeps Conn.Framed (fun _ _ _ framed => framed_call framed)
      (init_framed _) ran
  refine ⟨framed.inOrder, fun later d goOn => checkedIdx_le_run framed goOn,
    fun fs lineStatus => ?_⟩
  exact
    ⟨_, _,
      returns_processReadLoop fs (turnsLeft lineStatus c + 1) lineStatus
        framed (Nat.lt_succ_self _)⟩

def incompleteBody : List ReaderCall :=
  [.read
      [ascii "GET / HTTP/1.1" ++ crlf ++ ascii "Content-Length: 9" ++ crlf ++
        crlf ++ ascii "ab" ++ crlf ++ ascii "c"] .eagain,
    .processRead noFiles]

/-- In the body, behind a line of it. -/
theorem indices_in_order_body :
    ∃ c, run call (zeroed.initWith 5 ⟨0, 0⟩) incompleteBody = some c ∧
      c.checkState = .content ∧
      c.InOrder ∧
      (∀ later d, (∀ label ∈ later, ¬ label.Resets) →
        run call c later = some d → c.checkedIdx ≤ d.checkedIdx) ∧
      ∀ fs lineStatus, ∃ code last, Returns fs lineStatus c code last := by
  have ran :
      (run call (zeroed.initWith 5 ⟨0, 0⟩) incompleteBody).map
        checkState = some .content := by
    decide +kernel
  obtain ⟨c, ran, state⟩ := Option.map_eq_some_iff.mp ran
  exact ⟨c, ran, state, indices_in_order zeroed 5 ⟨0, 0⟩ ran⟩

end Conn

end LinuxNet.WebServer
