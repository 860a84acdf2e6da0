import LinuxNet.Lib.StepSystem
import LinuxNet.WebServer.Handlers

/-!
# The parser and the bounds of `m_read_buf`

A `Reader` runs `init`, `read` and `process_read` in any order, the loop of
`process_read` taking its condition and its body as steps of their own.  The
request line and the headers never leave the array: a line ends in a NUL that
the scanner has stored.  The body has no such NUL, and its length is what the
client says.  `inBounds_iff` names the turns on bodies that stay inside: the
runs that are in bounds are exactly the runs of such turns.
-/

namespace LinuxNet.WebServer

open LinuxNet.CString LinuxNet.CInt LinuxNet.StepSystem

/-- The store hits the array, the string ends inside the array, and the sum
is an `int`. -/
def Event.InBounds : Event → Prop
  | .store index => 0 ≤ index ∧ index < readBufferSize
  | .scan _ terminated => terminated = true
  | .sum value => Fits value
  | _ => True

instance (event : Event) : Decidable event.InBounds := by
  cases event <;> unfold Event.InBounds <;> infer_instance

/-- Where a connection is in `process_read`. -/
inductive ReaderPc where
  | outside
  /-- At the loop condition. -/
  | condition (lineStatus : LineStatus)
  /-- At the loop body. -/
  | body
  deriving DecidableEq, Repr

structure Reader where
  conn : Conn
  pc : ReaderPc

inductive ReaderStep where
  | initWith (sockfd : Int) (address : SockAddr)
  | init
  | read (blocks : List (List UInt8)) (last : RecvEnd)
  | processRead
  | condition
  | body (fs : FileSystem)

namespace Conn

/-- What holds of a connection between the steps: the frame, NULs behind the
bytes read, and an `int` for the length of the body. -/
structure Kept (c : Conn) : Prop where
  framed : c.Framed
  blank : ∀ index, c.readIdx ≤ index → c.readBuf.getD index 0 = 0
  fits : Fits c.contentLength

/-- A line that ends in front of `m_checked_idx` stands at `m_start_line`. -/
def HasLine (c : Conn) : Prop :=
  ∃ line, StringAt c.readBuf c.startLine line ∧
    c.startLine + line.length + 2 ≤ c.checkedIdx

section Kept

variable {c d : Conn}

theorem Kept.store (kept : c.Kept) (index : Int) : (c.store index 0).Kept := by
  have framed := kept.framed.store index
  obtain ⟨sockfd, address, memory, shape, rfl | ⟨position, _, rfl⟩⟩ :=
    store_frame c index 0
  · rw [shape] at framed ⊢
    exact { kept with framed := framed }
  · rw [shape] at framed ⊢
    exact
      { framed := framed
        blank := fun other behind => getD_set_nul (kept.blank other behind)
        fits := kept.fits }

theorem Kept.passed (kept : c.Kept) : (c.passed (scanLine c.unread)).Kept where
  framed := kept.framed.passed
  blank := by
    intro index behind
    rw [passed_readIdx] at behind
    have blank := kept.blank index behind
    unfold Conn.passed
    split
    · simp only [store_natCast]
      exact getD_set_nul (getD_set_nul blank)
    · exact blank
  fits := by
    unfold Conn.passed
    split <;> exact kept.fits

theorem Kept.entered (kept : c.Kept) : c.entered.Kept :=
  { kept with framed := kept.framed.entered }

theorem Kept.bodyChecked (kept : c.Kept) : c.bodyChecked.Kept :=
  { kept with framed := kept.framed.bodyChecked }

theorem Kept.edit
    {first stop : Nat} (kept : c.Kept) (edit : Edit first stop c d) :
    d.Kept :=
  edit.keeps Kept
    (fun _ _ _ kept => { kept with framed := { kept.framed with } })
    (fun _ index _ kept => kept.store index)
    (fun _ _ _ _ _ _ _ _ _ _ fits kept =>
      { framed := { kept.framed with }
        blank := kept.blank
        fits := fits.elim (fun same => same ▸ kept.fits) id })
    kept

theorem Kept.doRequest (kept : c.Kept) (fs : FileSystem) :
    (c.doRequest fs).2.Kept where
  framed := kept.framed.doRequest fs
  blank := by
    have requested := requested_doRequest fs c
    generalize c.doRequest fs = result at requested ⊢
    rcases result with ⟨code, d⟩
    cases requested <;> exact kept.blank
  fits := by
    have requested := requested_doRequest fs c
    generalize c.doRequest fs = result at requested ⊢
    rcases result with ⟨code, d⟩
    cases requested <;> exact kept.fits

theorem Kept.init (c : Conn) : c.init.Kept where
  framed := init_framed c
  blank := by
    intro index _
    show (List.replicate readBufferSize (0 : UInt8)).getD index 0 = 0
    rw [List.getD_eq_getElem?_getD, List.getElem?_replicate]
    split <;> rfl
  fits := by
    show Fits 0
    decide

theorem Kept.read
    {blocks : List (List UInt8)} (kept : c.Kept)
    (receivable : c.Receivable blocks) (last : RecvEnd) :
    (c.read blocks last).2.Kept := by
  refine ⟨kept.framed.read receivable last, ?_, ?_⟩
  · rcases read_snd kept.framed receivable last with same | received
    · rw [same]
      exact kept.blank
    · rw [received]
      intro index behind
      have length := kept.framed.length_eq
      have bound := kept.framed.readIdx_le
      have before : c.readIdx + blocks.flatten.length ≤ index := behind
      have blank := kept.blank index (by omega)
      simp only [receive]
      have received :
          (c.readBuf.take c.readIdx ++ blocks.flatten).length =
            c.readIdx + blocks.flatten.length := by
        rw [List.length_append, List.length_take]
        omega
      rw [List.getD_eq_getElem?_getD] at blank ⊢
      rw [List.getElem?_append_right (by omega), List.getElem?_drop,
        received, Nat.add_sub_cancel' before]
      exact blank
  · rcases read_snd kept.framed receivable last with same | received
    · rw [same]
      exact kept.fits
    · rw [received]
      exact kept.fits

theorem inBounds_passed (framed : c.Framed) :
    Since Event.InBounds c (c.passed (scanLine c.unread)) := by
  have total := length_unread framed
  have inside := framed.readIdx_le
  have result := scanResult c.unread
  generalize c.unread = bytes at result total
  generalize scanLine bytes = scanned at result
  cases result with
  | @found line rest clean =>
      simp only [List.length_append, List.length_cons] at total
      rw [passed_lineOk]
      refine ⟨_, rfl, fun event member => ?_⟩
      simp only [List.mem_cons, List.not_mem_nil, or_false] at member
      rcases member with rfl | rfl
      · exact ⟨by omega, by omega⟩
      · exact ⟨by omega, by omega⟩
  | atEnd clean | atReturn clean | bareReturn _ clean _
  | bareFeed _ clean =>
      exact .of_trace_eq rfl

theorem inBounds_entered (c : Conn) : Since Event.InBounds c c.entered := by
  have terminated : (Event.scan c.startLine true).InBounds := rfl
  exact .single terminated rfl

theorem inBounds_edit
    {first stop : Nat} (inside : stop ≤ readBufferSize)
    (edit : Edit first stop c d) : Since Event.InBounds c d :=
  edit.keeps (Since Event.InBounds c)
    (fun e start _ before => by
      have terminated : (Event.scan start true).InBounds := rfl
      exact before.trans (.single terminated rfl))
    (fun e index within before => by
      have hit : (Event.store index).InBounds := ⟨by omega, by omega⟩
      exact before.trans (.single hit rfl))
    (fun _ _ _ _ _ _ _ _ _ _ _ before => before)
    (.of_trace_eq rfl)

theorem inBounds_doRequest (fs : FileSystem) (c : Conn) :
    Since Event.InBounds c (c.doRequest fs).2 := by
  have requested := requested_doRequest fs c
  generalize c.doRequest fs = result at requested ⊢
  rcases result with ⟨code, d⟩
  cases requested with
  | missing | refused | unmapped => exact .of_trace_eq rfl
  | @mapped fileStat address serves succeeded =>
      have calm : (Event.mmap address fileStat.stSize).InBounds := trivial
      exact .single calm rfl

end Kept

/-- The body fits: its last byte does not lie in front of the buffer, the sum
of `parse_content` is an `int`, and in a full buffer there is a NUL behind
`m_start_line` and the byte that `parse_content` overwrites is not the one
behind the buffer. -/
def BodyFits (c : Conn) : Prop :=
  -(c.startLine : Int) ≤ c.contentLength ∧
    c.contentLength + c.checkedIdx ≤ intMax ∧
    (c.readIdx = readBufferSize →
      Terminated c.readBuf c.startLine ∧
        ¬ (c.startLine = c.checkedIdx ∧
          c.startLine + c.contentLength = readBufferSize))

def Turn.conn : Turn → Conn
  | .again _ c => c
  | .done _ c => c

variable {c : Conn}

/-- The part of the array that was not received yet ends every string. -/
theorem Kept.terminated
    (kept : c.Kept) (room : c.readIdx ≠ readBufferSize) :
    Terminated c.readBuf c.startLine := by
  have length := kept.framed.length_eq
  have bound := kept.framed.readIdx_le
  have ordered := kept.framed.startLine_le
  have inside := kept.framed.checkedIdx_le
  exact
    (StringAt.of_getD_eq_zero c.readBuf c.startLine c.readIdx (by omega)
      (by omega) (kept.blank c.readIdx (Nat.le_refl _))).1.terminated

/-- The scan and the sum of a turn on a body. -/
def bodyEvents (c : Conn) : List Event :=
  [.scan c.startLine (decide (Terminated c.readBuf c.startLine)),
    .sum (c.contentLength + c.checkedIdx)]

theorem bodyChecked_trace (c : Conn) :
    c.bodyChecked.trace = c.trace ++ c.bodyEvents := by
  show (c.trace ++ [_]) ++ [_] = _
  rw [List.append_assoc]
  rfl

/-- The store of a body that is complete stays inside exactly when the body
fits, provided that the scan and the sum do. -/
theorem bodyStore_iff
    (kept : c.Kept)
    (complete : c.contentLength + c.checkedIdx ≤ c.readIdx) :
    (0 ≤ c.startLine + c.contentLength ∧
        c.startLine + c.contentLength < readBufferSize) ↔
      -(c.startLine : Int) ≤ c.contentLength ∧
        (c.readIdx = readBufferSize →
          ¬ (c.startLine = c.checkedIdx ∧
            c.startLine + c.contentLength = readBufferSize)) := by
  have bound := kept.framed.readIdx_le
  have ordered := kept.framed.startLine_le
  constructor
  · rintro ⟨lower, upper⟩
    exact ⟨by omega, fun _ same => by omega⟩
  · rintro ⟨lower, notBehind⟩
    refine ⟨by omega, ?_⟩
    by_contra beyond
    exact notBehind (by omega) ⟨by omega, by omega⟩

/-- A turn on a body is in bounds exactly when the body fits. -/
theorem dispatchLine_content_inBounds_iff
    (kept : c.Kept) (fs : FileSystem) (state : c.checkState = .content) :
    (c.dispatchLine fs).conn.Kept ∧
      ∃ events, (c.dispatchLine fs).conn.trace = c.trace ++ events ∧
        ((∀ event ∈ events, event.InBounds) ↔ c.BodyFits) := by
  have bound := kept.framed.readIdx_le
  have ordered := kept.framed.startLine_le
  have inside := kept.framed.checkedIdx_le
  have fits := kept.fits
  simp only [Fits, intMin, intMax] at fits
  rw [dispatchLine_content fs state]
  have sumFits :
      Fits (c.contentLength + c.checkedIdx) ↔
        c.contentLength + c.checkedIdx ≤ intMax := by
    simp only [Fits, intMin, intMax]
    omega
  have checked :
      (∀ event ∈ c.bodyEvents, event.InBounds) ↔
        Terminated c.readBuf c.startLine ∧
          c.contentLength + c.checkedIdx ≤ intMax := by
    simp [bodyEvents, Event.InBounds, sumFits]
  by_cases complete : toInt (c.contentLength + c.checkedIdx) ≤ c.readIdx
  · rw [if_pos complete]
    obtain ⟨events, requested, requestedInBounds⟩ :=
      inBounds_doRequest fs c.bodyCut
    refine
      ⟨(kept.bodyChecked.store _).doRequest fs,
        c.bodyEvents ++ [.store (c.startLine + c.contentLength)] ++ events,
        ?_, ?_⟩
    · show (c.bodyCut.doRequest fs).2.trace = _
      rw [requested]
      unfold bodyCut
      rw [store_trace, bodyChecked_trace]
      simp only [List.append_assoc]
    · simp only [List.forall_mem_append, checked, List.forall_mem_singleton,
        and_iff_left requestedInBounds]
      constructor
      · rintro ⟨⟨terminated, sum⟩, hit⟩
        rw [toInt_of_fits (sumFits.mpr sum)] at complete
        obtain ⟨lower, notBehind⟩ :=
          (bodyStore_iff kept complete).mp hit
        exact ⟨lower, sum, fun full => ⟨terminated, notBehind full⟩⟩
      · rintro ⟨lower, sum, inFull⟩
        rw [toInt_of_fits (sumFits.mpr sum)] at complete
        refine
          ⟨⟨?_, sum⟩,
            (bodyStore_iff kept complete).mpr
              ⟨lower, fun full => (inFull full).2⟩⟩
        by_cases full : c.readIdx = readBufferSize
        · exact (inFull full).1
        · exact kept.terminated full
  · rw [if_neg complete]
    refine ⟨kept.bodyChecked, c.bodyEvents, bodyChecked_trace c, ?_⟩
    rw [checked]
    have positive : 0 ≤ c.contentLength := by
      by_contra negative
      have size : readBufferSize = 2048 := rfl
      have sum : c.contentLength + c.checkedIdx ≤ intMax := by
        simp only [intMax]
        omega
      rw [toInt_of_fits (sumFits.mpr sum)] at complete
      omega
    constructor
    · rintro ⟨terminated, sum⟩
      rw [toInt_of_fits (sumFits.mpr sum)] at complete
      exact
        ⟨by omega, sum, fun full => ⟨terminated, fun behind => by omega⟩⟩
    · rintro ⟨_, sum, inFull⟩
      refine ⟨?_, sum⟩
      by_cases full : c.readIdx = readBufferSize
      · exact (inFull full).1
      · exact kept.terminated full

/-- A turn on a line of the head is in bounds. -/
theorem dispatchLine_head_inBounds
    (kept : c.Kept) (fs : FileSystem) (state : c.checkState ≠ .content)
    (hasLine : c.HasLine) :
    (c.dispatchLine fs).conn.Kept ∧
      Since Event.InBounds c (c.dispatchLine fs).conn := by
  obtain ⟨line, string, ends⟩ := hasLine
  have bound := kept.framed.readIdx_le
  have inside := kept.framed.checkedIdx_le
  have stop : c.startLine + line.length ≤ readBufferSize := by omega
  have entered := inBounds_entered c
  cases shape : c.checkState with
  | content => exact absurd shape state
  | requestLine =>
      have edit := requestLineOn_edit c.entered c.startLine line
      rw [dispatchLine_requestLine fs shape string]
      split
      · exact ⟨kept.entered.edit edit, entered.trans (inBounds_edit stop edit)⟩
      · exact ⟨kept.entered.edit edit, entered.trans (inBounds_edit stop edit)⟩
  | header =>
      have edit := headersOn_edit c.entered c.startLine line
      have parsed := entered.trans (inBounds_edit stop edit)
      rw [dispatchLine_header fs shape string]
      split
      · exact
          ⟨(kept.entered.edit edit).doRequest fs,
            parsed.trans (inBounds_doRequest fs _)⟩
      · exact ⟨kept.entered.edit edit, parsed⟩

end Conn

namespace Reader

/-- A connection that was just accepted in a slot of `users`. -/
def start (slot : Conn) (sockfd : Int) (address : SockAddr) : Reader where
  conn := { slot with trace := [] }.initWith sockfd address
  pc := .outside

/-- One call of `init` or `read`, or one part of `process_read`. -/
def step (s : Reader) : ReaderStep → Option Reader
  | .initWith sockfd address =>
      if s.pc = .outside then
        some { s with conn := s.conn.initWith sockfd address }
      else
        none
  | .init =>
      if s.pc = .outside then some { s with conn := s.conn.init } else none
  | .read blocks last =>
      if s.pc = .outside ∧ s.conn.Receivable blocks then
        some { s with conn := (s.conn.read blocks last).2 }
      else
        none
  | .processRead =>
      if s.pc = .outside then
        some { s with pc := .condition .lineOk }
      else
        none
  | .condition =>
      match s.pc with
      | .condition lineStatus =>
          match s.conn.fetchLine lineStatus with
          | (.lineOk, c) => some ⟨c, .body⟩
          | (_, c) => some ⟨c, .outside⟩
      | _ => none
  | .body fs =>
      match s.pc with
      | .body =>
          match s.conn.dispatchLine fs with
          | .again lineStatus c => some ⟨c, .condition lineStatus⟩
          | .done _ c => some ⟨c, .outside⟩
      | _ => none

theorem run_returns
    {fs : FileSystem} {lineStatus : LineStatus} {c last : Conn}
    {code : HttpCode} (returns : Conn.Returns fs lineStatus c code last) :
    ∃ labels, run step ⟨c, .condition lineStatus⟩ labels =
      some ⟨last, .outside⟩ := by
  induction returns with
  | @done lineStatus c last code turned =>
      unfold Conn.turn at turned
      rcases fetched : c.fetchLine lineStatus with ⟨_ | _ | _, d⟩
      · simp only [fetched] at turned
        exact ⟨[.condition, .body fs], by simp [run, step, fetched, turned]⟩
      · simp only [fetched] at turned
        cases turned
        exact ⟨[.condition], by simp [run, step, fetched]⟩
      · simp only [fetched] at turned
        cases turned
        exact ⟨[.condition], by simp [run, step, fetched]⟩
  | @again lineStatus nextStatus c next last code turned _
      inductionHypothesis =>
      obtain ⟨labels, ran⟩ := inductionHypothesis
      unfold Conn.turn at turned
      rcases fetched : c.fetchLine lineStatus with ⟨_ | _ | _, d⟩
      · simp only [fetched] at turned
        refine ⟨.condition :: .body fs :: labels, ?_⟩
        simp [run, step, fetched, turned, ran]
      · simp only [fetched] at turned
        cases turned
      · simp only [fetched] at turned
        cases turned

/-- A call of `process_read` is a run. -/
theorem run_processRead
    {c : Conn} (framed : c.Framed) (fs : FileSystem) :
    ∃ labels, run step ⟨c, .outside⟩ (.processRead :: labels) =
      some ⟨(c.processRead fs).2, .outside⟩ := by
  obtain ⟨labels, ran⟩ := run_returns (Conn.returns_processRead framed fs)
  exact ⟨labels, by simp [run, step, ran]⟩

/-! ## Runs -/

structure Kept (s : Reader) : Prop where
  conn : s.conn.Kept
  line : s.pc = .body → s.conn.checkState = .content ∨ s.conn.HasLine

def InBounds (s : Reader) : Prop :=
  ∀ event ∈ s.conn.trace, event.InBounds

def BodiesFit (s : Reader) : ReaderStep → Prop
  | .body _ => s.conn.checkState = .content → s.conn.BodyFits
  | _ => True

theorem start_kept (slot : Conn) (sockfd : Int) (address : SockAddr) :
    (start slot sockfd address).Kept where
  conn := .init _
  line := fun impossible => nomatch impossible

theorem start_inBounds (slot : Conn) (sockfd : Int) (address : SockAddr) :
    (start slot sockfd address).InBounds := by
  show ∀ event ∈ [Event.epollAdd sockfd, .userCount 1], event.InBounds
  simp [Event.InBounds]

theorem inBounds_iff_of_trace_eq
    {s next : Reader} {events : List Event}
    (traceEq : next.conn.trace = s.conn.trace ++ events) :
    next.InBounds ↔ s.InBounds ∧ ∀ event ∈ events, event.InBounds := by
  unfold InBounds
  rw [traceEq, List.forall_mem_append]

theorem inBounds_iff_of_since
    {s next : Reader} (since : Conn.Since Event.InBounds s.conn next.conn) :
    next.InBounds ↔ s.InBounds := by
  obtain ⟨events, traceEq, inBounds⟩ := since
  rw [inBounds_iff_of_trace_eq traceEq, and_iff_left inBounds]

/-- The loop condition finds a line or leaves. -/
theorem fetchLine_inBounds
    {c : Conn} (kept : c.Kept) (lineStatus : LineStatus) :
    (c.fetchLine lineStatus).2.Kept ∧
      Conn.Since Event.InBounds c (c.fetchLine lineStatus).2 ∧
      ((c.fetchLine lineStatus).1 = .lineOk →
        (c.fetchLine lineStatus).2.checkState = .content ∨
          (c.fetchLine lineStatus).2.HasLine) := by
  unfold Conn.fetchLine
  split
  · next atHand =>
      exact ⟨kept, .of_trace_eq rfl, fun _ => .inl atHand.1⟩
  · rw [Conn.parseLine_eq kept.framed]
    refine
      ⟨kept.passed, Conn.inBounds_passed kept.framed, fun found => .inr ?_⟩
    obtain ⟨line, string, ends⟩ := Conn.passed_string kept.framed found
    exact
      ⟨line, by rw [Conn.passed_startLine]; exact string,
        by rw [Conn.passed_startLine]; exact ends⟩

/-- A step stays in bounds exactly when it finds no body that does not
fit. -/
theorem step_inBounds_iff
    (s : Reader) (label : ReaderStep) (next : Reader) (kept : s.Kept)
    (stepped : s.step label = some next) :
    next.Kept ∧ (next.InBounds ↔ s.InBounds ∧ s.BodiesFit label) := by
  have calm :
      ∀ c pc, c.Kept → Conn.Since Event.InBounds s.conn c →
        (pc = .body → c.checkState = .content ∨ c.HasLine) →
        (⟨c, pc⟩ : Reader).Kept ∧
          ((⟨c, pc⟩ : Reader).InBounds ↔ s.InBounds ∧ True) := by
    intro c pc connKept since line
    rw [and_true]
    exact ⟨⟨connKept, line⟩, inBounds_iff_of_since since⟩
  cases label with
  | initWith sockfd address =>
      simp only [step] at stepped
      split at stepped
      · next outside =>
          cases stepped
          refine calm _ _ (.init _) ?_ (fun atBody => ?_)
          · refine ⟨[.epollAdd sockfd, .userCount 1], ?_, ?_⟩
            · exact List.append_assoc _ _ _
            · simp [Event.InBounds]
          · rw [outside] at atBody
            cases atBody
      · cases stepped
  | init =>
      simp only [step] at stepped
      split at stepped
      · next outside =>
          cases stepped
          refine calm _ _ (.init _) (.of_trace_eq rfl) (fun atBody => ?_)
          rw [outside] at atBody
          cases atBody
      · cases stepped
  | read blocks last =>
      simp only [step] at stepped
      split at stepped
      · next allowed =>
          obtain ⟨outside, receivable⟩ := allowed
          cases stepped
          refine calm _ _ (kept.conn.read receivable last) ?_
            (fun atBody => ?_)
          · rcases Conn.read_snd kept.conn.framed receivable last with
              same | received
            · rw [same]
              exact .of_trace_eq rfl
            · rw [received]
              exact .of_trace_eq rfl
          · rw [outside] at atBody
            cases atBody
      · cases stepped
  | processRead =>
      simp only [step] at stepped
      split at stepped
      · cases stepped
        exact calm _ _ kept.conn (.of_trace_eq rfl)
          (fun impossible => nomatch impossible)
      · cases stepped
  | condition =>
      simp only [step] at stepped
      split at stepped
      · next lineStatus atCondition =>
          obtain ⟨fetchedKept, since, line⟩ :=
            fetchLine_inBounds kept.conn lineStatus
          split at stepped
          · next c fetched =>
              cases stepped
              rw [fetched] at fetchedKept since line
              exact calm _ _ fetchedKept since (fun _ => line rfl)
          · next c _ fetched =>
              cases stepped
              rw [fetched] at fetchedKept since
              exact calm _ _ fetchedKept since
                (fun impossible => nomatch impossible)
      · cases stepped
  | body fs =>
      simp only [step] at stepped
      split at stepped
      · next atBody =>
          have shape :
              next.conn = (s.conn.dispatchLine fs).conn ∧
                next.pc ≠ .body := by
            split at stepped
            · next turned =>
                cases stepped
                rw [turned]
                exact ⟨rfl, fun impossible => nomatch impossible⟩
            · next turned =>
                cases stepped
                rw [turned]
                exact ⟨rfl, fun impossible => nomatch impossible⟩
          obtain ⟨sameConn, notBody⟩ := shape
          by_cases state : s.conn.checkState = .content
          · obtain ⟨turnKept, events, trace, inBounds⟩ :=
              Conn.dispatchLine_content_inBounds_iff kept.conn fs state
            rw [← sameConn] at turnKept trace
            refine ⟨⟨turnKept, fun atBody => absurd atBody notBody⟩, ?_⟩
            rw [inBounds_iff_of_trace_eq trace, inBounds]
            exact and_congr_right fun _ =>
              ⟨fun fits _ => fits, fun fits => fits state⟩
          · obtain ⟨turnKept, since⟩ :=
              Conn.dispatchLine_head_inBounds kept.conn fs state
                ((kept.line atBody).resolve_left state)
            rw [← sameConn] at turnKept since
            refine ⟨⟨turnKept, fun atBody => absurd atBody notBody⟩, ?_⟩
            rw [inBounds_iff_of_since since]
            exact (and_iff_left fun content => absurd content state).symm
      · cases stepped

/-- A run of `init`, `read` and `process_read` on a connection writes inside
`m_read_buf`, scans no string beyond it and adds no two `int`s that overflow
exactly when every turn on a body finds a body that fits. -/
theorem inBounds_iff
    (slot : Conn) (sockfd : Int) (address : SockAddr)
    {labels : List ReaderStep} {s : Reader}
    (ran : run step (start slot sockfd address) labels = some s) :
    s.InBounds ↔
      StepsMeet step BodiesFit (start slot sockfd address) labels := by
  rw [run_good_iff BodiesFit Kept InBounds step_inBounds_iff
    (start_kept slot sockfd address) ran]
  exact and_iff_right (start_inBounds slot sockfd address)

instance (s : Reader) : Decidable s.InBounds :=
  inferInstanceAs (Decidable (∀ event ∈ s.conn.trace, event.InBounds))

/-- A request for `/` whose header announces a body of the given length, and
the first byte of the body: the request line, the header, the empty line and
the body are one turn each. -/
def announcing (length : String) : List ReaderStep :=
  [.read
      [ascii "GET / HTTP/1.1" ++ crlf ++
        ascii "Content-Length: " ++ ascii length ++ crlf ++ crlf ++
        ascii "h"] .eagain,
    .processRead, .condition, .body Conn.noFiles, .condition,
    .body Conn.noFiles, .condition, .body Conn.noFiles, .condition,
    .body Conn.noFiles]

/-- A body of one byte fits. -/
theorem inBounds_one_byte :
    ∃ s, run step (start Conn.zeroed 5 ⟨0, 0⟩) (announcing "1") = some s ∧
      s.conn.checkState = .content ∧
      StepsMeet step BodiesFit (start Conn.zeroed 5 ⟨0, 0⟩)
        (announcing "1") := by
  have ran :
      (run step (start Conn.zeroed 5 ⟨0, 0⟩) (announcing "1")).map
        (fun s => (s.conn.checkState, decide s.InBounds)) =
      some (.content, true) := by
    decide +kernel
  obtain ⟨s, ran, facts⟩ := Option.map_eq_some_iff.mp ran
  obtain ⟨state, inBounds⟩ := Prod.mk.inj facts
  exact
    ⟨s, ran, state,
      (inBounds_iff Conn.zeroed 5 ⟨0, 0⟩ ran).mp
        (of_decide_eq_true inBounds)⟩

/-- A negative length makes `parse_content` store in front of the buffer, and
a length close to `INT_MAX` makes its sum overflow. -/
theorem body_out_of_bounds :
    (∃ s, run step (start Conn.zeroed 5 ⟨0, 0⟩) (announcing "-2000") =
        some s ∧
      Event.store (-1959) ∈ s.conn.trace ∧ ¬ s.InBounds) ∧
    ∃ s, run step (start Conn.zeroed 5 ⟨0, 0⟩) (announcing "2147483647") =
        some s ∧
      Event.sum 2147483693 ∈ s.conn.trace ∧ ¬ s.InBounds := by
  have negative :
      (run step (start Conn.zeroed 5 ⟨0, 0⟩) (announcing "-2000")).map
        (fun s => decide (Event.store (-1959) ∈ s.conn.trace)) =
      some true := by
    decide +kernel
  have huge :
      (run step (start Conn.zeroed 5 ⟨0, 0⟩)
          (announcing "2147483647")).map
        (fun s => decide (Event.sum 2147483693 ∈ s.conn.trace)) =
      some true := by
    decide +kernel
  constructor
  · obtain ⟨s, ran, stored⟩ := Option.map_eq_some_iff.mp negative
    have member := of_decide_eq_true stored
    exact
      ⟨s, ran, member,
        fun inBounds => absurd (inBounds _ member).1 (by decide)⟩
  · obtain ⟨s, ran, added⟩ := Option.map_eq_some_iff.mp huge
    have member := of_decide_eq_true added
    exact
      ⟨s, ran, member,
        fun inBounds => absurd (inBounds _ member).2 (by decide)⟩

end Reader

end LinuxNet.WebServer
