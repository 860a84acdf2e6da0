import LinuxNet.WebServer.Segmentation

/-!
# Malformed line ends

A carriage return without its line feed, or a line feed alone, makes
`parse_line` return `LINE_BAD`.  The loop of `process_read` only goes on with
`LINE_OK`, and behind it stands `return NO_REQUEST`: the request is not
refused, and each later call stops at the same byte again.
-/

namespace LinuxNet.WebServer

open LinuxNet.CString LinuxNet.CInt

/-- A carriage return before a byte other than a line feed, or a line feed
that is not behind a carriage return. -/
inductive BadEnd : List UInt8 → Prop
  | bareReturn {next : UInt8} (rest : List UInt8) (bare : next ≠ 10) :
      BadEnd (13 :: next :: rest)
  | bareFeed (rest : List UInt8) : BadEnd (10 :: rest)

/-- Header lines, and a malformed line end before the empty line. -/
inductive BadHeaderEnd : List UInt8 → Prop
  | here {line rest : List UInt8} (clean : Clean line)
      (bad : BadEnd rest) : BadHeaderEnd (line ++ rest)
  | later {line bytes : List UInt8} (clean : Clean line)
      (nonempty : cText line ≠ []) (bad : BadHeaderEnd bytes) :
      BadHeaderEnd (line ++ 13 :: 10 :: bytes)

/-- A malformed line end in the request line, or behind an acceptable one and
before the end of the head. -/
inductive BadLineEnd : List UInt8 → Prop
  | requestLine {line rest : List UInt8} (clean : Clean line)
      (bad : BadEnd rest) : BadLineEnd (line ++ rest)
  | header {line target bytes : List UInt8} (clean : Clean line)
      (isRequestLine : RequestLine (cText line) target)
      (bad : BadHeaderEnd bytes) :
      BadLineEnd (line ++ 13 :: 10 :: bytes)

namespace Conn

/-- A call that asks for more bytes with the parser still in the head. -/
def StopsInHead (fs : FileSystem) (c : Conn) : Prop :=
  ∃ last, Returns fs .lineOk c .noRequest last ∧
    last.checkState ≠ .content

/-- The call that comes with the last segment refuses the request. -/
def Refuses (fs : FileSystem) (c : Conn) (segments : List (List UInt8))
    (last : List UInt8) : Prop :=
  ∀ d, afterCalls fs c.init segments = some d →
    ((d.receive last).processRead fs).1 = .badRequest

theorem scanLine_bad
    {line rest : List UInt8} (clean : Clean line) (bad : BadEnd rest) :
    (scanLine (line ++ rest)).1 = .lineBad := by
  rw [scanLine_clean_append clean]
  cases bad with
  | bareReturn rest bare => simp [scanLine, bare]
  | bareFeed rest => simp [scanLine]

/-- The loop ends at a line that is bad. -/
theorem InHead.stopsInHead_of_bad
    {c : Conn} (head : c.InHead) (bad : (scanLine c.unread).1 = .lineBad)
    (fs : FileSystem) : StopsInHead fs c := by
  have turned := turn_eq head.framed fs .lineOk
  rw [if_neg (fun atHand => head.state_ne atHand.1),
    if_neg (by rw [bad]; decide)] at turned
  refine ⟨_, .done turned, ?_⟩
  rw [passed_checkState]
  exact head.state_ne

theorem stopsInHead_of_again
    {fs : FileSystem} {c next : Conn}
    (turned : c.turn fs .lineOk = .again .lineOk next)
    (stops : StopsInHead fs next) : StopsInHead fs c := by
  obtain ⟨last, returns, state⟩ := stops
  exact ⟨last, .again turned returns, state⟩

theorem AtLine.stopsInHead_of_badHeaderEnd
    {c : Conn} (atLine : c.AtLine) (state : c.checkState = .header)
    (bad : BadHeaderEnd c.unread) (fs : FileSystem) :
    StopsInHead fs c := by
  -- one header line a time
  generalize shape : c.unread = bytes at bad
  induction bad generalizing c with
  | here clean bad =>
      apply atLine.toInHead.stopsInHead_of_bad
      rw [shape]
      exact scanLine_bad clean bad
  | later clean nonempty bad inductionHypothesis =>
      obtain ⟨next, turned, nextAtLine, nextState, nextUnread, _⟩ :=
        atLine.header_turn state shape clean nonempty fs
      exact
        stopsInHead_of_again turned
          (inductionHypothesis nextAtLine nextState nextUnread)

theorem AtLine.stopsInHead_of_badLineEnd
    {c : Conn} (atLine : c.AtLine) (state : c.checkState = .requestLine)
    (bad : BadLineEnd c.unread) (fs : FileSystem) :
    StopsInHead fs c := by
  generalize shape : c.unread = bytes at bad
  cases bad with
  | requestLine clean bad =>
      apply atLine.toInHead.stopsInHead_of_bad
      rw [shape]
      exact scanLine_bad clean bad
  | header clean isRequestLine bad =>
      obtain ⟨next, turned, nextAtLine, nextState, nextUnread, _⟩ :=
        atLine.request_turn state shape clean isRequestLine fs
      rw [← nextUnread] at bad
      exact
        stopsInHead_of_again turned
          (nextAtLine.stopsInHead_of_badHeaderEnd nextState bad fs)

/-- A call that has fewer bytes stops in the head as well. -/
theorem InHead.stopsInHead_of_receive
    {fs : FileSystem} {c : Conn} {block : List UInt8} (head : c.InHead)
    (fits : Fits c.contentLength) (room : c.Room block)
    (stops : StopsInHead fs (c.receive block)) : StopsInHead fs c := by
  obtain ⟨last, returns, state⟩ := stops
  have midRoom : ∀ mid, HeadRun fs c mid → mid.Room block := by
    intro mid run
    unfold Room
    rw [(run.fits head fits).2]
    exact room
  cases headEnd fs head with
  | body mid run midState framed texts atLine =>
      have received := run.receive head room
      have returnsMid := received.returns_iff.mp returns
      have content :=
        content_of_returns (framed.receive (midRoom mid run)) midState
          returnsMid
      exact absurd content state
  | returned mid run midHead code after turned =>
      have asksForMore : code = .noRequest := by
        by_cases found : (scanLine mid.unread).1 = .lineOk
        · have received :
              (mid.receive block).turn fs .lineOk =
                (mid.turn fs .lineOk).receive block :=
            turn_receive_of_found midHead (midRoom mid run) found
          rw [turned] at received
          have returnsMid :=
            (run.receive head room).returns_iff.mp returns
          exact ((Returns.done received).unique returnsMid).1
        · rw [turn_eq midHead.framed,
            if_neg (fun atHand => midHead.state_ne atHand.1),
            if_neg found] at turned
          cases turned
          rfl
      subst asksForMore
      exact
        ⟨after, run.returns_iff.mpr (.done turned),
          (midHead.stopped turned).2.2.1.state_ne⟩

/-- When one call on all bytes stops in the head, so does the call on the next
segment. -/
theorem call_of_stopsInHead
    {fs : FileSystem} {start c : Conn} {bytes segment rest : List UInt8}
    (startHead : start.InHead) (startFits : Fits start.contentLength)
    (room : start.Room (bytes ++ (segment ++ rest)))
    (stops :
      StopsInHead fs (start.receive (bytes ++ (segment ++ rest))))
    (after : After fs start bytes c) (state : c.checkState ≠ .content) :
    ∃ next, (c.receive segment).processRead fs = (.noRequest, next) ∧
      After fs start (bytes ++ segment) next ∧
      next.checkState ≠ .content := by
  have total :
      start.readIdx + bytes.length + segment.length + rest.length ≤
        readBufferSize := by
    unfold Room at room
    simp only [List.length_append] at room
    omega
  have firstRoom : start.Room (bytes ++ segment) := by
    unfold Room
    rw [List.length_append]
    omega
  have restRoom : (start.receive (bytes ++ segment)).Room rest := by
    show start.readIdx + (bytes ++ segment).length + rest.length ≤ _
    rw [List.length_append]
    omega
  have joined :
      start.receive (bytes ++ (segment ++ rest)) =
        (start.receive (bytes ++ segment)).receive rest := by
    rw [← List.append_assoc]
    refine (receive_append start (bytes ++ segment) rest ?_).symm
    rw [startHead.framed.length_eq]
    exact startHead.framed.readIdx_le
  rw [joined] at stops
  obtain ⟨next, returns, nextState⟩ :=
    (startHead.receive firstRoom).stopsInHead_of_receive startFits
      restRoom stops
  cases after with
  | body mid initial more bodyStart split run waiting =>
      exact absurd waiting.same.state state
  | head inHead fits stopped readIdx_eq resumes =>
      have segmentRoom : c.Room segment := by
        unfold Room
        omega
      have resumed :=
        (resumes segment firstRoom).returns_iff.mp returns
      refine
        ⟨next,
          (processRead_eq_iff (inHead.framed.receive segmentRoom) fs).mpr
            resumed, ?_, nextState⟩
      exact
        After.step startHead startFits
          (.head inHead fits stopped readIdx_eq resumes) firstRoom resumed

/-- When one call on all bytes stops in the head, so do the calls on the
segments, one after the other. -/
theorem calls_of_stopsInHead
    {fs : FileSystem} {start c : Conn} {bytes block : List UInt8}
    (startHead : start.InHead) (startFits : Fits start.contentLength)
    (segments : List (List UInt8))
    (room : start.Room (bytes ++ (segments.flatten ++ block)))
    (stops :
      StopsInHead fs
        (start.receive (bytes ++ (segments.flatten ++ block))))
    (after : After fs start bytes c) (state : c.checkState ≠ .content) :
    ∃ d, afterCalls fs c segments = some d ∧
      ((d.receive block).processRead fs).1 = .noRequest := by
  induction segments generalizing bytes c with
  | nil =>
      have whole : [].flatten ++ block = block ++ [] :=
        (List.append_nil block).symm
      rw [whole] at room stops
      obtain ⟨next, called, _⟩ :=
        call_of_stopsInHead startHead startFits room stops after state
      exact ⟨c, rfl, congrArg Prod.fst called⟩
  | cons segment segments inductionHypothesis =>
      rw [List.flatten_cons, List.append_assoc] at room stops
      obtain ⟨next, called, nextAfter, nextState⟩ :=
        call_of_stopsInHead startHead startFits room stops after state
      rw [← List.append_assoc] at room stops
      rw [afterCalls, called]
      exact inductionHypothesis room stops nextAfter nextState

/-- Where the bytes have a malformed line end in the head, every call returns
`NO_REQUEST`: those in front of it, the one that sees it, and all later
ones. -/
theorem bad_line_end_not_refused
    (fs : FileSystem) (c : Conn) (segments : List (List UInt8))
    (last : List UInt8)
    (fits : (segments.flatten ++ last).length ≤ readBufferSize)
    (bad : BadLineEnd (segments.flatten ++ last)) :
    ¬ Refuses fs c segments last ∧
      ∃ d, afterCalls fs c.init segments = some d ∧
        ((d.receive last).processRead fs).1 = .noRequest := by
  obtain ⟨atLine, state, unreadEq⟩ := init_receive_atLine c fits
  rw [← unreadEq] at bad
  have stops := atLine.stopsInHead_of_badLineEnd state bad fs
  have room :
      c.init.Room ([] ++ (segments.flatten ++ last)) := by
    show 0 + (segments.flatten ++ last).length ≤ readBufferSize
    omega
  obtain ⟨d, opened, called⟩ :=
    calls_of_stopsInHead (init_inHead c) (init_fits c) segments room stops
      (after_init fs c) (init_inHead c).state_ne
  refine ⟨fun refuses => ?_, d, opened, called⟩
  have refused := refuses d opened
  rw [called] at refused
  cases refused

def getBareFeed : List UInt8 :=
  ascii "GET / HTTP/1.1" ++ crlf ++ ascii "Host: a" ++ [10] ++ crlf

theorem badLineEnd_getBareFeed : BadLineEnd getBareFeed := by
  have bad : BadHeaderEnd (ascii "Host: a" ++ 10 :: crlf) :=
    .here (by decide) (.bareFeed crlf)
  have shape :
      getBareFeed =
        ascii "GET / HTTP/1.1" ++
          13 :: 10 :: (ascii "Host: a" ++ 10 :: crlf) := by
    decide
  rw [shape]
  exact .header (by decide) requestLine_getRoot bad

/-- The line feed comes with the second segment. -/
theorem bad_line_end_not_refused_bare_feed :
    ¬ Refuses noFiles zeroed [getBareFeed.take 20] (getBareFeed.drop 20) ∧
      ∃ d, afterCalls noFiles zeroed.init [getBareFeed.take 20] = some d ∧
        ((d.receive (getBareFeed.drop 20)).processRead noFiles).1 =
          .noRequest :=
  bad_line_end_not_refused noFiles zeroed [getBareFeed.take 20]
    (getBareFeed.drop 20) (by decide) badLineEnd_getBareFeed

theorem bare_feed_is_not_refused :
    ¬ ∀ (fs : FileSystem) (c : Conn) (segments : List (List UInt8))
        (last : List UInt8),
        (segments.flatten ++ last).length ≤ readBufferSize →
          ¬ BadLineEnd segments.flatten →
            BadLineEnd (segments.flatten ++ last) →
              Refuses fs c segments last := by
  intro always
  have unseen : ¬ BadLineEnd [] := by
    intro bad
    generalize shape : ([] : List UInt8) = bytes at bad
    cases bad with
    | requestLine clean bad =>
        have nothing := (List.append_eq_nil_iff.mp shape.symm).2
        rw [nothing] at bad
        cases bad
    | header clean isRequestLine bad =>
        have nothing := (List.append_eq_nil_iff.mp shape.symm).2
        cases nothing
  have refused :=
    always noFiles zeroed [] getBareFeed (by decide) unseen
      badLineEnd_getBareFeed zeroed.init rfl
  revert refused
  decide

end Conn

end LinuxNet.WebServer
