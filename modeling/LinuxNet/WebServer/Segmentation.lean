import LinuxNet.WebServer.BodyScan

/-!
# Request parsing and segmentation

A request arrives in segments, with a call of `process_read` after each.  In
the head of a request the calls do what one call on the whole does, whatever
the segments.  In the body they do not: a call that finds the body incomplete
has let the line scanner run over the part that arrived, and the next call
counts the body from where the scanner stopped.  `segmentation_iff` says for
which segments the last call and the one call on the whole agree.
-/

namespace LinuxNet.WebServer

open LinuxNet.CString LinuxNet.CInt

/-- What a call of `process_read` answers, and the parse results it
leaves. -/
structure Outcome where
  code : HttpCode
  checkState : CheckState
  url : Option Nat
  urlText : List UInt8
  host : Option Nat
  hostText : Option (List UInt8)
  linger : Bool
  contentLength : Int
  deriving DecidableEq, Repr

def outcome (result : HttpCode × Conn) : Outcome where
  code := result.1
  checkState := result.2.checkState
  url := result.2.url
  urlText := result.2.urlText
  host := result.2.host
  hostText := result.2.hostText
  linger := result.2.linger
  contentLength := result.2.contentLength

/-- The connection after the segments have been received one at a time, each
followed by a call of `process_read`, if every call returns `NO_REQUEST`. -/
def afterCalls (fs : FileSystem) :
    Conn → List (List UInt8) → Option Conn
  | c, [] => some c
  | c, segment :: segments =>
      match (c.receive segment).processRead fs with
      | (.noRequest, d) => afterCalls fs d segments
      | _ => none

/-- When the early bytes hold a whole head: counted from where the line
scanner stops in the early part of the body, the body is complete exactly
when it is complete, and the count overflows only if it overflows at a line
ending as well. -/
def CountsBody (early last : List UInt8) : Prop :=
  ∀ target headers rest, HeadOf early target headers rest →
    ¬ (contentLengthOf headers + (early.length - rest.length : Nat) ≤
            early.length + last.length ∧
          (early.length : Int) + last.length <
            contentLengthOf headers + (early.length - rest.length : Nat) +
              bodyPassed rest) ∧
      ¬ (contentLengthOf headers + (early.length - rest.length : Nat) +
              lastLine (rest ++ last) ≤ intMax ∧
          intMax <
            contentLengthOf headers + (early.length - rest.length : Nat) +
              bodyPassed rest)

theorem clean_line_unique
    {line other rest otherRest : List UInt8} (clean : Clean line)
    (otherClean : Clean other)
    (same : line ++ 13 :: 10 :: rest = other ++ 13 :: 10 :: otherRest) :
    line = other ∧ rest = otherRest := by
  have lengths :
      (LineStatus.lineOk, line.length + 2) =
        (LineStatus.lineOk, other.length + 2) := by
    rw [← scanLine_found clean rest, same, scanLine_found otherClean]
  have lengthEq : line.length = other.length := by
    simpa using lengths
  obtain ⟨lineEq, restEq⟩ := List.append_inj same lengthEq
  simp only [List.cons.injEq, true_and] at restEq
  exact ⟨lineEq, restEq⟩

theorem HeaderLines.unique
    {bytes rest otherRest : List UInt8}
    {headers otherHeaders : List (List UInt8)}
    (first : HeaderLines bytes headers rest)
    (second : HeaderLines bytes otherHeaders otherRest) :
    headers = otherHeaders ∧ rest = otherRest := by
  induction first generalizing otherHeaders with
  | @blank line rest clean empty =>
      generalize shape : line ++ 13 :: 10 :: rest = bytes at second
      cases second with
      | blank otherTail otherClean _ =>
          obtain ⟨_, restEq⟩ := clean_line_unique clean otherClean shape
          exact ⟨rfl, restEq⟩
      | cons otherClean nonempty _ =>
          obtain ⟨lineEq, _⟩ := clean_line_unique clean otherClean shape
          rw [← lineEq] at nonempty
          exact absurd empty nonempty
  | @cons line bytes rest headers clean nonempty later
      inductionHypothesis =>
      generalize shape : line ++ 13 :: 10 :: bytes = whole at second
      cases second with
      | blank otherTail otherClean empty =>
          obtain ⟨lineEq, _⟩ := clean_line_unique clean otherClean shape
          rw [← lineEq] at empty
          exact absurd empty nonempty
      | cons otherClean _ otherLater =>
          obtain ⟨lineEq, bytesEq⟩ :=
            clean_line_unique clean otherClean shape
          rw [← bytesEq] at otherLater
          obtain ⟨headersEq, restEq⟩ := inductionHypothesis otherLater
          exact ⟨by rw [lineEq, headersEq], restEq⟩

theorem HeadOf.unique
    {bytes target otherTarget rest otherRest : List UInt8}
    {headers otherHeaders : List (List UInt8)}
    (first : HeadOf bytes target headers rest)
    (second : HeadOf bytes otherTarget otherHeaders otherRest) :
    headers = otherHeaders ∧ rest = otherRest := by
  obtain ⟨line, after, shape, clean, _, lines⟩ := first
  obtain ⟨otherLine, otherAfter, otherShape, otherClean, _, otherLines⟩ :=
    second
  rw [shape] at otherShape
  obtain ⟨_, afterEq⟩ := clean_line_unique clean otherClean otherShape
  rw [← afterEq] at otherLines
  exact lines.unique otherLines

theorem RequestLine.target_unique
    {line target other : List UInt8} (nulFree : 0 ∉ line)
    (first : RequestLine line target) (second : RequestLine line other) :
    target = other := by
  have string :
      StringAt { Conn.zeroed with readBuf := line ++ [0] }.readBuf 0 line :=
    .of_drop_eq (List.drop_zero) nulFree
  obtain ⟨_, _, url, urlEq, isAt⟩ :=
    Conn.requestLineOn_of_requestLine first string
  obtain ⟨_, _, otherUrl, otherUrlEq, otherAt⟩ :=
    Conn.requestLineOn_of_requestLine second string
  rw [urlEq] at otherUrlEq
  cases otherUrlEq
  exact isAt.cstr_eq.symm.trans otherAt.cstr_eq

theorem HeadOf.target_unique
    {bytes target other rest otherRest : List UInt8}
    {headers otherHeaders : List (List UInt8)}
    (first : HeadOf bytes target headers rest)
    (second : HeadOf bytes other otherHeaders otherRest) :
    target = other := by
  obtain ⟨line, after, shape, clean, isRequestLine, _⟩ := first
  obtain ⟨otherLine, otherAfter, otherShape, otherClean, otherIsLine, _⟩ :=
    second
  rw [shape] at otherShape
  obtain ⟨same, _⟩ := clean_line_unique clean otherClean otherShape
  rw [← same] at otherIsLine
  have nulFree : 0 ∉ cText line := by
    intro member
    have kept := List.mem_takeWhile_imp member
    simp at kept
  exact isRequestLine.target_unique nulFree otherIsLine

theorem HeaderLines.append
    {bytes rest : List UInt8} {headers : List (List UInt8)}
    (lines : HeaderLines bytes headers rest) (more : List UInt8) :
    HeaderLines (bytes ++ more) headers (rest ++ more) := by
  induction lines with
  | @blank line rest clean empty =>
      rw [List.append_assoc]
      exact .blank (rest ++ more) clean empty
  | @cons line bytes rest headers clean nonempty later
      inductionHypothesis =>
      rw [List.append_assoc]
      exact .cons clean nonempty inductionHypothesis

theorem HeadOf.append
    {bytes target rest : List UInt8} {headers : List (List UInt8)}
    (isHead : HeadOf bytes target headers rest) (more : List UInt8) :
    HeadOf (bytes ++ more) target headers (rest ++ more) := by
  obtain ⟨line, after, shape, clean, isRequestLine, lines⟩ := isHead
  refine
    ⟨line, after ++ more, ?_, clean, isRequestLine, lines.append more⟩
  rw [shape, List.append_assoc]
  rfl

theorem countsBody_iff
    {early last target rest : List UInt8} {headers : List (List UInt8)}
    (isHead : HeadOf early target headers rest) :
    CountsBody early last ↔
      ¬ (contentLengthOf headers + (early.length - rest.length : Nat) ≤
            early.length + last.length ∧
          (early.length : Int) + last.length <
            contentLengthOf headers + (early.length - rest.length : Nat) +
              bodyPassed rest) ∧
      ¬ (contentLengthOf headers + (early.length - rest.length : Nat) +
              lastLine (rest ++ last) ≤ intMax ∧
          intMax <
            contentLengthOf headers + (early.length - rest.length : Nat) +
              bodyPassed rest) := by
  constructor
  · intro counts
    exact counts target headers rest isHead
  · intro counts otherTarget otherHeaders otherRest otherHead
    obtain ⟨headersEq, restEq⟩ := isHead.unique otherHead
    rw [← headersEq, ← restEq]
    exact counts

namespace Conn

theorem HeadRun.inHead
    {fs : FileSystem} {c last : Conn} (run : HeadRun fs c last)
    (head : c.InHead) (state_ne : last.checkState ≠ .content) :
    last.InHead := by
  induction run with
  | refl c => exact head
  | @turn c next last _ turned rest inductionHypothesis =>
      by_cases state : next.checkState = .content
      · cases rest with
        | refl => exact absurd state state_ne
        | turn notContent _ _ => exact absurd state notContent
      · exact inductionHypothesis (head.again turned state) state_ne

/-- The turn on the empty line of a head. -/
theorem blank_turn
    (fs : FileSystem) {e d : Conn} (head : e.InHead)
    (state : e.checkState = .header)
    (fetch : e.fetchLine .lineOk = (.lineOk, d))
    (nul : d.readBuf.getD d.startLine 0 = 0) :
    e.turn fs .lineOk =
      if d.contentLength ≠ 0 then
        .again .lineOk { d.entered with checkState := .content }
      else
        .done (d.entered.doRequest fs).1 (d.entered.doRequest fs).2 := by
  have fetched := fetchLine_in_head head .lineOk
  rw [fetch] at fetched
  have found : (scanLine e.unread).1 = .lineOk :=
    (congrArg Prod.fst fetched).symm
  have same : d = e.passed (scanLine e.unread) := congrArg Prod.snd fetched
  obtain ⟨line, string, _⟩ := passed_string head.framed found
  have dState : d.checkState = .header := by
    rw [same, passed_checkState, state]
  have startEq : d.startLine = e.startLine := by
    rw [same, passed_startLine]
  rw [← same, ← startEq] at string
  have empty : line = [] := by
    have first := string.getD_eq 0 (Nat.zero_le _)
    rw [Nat.add_zero, nul] at first
    cases line with
    | nil => rfl
    | cons byte rest =>
        have kept := string.nul_free
        simp only [List.mem_cons, not_or] at kept
        exact absurd (by simpa using first) kept.1
  subst empty
  rw [turn_eq head.framed, if_neg (fun atHand => head.state_ne atHand.1),
    if_pos found, ← same, dispatchLine_header fs dState string]
  have sameLength : d.entered.contentLength = d.contentLength := rfl
  unfold headersOn
  rw [if_pos rfl, sameLength]
  by_cases noBody : d.contentLength = 0
  · simp [noBody]
  · simp [noBody, sameLength]

/-- A turn in the head that enters the body stands at an empty line. -/
theorem header_of_enters
    {fs : FileSystem} {c next : Conn} (head : c.InHead)
    (turned : c.turn fs .lineOk = .again .lineOk next)
    (enters : next.checkState = .content) :
    ∃ d, c.checkState = .header ∧ c.fetchLine .lineOk = (.lineOk, d) ∧
      d.readBuf.getD d.startLine 0 = 0 := by
  have found := scanLine_lineOk_of_again head turned
  have fetched := fetchLine_in_head head .lineOk
  rw [found] at fetched
  obtain ⟨line, string, _⟩ := passed_string head.framed found
  have stateEq := passed_checkState c (scanLine c.unread)
  have startEq := passed_startLine c (scanLine c.unread)
  have turnEq := head.turn_eq_dispatchLine found fs .lineOk
  rw [turned] at turnEq
  generalize c.passed (scanLine c.unread) = d at *
  rw [← startEq] at string
  cases state : c.checkState with
  | content => exact absurd state head.state_ne
  | requestLine =>
      have dState : d.checkState = .requestLine := stateEq.trans state
      rw [dispatchLine_requestLine fs dState string] at turnEq
      split at turnEq
      · cases turnEq
      · injection turnEq with _ nextEq
        have states :=
          (requestLineOn_keeps d.entered d.startLine line).state_cases
        rw [← nextEq, enters] at states
        have enteredState : d.entered.checkState = .requestLine := dState
        rw [enteredState] at states
        rcases states with same | same <;> cases same
  | header =>
      have dState : d.checkState = .header := stateEq.trans state
      refine ⟨d, rfl, fetched, ?_⟩
      by_cases empty : line = []
      · subst empty
        have first := string.getD_eq 0 (Nat.zero_le _)
        rw [Nat.add_zero] at first
        exact first
      · obtain ⟨accepted, kept, _⟩ :=
          headersOn_parsed (c := d.entered) string empty
        rw [dispatchLine_header fs dState string, accepted,
          if_neg (by decide)] at turnEq
        injection turnEq with _ nextEq
        rw [← nextEq, enters] at kept
        have enteredState : d.entered.checkState = .header := dState
        rw [enteredState] at kept
        cases kept

/-- The body is entered from the empty line only. -/
theorem HeadRun.exists_blankLine
    {fs : FileSystem} {c mid : Conn} (run : HeadRun fs c mid)
    (head : c.InHead) (state : mid.checkState = .content) :
    ∃ d, BlankLineAt fs c d ∧ d.contentLength ≠ 0 ∧
      mid = { d.entered with checkState := .content } := by
  induction run with
  | refl c => exact absurd state head.state_ne
  | @turn c next mid state_ne turned rest inductionHypothesis =>
      by_cases nextState : next.checkState = .content
      · have nextEq : next = mid := by
          cases rest with
          | refl => rfl
          | turn notContent _ _ => exact absurd nextState notContent
        subst nextEq
        obtain ⟨d, stateEq, fetch, nul⟩ :=
          header_of_enters head turned nextState
        have turnEq := blank_turn fs head stateEq fetch nul
        rw [turned] at turnEq
        split at turnEq
        · rename_i nonzero
          injection turnEq with _ nextEq
          exact ⟨d, ⟨c, .refl c, stateEq, fetch, nul⟩, nonzero, nextEq⟩
        · cases turnEq
      · obtain ⟨d, blank, rest⟩ :=
          inductionHypothesis (head.again turned nextState) state
        exact ⟨d, blankLineAt_of_again state_ne turned blank, rest⟩

theorem doRequest_code_ne (fs : FileSystem) (c : Conn) :
    (c.doRequest fs).1 ≠ .noRequest := by
  unfold doRequest
  simp only
  repeat' split
  all_goals simp

/-- The fields that `do_request` does not touch. -/
structure RequestKeeps (c d : Conn) : Prop where
  checkState_eq : d.checkState = c.checkState
  url_eq : d.url = c.url
  host_eq : d.host = c.host
  readBuf_eq : d.readBuf = c.readBuf
  linger_eq : d.linger = c.linger
  contentLength_eq : d.contentLength = c.contentLength

theorem doRequest_keeps (fs : FileSystem) (c : Conn) :
    RequestKeeps c (c.doRequest fs).2 := by
  unfold doRequest
  simp only
  repeat' split
  all_goals exact ⟨rfl, rfl, rfl, rfl, rfl, rfl⟩

/-- The code of `do_request` depends on the file name only. -/
theorem doRequest_code_eq
    (fs : FileSystem) {c d : Conn} (urlText_eq : d.urlText = c.urlText)
    (realFile_eq : d.realFile = c.realFile) :
    (d.doRequest fs).1 = (c.doRequest fs).1 := by
  have sameFile : d.realFileFor = c.realFileFor := by
    unfold realFileFor
    rw [urlText_eq, realFile_eq]
  unfold doRequest
  rw [sameFile]
  simp only
  cases fs.stat (cstr c.realFileFor 0) with
  | none => rfl
  | some fileStat =>
      simp only
      split
      · rfl
      split
      · rfl
      cases fs.mmap (cstr c.realFileFor 0) fileStat.stSize <;> rfl

/-- The head is answered in the same way wherever the body was checked. -/
theorem outcome_doRequest
    (fs : FileSystem) {stop : Nat} {c d e : Conn} (texts : Texts c stop)
    (inside : stop ≤ c.readBuf.length) (first : SameHead stop c d)
    (second : SameHead stop c e) :
    outcome (d.doRequest fs) = outcome (e.doRequest fs) := by
  obtain ⟨firstUrl, firstHost⟩ :=
    texts.texts_eq inside first.url_eq first.host_eq first.take_eq
  obtain ⟨secondUrl, secondHost⟩ :=
    texts.texts_eq inside second.url_eq second.host_eq second.take_eq
  have code :=
    doRequest_code_eq fs (firstUrl.trans secondUrl.symm)
      (first.realFile_eq.trans second.realFile_eq.symm)
  have kept := doRequest_keeps fs d
  have otherKept := doRequest_keeps fs e
  have sameTexts :
      ∀ c d : Conn, RequestKeeps c d →
        d.urlText = c.urlText ∧ d.hostText = c.hostText := by
    intro c d keeps
    constructor
    · unfold urlText
      rw [keeps.url_eq, keeps.readBuf_eq]
    · unfold hostText
      rw [keeps.host_eq, keeps.readBuf_eq]
  unfold outcome
  rw [code, kept.checkState_eq, otherKept.checkState_eq, kept.url_eq,
    otherKept.url_eq, (sameTexts _ _ kept).1, (sameTexts _ _ otherKept).1,
    kept.host_eq, otherKept.host_eq, (sameTexts _ _ kept).2,
    (sameTexts _ _ otherKept).2, kept.linger_eq, otherKept.linger_eq,
    kept.contentLength_eq, otherKept.contentLength_eq, firstUrl,
    secondUrl, firstHost, secondHost, first.state, second.state,
    first.url_eq, second.url_eq, first.host_eq, second.host_eq,
    first.linger_eq, second.linger_eq, first.contentLength_eq,
    second.contentLength_eq]

theorem outcome_open
    {stop : Nat} {c d e : Conn} (texts : Texts c stop)
    (inside : stop ≤ c.readBuf.length) (first : SameHead stop c d)
    (second : SameHead stop c e) :
    outcome (.noRequest, d) = outcome (.noRequest, e) := by
  obtain ⟨firstUrl, firstHost⟩ :=
    texts.texts_eq inside first.url_eq first.host_eq first.take_eq
  obtain ⟨secondUrl, secondHost⟩ :=
    texts.texts_eq inside second.url_eq second.host_eq second.take_eq
  unfold outcome
  simp only [firstUrl, secondUrl, firstHost, secondHost, first.state,
    second.state, first.url_eq, second.url_eq, first.host_eq,
    second.host_eq, first.linger_eq, second.linger_eq,
    first.contentLength_eq, second.contentLength_eq]

/-- A call that starts in the content state stays there. -/
theorem content_of_returns
    {fs : FileSystem} {lineStatus : LineStatus} {c last : Conn}
    {code : HttpCode} (framed : c.Framed) (state : c.checkState = .content)
    (returns : Returns fs lineStatus c code last) :
    last.checkState = .content := by
  induction returns with
  | @done lineStatus c last code turned =>
      have turn := contentTurn framed state fs lineStatus
      rw [turned] at turn
      cases turn with
      | stopped noLine => rw [passed_checkState, state]
      | @complete d fetched small =>
          rw [(doRequest_keeps fs d.bodyCut).checkState_eq]
          obtain ⟨_, _, _, shape, _⟩ := bodyCut_frame d
          rw [shape]
          exact fetched.state state
  | @again lineStatus nextStatus c next last code turned rest
      inductionHypothesis =>
      have nextFramed := (turn_again framed turned).1
      have turn := contentTurn framed state fs lineStatus
      rw [turned] at turn
      cases turn with
      | incomplete fetched notSmall =>
          exact inductionHypothesis nextFramed (fetched.state state)

/-! ## The calls before the last -/

structure BodyStart (mid : Conn) : Prop where
  framed : mid.Framed
  texts : Texts mid mid.startLine
  state : mid.checkState = .content
  fits : Fits mid.contentLength

/-- After a call that found the body incomplete: `mid` is the object at the
start of the body, and `more` what has been received since. -/
structure Waiting (mid : Conn) (more : List UInt8) (d : Conn) : Prop where
  positive : 0 < mid.contentLength
  same : SameHead mid.startLine (mid.receive more) d
  checkedIdx_eq :
    d.checkedIdx = mid.checkedIdx + bodyPassed (mid.unread ++ more)
  unread_eq :
    d.unread =
      (mid.unread ++ more).drop (bodyPassed (mid.unread ++ more))
  sum_le : mid.contentLength + mid.checkedIdx ≤ intMax
  line_le :
    lastLine (mid.unread ++ more) = 0 ∨
      mid.contentLength + mid.checkedIdx + lastLine (mid.unread ++ more) ≤
        intMax

/-- A run of the head from the first object comes to the turn that the second
object is about to take. -/
def Resumes (fs : FileSystem) (s c : Conn) : Prop :=
  ∃ e, HeadRun fs s e ∧ e.checkState ≠ .content ∧
    e.turn fs .lineOk = c.turn fs .lineOk

/-- Where the parser stands after calls that all returned `NO_REQUEST`: in
the head, or in the body. -/
inductive After (fs : FileSystem) (start : Conn) (bytes : List UInt8)
    (d : Conn) : Prop
  | head (inHead : d.InHead) (fits : Fits d.contentLength)
      (stopped : (scanLine d.unread).1 ≠ .lineOk)
      (readIdx_eq : d.readIdx = start.readIdx + bytes.length)
      (resumes : ∀ block, start.Room (bytes ++ block) →
        Resumes fs (start.receive (bytes ++ block)) (d.receive block))
  | body (mid : Conn) (initial more : List UInt8)
      (bodyStart : BodyStart mid) (split : bytes = initial ++ more)
      (run : HeadRun fs (start.receive initial) mid)
      (waiting : Waiting mid more d)

theorem not_bodySmall_of_open
    {fs : FileSystem} {c last : Conn} (framed : c.Framed)
    (state : c.checkState = .content)
    (returns : Returns fs .lineOk c .noRequest last) : ¬ c.BodySmall := by
  intro small
  have complete :
      toInt (c.contentLength + c.checkedIdx) ≤ c.readIdx := small
  have turnEq := turn_eq framed fs .lineOk
  rw [if_pos ⟨state, rfl⟩, dispatchLine_content fs state,
    if_pos complete] at turnEq
  cases returns with
  | done turned =>
      rw [turnEq] at turned
      injection turned with codeEq _
      exact doRequest_code_ne fs _ codeEq
  | again turned _ =>
      rw [turnEq] at turned
      cases turned

/-- A call in the body that returns `NO_REQUEST`. -/
theorem bodyOpen_of_noRequest
    {fs : FileSystem} (stop : Nat) {c last : Conn} (framed : c.Framed)
    (state : c.checkState = .content) (below : stop ≤ c.startLine)
    (positive : 0 < c.contentLength) (bounded : c.contentLength ≤ intMax)
    (returns : Returns fs .lineOk c .noRequest last) :
    ¬ (c.BodySmall ∨ c.LineOverflows) ∧ BodyOpen stop c .noRequest last := by
  obtain ⟨complete, stillOpen⟩ :=
    body_call stop framed state below positive bounded returns
  have neither : ¬ (c.BodySmall ∨ c.LineOverflows) := by
    intro either
    obtain ⟨e, _, done⟩ := complete either
    exact doRequest_code_ne fs e (congrArg Prod.fst done).symm
  exact ⟨neither, stillOpen neither⟩

/-- Away from the ends of `int` the check of the body is the comparison it is
meant to be, or an overflow. -/
theorem bodySmall_iff
    {c : Conn} (framed : c.Framed) (positive : 0 < c.contentLength)
    (bounded : c.contentLength ≤ intMax) :
    c.BodySmall ↔ c.contentLength + c.checkedIdx ≤ c.readIdx ∨
      intMax < c.contentLength + c.checkedIdx := by
  have inside := framed.checkedIdx_le
  have bound := framed.readIdx_le
  unfold BodySmall
  by_cases beyond : (c.readIdx : Int) < c.contentLength + c.checkedIdx
  · rw [toInt_le_iff beyond
      (by simp only [intMax, readBufferSize] at *; omega)]
    omega
  · rw [toInt_of_fits ⟨by simp only [intMin]; omega, by
      simp only [intMax, readBufferSize] at *; omega⟩]
    simp only [intMax, readBufferSize] at *
    omega

theorem BodyStart.receive
    {mid : Conn} {more : List UInt8} (bodyStart : BodyStart mid)
    (room : mid.Room more) :
    (mid.receive more).Framed ∧
      SameHead mid.startLine (mid.receive more) (mid.receive more) := by
  have framed := bodyStart.framed.receive room
  exact ⟨framed, .refl framed bodyStart.state (Nat.le_refl _)⟩

theorem SameHead.receive
    {stop : Nat} {c d : Conn} {block : List UInt8}
    (same : SameHead stop c d) (framed : c.Framed)
    (inside : stop ≤ c.readIdx) (room : c.Room block) :
    SameHead stop (c.receive block) (d.receive block) where
  framed := same.framed.receive (by
    unfold Room
    rw [same.readIdx_eq]
    exact room)
  state := same.state
  le_startLine := same.le_startLine
  readIdx_eq := by
    show d.readIdx + block.length = c.readIdx + block.length
    rw [same.readIdx_eq]
  url_eq := same.url_eq
  host_eq := same.host_eq
  linger_eq := same.linger_eq
  contentLength_eq := same.contentLength_eq
  realFile_eq := same.realFile_eq
  take_eq := by
    rw [receive_take same.framed (by rw [same.readIdx_eq]; exact inside),
      receive_take framed inside]
    exact same.take_eq

theorem waiting_first
    {fs : FileSystem} {mid d : Conn} (bodyStart : BodyStart mid)
    (returns : Returns fs .lineOk mid .noRequest d) : Waiting mid [] d := by
  obtain ⟨framed, texts, state, fits⟩ := bodyStart
  have inside := framed.checkedIdx_le
  have bound := framed.readIdx_le
  obtain ⟨lower, upper⟩ := fits
  have notSmall := not_bodySmall_of_open framed state returns
  have positive : 0 < mid.contentLength := by
    by_contra small
    refine notSmall ?_
    unfold BodySmall
    rw [toInt_of_fits ⟨by omega, by
      simp only [intMax, readBufferSize] at *; omega⟩]
    omega
  obtain ⟨neither, opened⟩ :=
    bodyOpen_of_noRequest mid.startLine framed state (Nat.le_refl _)
      positive upper returns
  obtain ⟨_, noOverflow⟩ := not_or.mp neither
  rw [bodySmall_iff framed positive upper] at notSmall
  unfold LineOverflows at noOverflow
  exact
    { positive := positive
      same := by
        rw [receive_nil]
        exact opened.same
      checkedIdx_eq := by
        rw [List.append_nil]
        exact opened.checkedIdx_eq
      unread_eq := by
        rw [List.append_nil]
        exact opened.unread_eq
      sum_le := by omega
      line_le := by
        rw [List.append_nil]
        omega }

/-- The object that waits for a body, when a block has arrived. -/
theorem Waiting.receive
    {mid d : Conn} {more block : List UInt8}
    (bodyStart : BodyStart mid) (waiting : Waiting mid more d)
    (room : mid.Room (more ++ block)) :
    SameHead mid.startLine (mid.receive (more ++ block))
        (d.receive block) ∧
      (d.receive block).unread =
        (mid.unread ++ (more ++ block)).drop
          (bodyPassed (mid.unread ++ more)) := by
  have moreRoom : mid.Room more := by
    unfold Room at room ⊢
    rw [List.length_append] at room
    omega
  have blockRoom : (mid.receive more).Room block := by
    unfold Room at room ⊢
    rw [List.length_append] at room
    show mid.readIdx + more.length + block.length ≤ readBufferSize
    omega
  have inside : mid.startLine ≤ (mid.receive more).readIdx := by
    have ordered := bodyStart.framed.startLine_le
    have bound := bodyStart.framed.checkedIdx_le
    show mid.startLine ≤ mid.readIdx + more.length
    omega
  have joined :
      (mid.receive more).receive block = mid.receive (more ++ block) :=
    receive_append mid more block (by
      rw [bodyStart.framed.length_eq]
      exact bodyStart.framed.readIdx_le)
  have before :=
    waiting.same.receive (bodyStart.receive moreRoom).1 inside blockRoom
  rw [joined] at before
  refine ⟨before, ?_⟩
  rw [unread_receive waiting.same.framed, waiting.unread_eq,
    ← List.append_assoc, List.drop_append_of_le_length (bodyPassed_le _)]

theorem waiting_step
    {fs : FileSystem} {mid d next : Conn} {more block : List UInt8}
    (bodyStart : BodyStart mid) (waiting : Waiting mid more d)
    (room : mid.Room (more ++ block))
    (returns : Returns fs .lineOk (d.receive block) .noRequest next) :
    Waiting mid (more ++ block) next := by
  obtain ⟨before, unreadEq⟩ := waiting.receive bodyStart room
  have lengthEq : (d.receive block).contentLength = mid.contentLength :=
    before.contentLength_eq
  have upper : mid.contentLength ≤ intMax := bodyStart.fits.2
  have checkedEq :
      (d.receive block).checkedIdx =
        mid.checkedIdx + bodyPassed (mid.unread ++ more) :=
    waiting.checkedIdx_eq
  obtain ⟨neither, opened⟩ :=
    bodyOpen_of_noRequest mid.startLine before.framed before.state
      before.le_startLine (by rw [lengthEq]; exact waiting.positive)
      (by rw [lengthEq]; exact upper) returns
  obtain ⟨notSmall, noOverflow⟩ := not_or.mp neither
  rw [bodySmall_iff before.framed
    (by rw [lengthEq]; exact waiting.positive)
    (by rw [lengthEq]; exact upper), lengthEq, checkedEq] at notSmall
  unfold LineOverflows at noOverflow
  rw [lengthEq, checkedEq, unreadEq] at noOverflow
  obtain ⟨passedEq, lastEq⟩ :=
    bodyPassed_append (mid.unread ++ more) block
  rw [List.append_assoc] at passedEq lastEq
  have sumLe := waiting.sum_le
  have lineLe := waiting.line_le
  exact
    { positive := waiting.positive
      same := before.trans opened.same
      checkedIdx_eq := by
        rw [opened.checkedIdx_eq, checkedEq, unreadEq]
        omega
      unread_eq := by
        rw [opened.unread_eq, unreadEq, List.drop_drop, passedEq]
      sum_le := sumLe
      line_le := by
        rw [lastEq]
        split
        · exact lineLe
        · right
          omega }

/-! ## One more call -/

theorem returns_congr
    {fs : FileSystem} {c d last : Conn} {code : HttpCode}
    (same : c.turn fs .lineOk = d.turn fs .lineOk) :
    Returns fs .lineOk c code last ↔ Returns fs .lineOk d code last := by
  have forward :
      ∀ c d : Conn, c.turn fs .lineOk = d.turn fs .lineOk →
        Returns fs .lineOk c code last → Returns fs .lineOk d code last := by
    intro c d same returns
    cases returns with
    | done turned => exact .done (same ▸ turned)
    | again turned rest => exact .again (same ▸ turned) rest
  exact ⟨forward c d same, forward d c same.symm⟩

theorem Resumes.returns_iff
    {fs : FileSystem} {s c last : Conn} {code : HttpCode}
    (resumes : Resumes fs s c) :
    Returns fs .lineOk s code last ↔ Returns fs .lineOk c code last := by
  obtain ⟨e, run, _, same⟩ := resumes
  rw [run.returns_iff, returns_congr same]

theorem HeadRun.append_turn
    {fs : FileSystem} {c e next last : Conn} (run : HeadRun fs c e)
    (state_ne : e.checkState ≠ .content)
    (turned : e.turn fs .lineOk = .again .lineOk next)
    (rest : HeadRun fs next last) : HeadRun fs c last := by
  induction run with
  | refl c => exact .turn state_ne turned rest
  | turn ne turnedFirst _ inductionHypothesis =>
      exact .turn ne turnedFirst (inductionHypothesis state_ne turned)

/-- A run that takes at least one turn is a run of the first object. -/
theorem Resumes.run
    {fs : FileSystem} {s c mid : Conn} (resumes : Resumes fs s c)
    (run : HeadRun fs c mid) (moved : c.checkState ≠ mid.checkState) :
    HeadRun fs s mid := by
  obtain ⟨e, runTo, state_ne, same⟩ := resumes
  cases run with
  | refl => exact absurd rfl moved
  | turn _ turned rest =>
      exact runTo.append_turn state_ne (same.trans turned) rest

theorem Resumes.extend
    {fs : FileSystem} {s c mid d : Conn} (resumes : Resumes fs s c)
    (run : HeadRun fs c mid) (state_ne : mid.checkState ≠ .content)
    (same : mid.turn fs .lineOk = d.turn fs .lineOk) :
    Resumes fs s d := by
  obtain ⟨e, runTo, notContent, sameTurn⟩ := resumes
  cases run with
  | refl => exact ⟨e, runTo, notContent, sameTurn.trans same⟩
  | turn _ turned rest =>
      exact
        ⟨mid, runTo.append_turn notContent (sameTurn.trans turned) rest,
          state_ne, same⟩

theorem fits_of_again
    {fs : FileSystem} {lineStatus nextStatus : LineStatus} {c next : Conn}
    (framed : c.Framed) (fits : Fits c.contentLength)
    (turned : c.turn fs lineStatus = .again nextStatus next) :
    Fits next.contentLength := by
  have edited :
      ∀ {first stop : Nat} {c d : Conn}, Edit first stop c d →
        Fits c.contentLength → Fits d.contentLength := by
    intro first stop c d edit fits
    exact
      edit.keeps (fun e => Fits e.contentLength)
        (fun _ _ _ fits => fits) (fun _ _ _ fits => fits)
        (fun _ _ _ _ _ _ contentLength _ _ _ either fits =>
          either.elim (fun same => by rw [same]; exact fits) id)
        fits
  have passedFits :
      Fits (c.passed (scanLine c.unread)).contentLength := by
    rw [(passed_fields c (scanLine c.unread)).2.2.2]
    exact fits
  have shape := turnShape framed fs lineStatus
  rw [turned] at shape
  generalize result : Turn.again nextStatus next = outcome at shape
  cases shape with
  | stopped _ _ => cases result
  | @requestLine line state found string ends =>
      split at result
      · cases result
      · cases result
        exact edited (requestLineOn_edit _ _ line) passedFits
  | @header line state found string ends =>
      split at result
      · cases result
      · cases result
        exact edited (headersOn_edit _ _ line) passedFits
  | content d _ fetched =>
      split at result
      · cases result
      · cases result
        rcases fetched with ⟨_, rfl⟩ | ⟨_, _, rfl⟩
        · exact fits
        · exact passedFits

theorem HeadRun.fits
    {fs : FileSystem} {c last : Conn} (run : HeadRun fs c last)
    (head : c.InHead) (fits : Fits c.contentLength) :
    Fits last.contentLength ∧ last.readIdx = c.readIdx := by
  induction run with
  | refl c => exact ⟨fits, rfl⟩
  | @turn c next last state_ne turned rest inductionHypothesis =>
      have nextFits := fits_of_again head.framed fits turned
      have readIdx := (Conn.turn_again head.framed turned).2.1.readIdx_eq
      by_cases nextState : next.checkState = .content
      · cases rest with
        | refl => exact ⟨nextFits, readIdx⟩
        | turn notContent _ _ => exact absurd nextState notContent
      · obtain ⟨lastFits, lastIdx⟩ :=
          inductionHypothesis (head.again turned nextState) nextFits
        exact ⟨lastFits, lastIdx.trans readIdx⟩

/-- A turn in the head that asks for more bytes has stopped in a line. -/
theorem InHead.stopped
    {fs : FileSystem} {c last : Conn} (head : c.InHead)
    (turned : c.turn fs .lineOk = .done .noRequest last) :
    (scanLine c.unread).1 ≠ .lineOk ∧
      last = c.passed (scanLine c.unread) ∧ last.InHead ∧
      last.contentLength = c.contentLength ∧
      last.readIdx = c.readIdx := by
  have shape := turnShape head.framed fs .lineOk
  rw [turned] at shape
  generalize result : Turn.done .noRequest last = outcome at shape
  cases shape with
  | stopped _ noLine =>
      cases result
      have scanned :
          scanLine c.unread =
            ((scanLine c.unread).1, (scanLine c.unread).2) := rfl
      have passedEq := passed_of_ne c noLine (scanLine c.unread).2
      rw [← scanned] at passedEq
      refine ⟨noLine, rfl, ⟨head.framed.passed, ?_, ?_⟩, ?_, ?_⟩
      · rw [passedEq]
        exact { head.texts with }
      · rw [passed_checkState]
        exact head.state_ne
      · rw [passedEq]
      · rw [passedEq]
  | requestLine _ _ _ _ =>
      split at result <;> cases result
  | header _ _ _ _ =>
      split at result
      · injection result with codeEq _
        exact absurd codeEq.symm (doRequest_code_ne fs _)
      · cases result
  | content _ state _ => exact absurd state head.state_ne

/-- One more call that returns `NO_REQUEST`. -/
theorem After.step
    {fs : FileSystem} {start d next : Conn} {bytes segment : List UInt8}
    (startHead : start.InHead) (startFits : Fits start.contentLength)
    (after : After fs start bytes d)
    (room : start.Room (bytes ++ segment))
    (returns : Returns fs .lineOk (d.receive segment) .noRequest next) :
    After fs start (bytes ++ segment) next := by
  have total :
      start.readIdx + bytes.length + segment.length ≤ readBufferSize := by
    unfold Room at room
    rw [List.length_append] at room
    omega
  cases after with
  | head inHead fits stopped readIdx_eq resumes =>
      have segmentRoom : d.Room segment := by
        unfold Room
        omega
      have receivedHead := inHead.receive segmentRoom
      have joined :
          ∀ block, (d.receive segment).receive block =
            d.receive (segment ++ block) := fun block =>
        receive_append d segment block (by
          rw [inHead.framed.length_eq]
          exact inHead.framed.readIdx_le)
      cases headEnd fs receivedHead with
      | body mid run state framed texts atLine =>
          have resumed := resumes segment room
          have midFits := (run.fits receivedHead fits).1
          have bodyStart : BodyStart mid := ⟨framed, texts, state, midFits⟩
          have moved :
              (d.receive segment).checkState ≠ mid.checkState := by
            rw [state]
            exact receivedHead.state_ne
          exact
            .body mid (bytes ++ segment) [] bodyStart (by simp)
              (resumed.run run moved)
              (waiting_first bodyStart (run.returns_iff.mp returns))
      | returned mid run head code last turned =>
          obtain ⟨codeEq, lastEq⟩ :=
            (Returns.done turned).unique (run.returns_iff.mp returns)
          subst codeEq
          subst lastEq
          obtain ⟨noLine, lastEq, lastHead, lengthEq, idxEq⟩ :=
            head.stopped turned
          obtain ⟨midFits, midIdx⟩ := run.fits receivedHead fits
          refine .head lastHead ?_ ?_ ?_ ?_
          · rw [lengthEq]
            exact midFits
          · rw [lastEq, unread_passed]
            have resumed := scanLine_append_of_stopped noLine []
            rw [List.append_nil] at resumed
            rw [← congrArg Prod.fst resumed]
            exact noLine
          · rw [idxEq, midIdx]
            show d.readIdx + segment.length = _
            rw [List.length_append]
            omega
          · intro block blockRoom
            have bound :
                start.readIdx + bytes.length + segment.length +
                  block.length ≤ readBufferSize := by
              unfold Room at blockRoom
              rw [List.length_append, List.length_append] at blockRoom
              omega
            have receivedRoom : (d.receive segment).Room block := by
              show d.readIdx + segment.length + block.length ≤ _
              omega
            have midRoom : mid.Room block := by
              unfold Room
              rw [midIdx]
              exact receivedRoom
            have resumed := resumes (segment ++ block) (by
              unfold Room
              rw [List.length_append, List.length_append]
              omega)
            rw [← List.append_assoc, ← joined] at resumed
            have runReceived :
                HeadRun fs ((d.receive segment).receive block)
                  (mid.receive block) :=
              run.receive receivedHead receivedRoom
            have same :
                (mid.receive block).turn fs .lineOk =
                  (last.receive block).turn fs .lineOk := by
              rw [turn_receive_of_stopped head midRoom noLine, lastEq]
            exact resumed.extend runReceived head.state_ne same
  | body mid initial more bodyStart split run waiting =>
      have initialRoom : start.Room initial := by
        unfold Room at room ⊢
        rw [split, List.length_append, List.length_append] at room
        omega
      have midIdx : mid.readIdx = start.readIdx + initial.length :=
        (run.fits (startHead.receive initialRoom)
          startFits).2
      refine
        .body mid initial (more ++ segment) bodyStart
          (by rw [split, List.append_assoc]) run
          (waiting_step bodyStart waiting ?_ returns)
      unfold Room at room ⊢
      rw [split, List.length_append, List.length_append] at room
      rw [List.length_append]
      omega

theorem After.framed
    {fs : FileSystem} {start d : Conn} {bytes : List UInt8}
    (startHead : start.InHead) (startFits : Fits start.contentLength)
    (after : After fs start bytes d) (room : start.Room bytes) :
    d.Framed ∧ d.readIdx = start.readIdx + bytes.length := by
  cases after with
  | head inHead fits stopped readIdx_eq resumes =>
      exact ⟨inHead.framed, readIdx_eq⟩
  | body mid initial more bodyStart split run waiting =>
      have initialRoom : start.Room initial := by
        unfold Room at room ⊢
        rw [split, List.length_append] at room
        omega
      have midIdx : mid.readIdx = start.readIdx + initial.length :=
        (run.fits (startHead.receive initialRoom) startFits).2
      have readIdx : d.readIdx = mid.readIdx + more.length :=
        waiting.same.readIdx_eq
      refine ⟨waiting.same.framed, ?_⟩
      rw [split, List.length_append]
      omega

theorem after_calls
    {fs : FileSystem} {start c d : Conn} {bytes : List UInt8}
    (startHead : start.InHead) (startFits : Fits start.contentLength)
    (segments : List (List UInt8))
    (room : start.Room (bytes ++ segments.flatten))
    (after : After fs start bytes c)
    (opened : afterCalls fs c segments = some d) :
    After fs start (bytes ++ segments.flatten) d := by
  induction segments generalizing bytes c with
  | nil =>
      cases opened
      simpa using after
  | cons segment segments inductionHypothesis =>
      have total :
          start.readIdx + bytes.length + segment.length +
            segments.flatten.length ≤ readBufferSize := by
        unfold Room at room
        simp only [List.flatten_cons, List.length_append] at room
        omega
      have bytesRoom : start.Room bytes := by
        unfold Room
        omega
      have segmentRoom : start.Room (bytes ++ segment) := by
        unfold Room
        rw [List.length_append]
        omega
      obtain ⟨cFramed, readIdx⟩ :=
        after.framed startHead startFits bytesRoom
      have framed : (c.receive segment).Framed :=
        cFramed.receive (by unfold Room; omega)
      rw [afterCalls] at opened
      rcases called : (c.receive segment).processRead fs with ⟨code, next⟩
      rw [called] at opened
      have laterRoom :
          start.Room ((bytes ++ segment) ++ segments.flatten) := by
        rw [List.append_assoc]
        exact room
      cases code with
      | noRequest =>
          have returns := (processRead_eq_iff framed fs).mp called
          have later :=
            inductionHypothesis laterRoom
              (after.step startHead startFits segmentRoom returns) opened
          rw [List.append_assoc] at later
          exact later
      | _ => cases opened

/-- In the body the last call and the call on the whole agree exactly when
both or neither answer. -/
theorem outcome_waiting_iff
    (fs : FileSystem) {mid d : Conn} {more block : List UInt8}
    (bodyStart : BodyStart mid) (waiting : Waiting mid more d)
    (room : mid.Room (more ++ block)) :
    outcome ((d.receive block).processRead fs) =
        outcome ((mid.receive (more ++ block)).processRead fs) ↔
      ((d.receive block).BodySmall ∨ (d.receive block).LineOverflows ↔
        (mid.receive (more ++ block)).BodySmall ∨
          (mid.receive (more ++ block)).LineOverflows) := by
  obtain ⟨wholeFramed, wholeSame⟩ := bodyStart.receive room
  obtain ⟨splitSame, _⟩ := waiting.receive bodyStart room
  have wholeReturns := returns_processRead wholeFramed fs
  have splitReturns := returns_processRead splitSame.framed fs
  have upper : mid.contentLength ≤ intMax := bodyStart.fits.2
  have positive := waiting.positive
  have splitLength : (d.receive block).contentLength = mid.contentLength :=
    splitSame.contentLength_eq
  have splitPositive : 0 < (d.receive block).contentLength := by
    rw [splitLength]
    exact positive
  have splitUpper : (d.receive block).contentLength ≤ intMax := by
    rw [splitLength]
    exact upper
  obtain ⟨wholeDone, wholeOpen⟩ :=
    body_call mid.startLine wholeFramed wholeSame.state
      wholeSame.le_startLine positive upper wholeReturns
  obtain ⟨splitDone, splitOpen⟩ :=
    body_call mid.startLine splitSame.framed splitSame.state
      splitSame.le_startLine splitPositive splitUpper splitReturns
  have inside : mid.startLine ≤ mid.readIdx :=
    Nat.le_trans bodyStart.framed.startLine_le
      bodyStart.framed.checkedIdx_le
  have texts : Texts (mid.receive (more ++ block)) mid.startLine :=
    texts_receive bodyStart.framed bodyStart.texts inside
  have room' :
      mid.startLine ≤ (mid.receive (more ++ block)).readBuf.length := by
    have bound := bodyStart.framed.readIdx_le
    rw [wholeFramed.length_eq]
    omega
  have codes :
      outcome ((d.receive block).processRead fs) =
          outcome ((mid.receive (more ++ block)).processRead fs) →
        ((d.receive block).processRead fs).1 =
          ((mid.receive (more ++ block)).processRead fs).1 :=
    congrArg Outcome.code
  by_cases splitEither :
      (d.receive block).BodySmall ∨ (d.receive block).LineOverflows
  · obtain ⟨e, eSame, eDone⟩ := splitDone splitEither
    have splitEq : (d.receive block).processRead fs = e.doRequest fs :=
      eDone
    by_cases wholeEither :
        (mid.receive (more ++ block)).BodySmall ∨
          (mid.receive (more ++ block)).LineOverflows
    · obtain ⟨f, fSame, fDone⟩ := wholeDone wholeEither
      have wholeEq :
          (mid.receive (more ++ block)).processRead fs =
            f.doRequest fs := fDone
      rw [splitEq, wholeEq]
      exact
        iff_of_true
          (outcome_doRequest fs texts room' (splitSame.trans eSame)
            fSame)
          (iff_of_true splitEither wholeEither)
    · have opened := wholeOpen wholeEither
      refine iff_of_false (fun same => ?_) (by simp [splitEither, wholeEither])
      have code := codes same
      rw [opened.code_eq, splitEq] at code
      exact doRequest_code_ne fs e code
  · have opened := splitOpen splitEither
    by_cases wholeEither :
        (mid.receive (more ++ block)).BodySmall ∨
          (mid.receive (more ++ block)).LineOverflows
    · obtain ⟨f, _, fDone⟩ := wholeDone wholeEither
      refine iff_of_false (fun same => ?_) (by simp [splitEither, wholeEither])
      have code := codes same
      rw [opened.code_eq] at code
      exact
        doRequest_code_ne fs f
          ((congrArg Prod.fst fDone).symm.trans code.symm)
    · have wholeOpened := wholeOpen wholeEither
      refine iff_of_true ?_ (iff_of_false splitEither wholeEither)
      have splitPair :
          (d.receive block).processRead fs =
            (.noRequest, ((d.receive block).processRead fs).2) :=
        Prod.ext opened.code_eq rfl
      have wholePair :
          (mid.receive (more ++ block)).processRead fs =
            (.noRequest,
              ((mid.receive (more ++ block)).processRead fs).2) :=
        Prod.ext wholeOpened.code_eq rfl
      rw [splitPair, wholePair]
      exact
        outcome_open texts room' (splitSame.trans opened.same)
          wholeOpened.same

/-- In the body the last call and the call on the whole agree exactly when
both or neither find the body complete, or overflow. -/
theorem waiting_last
    (fs : FileSystem) {mid d : Conn} {more block : List UInt8}
    (bodyStart : BodyStart mid) (waiting : Waiting mid more d)
    (room : mid.Room (more ++ block)) :
    outcome ((d.receive block).processRead fs) =
        outcome ((mid.receive (more ++ block)).processRead fs) ↔
      ¬ (mid.contentLength + mid.checkedIdx ≤
              mid.readIdx + more.length + block.length ∧
            (mid.readIdx : Int) + more.length + block.length <
              mid.contentLength + mid.checkedIdx +
                bodyPassed (mid.unread ++ more)) ∧
        ¬ (mid.contentLength + mid.checkedIdx +
                lastLine (mid.unread ++ more ++ block) ≤ intMax ∧
            intMax <
              mid.contentLength + mid.checkedIdx +
                bodyPassed (mid.unread ++ more)) := by
  obtain ⟨wholeFramed, _⟩ := bodyStart.receive room
  obtain ⟨splitSame, splitUnread⟩ := waiting.receive bodyStart room
  have upper : mid.contentLength ≤ intMax := bodyStart.fits.2
  have positive := waiting.positive
  have splitLength : (d.receive block).contentLength = mid.contentLength :=
    splitSame.contentLength_eq
  have splitPositive : 0 < (d.receive block).contentLength := by
    rw [splitLength]
    exact positive
  have splitUpper : (d.receive block).contentLength ≤ intMax := by
    rw [splitLength]
    exact upper
  have wholePositive :
      0 < (mid.receive (more ++ block)).contentLength := positive
  have wholeUpper :
      (mid.receive (more ++ block)).contentLength ≤ intMax := upper
  rw [outcome_waiting_iff fs bodyStart waiting room,
    bodySmall_iff splitSame.framed splitPositive splitUpper,
    bodySmall_iff wholeFramed wholePositive wholeUpper]
  have splitChecked :
      (d.receive block).checkedIdx =
        mid.checkedIdx + bodyPassed (mid.unread ++ more) :=
    waiting.checkedIdx_eq
  have wholeUnread :
      (mid.receive (more ++ block)).unread =
        mid.unread ++ (more ++ block) :=
    unread_receive bodyStart.framed
  have wholeReadIdx :
      (mid.receive (more ++ block)).readIdx =
        mid.readIdx + more.length + block.length := by
    show mid.readIdx + (more ++ block).length = _
    rw [List.length_append]
    omega
  have splitReadIdx := splitSame.readIdx_eq
  have wholeLength :
      (mid.receive (more ++ block)).contentLength = mid.contentLength := rfl
  have wholeChecked :
      (mid.receive (more ++ block)).checkedIdx = mid.checkedIdx := rfl
  have total := wholeFramed.readIdx_le
  obtain ⟨_, lastEq⟩ := bodyPassed_append (mid.unread ++ more) block
  rw [List.append_assoc] at lastEq
  have linePassed := lastLine_le (mid.unread ++ more)
  have splitInside := splitSame.framed.checkedIdx_le
  have laterBound :
      lastLine ((mid.unread ++ (more ++ block)).drop
          (bodyPassed (mid.unread ++ more))) ≤ readBufferSize := by
    have line := lastLine_le ((mid.unread ++ (more ++ block)).drop
      (bodyPassed (mid.unread ++ more)))
    have passed := bodyPassed_le ((mid.unread ++ (more ++ block)).drop
      (bodyPassed (mid.unread ++ more)))
    rw [← splitUnread, length_unread splitSame.framed] at passed
    have bound := splitSame.framed.readIdx_le
    rw [← splitUnread] at line ⊢
    omega
  have sumLe := waiting.sum_le
  have lineLe := waiting.line_le
  unfold LineOverflows
  rw [splitLength, splitChecked, splitUnread, splitReadIdx, wholeReadIdx,
    wholeUnread, wholeLength, wholeChecked, List.append_assoc, lastEq]
  rw [wholeReadIdx] at total
  rw [splitReadIdx, wholeReadIdx, splitChecked] at splitInside
  simp only [intMax, readBufferSize] at *
  generalize lastLine ((mid.unread ++ (more ++ block)).drop
    (bodyPassed (mid.unread ++ more))) = later at *
  generalize lastLine (mid.unread ++ more) = former at *
  generalize bodyPassed (mid.unread ++ more) = passed at *
  by_cases none : later = 0
  · rw [if_pos none]
    omega
  · rw [if_neg none]
    omega

/-! ## All segments -/

/-- A parser that has stopped in the head has not seen a whole head. -/
theorem not_headOf_of_stopped
    {fs : FileSystem} {c d : Conn} {bytes : List UInt8}
    (fits : bytes.length ≤ readBufferSize)
    (resumes : Resumes fs (c.init.receive bytes) d) (head : d.InHead)
    (stopped : (scanLine d.unread).1 ≠ .lineOk)
    (target : List UInt8) (headers : List (List UInt8))
    (rest : List UInt8) : ¬ HeadOf bytes target headers rest := by
  intro isHead
  have startHead := (init_receive_atLine c fits).1.toInHead
  have turnEq := turn_eq head.framed fs .lineOk
  rw [if_neg (fun atHand => head.state_ne atHand.1),
    if_neg stopped] at turnEq
  have returns :
      Returns fs .lineOk (c.init.receive bytes) .noRequest
        (d.passed (scanLine d.unread)) :=
    resumes.returns_iff.mpr (.done turnEq)
  have lastState :
      (d.passed (scanLine d.unread)).checkState ≠ .content := by
    rw [passed_checkState]
    exact head.state_ne
  obtain ⟨blank, e, run, eState, fetch, nul⟩ :=
    blankLineAt_of_headOf fs c fits isHead
  have eHead : e.InHead := by
    refine run.inHead startHead ?_
    rw [eState]
    decide
  have blankTurn := blank_turn fs eHead eState fetch nul
  rw [run.returns_iff] at returns
  split at blankTurn
  · cases returns with
    | done turned =>
        rw [blankTurn] at turned
        cases turned
    | again turned later =>
        have nextFramed := (turn_again eHead.framed turned).1
        rw [blankTurn] at turned
        injection turned with statusEq nextEq
        subst statusEq
        have nextState : e.checkState = .header := eState
        refine lastState (content_of_returns nextFramed ?_ later)
        rw [← nextEq]
  · cases returns with
    | done turned =>
        rw [blankTurn] at turned
        injection turned with codeEq _
        exact doRequest_code_ne fs _ codeEq
    | again turned _ =>
        rw [blankTurn] at turned
        cases turned

/-- In the body the head of the bytes received is known. -/
theorem headOf_of_body
    {fs : FileSystem} (c : Conn) {initial : List UInt8} {mid : Conn}
    (fits : initial.length ≤ readBufferSize)
    (state : mid.checkState = .content)
    (run : HeadRun fs (c.init.receive initial) mid) :
    ∃ target headers, HeadOf initial target headers mid.unread ∧
      mid.contentLength = contentLengthOf headers := by
  have startHead := (init_receive_atLine c fits).1.toInHead
  obtain ⟨d, blank, _, midEq⟩ := run.exists_blankLine startHead state
  obtain ⟨target, headers, isHead, _, _, _, lengthEq, _⟩ :=
    headOf_of_blankLineAt fits blank
  subst midEq
  exact ⟨target, headers, isHead, lengthEq⟩

theorem init_inHead (c : Conn) : c.init.InHead := by
  have nothing : ([] : List UInt8).length ≤ readBufferSize :=
    Nat.zero_le _
  have head := (init_receive_atLine c nothing).1.toInHead
  rwa [receive_nil] at head

theorem init_fits (c : Conn) : Fits c.init.contentLength := by
  show Fits 0
  decide

/-- Before the first segment. -/
theorem after_init (fs : FileSystem) (c : Conn) :
    After fs c.init [] c.init := by
  refine .head (init_inHead c) (init_fits c) ?_ rfl ?_
  · have empty : c.init.unread = [] := rfl
    rw [empty]
    decide
  · exact fun block room => ⟨_, .refl _, (init_inHead c).state_ne, rfl⟩

/-- Where the parser stands before the last segment. -/
theorem after_of_afterCalls
    {fs : FileSystem} {c d : Conn} {early : List (List UInt8)}
    {last : List UInt8}
    (fits : (early.flatten ++ last).length ≤ readBufferSize)
    (opened : afterCalls fs c.init early = some d) :
    After fs c.init early.flatten d ∧ (d.receive last).Framed := by
  rw [List.length_append] at fits
  have earlyRoom : c.init.Room early.flatten := by
    show 0 + early.flatten.length ≤ readBufferSize
    omega
  have after :=
    after_calls (init_inHead c) (init_fits c) early earlyRoom
      (after_init fs c) opened
  rw [List.nil_append] at after
  obtain ⟨framed, readIdx⟩ :=
    after.framed (init_inHead c) (init_fits c) earlyRoom
  have start : c.init.readIdx = 0 := rfl
  refine ⟨after, framed.receive ?_⟩
  unfold Room
  omega

/-- Request parsing and segmentation: when the calls before the last all
return `NO_REQUEST`, the last call and one call on the whole, each from a
fresh connection, agree exactly when the early segments do not disturb the
count of the body. -/
theorem segmentation_iff
    (fs : FileSystem) (c : Conn) (early : List (List UInt8))
    (last : List UInt8)
    (fits : (early.flatten ++ last).length ≤ readBufferSize)
    {d : Conn} (opened : afterCalls fs c.init early = some d) :
    outcome ((d.receive last).processRead fs) =
        outcome
          ((c.init.receive (early.flatten ++ last)).processRead fs) ↔
      CountsBody early.flatten last := by
  have wholeFits := fits
  obtain ⟨after, framed⟩ := after_of_afterCalls fits opened
  rw [List.length_append] at fits
  have startHead := init_inHead c
  have startFits := init_fits c
  have earlyFits : early.flatten.length ≤ readBufferSize := by omega
  have earlyRoom : c.init.Room early.flatten := by
    show 0 + early.flatten.length ≤ readBufferSize
    omega
  have wholeRoom : c.init.Room (early.flatten ++ last) := by
    show 0 + (early.flatten ++ last).length ≤ readBufferSize
    omega
  have wholeFramed := startHead.framed.receive wholeRoom
  cases after with
  | head inHead _ stopped readIdx_eq resumes =>
      have same :
          (d.receive last).processRead fs =
            (c.init.receive (early.flatten ++ last)).processRead fs := by
        have returns := returns_processRead framed fs
        rw [← (resumes last wholeRoom).returns_iff] at returns
        exact ((processRead_eq_iff wholeFramed fs).mpr returns).symm
      have resumed := resumes [] (by rw [List.append_nil]; exact earlyRoom)
      rw [List.append_nil, receive_nil] at resumed
      rw [same]
      refine iff_of_true rfl (fun target headers rest isHead => ?_)
      exact
        absurd isHead
          (not_headOf_of_stopped earlyFits resumed inHead stopped
            target headers rest)
  | body mid initial more bodyStart split run waiting =>
      rw [split] at fits earlyFits wholeFramed wholeFits ⊢
      rw [List.length_append] at fits earlyFits
      have initialFits : initial.length ≤ readBufferSize := by omega
      have initialRoom : c.init.Room initial := by
        show 0 + initial.length ≤ readBufferSize
        omega
      have initialHead := startHead.receive initialRoom
      have midIdx : mid.readIdx = 0 + initial.length :=
        (run.fits initialHead startFits).2
      have room : mid.Room (more ++ last) := by
        unfold Room
        rw [List.length_append]
        omega
      have restRoom : (c.init.receive initial).Room (more ++ last) := by
        show 0 + initial.length + (more ++ last).length ≤ readBufferSize
        rw [List.length_append]
        omega
      have wholeRun := run.receive initialHead restRoom
      rw [receive_append c.init initial (more ++ last) (Nat.zero_le _),
        ← List.append_assoc] at wholeRun
      have same :
          (c.init.receive (initial ++ more ++ last)).processRead fs =
            (mid.receive (more ++ last)).processRead fs := by
        have midFramed := (bodyStart.receive room).1
        have returns := returns_processRead midFramed fs
        rw [← wholeRun.returns_iff] at returns
        exact (processRead_eq_iff wholeFramed fs).mpr returns
      obtain ⟨target, headers, isHead, lengthEq⟩ :=
        headOf_of_body c initialFits bodyStart.state run
      have unreadLength := length_unread bodyStart.framed
      have inside := bodyStart.framed.checkedIdx_le
      rw [same, waiting_last fs bodyStart waiting room,
        countsBody_iff (HeadOf.append isHead more), ← lengthEq]
      simp only [List.length_append]
      have headLength :
          initial.length + more.length -
              (mid.unread.length + more.length) = mid.checkedIdx := by
        omega
      rw [headLength, midIdx]
      simp only [Nat.zero_add, Int.natCast_add]

def getFive : List UInt8 :=
  ascii "GET / HTTP/1.1" ++ crlf ++ ascii "Content-Length: 5" ++ crlf ++ crlf

theorem headOf_getFive :
    HeadOf getFive (ascii "/") [ascii "Content-Length: 5"] [] :=
  headOf_of_one_header (by decide) requestLine_getRoot (by decide)
    (by decide) (by decide)

/-- A body that arrives after its head, in one segment, is counted right. -/
theorem segmentation_head_then_body :
    ∃ d, afterCalls noFiles zeroed.init [getFive] = some d ∧
      outcome ((d.receive (ascii "hello")).processRead noFiles) =
        outcome
          ((zeroed.init.receive (getFive ++ ascii "hello")).processRead
            noFiles) := by
  have isOpen : (afterCalls noFiles zeroed.init [getFive]).isSome := by
    decide
  obtain ⟨d, opened⟩ := Option.isSome_iff_exists.mp isOpen
  have counts : CountsBody getFive (ascii "hello") :=
    (countsBody_iff headOf_getFive).mpr ⟨by decide, by decide⟩
  have early : [getFive].flatten = getFive := List.append_nil getFive
  have agree :=
    segmentation_iff noFiles zeroed [getFive] (ascii "hello") (by decide)
      opened
  rw [early] at agree
  exact ⟨d, opened, agree.mpr counts⟩

/-- A body that is cut after two bytes is not: the last call still waits. -/
theorem segmentation_splits_body :
    ∃ d, afterCalls noFiles zeroed.init [getFive ++ ascii "he"] = some d ∧
      outcome ((d.receive (ascii "llo")).processRead noFiles) ≠
        outcome
          ((zeroed.init.receive (getFive ++ ascii "hello")).processRead
            noFiles) := by
  have split :
      (afterCalls noFiles zeroed.init [getFive ++ ascii "he"]).map
          (fun d => ((d.receive (ascii "llo")).processRead noFiles).1) =
        some .noRequest := by
    decide
  have whole :
      ((zeroed.init.receive (getFive ++ ascii "hello")).processRead
        noFiles).1 = .noResource := by
    decide
  obtain ⟨d, opened, waits⟩ := Option.map_eq_some_iff.mp split
  refine ⟨d, opened, fun same => ?_⟩
  have codes := congrArg Outcome.code same
  rw [outcome, outcome, waits, whole] at codes
  cases codes

end Conn

end LinuxNet.WebServer
