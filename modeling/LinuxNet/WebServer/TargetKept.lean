import LinuxNet.WebServer.Handlers
import LinuxNet.WebServer.TargetSpots

/-!
# The target and the host when `do_request` runs

The line terminators stand behind the target and the `Host` value, and so
does the NUL that `parse_content` stores behind a body.  With a negative
`Content-Length` the same store goes back into the head: `do_request` finds
the target and the `Host` value as they were received unless that store hits
one of their bytes.
-/

namespace LinuxNet.WebServer

open LinuxNet.CString LinuxNet.CInt

/-- The index is that of a byte of a text that starts at a place. -/
def IsByteOf (index start : Nat) (text : List UInt8) : Prop :=
  start ≤ index ∧ index < start + text.length

/-- A negative `Content-Length` leads from the start of the body back to a
byte of the target or of the last `Host` value. -/
def CutsHead (bytes target : List UInt8) (headers : List (List UInt8))
    (rest : List UInt8) : Prop :=
  contentLengthOf headers < 0 ∧
    ∃ url host index, SpotsOf bytes url host ∧
      ((index : Nat) : Int) =
        (bytes.length - rest.length : Nat) + contentLengthOf headers ∧
      (IsByteOf index url target ∨
        ∃ start value, host = some start ∧
          lastValue hostName headers = some value ∧
            IsByteOf index start value)

/-- A NUL changes a string exactly when it is stored over one of its
bytes. -/
theorem cstr_set_eq_iff
    {memory text : List UInt8} {start : Nat}
    (string : StringAt memory start text) (index : Nat) :
    cstr (memory.set index 0) start = text ↔
      ¬ IsByteOf index start text := by
  unfold IsByteOf
  by_cases below : index < start
  · rw [(string.set_of_lt below).cstr_eq]
    exact iff_of_true rfl (by omega)
  obtain ⟨count, rfl⟩ : ∃ count, index = start + count :=
    ⟨index - start, by omega⟩
  by_cases inside : count ≤ text.length
  · rw [(string.set_nul count inside).cstr_eq]
    constructor
    · intro same
      have lengths := congrArg List.length same
      rw [List.length_take] at lengths
      omega
    · intro outside
      exact List.take_of_length_le (by omega)
  · have agree :
        (memory.set (start + count) 0).take (start + count) =
          memory.take (start + count) :=
      List.take_set_of_le (Nat.le_refl _)
    rw [(string.of_take_eq (by omega) agree).cstr_eq]
    exact iff_of_true rfl (by omega)

namespace Conn

/-- The object has the target and the last `Host` value of a head. -/
def HasTexts (c : Conn) (target : List UInt8)
    (headers : List (List UInt8)) : Prop :=
  c.urlText = target ∧ c.hostText = lastValue hostName headers

/-- A call of `process_read` runs `do_request` on an object: whatever the
files are, the two answer alike. -/
def ReachesDoRequest (c e : Conn) : Prop :=
  ∀ fs, c.processRead fs = e.doRequest fs

theorem reachesDoRequest_of_noFiles
    {c e : Conn} (answer : c.processRead noFiles = e.doRequest noFiles) :
    c.ReachesDoRequest e := by
  intro fs
  rw [processRead_fileSystem, answer, answeredBy_doRequest]

theorem exists_reachesDoRequest_iff
    {c : Conn} (framed : c.Framed) :
    (∃ e, c.ReachesDoRequest e) ↔
      (c.processRead noFiles).1 = .noResource := by
  constructor
  · rintro ⟨e, reaches⟩
    rw [reaches noFiles]
    rfl
  · intro answer
    obtain ⟨d, _, _, waits | refused | ⟨_, requested⟩⟩ :=
      processRead_cases framed noFiles
    · rw [waits] at answer
      cases answer
    · rw [refused] at answer
      cases answer
    · exact ⟨d, reachesDoRequest_of_noFiles requested⟩

theorem doRequest_hasTexts_iff
    (fs : FileSystem) (c : Conn) (target : List UInt8)
    (headers : List (List UInt8)) :
    (c.doRequest fs).2.HasTexts target headers ↔
      c.HasTexts target headers := by
  have keeps := doRequest_keeps fs c
  unfold HasTexts urlText hostText
  rw [keeps.url_eq, keeps.host_eq, keeps.readBuf_eq]

theorem Texts.string
    {c : Conn} {start stop : Nat} (texts : Texts c stop)
    (inside : stop ≤ c.readBuf.length) (below : start < stop) :
    StringAt c.readBuf start (cstr c.readBuf start) :=
  (StringAt.of_getD_eq_zero c.readBuf start (stop - 1) (by omega)
    (by omega) (texts.nul (by omega))).1

/-- A NUL stored in the array changes the texts exactly when it hits one of
their bytes. -/
theorem hasTexts_set_iff
    {c : Conn} {target : List UInt8} {headers : List (List UInt8)}
    {url stop : Nat} (texts : Texts c stop)
    (inside : stop ≤ c.readBuf.length) (urlEq : c.url = some url)
    (hasTexts : c.HasTexts target headers) (index : Nat) :
    { c with readBuf := c.readBuf.set index 0 }.HasTexts target headers ↔
      ¬ (IsByteOf index url target ∨
        ∃ start value, c.host = some start ∧
          lastValue hostName headers = some value ∧
            IsByteOf index start value) := by
  obtain ⟨urlText, hostText⟩ := hasTexts
  have urlString := texts.string inside (texts.url_lt url urlEq)
  have urlIs : cstr c.readBuf url = target := by
    rw [← urlText, Conn.urlText, urlEq]
  rw [urlIs] at urlString
  have urlKept :
      { c with readBuf := c.readBuf.set index 0 }.urlText = target ↔
        ¬ IsByteOf index url target := by
    rw [← cstr_set_eq_iff urlString index, Conn.urlText]
    simp only [urlEq]
  have hostKept :
      { c with readBuf := c.readBuf.set index 0 }.hostText =
          lastValue hostName headers ↔
        ¬ ∃ start value, c.host = some start ∧
          lastValue hostName headers = some value ∧
            IsByteOf index start value := by
    cases hostEq : c.host with
    | none =>
        have unset : lastValue hostName headers = none := by
          rw [← hostText, Conn.hostText, hostEq]
          rfl
        rw [unset, Conn.hostText]
        simp
    | some start =>
        have hostString := texts.string inside (texts.host_lt start hostEq)
        have isSet :
            lastValue hostName headers =
              some (cstr c.readBuf start) := by
          rw [← hostText, Conn.hostText, hostEq]
          rfl
        rw [isSet, Conn.hostText]
        simp only [Option.map_some, Option.some_inj,
          cstr_set_eq_iff hostString index]
        constructor
        · rintro outside ⟨_, _, rfl, rfl, hits⟩
          exact outside hits
        · intro none hits
          exact none ⟨_, _, rfl, rfl, hits⟩
  unfold HasTexts
  rw [urlKept, hostKept, not_or]

/-- The store of `parse_content` when it finds a body complete. -/
theorem hasTexts_bodyCut_iff
    {c : Conn} {target : List UInt8} {headers : List (List UInt8)}
    {url : Nat} (framed : c.Framed) (texts : Texts c c.startLine)
    (urlEq : c.url = some url) (hasTexts : c.HasTexts target headers) :
    c.bodyCut.HasTexts target headers ↔
      ¬ ∃ index : Nat, (index : Int) = c.startLine + c.contentLength ∧
        (IsByteOf index url target ∨
          ∃ start value, c.host = some start ∧
            lastValue hostName headers = some value ∧
              IsByteOf index start value) := by
  have inside : c.startLine ≤ c.readBuf.length := by
    have ordered := framed.startLine_le
    have checked := framed.checkedIdx_le
    have bound := framed.readIdx_le
    rw [framed.length_eq]
    omega
  by_cases before : (c.startLine : Int) + c.contentLength < 0
  · have untouched : c.bodyCut.HasTexts target headers := by
      obtain ⟨_, _, _, shape, rfl | ⟨position, indexEq, _⟩⟩ :=
        bodyCut_frame c
      · rw [shape]
        exact hasTexts
      · omega
    refine iff_of_true untouched ?_
    rintro ⟨index, indexEq, _⟩
    omega
  · obtain ⟨index, indexEq⟩ :
        ∃ index : Nat, (c.startLine : Int) + c.contentLength = index :=
      ⟨(c.startLine + c.contentLength).toNat, by omega⟩
    have stored :
        c.bodyCut.HasTexts target headers ↔
          { c with
            readBuf := c.readBuf.set index 0 }.HasTexts target headers := by
      unfold bodyCut
      rw [indexEq, store_natCast]
      rfl
    rw [stored, hasTexts_set_iff texts inside urlEq hasTexts index]
    apply not_congr
    constructor
    · intro hits
      exact ⟨index, indexEq.symm, hits⟩
    · rintro ⟨other, otherEq, hits⟩
      have same : other = index := by omega
      rw [← same]
      exact hits

theorem SameHead.hasTexts
    {stop : Nat} {c e : Conn} {target : List UInt8}
    {headers : List (List UInt8)} (same : SameHead stop c e)
    (texts : Texts c stop) (inside : stop ≤ c.readBuf.length)
    (hasTexts : c.HasTexts target headers) :
    e.HasTexts target headers := by
  obtain ⟨urlText, hostText⟩ :=
    texts.texts_eq inside same.url_eq same.host_eq same.take_eq
  exact ⟨urlText.trans hasTexts.1, hostText.trans hasTexts.2⟩

/-- A call in the body that answers leaves the texts as they were. -/
theorem SameHead.hasTexts_of_answered
    {fs : FileSystem} {stop : Nat} {c d last : Conn} {code : HttpCode}
    {target : List UInt8} {headers : List (List UInt8)}
    (same : SameHead stop c d) (texts : Texts c stop)
    (inside : stop ≤ c.readBuf.length)
    (hasTexts : c.HasTexts target headers)
    (positive : 0 < c.contentLength) (bounded : c.contentLength ≤ intMax)
    (returns : Returns fs .lineOk d code last)
    (answered : code ≠ .noRequest) : last.HasTexts target headers := by
  obtain ⟨done, opened⟩ :=
    body_call stop same.framed same.state same.le_startLine
      (by rw [same.contentLength_eq]; exact positive)
      (by rw [same.contentLength_eq]; exact bounded) returns
  by_cases either : d.BodySmall ∨ d.LineOverflows
  · obtain ⟨e, later, result⟩ := done either
    have lastEq : last = (e.doRequest fs).2 := congrArg Prod.snd result
    rw [lastEq, doRequest_hasTexts_iff]
    exact (same.trans later).hasTexts texts inside hasTexts
  · exact absurd (opened either).code_eq answered

theorem not_cutsHead_of_nonneg
    {bytes target rest : List UInt8} {headers : List (List UInt8)}
    (nonneg : 0 ≤ contentLengthOf headers) :
    ¬ CutsHead bytes target headers rest := by
  rintro ⟨negative, _⟩
  omega

/-! ## The call in which the head ends -/

structure EntersBody (bytes target : List UInt8)
    (headers : List (List UInt8)) (rest : List UInt8) (mid : Conn) :
    Prop where
  isHead : HeadOf bytes target headers rest
  framed : mid.Framed
  texts : Texts mid mid.startLine
  state : mid.checkState = .content
  fits : Fits mid.contentLength
  hasTexts : mid.HasTexts target headers
  contentLength_eq : mid.contentLength = contentLengthOf headers
  startLine_eq : mid.startLine = bytes.length - rest.length
  spots :
    ∀ url host, SpotsOf bytes url host →
      mid.url = some url ∧ mid.host = host

theorem EntersBody.inside
    {bytes target rest : List UInt8} {headers : List (List UInt8)}
    {mid : Conn} (enters : EntersBody bytes target headers rest mid) :
    mid.startLine ≤ mid.readBuf.length := by
  have ordered := enters.framed.startLine_le
  have checked := enters.framed.checkedIdx_le
  have bound := enters.framed.readIdx_le
  rw [enters.framed.length_eq]
  omega

/-- With a negative length the body is complete at once, and the store goes
back into the head. -/
theorem EntersBody.negative
    {fs : FileSystem} {bytes target rest : List UInt8}
    {headers : List (List UInt8)} {mid last : Conn} {code : HttpCode}
    (enters : EntersBody bytes target headers rest mid)
    (negative : contentLengthOf headers < 0)
    (returns : Returns fs .lineOk mid code last) :
    last.HasTexts target headers ↔
      ¬ CutsHead bytes target headers rest := by
  have lengthEq := enters.contentLength_eq
  have ordered := enters.framed.startLine_le
  have checked := enters.framed.checkedIdx_le
  have bound := enters.framed.readIdx_le
  have turnEq := turn_eq enters.framed fs .lineOk
  rw [if_pos ⟨enters.state, rfl⟩, dispatchLine_content fs enters.state,
    if_pos (by
      rw [toInt_of_fits ⟨by
        have lower := enters.fits.1
        omega, by
        simp only [intMax, readBufferSize] at *
        omega⟩]
      omega)] at turnEq
  have result : (code, last) = mid.bodyCut.doRequest fs := by
    cases returns with
    | done turned =>
        rw [turnEq] at turned
        cases turned
        rfl
    | again turned _ =>
        rw [turnEq] at turned
        cases turned
  obtain ⟨url, host, spots⟩ := enters.isHead.exists_spots
  obtain ⟨urlEq, hostEq⟩ := enters.spots url host spots
  have lastEq : last = (mid.bodyCut.doRequest fs).2 :=
    congrArg Prod.snd result
  rw [lastEq, doRequest_hasTexts_iff,
    hasTexts_bodyCut_iff enters.framed enters.texts urlEq enters.hasTexts]
  apply not_congr
  rw [enters.startLine_eq, lengthEq]
  constructor
  · rintro ⟨index, indexEq, hits⟩
    rw [hostEq] at hits
    exact ⟨negative, url, host, index, spots, indexEq, hits⟩
  · rintro ⟨_, otherUrl, otherHost, index, otherSpots, indexEq, hits⟩
    obtain ⟨sameUrl, sameHost⟩ := enters.spots _ _ otherSpots
    rw [urlEq] at sameUrl
    cases sameUrl
    rw [← sameHost] at hits
    exact ⟨index, indexEq, hits⟩

/-- With a positive length the store stands behind the head. -/
theorem EntersBody.positive
    {fs : FileSystem} {bytes target rest : List UInt8}
    {headers : List (List UInt8)} {mid last : Conn} {code : HttpCode}
    (enters : EntersBody bytes target headers rest mid)
    (positive : 0 < contentLengthOf headers)
    (returns : Returns fs .lineOk mid code last)
    (answered : code ≠ .noRequest) :
    last.HasTexts target headers ↔
      ¬ CutsHead bytes target headers rest := by
  have midPositive : 0 < mid.contentLength := by
    rw [enters.contentLength_eq]
    exact positive
  have same : SameHead mid.startLine mid mid :=
    .refl enters.framed enters.state (Nat.le_refl _)
  exact
    iff_of_true
      (same.hasTexts_of_answered enters.texts enters.inside
        enters.hasTexts midPositive enters.fits.2 returns answered)
      (not_cutsHead_of_nonneg (Int.le_of_lt positive))

/-- A body that comes in several segments stands behind the head as well. -/
theorem EntersBody.hasTexts_of_waiting
    {fs : FileSystem} {bytes target rest more block : List UInt8}
    {headers : List (List UInt8)} {mid d last : Conn} {code : HttpCode}
    (enters : EntersBody bytes target headers rest mid)
    (waiting : Waiting mid more d) (room : mid.Room (more ++ block))
    (returns : Returns fs .lineOk (d.receive block) code last)
    (answered : code ≠ .noRequest) : last.HasTexts target headers := by
  have bodyStart : BodyStart mid :=
    ⟨enters.framed, enters.texts, enters.state, enters.fits⟩
  have atEnd : mid.startLine ≤ mid.readIdx :=
    Nat.le_trans enters.framed.startLine_le enters.framed.checkedIdx_le
  obtain ⟨received, _⟩ := bodyStart.receive room
  obtain ⟨same, _⟩ := waiting.receive bodyStart room
  have agree :
      (mid.receive (more ++ block)).readBuf.take mid.startLine =
        mid.readBuf.take mid.startLine :=
    receive_take enters.framed atEnd
  have texts : Texts (mid.receive (more ++ block)) mid.startLine :=
    texts_receive enters.framed enters.texts atEnd
  have inside :
      mid.startLine ≤ (mid.receive (more ++ block)).readBuf.length := by
    rw [received.length_eq, ← enters.framed.length_eq]
    exact enters.inside
  have hasTexts : (mid.receive (more ++ block)).HasTexts target headers := by
    obtain ⟨urlText, hostText⟩ :=
      enters.texts.texts_eq (d := mid.receive (more ++ block))
        enters.inside rfl rfl agree
    exact
      ⟨urlText.trans enters.hasTexts.1, hostText.trans enters.hasTexts.2⟩
  exact
    same.hasTexts_of_answered texts inside hasTexts waiting.positive
      enters.fits.2 returns answered

/-- The head of the bytes received, at the start of the body. -/
theorem exists_entersBody
    {fs : FileSystem} (c : Conn) {bytes : List UInt8} {mid : Conn}
    (fits : bytes.length ≤ readBufferSize) (bodyStart : BodyStart mid)
    (run : HeadRun fs (c.init.receive bytes) mid) :
    mid.contentLength ≠ 0 ∧ ∃ target headers,
      EntersBody bytes target headers mid.unread mid := by
  have startHead := (init_receive_atLine c fits).1.toInHead
  obtain ⟨d, blank, nonzero, midEq⟩ :=
    run.exists_blankLine startHead bodyStart.state
  obtain ⟨target, headers, isHead, _, urlText, _, lengthEq, hostText⟩ :=
    headOf_of_blankLineAt fits blank
  have readIdx : mid.readIdx = bytes.length := by
    rw [(run.fits startHead (init_fits c)).2]
    exact Nat.zero_add bytes.length
  have unreadLength := length_unread bodyStart.framed
  have checked := bodyStart.framed.checkedIdx_le
  have atLine : mid.startLine = mid.checkedIdx := by
    rw [midEq]
    rfl
  have sameUrl : mid.url = d.url := by rw [midEq]; rfl
  have sameHost : mid.host = d.host := by rw [midEq]; rfl
  refine ⟨by rw [midEq]; exact nonzero, target, headers, ?_⟩
  exact
    { isHead := by rw [midEq]; exact isHead
      framed := bodyStart.framed
      texts := bodyStart.texts
      state := bodyStart.state
      fits := bodyStart.fits
      hasTexts := by rw [midEq]; exact ⟨urlText, hostText⟩
      contentLength_eq := by rw [midEq]; exact lengthEq
      startLine_eq := by omega
      spots := by
        intro url host spots
        rw [sameUrl, sameHost]
        exact spots_of_blankLineAt fits spots blank }

/-- A turn of the head that looks up a file stands at an empty line. -/
theorem header_of_noResource
    {c last : Conn} (head : c.InHead)
    (turned : c.turn noFiles .lineOk = .done .noResource last) :
    ∃ d, c.checkState = .header ∧ c.fetchLine .lineOk = (.lineOk, d) ∧
      d.readBuf.getD d.startLine 0 = 0 := by
  have shape := turnShape head.framed noFiles .lineOk
  rw [turned] at shape
  generalize result : Turn.done .noResource last = outcome at shape
  cases shape with
  | stopped _ _ => cases result
  | requestLine _ _ _ _ => split at result <;> cases result
  | content _ state _ => exact absurd state head.state_ne
  | @header line state found string _ =>
      refine ⟨_, state, by rw [fetchLine_in_head head, found], ?_⟩
      have empty : line = [] := by
        by_contra nonempty
        have accepted :=
          (headersOn_parsed (c := (c.passed (scanLine c.unread)).entered)
            string nonempty).1
        rw [if_neg (by rw [accepted]; decide)] at result
        cases result
      subst empty
      have first := string.getD_eq 0 (Nat.zero_le _)
      rw [Nat.add_zero] at first
      rw [passed_startLine]
      exact first

/-- A call on all bytes. -/
theorem headCall
    (c : Conn) {bytes : List UInt8} {last : Conn}
    (fits : bytes.length ≤ readBufferSize)
    (returns :
      Returns noFiles .lineOk (c.init.receive bytes) .noResource last) :
    ∃ target headers rest, HeadOf bytes target headers rest ∧
      (last.HasTexts target headers ↔
        ¬ CutsHead bytes target headers rest) := by
  have startHead := (init_receive_atLine c fits).1.toInHead
  cases headEnd noFiles startHead with
  | body mid run state framed texts _ =>
      have midFits := (run.fits startHead (init_fits c)).1
      obtain ⟨nonzero, target, headers, enters⟩ :=
        exists_entersBody c fits ⟨framed, texts, state, midFits⟩ run
      refine ⟨target, headers, mid.unread, enters.isHead, ?_⟩
      have returnsMid := run.returns_iff.mp returns
      rw [enters.contentLength_eq] at nonzero
      rcases Int.lt_or_lt_of_ne nonzero with negative | positive
      · exact enters.negative negative returnsMid
      · exact enters.positive positive returnsMid (by decide)
  | returned mid run head code after turned =>
      obtain ⟨codeEq, lastEq⟩ :=
        (Returns.done turned).unique (run.returns_iff.mp returns)
      subst codeEq
      subst lastEq
      obtain ⟨d, state, fetch, nul⟩ := header_of_noResource head turned
      obtain ⟨target, headers, isHead, _, urlText, _, lengthEq,
        hostText⟩ :=
        headOf_of_blankLineAt fits ⟨mid, run, state, fetch, nul⟩
      have blankTurn := blank_turn noFiles head state fetch nul
      rw [turned] at blankTurn
      refine ⟨target, headers, d.unread, isHead, ?_⟩
      split at blankTurn
      · cases blankTurn
      · rename_i bodyless
        injection blankTurn with _ afterEq
        have hasTexts : d.entered.HasTexts target headers :=
          ⟨urlText, hostText⟩
        rw [afterEq, doRequest_hasTexts_iff]
        refine iff_of_true hasTexts (not_cutsHead_of_nonneg ?_)
        rw [← lengthEq]
        omega

/-- The calls before the last do not look at the files. -/
theorem afterCalls_fileSystem
    (fs : FileSystem) {c d : Conn} {segments : List (List UInt8)}
    (opened : afterCalls fs c segments = some d) :
    afterCalls noFiles c segments = some d := by
  induction segments generalizing c with
  | nil => exact opened
  | cons segment segments inductionHypothesis =>
      rw [afterCalls, processRead_fileSystem] at opened
      rw [afterCalls]
      rcases called : (c.receive segment).processRead noFiles with
        ⟨code, next⟩
      rw [called] at opened
      cases code with
      | noRequest => exact inductionHypothesis opened
      | noResource =>
          have answered := doRequest_code_ne fs next
          rw [answeredBy] at opened
          split at opened
          · rename_i waits
            rw [waits] at answered
            exact absurd rfl answered
          · cases opened
      | _ => cases opened

/-- Whenever the call that comes with the last segment of a request reaches
`do_request`, its object has in `m_url` and `m_host` the target and the last
`Host` value as they were received, exactly when `Content-Length` does not
lead back to one of their bytes. -/
theorem texts_kept_iff
    (fs : FileSystem) (c : Conn) (early : List (List UInt8))
    (last : List UInt8) {d e : Conn}
    (fits : (early.flatten ++ last).length ≤ readBufferSize)
    (opened : afterCalls fs c.init early = some d)
    (reaches : (d.receive last).ReachesDoRequest e) :
    ∃ target headers rest,
      HeadOf (early.flatten ++ last) target headers rest ∧
        (e.urlText = target ∧ e.hostText = lastValue hostName headers ↔
          ¬ CutsHead (early.flatten ++ last) target headers rest) := by
  obtain ⟨after, framed⟩ :=
    after_of_afterCalls fits (afterCalls_fileSystem fs opened)
  have wholeRoom : c.init.Room (early.flatten ++ last) := by
    show 0 + (early.flatten ++ last).length ≤ readBufferSize
    omega
  have returns := returns_processRead framed noFiles
  rw [reaches noFiles] at returns
  have sameTexts :
      ∀ target headers,
        (e.doRequest noFiles).2.HasTexts target headers ↔
          (e.urlText = target ∧
            e.hostText = lastValue hostName headers) :=
    doRequest_hasTexts_iff noFiles e
  cases after with
  | head inHead lengthFits stopped readIdx_eq resumes =>
      rw [← (resumes last wholeRoom).returns_iff] at returns
      obtain ⟨target, headers, rest, isHead, kept⟩ :=
        headCall c fits returns
      rw [sameTexts] at kept
      exact ⟨target, headers, rest, isHead, kept⟩
  | body mid initial more bodyStart split run waiting =>
      rw [split, List.length_append, List.length_append] at fits
      have initialFits : initial.length ≤ readBufferSize := by omega
      have midIdx : mid.readIdx = 0 + initial.length :=
        (run.fits (init_receive_atLine c initialFits).1.toInHead
          (init_fits c)).2
      have room : mid.Room (more ++ last) := by
        unfold Room
        rw [List.length_append]
        omega
      obtain ⟨_, target, headers, enters⟩ :=
        exists_entersBody c initialFits bodyStart run
      have kept :=
        enters.hasTexts_of_waiting waiting room returns
          (doRequest_code_ne noFiles e)
      rw [sameTexts] at kept
      rw [split, List.append_assoc]
      refine
        ⟨target, headers, mid.unread ++ (more ++ last),
          enters.isHead.append (more ++ last),
          iff_of_true kept (not_cutsHead_of_nonneg ?_)⟩
      rw [← enters.contentLength_eq]
      exact Int.le_of_lt waiting.positive

/-- A body in a segment of its own. -/
theorem texts_kept_iff_head_then_body :
    ∃ d e, afterCalls noFiles zeroed.init [getFive] = some d ∧
      (d.receive (ascii "hello")).ReachesDoRequest e ∧
      ∃ target headers rest,
        HeadOf ([getFive].flatten ++ ascii "hello") target headers rest ∧
          (e.urlText = target ∧ e.hostText = lastValue hostName headers ↔
            ¬ CutsHead ([getFive].flatten ++ ascii "hello") target headers
              rest) := by
  have answer :
      (afterCalls noFiles zeroed.init [getFive]).map
          (fun d => ((d.receive (ascii "hello")).processRead noFiles).1) =
        some .noResource := by
    decide
  have fits :
      ([getFive].flatten ++ ascii "hello").length ≤ readBufferSize := by
    decide
  obtain ⟨d, opened, looksUp⟩ := Option.map_eq_some_iff.mp answer
  obtain ⟨_, framed⟩ := after_of_afterCalls fits opened
  obtain ⟨e, reaches⟩ := (exists_reachesDoRequest_iff framed).mpr looksUp
  exact
    ⟨d, e, opened, reaches,
      texts_kept_iff noFiles zeroed [getFive] (ascii "hello") fits opened
        reaches⟩

/-- A head whose `Content-Length` leads from the start of the body, at index
42, back to the third byte of the target. -/
def getBack : List UInt8 :=
  ascii "GET /abc HTTP/1.1" ++ crlf ++ ascii "Content-Length: -36" ++ crlf ++
    crlf

theorem headOf_getBack :
    HeadOf getBack (ascii "/abc") [ascii "Content-Length: -36"] [] := by
  have line :
      cText (ascii "GET /abc HTTP/1.1") =
        ascii "GET /" ++ ascii "abc" ++ ascii " HTTP/1.1" := by
    decide
  have isRequestLine :
      RequestLine (cText (ascii "GET /abc HTTP/1.1")) (ascii "/abc") := by
    rw [line]
    exact requestLine_get (by decide)
  exact
    headOf_of_one_header (by decide) isRequestLine (by decide) (by decide)
      (by decide)

theorem negative_length_cuts_target :
    ¬ ∀ (fs : FileSystem) (c : Conn) (early : List (List UInt8))
        (last : List UInt8) (d e : Conn),
        (early.flatten ++ last).length ≤ readBufferSize →
          afterCalls fs c.init early = some d →
            (d.receive last).ReachesDoRequest e →
              ∀ target headers rest,
                HeadOf (early.flatten ++ last) target headers rest →
                  e.urlText = target ∧
                    e.hostText = lastValue hostName headers := by
  intro always
  have answer :
      ((zeroed.init.receive getBack).processRead noFiles).1 =
          .noResource ∧
        ((zeroed.init.receive getBack).processRead noFiles).2.urlText =
          ascii "/a" := by
    decide
  have framed : (zeroed.init.receive getBack).Framed :=
    (init_receive_atLine zeroed (by decide)).1.framed
  obtain ⟨e, reaches⟩ :=
    (exists_reachesDoRequest_iff framed).mpr answer.1
  have texts :
      (e.doRequest noFiles).2.HasTexts (ascii "/abc")
        [ascii "Content-Length: -36"] :=
    (doRequest_hasTexts_iff noFiles e _ _).mpr
      (always noFiles zeroed [] getBack zeroed.init e (by decide) rfl reaches
        _ _ _ headOf_getBack)
  have cut := answer.2
  rw [reaches noFiles, texts.1] at cut
  revert cut
  decide

end Conn

end LinuxNet.WebServer
