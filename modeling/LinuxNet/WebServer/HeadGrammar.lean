import LinuxNet.WebServer.Grammar

/-!
# The request head is parsed exactly

One call of `process_read` on a fresh connection reaches the empty line that
ends a head if and only if the bytes start with a head of the grammar, and at
that moment the parse results are what the lines of the head say.

In a fresh connection every turn of the head starts at a line, so that the
bytes not yet passed are the bytes of the lines that follow; the proof is an
induction on these.
-/

namespace LinuxNet.WebServer

open LinuxNet.CString LinuxNet.CInt

namespace Conn

/-! ## Lines -/

structure AtLine (c : Conn) : Prop extends c.InHead where
  startLine_eq : c.startLine = c.checkedIdx

theorem takeWhile_append_nul (line tail : List UInt8) :
    (line ++ 0 :: tail).takeWhile (· ≠ 0) = line.takeWhile (· ≠ 0) := by
  induction line with
  | nil => simp
  | cons byte line inductionHypothesis =>
      rw [List.cons_append, List.takeWhile_cons, List.takeWhile_cons,
        inductionHypothesis]

/-- The scanner leaves the line as a C string. -/
theorem AtLine.string
    {c : Conn} {line rest : List UInt8} (atLine : c.AtLine)
    (shape : c.unread = line ++ 13 :: 10 :: rest) (clean : Clean line) :
    StringAt (c.passed (scanLine c.unread)).readBuf c.startLine
      (cText line) := by
  rw [shape, scanLine_found clean, passed_lineOk, atLine.startLine_eq]
  have behind :
      c.readBuf.drop c.checkedIdx =
        line ++ 13 :: 10 :: (rest ++ c.readBuf.drop c.readIdx) := by
    have whole :
        c.readBuf.drop c.checkedIdx =
          c.unread ++ c.readBuf.drop c.readIdx := by
      have inside := atLine.framed.checkedIdx_le
      have bound := atLine.framed.readIdx_le
      have length := atLine.framed.length_eq
      calc
        c.readBuf.drop c.checkedIdx =
            (c.readBuf.take c.readIdx ++
              c.readBuf.drop c.readIdx).drop c.checkedIdx := by
          rw [List.take_append_drop]
        _ = _ := List.drop_append_of_le_length
          (by rw [List.length_take]; omega)
    rw [whole, shape]
    simp
  have cut :
      ((c.readBuf.set (c.checkedIdx + line.length) 0).set
            (c.checkedIdx + line.length + 1) 0).drop c.checkedIdx =
        line ++ 0 :: 0 :: (rest ++ c.readBuf.drop c.readIdx) := by
    rw [List.drop_set, if_neg (by omega), List.drop_set,
      if_neg (by omega), behind]
    have first :
        c.checkedIdx + line.length - c.checkedIdx = line.length := by
      omega
    have second :
        c.checkedIdx + line.length + 1 - c.checkedIdx =
          line.length + 1 := by
      omega
    rw [first, second]
    simp
  refine ⟨?_, ?_⟩
  · unfold Terminated
    rw [cut]
    simp
  · unfold cstr cText
    rw [cut, takeWhile_append_nul]

theorem AtLine.string_end
    {c : Conn} {line rest : List UInt8} (atLine : c.AtLine)
    (shape : c.unread = line ++ 13 :: 10 :: rest) (clean : Clean line) :
    c.startLine + (cText line).length <
      (c.passed (scanLine c.unread)).checkedIdx := by
  have shorter : (cText line).length ≤ line.length :=
    (List.takeWhile_sublist _).length_le
  rw [shape, scanLine_found clean, passed_lineOk, atLine.startLine_eq]
  simp only
  omega

/-- The fields that the scanner does not touch. -/
theorem passed_fields (c : Conn) (scan : LineStatus × Nat) :
    (c.passed scan).url = c.url ∧ (c.passed scan).host = c.host ∧
      (c.passed scan).linger = c.linger ∧
      (c.passed scan).contentLength = c.contentLength := by
  unfold passed
  split <;> exact ⟨rfl, rfl, rfl, rfl⟩

theorem passed_take
    {c : Conn} (scan : LineStatus × Nat) (long : scan.1 = .lineOk → 2 ≤ scan.2) :
    (c.passed scan).readBuf.take c.checkedIdx =
      c.readBuf.take c.checkedIdx := by
  rcases scan with ⟨status, count⟩
  cases status with
  | lineOk =>
      obtain ⟨more, rfl⟩ : ∃ more, count = more + 2 :=
        ⟨count - 2, by have := long rfl; simp only at this; omega⟩
      rw [passed_lineOk]
      simp only
      rw [List.take_set_of_le (by omega), List.take_set_of_le (by omega)]
  | lineBad | lineOpen => rfl

/-- Passing a line changes nothing that was parsed before. -/
theorem InHead.passed_parsed
    {c : Conn} (head : c.InHead)
    (found : (scanLine c.unread).1 = .lineOk) :
    Parsed c (c.passed (scanLine c.unread)) [] := by
  obtain ⟨urlEq, hostEq, lingerEq, lengthEq⟩ :=
    passed_fields c (scanLine c.unread)
  have ordered := head.framed.startLine_le
  have scanned : scanLine c.unread = (.lineOk, (scanLine c.unread).2) := by
    rw [← found]
  obtain ⟨line, rest, _, _, passedEq⟩ := scanLine_eq_lineOk scanned
  have agree :
      (c.passed (scanLine c.unread)).readBuf.take c.startLine =
        c.readBuf.take c.startLine := by
    have whole :=
      passed_take (c := c) (scanLine c.unread) (fun _ => by omega)
    have shorter := congrArg (List.take c.startLine) whole
    rwa [List.take_take, List.take_take, Nat.min_eq_left ordered]
      at shorter
  obtain ⟨urlText, hostText⟩ :=
    head.texts.texts_eq
      (by
        have length := head.framed.length_eq
        have inside := head.framed.checkedIdx_le
        have bound := head.framed.readIdx_le
        omega)
      urlEq hostEq agree
  exact .nil urlEq lingerEq lengthEq urlText hostText

/-- A header line other than the empty one is taken in by one turn. -/
theorem AtLine.header_turn
    {c : Conn} {line rest : List UInt8} (atLine : c.AtLine)
    (state : c.checkState = .header)
    (shape : c.unread = line ++ 13 :: 10 :: rest) (clean : Clean line)
    (nonempty : cText line ≠ []) (fs : FileSystem) :
    ∃ next, c.turn fs .lineOk = .again .lineOk next ∧ next.AtLine ∧
      next.checkState = .header ∧ next.unread = rest ∧
      Parsed c next [cText line] := by
  have scanned := scanLine_found clean rest
  rw [← shape] at scanned
  have found : (scanLine c.unread).1 = .lineOk := by rw [scanned]
  have string := atLine.string shape clean
  have ends := atLine.string_end shape clean
  have before := atLine.toInHead.passed_parsed found
  have left := unread_passed c
  have rest_eq : c.unread.drop (scanLine c.unread).2 = rest := by
    rw [scanned, shape, ← List.drop_drop, List.drop_left]
    rfl
  rw [rest_eq] at left
  have stateEq := passed_checkState c (scanLine c.unread)
  have startEq := passed_startLine c (scanLine c.unread)
  have turnEq := atLine.toInHead.turn_eq_dispatchLine found fs .lineOk
  generalize c.passed (scanLine c.unread) = d at *
  have dState : d.checkState = .header := stateEq.trans state
  rw [← startEq] at string ends
  obtain ⟨accepted, stateKept, parsed⟩ :=
    headersOn_parsed (c := d.entered) string nonempty
  have edit := headersOn_edit d.entered d.startLine (cText line)
  rw [dispatchLine_header fs dState string, accepted,
    if_neg (by decide)] at turnEq
  refine ⟨_, turnEq, ?_, ?_, ?_, ?_⟩
  · obtain ⟨_, framed, texts, atStart⟩ :=
      atLine.toInHead.turn_again turnEq
    exact
      { framed := framed
        texts := texts
        state_ne := by
          rw [stateKept]
          show d.checkState ≠ .content
          rw [dState]
          decide
        startLine_eq := atStart }
  · rw [stateKept]
    exact dState
  · rw [edit.unread_eq (by
      show d.startLine + (cText line).length ≤ d.checkedIdx
      omega)]
    exact left
  · have enteredParsed : Parsed d d.entered [] :=
      .nil rfl rfl rfl rfl rfl
    exact before.trans (enteredParsed.trans parsed)

/-- The request line parser goes on or refuses, and leaves the results of the
header lines alone. -/
structure KeepsHeaders (c : Conn) (result : HttpCode × Conn) : Prop where
  code_cases : result.1 = .noRequest ∨ result.1 = .badRequest
  state_cases :
    result.2.checkState = c.checkState ∨ result.2.checkState = .header
  linger_eq : result.2.linger = c.linger
  contentLength_eq : result.2.contentLength = c.contentLength
  host_eq : result.2.host = c.host

theorem targetOn_keeps (c : Conn) (url : Nat) (word : List UInt8) :
    KeepsHeaders c (c.targetOn url word) := by
  unfold targetOn
  by_cases absolute : SameIgnoringCase (word.take 7) httpPrefix
  · simp only [if_pos absolute]
    split
    · exact ⟨.inr rfl, .inl rfl, rfl, rfl, rfl⟩
    · split
      · exact ⟨.inr rfl, .inl rfl, rfl, rfl, rfl⟩
      · exact ⟨.inl rfl, .inr rfl, rfl, rfl, rfl⟩
  · simp only [if_neg absolute]
    split
    · exact ⟨.inr rfl, .inl rfl, rfl, rfl, rfl⟩
    · split
      · exact ⟨.inr rfl, .inl rfl, rfl, rfl, rfl⟩
      · exact ⟨.inl rfl, .inr rfl, rfl, rfl, rfl⟩

theorem versionOn_keeps (c : Conn) (url : Nat) (tail : List UInt8) :
    KeepsHeaders c (c.versionOn url tail) := by
  unfold versionOn
  cases tail.findIdx? isBlank with
  | none => exact ⟨.inr rfl, .inl rfl, rfl, rfl, rfl⟩
  | some blank =>
      simp only
      split
      · exact { targetOn_keeps _ _ _ with }
      · exact ⟨.inr rfl, .inl rfl, rfl, rfl, rfl⟩

theorem requestLineOn_keeps
    (c : Conn) (text : Nat) (line : List UInt8) :
    KeepsHeaders c (c.requestLineOn text line) := by
  unfold requestLineOn
  cases line.findIdx? isBlank with
  | none => exact ⟨.inr rfl, .inl rfl, rfl, rfl, rfl⟩
  | some blank =>
      simp only
      split
      · exact { versionOn_keeps _ _ _ with }
      · exact ⟨.inr rfl, .inl rfl, rfl, rfl, rfl⟩

theorem AtLine.rest_eq
    {c : Conn} {line rest : List UInt8}
    (shape : c.unread = line ++ 13 :: 10 :: rest) (clean : Clean line) :
    (c.passed (scanLine c.unread)).unread = rest := by
  have left := unread_passed c
  rw [left, shape, scanLine_found clean, ← List.drop_drop,
    List.drop_left]
  rfl

/-- A request line of the grammar is taken in by one turn. -/
theorem AtLine.request_turn
    {c : Conn} {line rest target : List UInt8} (atLine : c.AtLine)
    (state : c.checkState = .requestLine)
    (shape : c.unread = line ++ 13 :: 10 :: rest) (clean : Clean line)
    (isRequestLine : RequestLine (cText line) target)
    (fs : FileSystem) :
    ∃ next, c.turn fs .lineOk = .again .lineOk next ∧ next.AtLine ∧
      next.checkState = .header ∧ next.unread = rest ∧
      next.urlText = target ∧ next.url ≠ none ∧
      next.linger = c.linger ∧
      next.contentLength = c.contentLength ∧ next.host = c.host := by
  have scanned := scanLine_found clean rest
  rw [← shape] at scanned
  have found : (scanLine c.unread).1 = .lineOk := by rw [scanned]
  have string := atLine.string shape clean
  have ends := atLine.string_end shape clean
  have left := AtLine.rest_eq shape clean
  obtain ⟨_, hostEq, lingerEq, lengthEq⟩ :=
    passed_fields c (scanLine c.unread)
  have stateEq := passed_checkState c (scanLine c.unread)
  have startEq := passed_startLine c (scanLine c.unread)
  have turnEq := atLine.toInHead.turn_eq_dispatchLine found fs .lineOk
  generalize c.passed (scanLine c.unread) = d at *
  have dState : d.checkState = .requestLine := stateEq.trans state
  rw [← startEq] at string ends
  obtain ⟨accepted, nextState, url, urlEq, urlString⟩ :=
    requestLineOn_of_requestLine (c := d.entered) isRequestLine string
  obtain ⟨_, _, lingerKept, lengthKept, hostKept⟩ :=
    requestLineOn_keeps d.entered d.startLine (cText line)
  have edit := requestLineOn_edit d.entered d.startLine (cText line)
  rw [dispatchLine_requestLine fs dState string, accepted,
    if_neg (by decide)] at turnEq
  obtain ⟨_, framed, texts, atStart⟩ := atLine.toInHead.turn_again turnEq
  refine ⟨_, turnEq, ?_, nextState, ?_, ?_, ?_, ?_, ?_, ?_⟩
  · exact
      { framed := framed
        texts := texts
        state_ne := by
          rw [nextState]
          decide
        startLine_eq := atStart }
  · rw [edit.unread_eq (by
      show d.startLine + (cText line).length ≤ d.checkedIdx
      omega)]
    exact left
  · unfold urlText
    rw [urlEq]
    exact urlString.cstr_eq
  · rw [urlEq]
    simp
  · rw [lingerKept]
    exact lingerEq
  · rw [lengthKept]
    exact lengthEq
  · rw [hostKept]
    exact hostEq

/-- A turn of the request line that goes on has met one of the grammar. -/
theorem AtLine.requestLine_of_again
    {fs : FileSystem} {c next : Conn} (atLine : c.AtLine)
    (state : c.checkState = .requestLine)
    (turned : c.turn fs .lineOk = .again .lineOk next) :
    ∃ line rest target, c.unread = line ++ 13 :: 10 :: rest ∧
      Clean line ∧ RequestLine (cText line) target := by
  have found := scanLine_lineOk_of_again atLine.toInHead turned
  have scanned : scanLine c.unread = (.lineOk, (scanLine c.unread).2) := by
    rw [← found]
  obtain ⟨line, rest, shape, clean, _⟩ := scanLine_eq_lineOk scanned
  have string := atLine.string shape clean
  have stateEq := passed_checkState c (scanLine c.unread)
  have startEq := passed_startLine c (scanLine c.unread)
  have turnEq := atLine.toInHead.turn_eq_dispatchLine found fs .lineOk
  rw [turned] at turnEq
  generalize c.passed (scanLine c.unread) = d at *
  have dState : d.checkState = .requestLine := stateEq.trans state
  rw [← startEq] at string
  rw [dispatchLine_requestLine fs dState string] at turnEq
  rcases (requestLineOn_keeps d.entered d.startLine
    (cText line)).code_cases with accepted | refused
  · obtain ⟨target, isRequestLine⟩ := requestLineOn_noRequest accepted
    exact ⟨line, rest, target, shape, clean, isRequestLine⟩
  · rw [if_pos refused] at turnEq
    cases turnEq

/-- Turns of one `process_read` call lead to the fetch of an empty line in
the header state; the second object is the one at that moment. -/
def BlankLineAt (fs : FileSystem) (start d : Conn) : Prop :=
  ∃ e, HeadRun fs start e ∧ e.checkState = .header ∧
    e.fetchLine .lineOk = (.lineOk, d) ∧
    d.readBuf.getD d.startLine 0 = 0

theorem fetchLine_in_head
    {c : Conn} (head : c.InHead) (lineStatus : LineStatus) :
    c.fetchLine lineStatus =
      ((scanLine c.unread).1, c.passed (scanLine c.unread)) := by
  rw [fetchLine, if_neg (fun atHand => head.state_ne atHand.1),
    parseLine_eq head.framed]

theorem cText_eq_nil_iff
    {memory line : List UInt8} {start : Nat}
    (string : StringAt memory start (cText line)) :
    memory.getD start 0 = 0 ↔ cText line = [] := by
  have first := string.getD_eq 0 (Nat.zero_le _)
  rw [Nat.add_zero] at first
  rw [first]
  cases text : cText line with
  | nil => simp
  | cons byte rest =>
      have kept := string.nul_free
      rw [text] at kept
      simp only [List.mem_cons, not_or] at kept
      simpa [eq_comm] using kept.1

theorem blankLineAt_of_again
    {fs : FileSystem} {c next d : Conn}
    (state_ne : c.checkState ≠ .content)
    (turned : c.turn fs .lineOk = .again .lineOk next)
    (blank : BlankLineAt fs next d) : BlankLineAt fs c d := by
  obtain ⟨e, run, rest⟩ := blank
  exact ⟨e, .turn state_ne turned run, rest⟩

/-- An empty line ends the run: the turn on it leaves the header state. -/
theorem AtLine.not_again_of_blank
    {fs : FileSystem} {c next e : Conn} {line rest : List UInt8}
    (atLine : c.AtLine) (state : c.checkState = .header)
    (shape : c.unread = line ++ 13 :: 10 :: rest) (clean : Clean line)
    (empty : cText line = [])
    (turned : c.turn fs .lineOk = .again .lineOk next)
    (run : HeadRun fs next e) : e.checkState ≠ .header := by
  have found := scanLine_lineOk_of_again atLine.toInHead turned
  have string := atLine.string shape clean
  have stateEq := passed_checkState c (scanLine c.unread)
  have startEq := passed_startLine c (scanLine c.unread)
  have turnEq := atLine.toInHead.turn_eq_dispatchLine found fs .lineOk
  rw [turned] at turnEq
  generalize c.passed (scanLine c.unread) = d at *
  have dState : d.checkState = .header := stateEq.trans state
  rw [← startEq] at string
  rw [dispatchLine_header fs dState string, empty] at turnEq
  unfold headersOn at turnEq
  simp only [if_true] at turnEq
  split at turnEq
  · split at turnEq
    · cases turnEq
    · injection turnEq with _ nextEq
      have content : next.checkState = .content := by rw [nextEq]
      cases run with
      | refl =>
          rw [content]
          decide
      | turn state_ne _ _ => exact absurd content state_ne
  · simp only [if_true] at turnEq
    cases turnEq

/-- Reaching the empty line from a header state, by the bytes left. -/
theorem AtLine.header_phase
    {fs : FileSystem} {c : Conn} (atLine : c.AtLine)
    (state : c.checkState = .header) :
    (∀ d, BlankLineAt fs c d →
      ∃ headers rest, HeaderLines c.unread headers rest ∧
        Parsed c d headers ∧ d.unread = rest) ∧
    (∀ headers rest, HeaderLines c.unread headers rest →
      ∃ d, BlankLineAt fs c d) := by
  -- each header line leaves fewer bytes
  generalize size : c.unread.length = length
  induction length using Nat.strongRecOn generalizing c with
  | ind length inductionHypothesis =>
      have fetched := fetchLine_in_head atLine.toInHead .lineOk
      constructor
      · rintro d ⟨e, run, eState, fetch, first⟩
        have found : (scanLine c.unread).1 = .lineOk := by
          cases run with
          | refl =>
              rw [fetched] at fetch
              exact congrArg Prod.fst fetch
          | turn _ turned _ =>
              exact scanLine_lineOk_of_again atLine.toInHead turned
        have scanned :
            scanLine c.unread = (.lineOk, (scanLine c.unread).2) := by
          rw [← found]
        obtain ⟨line, rest, shape, clean, _⟩ := scanLine_eq_lineOk scanned
        have string := atLine.string shape clean
        have atNul := cText_eq_nil_iff string
        by_cases empty : cText line = []
        · cases run with
          | refl =>
              rw [fetched] at fetch
              have same : c.passed (scanLine c.unread) = d :=
                congrArg Prod.snd fetch
              subst same
              refine ⟨[], rest, ?_, ?_, AtLine.rest_eq shape clean⟩
              · rw [shape]
                exact .blank rest clean empty
              · exact atLine.toInHead.passed_parsed found
          | turn _ turned later =>
              exact
                absurd eState
                  (atLine.not_again_of_blank state shape clean empty
                    turned later)
        · obtain ⟨next, turnEq, nextAtLine, nextState, nextUnread, parsed⟩ :=
            atLine.header_turn state shape clean empty fs
          cases run with
          | refl =>
              rw [fetched] at fetch
              have same : c.passed (scanLine c.unread) = d :=
                congrArg Prod.snd fetch
              rw [← same, passed_startLine, atNul] at first
              exact absurd first empty
          | turn _ turned later =>
              rw [turnEq] at turned
              injection turned with _ same
              subst same
              have shorter : next.unread.length < length := by
                rw [nextUnread, ← size, shape]
                simp only [List.length_append, List.length_cons]
                omega
              obtain ⟨headers, last, lines, laterParsed, lastEq⟩ :=
                (inductionHypothesis _ shorter nextAtLine nextState
                  rfl).1 d ⟨e, later, eState, fetch, first⟩
              rw [nextUnread] at lines
              refine
                ⟨cText line :: headers, last, ?_,
                  parsed.trans laterParsed, lastEq⟩
              rw [shape]
              exact .cons clean empty lines
      · intro headers rest lines
        generalize bytesEq : c.unread = bytes at lines
        cases lines with
        | @blank line rest clean empty =>
            have scanned := scanLine_found clean rest
            rw [← bytesEq] at scanned
            have found : (scanLine c.unread).1 = .lineOk := by
              rw [scanned]
            have string := atLine.string bytesEq clean
            refine
              ⟨c.passed (scanLine c.unread), c, .refl c, state, ?_, ?_⟩
            · rw [fetched, found]
            · rw [passed_startLine, cText_eq_nil_iff string]
              exact empty
        | @cons line bytes rest headers clean nonempty later =>
            obtain ⟨next, turnEq, nextAtLine, nextState, nextUnread, _⟩ :=
              atLine.header_turn state bytesEq clean nonempty fs
            have shorter : next.unread.length < length := by
              rw [nextUnread, ← size, bytesEq]
              simp only [List.length_append, List.length_cons]
              omega
            rw [← nextUnread] at later
            obtain ⟨d, blank⟩ :=
              (inductionHypothesis _ shorter nextAtLine nextState
                rfl).2 headers _ later
            exact ⟨d, blankLineAt_of_again atLine.state_ne turnEq blank⟩

theorem init_framed (c : Conn) : c.init.Framed where
  length_eq := List.length_replicate
  startLine_le := Nat.le_refl _
  checkedIdx_le := Nat.le_refl _
  readIdx_le := Nat.zero_le _
  behind := .inl rfl

/-- A fresh connection that has received some bytes. -/
theorem init_receive_atLine
    (c : Conn) {bytes : List UInt8} (fits : bytes.length ≤ readBufferSize) :
    (c.init.receive bytes).AtLine ∧
      (c.init.receive bytes).checkState = .requestLine ∧
      (c.init.receive bytes).unread = bytes := by
  have room : c.init.Room bytes := by
    show 0 + bytes.length ≤ readBufferSize
    omega
  refine ⟨?_, rfl, ?_⟩
  · exact
      { framed := (init_framed c).receive room
        texts :=
          { url_lt := fun url same => nomatch same
            host_lt := fun host same => nomatch same
            nul := fun positive => absurd positive (Nat.lt_irrefl 0) }
        state_ne := by
          show CheckState.requestLine ≠ .content
          decide
        startLine_eq := rfl }
  · rw [unread_receive (init_framed c)]
    show ([] : List UInt8) ++ bytes = bytes
    rfl

theorem headOf_of_blankLineAt
    {fs : FileSystem} {c d : Conn} {bytes : List UInt8}
    (fits : bytes.length ≤ readBufferSize)
    (blank : BlankLineAt fs (c.init.receive bytes) d) :
    ∃ target headers, HeadOf bytes target headers d.unread ∧
      d.url ≠ none ∧ d.urlText = target ∧
      (d.linger = true ↔ KeepsAlive headers) ∧
      d.contentLength = contentLengthOf headers ∧
      d.hostText = lastValue hostName headers := by
  obtain ⟨atLine, state, unreadEq⟩ := init_receive_atLine c fits
  obtain ⟨e, run, eState, fetch, first⟩ := blank
  cases run with
  | refl =>
      rw [state] at eState
      cases eState
  | turn _ turned later =>
      obtain ⟨line, rest, target, shape, clean, isRequestLine⟩ :=
        atLine.requestLine_of_again state turned
      obtain ⟨next, turnEq, nextAtLine, nextState, nextUnread, urlText,
        urlSet, lingerEq, lengthEq, hostEq⟩ :=
        atLine.request_turn state shape clean isRequestLine fs
      rw [turnEq] at turned
      injection turned with _ same
      subst same
      obtain ⟨headers, last, lines, parsed, lastEq⟩ :=
        (nextAtLine.header_phase nextState).1 d
          ⟨e, later, eState, fetch, first⟩
      rw [nextUnread, ← lastEq] at lines
      rw [unreadEq] at shape
      refine
        ⟨target, headers,
          ⟨line, rest, shape, clean, isRequestLine, lines⟩,
          ?_, ?_, ?_, ?_, ?_⟩
      · rw [parsed.url_eq]
        exact urlSet
      · rw [parsed.urlText_eq, urlText]
      · rw [parsed.linger_iff, lingerEq]
        show false = true ∨ KeepsAlive headers ↔ KeepsAlive headers
        simp
      · rw [parsed.contentLength_eq, lengthEq, contentLengthOf]
        cases lastValue contentLengthName headers <;> rfl
      · have unset : next.hostText = none := by
          unfold hostText
          rw [hostEq]
          rfl
        rw [parsed.hostText_eq, unset, Option.or_none]

theorem blankLineAt_of_headOf
    (fs : FileSystem) (c : Conn) {bytes target rest : List UInt8}
    {headers : List (List UInt8)} (fits : bytes.length ≤ readBufferSize)
    (isHead : HeadOf bytes target headers rest) :
    ∃ d, BlankLineAt fs (c.init.receive bytes) d := by
  obtain ⟨atLine, state, unreadEq⟩ := init_receive_atLine c fits
  obtain ⟨line, after, shape, clean, isRequestLine, lines⟩ := isHead
  rw [← unreadEq] at shape
  obtain ⟨next, turnEq, nextAtLine, nextState, nextUnread, _⟩ :=
    atLine.request_turn state shape clean isRequestLine fs
  rw [← nextUnread] at lines
  obtain ⟨d, blank⟩ :=
    (nextAtLine.header_phase nextState).2 headers rest lines
  exact ⟨d, blankLineAt_of_again atLine.state_ne turnEq blank⟩

/-- One call of `process_read` on a fresh connection reaches the empty line
of a head exactly when the bytes start with a head of the grammar, and then
the parse results are what that head says. -/
theorem blankLineAt_iff_headOf
    (fs : FileSystem) (c : Conn) (bytes : List UInt8)
    (fits : bytes.length ≤ readBufferSize) :
    ((∃ d, BlankLineAt fs (c.init.receive bytes) d) ↔
      ∃ target headers rest, HeadOf bytes target headers rest) ∧
    ∀ d, BlankLineAt fs (c.init.receive bytes) d →
      ∃ target headers rest, HeadOf bytes target headers rest ∧
        d.url ≠ none ∧ d.urlText = target ∧
        (d.linger = true ↔ KeepsAlive headers) ∧
        d.contentLength = contentLengthOf headers ∧
        d.hostText = lastValue hostName headers := by
  refine ⟨⟨?_, ?_⟩, ?_⟩
  · rintro ⟨d, blank⟩
    obtain ⟨target, headers, isHead, _⟩ := headOf_of_blankLineAt fits blank
    exact ⟨target, headers, d.unread, isHead⟩
  · rintro ⟨target, headers, rest, isHead⟩
    exact blankLineAt_of_headOf fs c fits isHead
  · intro d blank
    obtain ⟨target, headers, isHead, results⟩ :=
      headOf_of_blankLineAt fits blank
    exact ⟨target, headers, d.unread, isHead, results⟩

def noFiles : FileSystem :=
  ⟨fun _ => none, fun _ _ => none⟩

def getRoot : List UInt8 :=
  ascii "GET / HTTP/1.1" ++ crlf ++ ascii "Host: a" ++ crlf ++ crlf

theorem requestLine_getRoot :
    RequestLine (cText (ascii "GET / HTTP/1.1")) (ascii "/") := by
  have line :
      cText (ascii "GET / HTTP/1.1") =
        ascii "GET /" ++ [] ++ ascii " HTTP/1.1" := by
    decide
  rw [line]
  exact requestLine_get (by decide)

theorem headOf_getRoot :
    HeadOf getRoot (ascii "/") [ascii "Host: a"] [] :=
  headOf_of_one_header (by decide) requestLine_getRoot (by decide)
    (by decide) (by decide)

theorem blankLineAt_getRoot :
    ∃ d, BlankLineAt noFiles (zeroed.init.receive getRoot) d :=
  (blankLineAt_iff_headOf noFiles zeroed getRoot (by decide)).1.mpr
    ⟨_, _, _, headOf_getRoot⟩

end Conn

end LinuxNet.WebServer
