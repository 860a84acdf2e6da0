import LinuxNet.WebServer.Segmentation

/-!
# Where the target and the host stand in the received bytes

`m_url` and `m_host` point into `m_read_buf`, where the bytes of a request
stand from index 0 on.  The places of the target and of the last `Host` value
are read off the lines of the head here, and at the empty line the two
pointers designate these places.
-/

namespace LinuxNet.WebServer

open LinuxNet.CString LinuxNet.CInt

def secondWord (line : List UInt8) : Nat :=
  (line.findIdx? isBlank).getD 0 + 1 +
    blanks (line.drop ((line.findIdx? isBlank).getD 0 + 1))

def targetOffset (line : List UInt8) : Nat :=
  let tail := line.drop (secondWord line)
  secondWord line +
    (pathOffset (tail.take ((tail.findIdx? isBlank).getD 0))).getD 0

/-- Where the last `Host` value starts in header lines. -/
inductive HostOffset : List UInt8 → Option Nat → Prop
  | blank {line : List UInt8} (rest : List UInt8) (clean : Clean line)
      (empty : cText line = []) :
      HostOffset (line ++ 13 :: 10 :: rest) none
  | cons {line bytes : List UInt8} {offset : Option Nat}
      (clean : Clean line) (nonempty : cText line ≠ [])
      (later : HostOffset bytes offset) :
      HostOffset (line ++ 13 :: 10 :: bytes)
        ((offset.map (line.length + 2 + ·)).or
          (if HasName hostName (cText line) then
            some (valueOffset hostName (cText line))
          else
            none))

/-- Where the target and the last `Host` value start in a request head. -/
def SpotsOf (bytes : List UInt8) (url : Nat) (host : Option Nat) : Prop :=
  ∃ line after offset, bytes = line ++ 13 :: 10 :: after ∧ Clean line ∧
    url = targetOffset (cText line) ∧ HostOffset after offset ∧
      host = offset.map (line.length + 2 + ·)

theorem HeaderLines.exists_hostOffset
    {bytes rest : List UInt8} {headers : List (List UInt8)}
    (lines : HeaderLines bytes headers rest) :
    ∃ offset, HostOffset bytes offset := by
  induction lines with
  | blank rest clean empty => exact ⟨none, .blank rest clean empty⟩
  | cons clean nonempty later inductionHypothesis =>
      obtain ⟨offset, laterOffset⟩ := inductionHypothesis
      exact ⟨_, .cons clean nonempty laterOffset⟩

theorem HeadOf.exists_spots
    {bytes target rest : List UInt8} {headers : List (List UInt8)}
    (isHead : HeadOf bytes target headers rest) :
    ∃ url host, SpotsOf bytes url host := by
  obtain ⟨line, after, shape, clean, _, lines⟩ := isHead
  obtain ⟨offset, hostOffset⟩ := lines.exists_hostOffset
  exact
    ⟨_, _, line, after, offset, shape, clean, rfl, hostOffset, rfl⟩

namespace Conn

/-- `m_url` after a request line that is accepted. -/
theorem requestLineOn_url
    {c : Conn} {text : Nat} {line : List UInt8}
    (accepted : (c.requestLineOn text line).1 = .noRequest) :
    (c.requestLineOn text line).2.url =
      some (text + targetOffset line) := by
  unfold requestLineOn at accepted ⊢
  cases found : line.findIdx? isBlank with
  | none => simp [found] at accepted
  | some blank =>
      have second :
          blank + 1 + blanks (line.drop (blank + 1)) =
            secondWord line := by
        unfold secondWord
        rw [found]
        rfl
      simp only [found, second] at accepted ⊢
      unfold targetOffset
      generalize line.drop (secondWord line) = tail at *
      split at accepted
      · rename_i isGet
        rw [if_pos isGet]
        unfold versionOn at accepted ⊢
        cases foundVersion : tail.findIdx? isBlank with
        | none => simp [foundVersion] at accepted
        | some gap =>
            simp only [foundVersion, Option.getD_some] at accepted ⊢
            split at accepted
            · rename_i isVersion
              rw [if_pos isVersion]
              unfold targetOn at accepted ⊢
              cases path : pathOffset (tail.take gap) with
              | none => simp [path] at accepted
              | some offset =>
                  simp only [Option.map_some, Option.getD_some]
                  split <;> simp [Nat.add_assoc]
            · cases accepted
      · cases accepted

/-- `m_host` after a header line. -/
theorem headersOn_host
    (c : Conn) (text : Nat) {line : List UInt8} (nonempty : line ≠ []) :
    (c.headersOn text line).2.host =
      if HasName hostName line then
        some (text + valueOffset hostName line)
      else
        c.host := by
  have other :
      HasName connectionName line ∨ HasName contentLengthName line →
        ¬ HasName hostName line := by
    rintro (named | named)
    · exact not_hasName 4 named (by decide) (by decide) (by decide)
    · exact not_hasName 4 named (by decide) (by decide) (by decide)
  unfold headersOn
  rw [if_neg nonempty]
  by_cases isConnection : HasName connectionName line
  · rw [if_neg (other (.inl isConnection))]
    simp only [if_pos isConnection]
    split <;> rfl
  by_cases isContentLength : HasName contentLengthName line
  · rw [if_neg (other (.inr isContentLength))]
    simp only [if_neg isConnection, if_pos isContentLength]
    rfl
  simp only [if_neg isConnection, if_neg isContentLength]
  split <;> rfl

/-- The turn on a request line that is accepted, or on a header line. -/
theorem AtLine.checkedIdx_of_edit
    {c next : Conn} {line rest : List UInt8} {first stop : Nat}
    (shape : c.unread = line ++ 13 :: 10 :: rest) (clean : Clean line)
    (edit : Edit first stop (c.passed (scanLine c.unread)).entered next) :
    next.checkedIdx = c.checkedIdx + line.length + 2 := by
  have scanned := scanLine_found clean rest
  rw [← shape] at scanned
  rw [edit.indices.1]
  show (c.passed (scanLine c.unread)).checkedIdx = _
  rw [scanned, passed_lineOk]

/-- `m_url` behind the request line. -/
theorem AtLine.request_next
    {fs : FileSystem} {c next : Conn} {line rest : List UInt8}
    (atLine : c.AtLine) (state : c.checkState = .requestLine)
    (shape : c.unread = line ++ 13 :: 10 :: rest) (clean : Clean line)
    (turned : c.turn fs .lineOk = .again .lineOk next) :
    next.url = some (c.checkedIdx + targetOffset (cText line)) ∧
      next.checkedIdx = c.checkedIdx + line.length + 2 := by
  have found := scanLine_lineOk_of_again atLine.toInHead turned
  have string := atLine.string shape clean
  have stateEq := passed_checkState c (scanLine c.unread)
  have startEq := passed_startLine c (scanLine c.unread)
  have turnEq := atLine.toInHead.turn_eq_dispatchLine found fs .lineOk
  have dState :
      (c.passed (scanLine c.unread)).checkState = .requestLine :=
    stateEq.trans state
  rw [← startEq] at string
  rw [turned, dispatchLine_requestLine fs dState string] at turnEq
  rcases (requestLineOn_keeps _ _ _).code_cases with accepted | refused
  · rw [if_neg (by rw [accepted]; decide)] at turnEq
    injection turnEq with _ nextEq
    rw [nextEq]
    constructor
    · rw [requestLineOn_url accepted, startEq, atLine.startLine_eq]
    · exact
        AtLine.checkedIdx_of_edit shape clean (requestLineOn_edit _ _ _)
  · rw [if_pos refused] at turnEq
    cases turnEq

/-- `m_host` behind a header line. -/
theorem AtLine.header_next
    {fs : FileSystem} {c next : Conn} {line rest : List UInt8}
    (atLine : c.AtLine) (state : c.checkState = .header)
    (shape : c.unread = line ++ 13 :: 10 :: rest) (clean : Clean line)
    (nonempty : cText line ≠ [])
    (turned : c.turn fs .lineOk = .again .lineOk next) :
    (next.host =
        if HasName hostName (cText line) then
          some (c.checkedIdx + valueOffset hostName (cText line))
        else
          c.host) ∧
      next.checkedIdx = c.checkedIdx + line.length + 2 := by
  have found := scanLine_lineOk_of_again atLine.toInHead turned
  have string := atLine.string shape clean
  have hostEq := (passed_fields c (scanLine c.unread)).2.1
  have stateEq := passed_checkState c (scanLine c.unread)
  have startEq := passed_startLine c (scanLine c.unread)
  have turnEq := atLine.toInHead.turn_eq_dispatchLine found fs .lineOk
  have dState :
      (c.passed (scanLine c.unread)).checkState = .header :=
    stateEq.trans state
  rw [← startEq] at string
  have accepted :=
    (headersOn_parsed (c := (c.passed (scanLine c.unread)).entered)
      string nonempty).1
  rw [turned, dispatchLine_header fs dState string, accepted,
    if_neg (by decide)] at turnEq
  injection turnEq with _ nextEq
  rw [nextEq]
  constructor
  · rw [headersOn_host _ _ nonempty, startEq, atLine.startLine_eq]
    show (if HasName hostName (cText line) then _
      else (c.passed (scanLine c.unread)).host) = _
    rw [hostEq]
  · exact AtLine.checkedIdx_of_edit shape clean (headersOn_edit _ _ _)

/-! ## At the empty line -/

/-- A header line does not end the head. -/
theorem AtLine.blankLineAt_next
    {fs : FileSystem} {c next d : Conn} {line rest : List UInt8}
    (atLine : c.AtLine)
    (shape : c.unread = line ++ 13 :: 10 :: rest) (clean : Clean line)
    (nonempty : cText line ≠ [])
    (turned : c.turn fs .lineOk = .again .lineOk next)
    (blank : BlankLineAt fs c d) : BlankLineAt fs next d := by
  obtain ⟨e, run, eState, fetch, first⟩ := blank
  cases run with
  | refl =>
      rw [fetchLine_in_head atLine.toInHead] at fetch
      have same : c.passed (scanLine c.unread) = d :=
        congrArg Prod.snd fetch
      rw [← same, passed_startLine,
        cText_eq_nil_iff (atLine.string shape clean)] at first
      exact absurd first nonempty
  | turn _ otherTurned later =>
      rw [turned] at otherTurned
      injection otherTurned with _ same
      subst same
      exact ⟨e, later, eState, fetch, first⟩

/-- `m_host` designates the last `Host` value, and `m_url` has not moved. -/
theorem AtLine.host_at_blank
    {fs : FileSystem} {c d : Conn} {offset : Option Nat}
    (atLine : c.AtLine) (state : c.checkState = .header)
    (spots : HostOffset c.unread offset) (blank : BlankLineAt fs c d) :
    d.host = (offset.map (c.checkedIdx + ·)).or c.host ∧
      d.url = c.url := by
  -- one header line a time
  generalize shape : c.unread = bytes at spots
  induction spots generalizing c with
  | blank rest clean empty =>
      obtain ⟨e, run, eState, fetch, first⟩ := blank
      cases run with
      | refl =>
          rw [fetchLine_in_head atLine.toInHead] at fetch
          have same : c.passed (scanLine c.unread) = d :=
            congrArg Prod.snd fetch
          obtain ⟨urlEq, hostEq, _⟩ :=
            passed_fields c (scanLine c.unread)
          rw [← same]
          exact ⟨hostEq, urlEq⟩
      | turn _ turned later =>
          exact
            absurd eState
              (atLine.not_again_of_blank state shape clean empty turned
                later)
  | @cons line bytes offset clean nonempty later inductionHypothesis =>
      obtain ⟨next, turned, nextAtLine, nextState, nextUnread, parsed⟩ :=
        atLine.header_turn state shape clean nonempty fs
      obtain ⟨hostEq, checkedEq⟩ :=
        atLine.header_next state shape clean nonempty turned
      obtain ⟨laterHost, laterUrl⟩ :=
        inductionHypothesis nextAtLine nextState
          (atLine.blankLineAt_next shape clean nonempty turned blank)
          nextUnread
      refine ⟨?_, laterUrl.trans parsed.url_eq⟩
      rw [laterHost, hostEq, checkedEq]
      cases offset with
      | none =>
          by_cases named : HasName hostName (cText line)
          · simp [named]
          · simp [named]
      | some start =>
          simp [Nat.add_assoc]

/-- At the empty line of a head the two pointers designate the places of the
target and of the last `Host` value. -/
theorem spots_of_blankLineAt
    {fs : FileSystem} {c d : Conn} {bytes : List UInt8} {url : Nat}
    {host : Option Nat} (fits : bytes.length ≤ readBufferSize)
    (spots : SpotsOf bytes url host)
    (blank : BlankLineAt fs (c.init.receive bytes) d) :
    d.url = some url ∧ d.host = host := by
  obtain ⟨atLine, state, unreadEq⟩ := init_receive_atLine c fits
  obtain ⟨line, after, offset, shape, clean, urlEq, hostOffset, hostEq⟩ :=
    spots
  have start : (c.init.receive bytes).checkedIdx = 0 := rfl
  obtain ⟨e, run, eState, fetch, first⟩ := blank
  cases run with
  | refl =>
      rw [state] at eState
      cases eState
  | @turn _ next _ _ turned later =>
      obtain ⟨otherLine, rest, target, otherShape, otherClean,
        isRequestLine⟩ := atLine.requestLine_of_again state turned
      obtain ⟨accepted, turnEq, nextAtLine, nextState, nextUnread, _, _, _,
        _, nextHost⟩ :=
        atLine.request_turn state otherShape otherClean isRequestLine fs
      rw [turned] at turnEq
      injection turnEq with _ same
      subst same
      rw [← unreadEq] at shape
      obtain ⟨nextUrl, nextChecked⟩ :=
        atLine.request_next state shape clean turned
      have sameRest : rest = after := by
        rw [shape] at otherShape
        exact (clean_line_unique clean otherClean otherShape).2.symm
      rw [← sameRest, ← nextUnread] at hostOffset
      obtain ⟨dHost, dUrl⟩ :=
        nextAtLine.host_at_blank nextState hostOffset
          ⟨e, later, eState, fetch, first⟩
      have unset : (c.init.receive bytes).host = none := rfl
      rw [dUrl, dHost, nextUrl, nextHost, unset, nextChecked, start,
        urlEq, hostEq, Nat.zero_add, Option.or_none]
      constructor
      · rfl
      · simp only [Nat.zero_add]

end Conn

end LinuxNet.WebServer
