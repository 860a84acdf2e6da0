import Mathlib.Data.List.Basic
import LinuxNet.HttpServer.DoRead

/-!
# A request that arrives in fragments

The bytes of a GET request become readable at any time: every call of `recv`
may find nothing, and `do_read` runs once for each EPOLLIN until it
disconnects.  `http_request` gets the request line in exactly the runs in
which the first `get_line` finds the whole of it and its CR; what is missing
behind it only makes `do_read` wait.
-/

namespace LinuxNet.HttpServer

open LinuxNet.CString

/-- No end of a line. -/
def Clean (text : List UInt8) : Prop :=
  13 ∉ text ∧ 10 ∉ text

def HeaderLine (text : List UInt8) : Prop :=
  Clean text ∧ ∃ name value, text = name ++ 58 :: value ∧ 32 ∉ name

def headerBytes : List (List UInt8) → List UInt8
  | [] => [13, 10]
  | header :: headers => header ++ 13 :: 10 :: headerBytes headers

/-- A request line that begins with `"GET "`, and header lines. -/
structure GetRequest where
  line : List UInt8
  headers : List (List UInt8)
  isGet : [71, 69, 84, 32] <+: line
  short : line.length ≤ 1000
  nulFree : 0 ∉ line
  clean : Clean line
  headerLines : ∀ header ∈ headers, HeaderLine header

def GetRequest.bytes (request : GetRequest) : List UInt8 :=
  request.line ++ 13 :: 10 :: headerBytes request.headers

/-- `do_read` once for each EPOLLIN, as long as the socket is open. -/
def serve (outcomes : Nat → RecvOutcome) (fuel : Nat) :
    Nat → Sock → Option (List ReadEffect)
  | 0, _ => some []
  | events + 1, sock =>
      match doRead outcomes fuel sock with
      | none => none
      | some (effects, later) =>
          if .disconnect ∈ effects then
            some effects
          else
            (serve outcomes fuel events later).map (effects ++ ·)

/-- What `http_request` is called with. -/
def ReadEffect.request : ReadEffect → Option (List UInt8)
  | .disconnect => none
  | .httpRequest request => some request

/-- `http_request` is called exactly once, with this line. -/
def HandledOnce
    (outcomes : Nat → RecvOutcome) (events : Nat) (stream : List UInt8)
    (line : List UInt8) : Prop :=
  ∃ fuel effects, serve outcomes fuel events ⟨stream, 0⟩ = some effects ∧
    effects.filterMap ReadEffect.request = [line]

/-- However long nothing is there, some later call finds what is left. -/
def Arriving (outcomes : Nat → RecvOutcome) : Prop :=
  ∀ call, ∃ later, call ≤ later ∧ outcomes later = .delivers

variable {outcomes : Nat → RecvOutcome}

/-! ## One line of the stream -/

theorem Clean.of_cons
    {byte : UInt8} {text : List UInt8} (clean : Clean (byte :: text)) :
    byte ≠ 13 ∧ byte ≠ 10 :=
  ⟨fun same => clean.1 (same ▸ List.mem_cons_self),
    fun same => clean.2 (same ▸ List.mem_cons_self)⟩

theorem Clean.tail
    {byte : UInt8} {text : List UInt8} (clean : Clean (byte :: text)) :
    Clean text :=
  ⟨fun member => clean.1 (List.mem_cons_of_mem byte member),
    fun member => clean.2 (List.mem_cons_of_mem byte member)⟩

theorem Clean.drop
    {text : List UInt8} (clean : Clean text) (count : Nat) :
    Clean (text.drop count) :=
  ⟨fun member => clean.1 (List.mem_of_mem_drop member),
    fun member => clean.2 (List.mem_of_mem_drop member)⟩

theorem Silent.not_delivers
    {sock : Sock} {text rest : List UInt8}
    (silent : Silent outcomes sock)
    (stream : sock.stream = text ++ 13 :: 10 :: rest) :
    ¬ outcomes (sock.calls + 0) = .delivers := by
  intro delivers
  rcases silent with refused | empty
  · exact refused delivers
  · rw [stream] at empty
    exact
      List.append_ne_nil_of_right_ne_nil text (List.cons_ne_nil _ _) empty

/-- What `get_line` takes of a line of text: a part of the text, or the text
and its end, perhaps without the LF. -/
inductive Part (text rest : List UInt8) (line : Line) : Prop
  | some (count : Nat) (within : count ≤ text.length)
      (buf : line.buf = text.take count)
      (stream : line.sock.stream = text.drop count ++ 13 :: 10 :: rest) :
      Part text rest line
  | all (buf : line.buf = text ++ [10])
      (stream :
        line.sock.stream = rest ∨ line.sock.stream = 10 :: rest) :
      Part text rest line

theorem Part.cons
    {text rest : List UInt8} {line : Line} (byte : UInt8)
    (part : Part text rest line) :
    Part (byte :: text) rest ⟨byte :: line.buf, line.sock⟩ := by
  cases part with
  | some count within buf stream =>
      refine .some (count + 1) (Nat.succ_le_succ within) ?_ stream
      rw [buf]
      rfl
  | all buf stream =>
      refine .all ?_ stream
      rw [buf]
      rfl

theorem stream_of_returnEnds
    {sock next : Sock} {rest : List UInt8}
    (stream : sock.stream = 10 :: rest)
    (ends : ReturnEnds outcomes sock next) :
    next.stream = rest ∨ next.stream = 10 :: rest := by
  cases ends with
  | alone noFeed => exact .inr stream
  | feed peeked taken => exact .inl (congrArg List.tail stream)
  | refused peeked silent => exact .inr stream

theorem byte_of_arrives
    {sock : Sock} {byte first : UInt8} {stream : List UInt8}
    (shape : sock.stream = first :: stream)
    (arrives : Arrives outcomes sock byte) : byte = first := by
  have head := arrives.2
  rw [shape] at head
  exact (Option.some.inj head).symm

theorem part_of_getLineFrom
    {text : List UInt8} (clean : Clean text) (rest : List UInt8)
    (room : Nat) {sock : Sock}
    (stream : sock.stream = text ++ 13 :: 10 :: rest) :
    Part text rest (getLineFrom outcomes room sock) := by
  induction text generalizing room sock with
  | nil =>
      cases room with
      | zero => exact .some 0 (Nat.zero_le _) rfl stream
      | succ room =>
          rcases silent_or_arrives outcomes sock with
            silent | ⟨byte, arrives⟩
          · rw [getLineFrom_of_silent silent]
            exact .some 0 (Nat.zero_le _) rfl stream
          · have isReturn := byte_of_arrives stream arrives
            subst isReturn
            rw [getLineFrom_of_return arrives]
            have behind : sock.taken.stream = 10 :: rest :=
              congrArg List.tail stream
            exact
              .all rfl
                (stream_of_returnEnds behind
                  (afterReturn_spec outcomes sock.taken).2)
  | cons first text inductionHypothesis =>
      cases room with
      | zero => exact .some 0 (Nat.zero_le _) rfl stream
      | succ room =>
          rcases silent_or_arrives outcomes sock with
            silent | ⟨byte, arrives⟩
          · rw [getLineFrom_of_silent silent]
            exact .some 0 (Nat.zero_le _) rfl stream
          · have isFirst := byte_of_arrives stream arrives
            subst isFirst
            obtain ⟨notReturn, notFeed⟩ := clean.of_cons
            rw [getLineFrom_of_byte arrives notReturn notFeed]
            have behind :
                sock.taken.stream = text ++ 13 :: 10 :: rest :=
              congrArg List.tail stream
            exact (inductionHypothesis clean.tail room behind).cons byte

/-- The whole line is there exactly when each of its bytes and its CR is. -/
theorem getLineFrom_all_iff
    {text : List UInt8} (clean : Clean text) (rest : List UInt8)
    {room : Nat} (fits : text.length < room) {sock : Sock}
    (stream : sock.stream = text ++ 13 :: 10 :: rest) :
    (getLineFrom outcomes room sock).buf = text ++ [10] ↔
      ∀ call, call ≤ text.length →
        outcomes (sock.calls + call) = .delivers := by
  induction text generalizing room sock with
  | nil =>
      obtain ⟨less, rfl⟩ : ∃ less, room = less + 1 := ⟨room - 1, by omega⟩
      rcases silent_or_arrives outcomes sock with silent | ⟨byte, arrives⟩
      · rw [getLineFrom_of_silent silent]
        apply iff_of_false
        · intro impossible
          cases impossible
        · intro delivers
          exact silent.not_delivers stream (delivers 0 (Nat.le_refl 0))
      · have isReturn := byte_of_arrives stream arrives
        subst isReturn
        rw [getLineFrom_of_return arrives]
        refine iff_of_true rfl ?_
        intro call within
        rw [Nat.le_zero.mp within]
        exact arrives.1
  | cons first text inductionHypothesis =>
      obtain ⟨less, rfl⟩ : ∃ less, room = less + 1 := ⟨room - 1, by omega⟩
      rcases silent_or_arrives outcomes sock with silent | ⟨byte, arrives⟩
      · rw [getLineFrom_of_silent silent]
        apply iff_of_false
        · intro impossible
          cases impossible
        · intro delivers
          exact silent.not_delivers stream (delivers 0 (Nat.zero_le _))
      · have isFirst := byte_of_arrives stream arrives
        subst isFirst
        obtain ⟨notReturn, notFeed⟩ := clean.of_cons
        rw [getLineFrom_of_byte arrives notReturn notFeed]
        have behind : sock.taken.stream = text ++ 13 :: 10 :: rest :=
          congrArg List.tail stream
        have later :=
          inductionHypothesis clean.tail (Nat.lt_of_succ_lt_succ fits)
            behind
        rw [List.cons_append, List.cons.injEq, later]
        constructor
        · rintro ⟨_, delivers⟩ call within
          cases call with
          | zero => exact arrives.1
          | succ call =>
              have next := delivers call (Nat.le_of_succ_le_succ within)
              rw [show sock.taken.calls = sock.calls + 1 from rfl] at next
              rw [← next]
              congr 1
              omega
        · intro delivers
          refine ⟨rfl, fun call within => ?_⟩
          rw [← delivers (call + 1) (Nat.succ_le_succ within)]
          show outcomes (sock.calls + 1 + call) = _
          congr 1
          omega

inductive EndAhead : List UInt8 → Prop
  | feed (rest : List UInt8) : EndAhead (10 :: rest)
  | ret (rest : List UInt8) : EndAhead (13 :: 10 :: rest)
  | line {text rest : List UInt8} (clean : Clean text)
      (later : EndAhead rest) : EndAhead (text ++ 13 :: 10 :: rest)

theorem endAhead_headerBytes
    {headers : List (List UInt8)}
    (headerLines : ∀ header ∈ headers, HeaderLine header) :
    EndAhead (headerBytes headers) := by
  induction headers with
  | nil => exact .ret []
  | cons header headers inductionHypothesis =>
      obtain ⟨isHeader, others⟩ := List.forall_mem_cons.mp headerLines
      exact .line isHeader.1 (inductionHypothesis others)

/-- The loop waits until something is there. -/
theorem blankAhead_of_later
    (arriving : Arriving outcomes) {stream : List UInt8}
    (delivered :
      ∀ call, outcomes call = .delivers →
        BlankAhead outcomes ⟨stream, call⟩)
    (call : Nat) : BlankAhead outcomes ⟨stream, call⟩ := by
  obtain ⟨later, notBefore, delivers⟩ := arriving call
  obtain ⟨wait, rfl⟩ := Nat.exists_eq_add_of_le notBefore
  clear notBefore
  induction wait generalizing call with
  | zero => exact delivered call delivers
  | succ wait inductionHypothesis =>
      by_cases now : outcomes call = .delivers
      · exact delivered call now
      · refine .later (.silent (.inl now)) ?_
        apply inductionHypothesis (call + 1)
        rw [← delivers]
        congr 1
        omega

/-- A line that begins with a byte of text leads nearer to the end. -/
theorem endAhead_of_getLine
    {byte : UInt8} {text rest : List UInt8} (clean : Clean (byte :: text))
    (later : EndAhead rest) {call : Nat}
    (delivers : outcomes call = .delivers) :
    EndAhead
        (getLineFrom outcomes 1023
          ⟨byte :: text ++ 13 :: 10 :: rest, call⟩).sock.stream ∧
      (getLineFrom outcomes 1023
          ⟨byte :: text ++ 13 :: 10 :: rest, call⟩).sock.stream.length <
        (byte :: text ++ 13 :: 10 :: rest).length := by
  have arrives :
      Arrives outcomes ⟨byte :: text ++ 13 :: 10 :: rest, call⟩ byte :=
    ⟨delivers, rfl⟩
  obtain ⟨notReturn, notFeed⟩ := clean.of_cons
  have line := getLineFrom_of_byte arrives notReturn notFeed 1022
  have part :
      Part text rest
        (getLineFrom outcomes 1022
          (Sock.taken ⟨byte :: text ++ 13 :: 10 :: rest, call⟩)) :=
    part_of_getLineFrom clean.tail rest 1022 rfl
  cases part with
  | some count within buf stream =>
      rw [line, stream]
      refine ⟨.line (clean.tail.drop count) later, ?_⟩
      simp only [List.length_append, List.length_cons, List.length_drop]
      omega
  | all buf stream =>
      rw [line]
      rcases stream with stream | stream
      · rw [stream]
        refine ⟨later, ?_⟩
        simp only [List.length_append, List.length_cons]
        omega
      · rw [stream]
        refine ⟨.feed rest, ?_⟩
        simp only [List.length_append, List.length_cons]
        omega

/-- The loop of `do_read` comes to a line that begins with its end. -/
theorem blankAhead_of_endAhead
    (arriving : Arriving outcomes) {stream : List UInt8}
    (ahead : EndAhead stream) (call : Nat) :
    BlankAhead outcomes ⟨stream, call⟩ := by
  induction size : stream.length using Nat.strong_induction_on
    generalizing stream call with
  | h size inductionHypothesis =>
      subst size
      apply blankAhead_of_later arriving
      intro now delivers
      cases ahead with
      | feed rest => exact .feed ⟨delivers, rfl⟩
      | ret rest => exact .ret ⟨delivers, rfl⟩
      | @line text rest clean later =>
          cases text with
          | nil => exact .ret ⟨delivers, rfl⟩
          | cons byte text =>
              obtain ⟨ahead, shorter⟩ :=
                endAhead_of_getLine clean later delivers
              refine .later (getLineFrom_oneLine outcomes 1023 _) ?_
              exact inductionHypothesis _ shorter ahead _ rfl

/-- The stream begins with a line, or with an LF in front of it, and each line
is allowed. -/
inductive AtLine (allowed : List UInt8 → Prop) : List UInt8 → Prop
  | nil : AtLine allowed []
  | feed {rest : List UInt8} (lines : AtLine allowed rest) :
      AtLine allowed (10 :: rest)
  | line {text rest : List UInt8} (clean : Clean text)
      (permitted : allowed text) (lines : AtLine allowed rest) :
      AtLine allowed (text ++ 13 :: 10 :: rest)

inductive InLine (allowed : List UInt8 → Prop) : List UInt8 → Prop
  | start {stream : List UInt8} (lines : AtLine allowed stream) :
      InLine allowed stream
  | inside {text rest : List UInt8} (clean : Clean text)
      (lines : AtLine allowed rest) :
      InLine allowed (text ++ 13 :: 10 :: rest)

variable {allowed : List UInt8 → Prop}

theorem atLine_headerBytes
    {headers : List (List UInt8)} (blank : allowed [])
    (permitted : ∀ header ∈ headers, Clean header ∧ allowed header) :
    AtLine allowed (headerBytes headers) := by
  induction headers with
  | nil =>
      have noText : Clean [] := ⟨List.not_mem_nil, List.not_mem_nil⟩
      exact .line noText blank .nil
  | cons header headers inductionHypothesis =>
      obtain ⟨isHeader, others⟩ := List.forall_mem_cons.mp permitted
      exact .line isHeader.1 isHeader.2 (inductionHypothesis others)

/-- A line without its end does not begin with LF. -/
theorem Clean.first_ne
    {text : List UInt8} (clean : Clean text) (count : Nat) :
    (text.take count).headD 0 ≠ 10 := by
  cases taken : text.take count with
  | nil => decide
  | cons byte rest =>
      intro isFeed
      have member : byte ∈ text.take count := by
        rw [taken]
        exact List.mem_cons_self
      exact clean.2 (isFeed ▸ List.mem_of_mem_take member)

theorem part_inLine
    {text rest : List UInt8} {line : Line} (clean : Clean text)
    (lines : AtLine allowed rest) (part : Part text rest line) :
    InLine allowed line.sock.stream ∧
      (line.first = 10 → AtLine allowed line.sock.stream) := by
  cases part with
  | some count within buf stream =>
      rw [stream]
      refine ⟨.inside (clean.drop count) lines, fun isFeed => ?_⟩
      rw [Line.first, buf] at isFeed
      exact absurd isFeed (clean.first_ne count)
  | all buf stream =>
      have atLine : AtLine allowed line.sock.stream := by
        rcases stream with stream | stream
        · rw [stream]
          exact lines
        · rw [stream]
          exact .feed lines
      exact ⟨.start atLine, fun _ => atLine⟩

/-- What `get_line` does in front of an LF. -/
theorem getLineFrom_at_feed
    (outcomes : Nat → RecvOutcome) (room call : Nat) (rest : List UInt8) :
    (getLineFrom outcomes room ⟨10 :: rest, call⟩).buf = [] ∧
        (getLineFrom outcomes room ⟨10 :: rest, call⟩).sock.stream =
          10 :: rest ∨
      (getLineFrom outcomes room ⟨10 :: rest, call⟩).buf = [10] ∧
        (getLineFrom outcomes room ⟨10 :: rest, call⟩).sock.stream =
          rest := by
  cases room with
  | zero => exact .inl ⟨rfl, rfl⟩
  | succ room =>
      by_cases delivers : outcomes call = .delivers
      · have arrives : Arrives outcomes ⟨10 :: rest, call⟩ 10 :=
          ⟨delivers, rfl⟩
        rw [getLineFrom_of_feed arrives]
        exact .inr ⟨rfl, rfl⟩
      · have silent : Silent outcomes ⟨10 :: rest, call⟩ := .inl delivers
        rw [getLineFrom_of_silent silent]
        exact .inl ⟨rfl, rfl⟩

theorem getLineFrom_at_end
    (outcomes : Nat → RecvOutcome) (room call : Nat) :
    (getLineFrom outcomes room ⟨[], call⟩).buf = [] ∧
      (getLineFrom outcomes room ⟨[], call⟩).sock.stream = [] := by
  cases room with
  | zero => exact ⟨rfl, rfl⟩
  | succ room =>
      have silent : Silent outcomes ⟨[], call⟩ := .inr rfl
      rw [getLineFrom_of_silent silent]
      exact ⟨rfl, rfl⟩

/-- What `get_line` leaves, and what it leaves where the loop ends. -/
theorem inLine_of_getLineFrom
    (outcomes : Nat → RecvOutcome) (room call : Nat)
    {stream : List UInt8} (position : InLine allowed stream) :
    InLine allowed
        (getLineFrom outcomes room ⟨stream, call⟩).sock.stream ∧
      ((getLineFrom outcomes room ⟨stream, call⟩).first = 10 →
        AtLine allowed
          (getLineFrom outcomes room ⟨stream, call⟩).sock.stream) := by
  cases position with
  | inside clean lines =>
      exact part_inLine clean lines (part_of_getLineFrom clean _ room rfl)
  | start lines =>
      cases lines with
      | nil =>
          rw [(getLineFrom_at_end outcomes room call).2]
          exact ⟨.start .nil, fun _ => .nil⟩
      | @feed rest lines =>
          rcases getLineFrom_at_feed outcomes room call rest with
            ⟨_, after⟩ | ⟨_, after⟩
          · rw [after]
            exact ⟨.start (.feed lines), fun _ => .feed lines⟩
          · rw [after]
            exact ⟨.start lines, fun _ => lines⟩
      | line clean permitted lines =>
          exact
            part_inLine clean lines (part_of_getLineFrom clean _ room rfl)

/-- The loop of `do_read` stops at the beginning of a line. -/
theorem atLine_of_readRest
    {fuel : Nat} {sock later : Sock}
    (position : InLine allowed sock.stream)
    (finished : readRest outcomes fuel sock = some later) :
    AtLine allowed later.stream := by
  induction fuel generalizing sock with
  | zero => cases finished
  | succ fuel inductionHypothesis =>
      obtain ⟨after, atEnd⟩ :=
        inLine_of_getLineFrom outcomes 1023 sock.calls position
      rw [readRest_succ] at finished
      by_cases isBlank : (getLine outcomes lineSize sock).first = 10
      · rw [if_pos isBlank] at finished
        cases finished
        exact atEnd isBlank
      · rw [if_neg isBlank] at finished
        exact inductionHypothesis after finished

/-- A line that is read from the beginning of an allowed one is an allowed
one, a part of it, or empty. -/
theorem buf_of_atLine
    (outcomes : Nat → RecvOutcome) (room call : Nat)
    {stream : List UInt8} (lines : AtLine allowed stream)
    {text more : List UInt8}
    (buf :
      (getLineFrom outcomes room ⟨stream, call⟩).buf =
        text ++ 10 :: more) : text = [] ∨ allowed text := by
  have noFeed :
      ∀ {other : List UInt8}, 10 ∉ other → other ≠ text ++ 10 :: more := by
    rintro other absent rfl
    exact absent (List.mem_append_right text List.mem_cons_self)
  cases lines with
  | nil =>
      rw [(getLineFrom_at_end outcomes room call).1] at buf
      exact absurd buf (noFeed List.not_mem_nil)
  | @feed rest lines =>
      rcases getLineFrom_at_feed outcomes room call rest with
        ⟨stored, _⟩ | ⟨stored, _⟩
      · rw [stored] at buf
        exact absurd buf (noFeed List.not_mem_nil)
      · rw [stored] at buf
        left
        cases text with
        | nil => rfl
        | cons byte text =>
            have lengths := congrArg List.length buf
            simp only [List.length_append, List.length_cons,
              List.length_nil] at lengths
            omega
  | @line other rest otherClean permitted lines =>
      have part :
          Part other rest
            (getLineFrom outcomes room
              ⟨other ++ 13 :: 10 :: rest, call⟩) :=
        part_of_getLineFrom otherClean rest room rfl
      cases part with
      | some count within stored stream =>
          rw [stored] at buf
          have absent : 10 ∉ other.take count :=
            fun member => otherClean.2 (List.mem_of_mem_take member)
          exact absurd buf (noFeed absent)
      | all stored stream =>
          rw [stored] at buf
          have same :=
            (List.append_cons_inj_of_notMem otherClean.2
              List.not_mem_nil).mp buf
          exact .inr (same.1 ▸ permitted)

theorem cstr_prefix (buf : List UInt8) : cstr (buf ++ [0]) 0 <+: buf := by
  unfold cstr
  rw [List.drop_zero]
  induction buf with
  | nil => exact List.prefix_refl _
  | cons byte buf inductionHypothesis =>
      rw [List.cons_append, List.takeWhile_cons]
      split
      · exact (List.prefix_cons_inj byte).mpr inductionHypothesis
      · exact List.nil_prefix

/-- What `http_request` gets is the beginning of what `get_line` stored. -/
theorem buf_of_handleLine
    {line : Line} {request : List UInt8}
    (handled : .httpRequest request ∈ handleLine line) :
    request <+: line.buf := by
  unfold handleLine at handled
  split at handled
  · rcases List.mem_cons.mp handled with same | impossible
    · cases same
      exact cstr_prefix line.buf
    · cases List.mem_singleton.mp impossible
  · cases handled

theorem doRead_cases
    {fuel : Nat} {sock later : Sock} {effects : List ReadEffect}
    (finished : doRead outcomes fuel sock = some (effects, later)) :
    effects = .disconnect :: handleLine (getLine outcomes lineSize sock) ∨
      effects = handleLine (getLine outcomes lineSize sock) ∧
        readRest outcomes fuel (getLine outcomes lineSize sock).sock =
          some later := by
  rw [doRead] at finished
  split at finished
  · cases finished
    exact .inl rfl
  · obtain ⟨after, rest, same⟩ := Option.map_eq_some_iff.mp finished
    cases same
    exact .inr ⟨rfl, rest⟩

theorem handled_of_doRead
    {fuel : Nat} {sock later : Sock} {effects : List ReadEffect}
    (finished : doRead outcomes fuel sock = some (effects, later))
    {request : List UInt8} (called : .httpRequest request ∈ effects) :
    request <+: (getLine outcomes lineSize sock).buf := by
  rcases doRead_cases finished with rfl | ⟨rfl, _⟩
  · rcases List.mem_cons.mp called with impossible | handled
    · cases impossible
    · exact buf_of_handleLine handled
  · exact buf_of_handleLine called

theorem atLine_of_doRead
    {fuel : Nat} {sock later : Sock} {effects : List ReadEffect}
    (finished : doRead outcomes fuel sock = some (effects, later))
    (stays : .disconnect ∉ effects)
    (position :
      InLine allowed (getLine outcomes lineSize sock).sock.stream) :
    AtLine allowed later.stream := by
  rcases doRead_cases finished with rfl | ⟨_, rest⟩
  · exact absurd List.mem_cons_self stays
  · exact atLine_of_readRest position rest

/-- Where the stream begins with an allowed line, no call gets another line. -/
theorem serve_at_line
    {line : List UInt8} (nonempty : line ≠ []) (other : ¬ allowed line)
    {fuel events : Nat} {sock : Sock} (lines : AtLine allowed sock.stream)
    {effects : List ReadEffect}
    (served : serve outcomes fuel events sock = some effects) :
    .httpRequest (line ++ [10]) ∉ effects := by
  induction events generalizing sock effects with
  | zero =>
      cases served
      exact List.not_mem_nil
  | succ events inductionHypothesis =>
      have notNow :
          ∀ more, (getLine outcomes lineSize sock).buf ≠
            line ++ 10 :: more := by
        intro more buf
        rcases buf_of_atLine outcomes 1023 sock.calls lines buf with
          empty | permitted
        · exact nonempty empty
        · exact other permitted
      rw [serve] at served
      cases read : doRead outcomes fuel sock with
      | none =>
          rw [read] at served
          cases served
      | some result =>
          obtain ⟨first, later⟩ := result
          rw [read] at served
          have notFirst : .httpRequest (line ++ [10]) ∉ first := by
            intro called
            obtain ⟨more, buf⟩ := handled_of_doRead read called
            rw [List.append_assoc] at buf
            exact notNow more buf.symm
          by_cases ends : .disconnect ∈ first
          · simp only [if_pos ends] at served
            cases served
            exact notFirst
          · simp only [if_neg ends] at served
            obtain ⟨others, servedLater, rfl⟩ :=
              Option.map_eq_some_iff.mp served
            have position :=
              (inLine_of_getLineFrom outcomes 1023 sock.calls
                (.start lines)).1
            have notLater :=
              inductionHypothesis (atLine_of_doRead read ends position)
                servedLater
            intro called
            rcases List.mem_append.mp called with now | afterwards
            · exact notFirst now
            · exact notLater afterwards

/-! ## The request line -/

theorem header_ne_line
    {header line : List UInt8} (isHeader : HeaderLine header)
    (isGet : [71, 69, 84, 32] <+: line) : header ≠ line := by
  rintro rfl
  obtain ⟨_, name, value, shape, noBlank⟩ := isHeader
  obtain ⟨rest, letters⟩ := isGet
  rw [shape] at letters
  cases name with
  | nil => cases letters
  | cons first name =>
      cases name with
      | nil => cases letters
      | cons second name =>
          cases name with
          | nil => cases letters
          | cons third name =>
              cases name with
              | nil => cases letters
              | cons fourth name =>
                  cases letters
                  apply noBlank
                  simp only [List.mem_cons, true_or, or_true]

theorem GetRequest.line_ne_nil (request : GetRequest) :
    request.line ≠ [] := by
  intro empty
  have isGet := request.isGet
  rw [empty] at isGet
  cases List.prefix_nil.mp isGet

theorem GetRequest.atLine_headers (request : GetRequest) :
    AtLine (· ≠ request.line) (headerBytes request.headers) := by
  apply atLine_headerBytes
  · exact fun empty => request.line_ne_nil empty.symm
  · intro header member
    have isHeader := request.headerLines header member
    exact ⟨isHeader.1, header_ne_line isHeader request.isGet⟩

theorem GetRequest.handleLine_eq
    (request : GetRequest) {line : Line}
    (buf : line.buf = request.line ++ [10]) :
    handleLine line =
      [.httpRequest (request.line ++ [10]), .disconnect] := by
  have whole :
      cstr (line.buf ++ [0]) 0 = request.line ++ [10] := by
    have nulFree : 0 ∉ request.line ++ [10] := by
      rw [List.mem_append, not_or]
      exact ⟨request.nulFree, by decide⟩
    have shape :
        (line.buf ++ [0]).drop 0 = request.line ++ [10] ++ 0 :: [] := by
      rw [buf]
      rfl
    exact cstr_eq_of_drop_eq shape nulFree
  obtain ⟨rest, letters⟩ := request.isGet
  have isGet :
      strncasecmp (line.buf ++ [0]) 0 [103, 101, 116] = true := by
    unfold strncasecmp
    rw [whole, ← letters]
    exact decide_eq_true rfl
  unfold handleLine
  rw [if_pos isGet, whole]

theorem called_of_handledOnce
    {events : Nat} {stream line : List UInt8}
    (handled : HandledOnce outcomes events stream line) :
    ∃ fuel effects,
      serve outcomes fuel events ⟨stream, 0⟩ = some effects ∧
        .httpRequest line ∈ effects := by
  obtain ⟨fuel, effects, served, calls⟩ := handled
  have member : line ∈ effects.filterMap ReadEffect.request := by
    rw [calls]
    exact List.mem_singleton_self line
  obtain ⟨effect, called, request⟩ := List.mem_filterMap.mp member
  cases effect with
  | disconnect => cases request
  | httpRequest other =>
      cases request
      exact ⟨fuel, effects, served, called⟩

/-- The request line is handled only where all of it was there. -/
theorem GetRequest.delivered_of_handledOnce
    (request : GetRequest) {events : Nat}
    (handled :
      HandledOnce outcomes (events + 1) request.bytes
        (request.line ++ [10])) (call : Nat)
    (within : call ≤ request.line.length) : outcomes call = .delivers := by
  have fits : request.line.length < 1023 :=
    Nat.lt_of_le_of_lt request.short (by decide)
  have whole_iff :
      (getLineFrom outcomes 1023 ⟨request.bytes, 0⟩).buf =
          request.line ++ [10] ↔ _ :=
    getLineFrom_all_iff request.clean (headerBytes request.headers) fits rfl
  rw [← Nat.zero_add call]
  refine whole_iff.mp ?_ call within
  obtain ⟨fuel, effects, served, called⟩ := called_of_handledOnce handled
  have part :
      Part request.line (headerBytes request.headers)
        (getLineFrom outcomes 1023 ⟨request.bytes, 0⟩) :=
    part_of_getLineFrom request.clean _ 1023 rfl
  have position := (part_inLine request.clean request.atLine_headers part).1
  cases part with
  | all buf stream => exact buf
  | some count within buf stream =>
      exfalso
      rw [serve] at served
      cases read : doRead outcomes fuel ⟨request.bytes, 0⟩ with
      | none =>
          rw [read] at served
          cases served
      | some result =>
          obtain ⟨first, later⟩ := result
          rw [read] at served
          have notFirst :
              .httpRequest (request.line ++ [10]) ∉ first := by
            intro now
            have lengths := (handled_of_doRead read now).length_le
            rw [show (getLine outcomes lineSize ⟨request.bytes, 0⟩).buf =
              request.line.take count from buf] at lengths
            simp only [List.length_append, List.length_take,
              List.length_singleton] at lengths
            omega
          by_cases ends : .disconnect ∈ first
          · simp only [if_pos ends] at served
            cases served
            exact notFirst called
          · simp only [if_neg ends] at served
            obtain ⟨others, servedLater, rfl⟩ :=
              Option.map_eq_some_iff.mp served
            have notLater :=
              serve_at_line request.line_ne_nil (not_not_intro rfl)
                (atLine_of_doRead read ends position) servedLater
            rcases List.mem_append.mp called with now | afterwards
            · exact notFirst now
            · exact notLater afterwards

theorem GetRequest.handledOnce_of_delivered
    (request : GetRequest) (arriving : Arriving outcomes) (events : Nat)
    (delivered :
      ∀ call, call ≤ request.line.length → outcomes call = .delivers) :
    HandledOnce outcomes (events + 1) request.bytes
      (request.line ++ [10]) := by
  have fits : request.line.length < 1023 :=
    Nat.lt_of_le_of_lt request.short (by decide)
  have buf :
      (getLine outcomes lineSize ⟨request.bytes, 0⟩).buf =
        request.line ++ [10] := by
    apply (getLineFrom_all_iff request.clean _ fits rfl).mpr
    intro call within
    rw [Nat.zero_add]
    exact delivered call within
  have sends : ¬ Silent outcomes ⟨request.bytes, 0⟩ := by
    intro silent
    have stream :
        request.bytes =
          request.line ++ 13 :: 10 :: headerBytes request.headers := rfl
    exact silent.not_delivers stream (delivered 0 (Nat.zero_le _))
  have ahead : EndAhead
      (getLine outcomes lineSize ⟨request.bytes, 0⟩).sock.stream := by
    have headers := endAhead_headerBytes request.headerLines
    have part :
        Part request.line (headerBytes request.headers)
          (getLine outcomes lineSize ⟨request.bytes, 0⟩) :=
      part_of_getLineFrom request.clean _ 1023 rfl
    cases part with
    | some count within stored stream =>
        rw [stored] at buf
        have lengths := congrArg List.length buf
        simp only [List.length_append, List.length_take,
          List.length_singleton] at lengths
        omega
    | all stored stream =>
        rcases stream with stream | stream
        · rw [stream]
          exact headers
        · rw [stream]
          exact .feed _
  obtain ⟨fuel, returns⟩ :=
    readRest_of_blankAhead (blankAhead_of_endAhead arriving ahead _)
  obtain ⟨later, rest⟩ := Option.isSome_iff_exists.mp returns
  have read :
      doRead outcomes fuel ⟨request.bytes, 0⟩ =
        some
          ([.httpRequest (request.line ++ [10]), .disconnect], later) := by
    rw [doRead_of_not_silent sends, request.handleLine_eq buf]
    exact congrArg _ rest
  have served :
      serve outcomes fuel (events + 1) ⟨request.bytes, 0⟩ =
        some [.httpRequest (request.line ++ [10]), .disconnect] := by
    rw [serve, read]
    exact if_pos (List.mem_cons_of_mem _ (List.mem_singleton_self _))
  exact ⟨fuel, _, served, rfl⟩

/-- `http_request` is called exactly once, with the request line, exactly when
the first `get_line` finds the line and its CR. -/
theorem GetRequest.handled_once_iff
    (request : GetRequest) (outcomes : Nat → RecvOutcome)
    (arriving : Arriving outcomes) (events : Nat) :
    HandledOnce outcomes (events + 1) request.bytes
        (request.line ++ [10]) ↔
      ∀ call, call ≤ request.line.length → outcomes call = .delivers :=
  ⟨request.delivered_of_handledOnce,
    request.handledOnce_of_delivered arriving events⟩

/-- `"GET / HTTP/1.1"` and `"Host: a"`. -/
def smallRequest : GetRequest where
  line := [71, 69, 84, 32, 47, 32, 72, 84, 84, 80, 47, 49, 46, 49]
  headers := [[72, 111, 115, 116, 58, 32, 97]]
  isGet := ⟨[47, 32, 72, 84, 84, 80, 47, 49, 46, 49], rfl⟩
  short := by decide
  nulFree := by decide
  clean := ⟨by decide, by decide⟩
  headerLines := by
    intro header member
    cases List.mem_singleton.mp member
    exact
      ⟨⟨by decide, by decide⟩, [72, 111, 115, 116], [32, 97], rfl,
        by decide⟩

theorem GetRequest.handled_once_small :
    HandledOnce allAvailable 1 smallRequest.bytes
        (smallRequest.line ++ [10]) ↔
      ∀ call, call ≤ smallRequest.line.length →
        allAvailable call = .delivers :=
  smallRequest.handled_once_iff allAvailable
    (fun call => ⟨call, Nat.le_refl call, rfl⟩) 0

/-- `"GET /"` is there, and the rest comes later. -/
def restLater (call : Nat) : RecvOutcome :=
  if call = 5 then .fails else .delivers

theorem GetRequest.not_handled_once :
    ¬ ∀ (request : GetRequest) (outcomes : Nat → RecvOutcome),
        Arriving outcomes → ∀ events,
          HandledOnce outcomes (events + 1) request.bytes
            (request.line ++ [10]) := by
  intro always
  have arriving : Arriving restLater := by
    intro call
    refine ⟨call + 6, Nat.le_add_right call 6, if_neg ?_⟩
    omega
  have handled := always smallRequest restLater arriving 0
  have found := smallRequest.delivered_of_handledOnce handled 5 (by decide)
  cases found

end LinuxNet.HttpServer
