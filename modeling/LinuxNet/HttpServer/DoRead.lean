import LinuxNet.HttpServer.LineReader

/-!
# Whether `do_read` comes back

The loop of `do_read` ends where `buf[0]` is `'\n'` or where `get_line`
returns −1.  The second never happens, and the first needs a line that begins
with its end.  At the end of the stream `get_line` stores nothing and returns
0, so the loop asks for another line for ever unless such a line came before.
-/

namespace LinuxNet.HttpServer

open LinuxNet.CString

/-- What `do_read` calls once it has read the lines. -/
inductive ReadEffect where
  | disconnect
  | httpRequest (request : List UInt8)
  deriving DecidableEq, Repr

/-- The size of `line` and `buf` in `do_read`. -/
def lineSize : Nat := 1024

/-- The inner loop of `do_read`. -/
def readRest (outcomes : Nat → RecvOutcome) : Nat → Sock → Option Sock
  | 0, _ => none
  | fuel + 1, sock =>
      let line := getLine outcomes lineSize sock
      if line.first = 10 then
        some line.sock
      else if line.recvBytes = -1 then
        some line.sock
      else
        readRest outcomes fuel line.sock

/-- `if (strncasecmp("get", line, 3) == 0) ..`. -/
def handleLine (line : Line) : List ReadEffect :=
  if strncasecmp (line.buf ++ [0]) 0 [103, 101, 116] then
    [.httpRequest (cstr (line.buf ++ [0]) 0), .disconnect]
  else
    []

def doRead
    (outcomes : Nat → RecvOutcome) (fuel : Nat) (sock : Sock) :
    Option (List ReadEffect × Sock) :=
  let line := getLine outcomes lineSize sock
  if line.recvBytes = 0 then
    some (.disconnect :: handleLine line, line.sock)
  else
    (readRest outcomes fuel line.sock).map fun later =>
      (handleLine line, later)

/-- Some number of turns of the inner loop is enough. -/
def Returns (outcomes : Nat → RecvOutcome) (sock : Sock) : Prop :=
  ∃ fuel, (doRead outcomes fuel sock).isSome

/-- A line of at most `room` bytes leads from one place of the input to the
next.  It ends with LF, with CR and what belongs to it, with a call that
delivers nothing, or where its room is used up. -/
inductive OneLine (outcomes : Nat → RecvOutcome) : Nat → Sock → Sock → Prop
  | full (sock : Sock) : OneLine outcomes 0 sock sock
  | silent {room : Nat} {sock : Sock} (silent : Silent outcomes sock) :
      OneLine outcomes (room + 1) sock sock.asked
  | feed {room : Nat} {sock : Sock} (arrives : Arrives outcomes sock 10) :
      OneLine outcomes (room + 1) sock sock.taken
  | ret {room : Nat} {sock next : Sock} (arrives : Arrives outcomes sock 13)
      (ends : ReturnEnds outcomes sock.taken next) :
      OneLine outcomes (room + 1) sock next
  | byte {room : Nat} {sock next : Sock} {byte : UInt8}
      (arrives : Arrives outcomes sock byte) (notReturn : byte ≠ 13)
      (notFeed : byte ≠ 10) (rest : OneLine outcomes room sock.taken next) :
      OneLine outcomes (room + 1) sock next

/-- Some line from here on begins with CR or LF. -/
inductive BlankAhead (outcomes : Nat → RecvOutcome) : Sock → Prop
  | feed {sock : Sock} (arrives : Arrives outcomes sock 10) :
      BlankAhead outcomes sock
  | ret {sock : Sock} (arrives : Arrives outcomes sock 13) :
      BlankAhead outcomes sock
  | later {sock next : Sock} (line : OneLine outcomes 1023 sock next)
      (ahead : BlankAhead outcomes next) : BlankAhead outcomes sock

variable {outcomes : Nat → RecvOutcome} {sock : Sock}

theorem getLineFrom_oneLine
    (outcomes : Nat → RecvOutcome) (room : Nat) (sock : Sock) :
    OneLine outcomes room sock (getLineFrom outcomes room sock).sock := by
  induction room generalizing sock with
  | zero => exact .full sock
  | succ room inductionHypothesis =>
      rcases silent_or_arrives outcomes sock with silent | ⟨byte, arrives⟩
      · rw [getLineFrom_of_silent silent]
        exact .silent silent
      · by_cases isFeed : byte = 10
        · subst isFeed
          rw [getLineFrom_of_feed arrives]
          exact .feed arrives
        · by_cases isReturn : byte = 13
          · subst isReturn
            rw [getLineFrom_of_return arrives]
            exact .ret arrives (afterReturn_spec outcomes sock.taken).2
          · rw [getLineFrom_of_byte arrives isReturn isFeed]
            exact .byte arrives isReturn isFeed
              (inductionHypothesis sock.taken)

theorem OneLine.sock_eq
    {room : Nat} {next : Sock} (line : OneLine outcomes room sock next) :
    (getLineFrom outcomes room sock).sock = next := by
  induction line with
  | full sock => rfl
  | silent silent => rw [getLineFrom_of_silent silent]
  | feed arrives => rw [getLineFrom_of_feed arrives]
  | ret arrives ends =>
      rw [getLineFrom_of_return arrives]
      exact ends.sock_eq
  | byte arrives notReturn notFeed _ inductionHypothesis =>
      rw [getLineFrom_of_byte arrives notReturn notFeed]
      exact inductionHypothesis

theorem recvBytes_eq_zero_iff (outcomes : Nat → RecvOutcome) (sock : Sock) :
    (getLine outcomes lineSize sock).recvBytes = 0 ↔
      Silent outcomes sock := by
  show (getLineFrom outcomes (1022 + 1) sock).recvBytes = 0 ↔ _
  unfold Line.recvBytes
  rcases silent_or_arrives outcomes sock with silent | ⟨byte, arrives⟩
  · rw [getLineFrom_of_silent silent]
    exact iff_of_true rfl silent
  · apply iff_of_false _ arrives.not_silent
    by_cases isFeed : byte = 10
    · subst isFeed
      rw [getLineFrom_of_feed arrives]
      exact Int.one_ne_zero
    · by_cases isReturn : byte = 13
      · subst isReturn
        rw [getLineFrom_of_return arrives]
        exact Int.one_ne_zero
      · rw [getLineFrom_of_byte arrives isReturn isFeed, List.length_cons]
        omega

theorem first_eq_feed_iff (outcomes : Nat → RecvOutcome) (sock : Sock) :
    (getLine outcomes lineSize sock).first = 10 ↔
      Arrives outcomes sock 10 ∨ Arrives outcomes sock 13 := by
  show (getLineFrom outcomes (1022 + 1) sock).first = 10 ↔ _
  unfold Line.first
  rcases silent_or_arrives outcomes sock with silent | ⟨byte, arrives⟩
  · rw [getLineFrom_of_silent silent]
    apply iff_of_false
    · exact (by decide : (0 : UInt8) ≠ 10)
    · rintro (feed | ret)
      · exact feed.not_silent silent
      · exact ret.not_silent silent
  · by_cases isFeed : byte = 10
    · subst isFeed
      rw [getLineFrom_of_feed arrives]
      exact iff_of_true rfl (Or.inl arrives)
    · by_cases isReturn : byte = 13
      · subst isReturn
        rw [getLineFrom_of_return arrives]
        exact iff_of_true rfl (Or.inr arrives)
      · rw [getLineFrom_of_byte arrives isReturn isFeed, List.headD_cons]
        apply iff_of_false isFeed
        rintro (feed | ret)
        · exact isFeed (feed.unique arrives)
        · exact isReturn (ret.unique arrives)

/-- One turn of the loop: the test for −1 never ends it. -/
theorem readRest_succ
    (outcomes : Nat → RecvOutcome) (fuel : Nat) (sock : Sock) :
    readRest outcomes (fuel + 1) sock =
      if (getLine outcomes lineSize sock).first = 10 then
        some (getLine outcomes lineSize sock).sock
      else
        readRest outcomes fuel (getLine outcomes lineSize sock).sock := by
  have nonneg := recvBytes_nonneg outcomes lineSize sock
  rw [readRest, if_neg (c := (_ : Int) = -1) (by omega)]

theorem blankAhead_of_readRest
    {fuel : Nat} (returns : (readRest outcomes fuel sock).isSome) :
    BlankAhead outcomes sock := by
  induction fuel generalizing sock with
  | zero => cases returns
  | succ fuel inductionHypothesis =>
      rw [readRest_succ] at returns
      by_cases blank : (getLine outcomes lineSize sock).first = 10
      · rcases (first_eq_feed_iff outcomes sock).mp blank with feed | ret
        · exact .feed feed
        · exact .ret ret
      · rw [if_neg blank] at returns
        exact .later (getLineFrom_oneLine outcomes 1023 sock)
          (inductionHypothesis returns)

theorem readRest_of_blankAhead (ahead : BlankAhead outcomes sock) :
    ∃ fuel, (readRest outcomes fuel sock).isSome := by
  induction ahead with
  | feed arrives =>
      refine ⟨0 + 1, ?_⟩
      rw [readRest_succ,
        if_pos ((first_eq_feed_iff outcomes _).mpr (Or.inl arrives))]
      rfl
  | ret arrives =>
      refine ⟨0 + 1, ?_⟩
      rw [readRest_succ,
        if_pos ((first_eq_feed_iff outcomes _).mpr (Or.inr arrives))]
      rfl
  | @later sock next line _ inductionHypothesis =>
      obtain ⟨fuel, returns⟩ := inductionHypothesis
      refine ⟨fuel + 1, ?_⟩
      rw [readRest_succ]
      by_cases blank : (getLine outcomes lineSize sock).first = 10
      · rw [if_pos blank]
        rfl
      · rw [if_neg blank]
        have sockEq : (getLine outcomes lineSize sock).sock = next :=
          line.sock_eq
        rwa [sockEq]

/-- Nothing ends the loop once the stream is consumed. -/
theorem readRest_of_consumed (fuel calls : Nat) :
    readRest outcomes fuel ⟨[], calls⟩ = none := by
  induction fuel generalizing calls with
  | zero => rfl
  | succ fuel inductionHypothesis =>
      have silent : Silent outcomes ⟨[], calls⟩ := Or.inr rfl
      have line :
          getLine outcomes lineSize ⟨[], calls⟩ = ⟨[], ⟨[], calls + 1⟩⟩ :=
        getLineFrom_of_silent silent 1022
      rw [readRest_succ, line]
      exact inductionHypothesis (calls + 1)

theorem doRead_of_silent (silent : Silent outcomes sock) (fuel : Nat) :
    doRead outcomes fuel sock =
      some (.disconnect :: handleLine (getLine outcomes lineSize sock),
        (getLine outcomes lineSize sock).sock) :=
  if_pos ((recvBytes_eq_zero_iff outcomes sock).mpr silent)

theorem doRead_of_not_silent
    (sends : ¬ Silent outcomes sock) (fuel : Nat) :
    doRead outcomes fuel sock =
      (readRest outcomes fuel (getLine outcomes lineSize sock).sock).map
        fun later =>
          (handleLine (getLine outcomes lineSize sock), later) :=
  if_neg fun nothing => sends ((recvBytes_eq_zero_iff outcomes sock).mp nothing)

/-- `do_read` comes back exactly when the client sends nothing, or a line
after the first one begins with CR or LF. -/
theorem doRead_returns_iff
    (outcomes : Nat → RecvOutcome) (sock : Sock) :
    Returns outcomes sock ↔
      Silent outcomes sock ∨
        ∃ next, OneLine outcomes 1023 sock next ∧
          BlankAhead outcomes next := by
  by_cases silent : Silent outcomes sock
  · apply iff_of_true _ (Or.inl silent)
    exact ⟨0, by rw [doRead_of_silent silent]; rfl⟩
  · constructor
    · rintro ⟨fuel, returns⟩
      rw [doRead_of_not_silent silent, Option.isSome_map] at returns
      exact Or.inr
        ⟨_, getLineFrom_oneLine outcomes 1023 sock,
          blankAhead_of_readRest returns⟩
    · rintro (nothing | ⟨next, line, ahead⟩)
      · exact absurd nothing silent
      · have sockEq : (getLine outcomes lineSize sock).sock = next :=
          line.sock_eq
        obtain ⟨fuel, returns⟩ := readRest_of_blankAhead ahead
        refine ⟨fuel, ?_⟩
        rw [doRead_of_not_silent silent, Option.isSome_map, sockEq]
        exact returns

/-- `"GET / HTTP/1.1\r\n"`, after which the client closes its end. -/
def requestWithoutBlankLine : List UInt8 :=
  [71, 69, 84, 32, 47, 32, 72, 84, 84, 80, 47, 49, 46, 49, 13, 10]

theorem doRead_runs_for_ever :
    ¬ ∀ outcomes stream, Returns outcomes ⟨stream, 0⟩ := by
  intro always
  obtain ⟨fuel, returns⟩ :=
    always allAvailable requestWithoutBlankLine
  obtain ⟨later, line⟩ :=
    getLineFrom_of_available
      [71, 69, 84, 32, 47, 32, 72, 84, 84, 80, 47, 49, 46, 49] []
      (by decide) (by decide) 1023 0 (by decide)
  have first :
      getLine allAvailable lineSize ⟨requestWithoutBlankLine, 0⟩ =
        ⟨_, ⟨[], later⟩⟩ :=
    line
  have arrives : Arrives allAvailable ⟨requestWithoutBlankLine, 0⟩ 71 :=
    ⟨rfl, rfl⟩
  rw [doRead_of_not_silent arrives.not_silent, first, readRest_of_consumed] at returns
  cases returns

end LinuxNet.HttpServer
