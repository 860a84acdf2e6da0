import LinuxNet.Lib.CString

/-!
# The line reader of the epoll server

`get_line` takes one byte with each `recv` and peeks for the LF behind a CR.
It stores `'\n'` for every end of a line, and ends the line as well where
`recv` delivers nothing.  Its result is the number of bytes stored, which is
never negative.
-/

namespace LinuxNet.HttpServer

open LinuxNet.CString

/-- What a call of `recv` does.  No call delivers a byte where none is left. -/
inductive RecvOutcome where
  | delivers
  | closed
  | fails
  deriving DecidableEq, Repr

/-- The bytes of the client that are still to be read, and the number of
calls of `recv` so far. -/
structure Sock where
  stream : List UInt8
  calls : Nat
  deriving DecidableEq, Repr

/-- The returned value of a call, the character it leaves in its buffer, and
the socket. -/
structure Received where
  value : Int
  ch : UInt8
  sock : Sock
  deriving DecidableEq, Repr

/-- `recv(sock, &ch, 1, ..)`, with `MSG_PEEK` or without. -/
def recv
    (outcomes : Nat → RecvOutcome) (peek : Bool) (ch : UInt8)
    (sock : Sock) : Received :=
  match outcomes sock.calls, sock.stream with
  | .delivers, byte :: rest =>
      ⟨1, byte, ⟨if peek then byte :: rest else rest, sock.calls + 1⟩⟩
  | .delivers, [] => ⟨0, ch, ⟨[], sock.calls + 1⟩⟩
  | .closed, stream => ⟨0, ch, ⟨stream, sock.calls + 1⟩⟩
  | .fails, stream => ⟨-1, ch, ⟨stream, sock.calls + 1⟩⟩

def afterReturn (outcomes : Nat → RecvOutcome) (sock : Sock) : Received :=
  let peeked := recv outcomes true 13 sock
  if 0 < peeked.value ∧ peeked.ch = 10 then
    recv outcomes false peeked.ch peeked.sock
  else
    { peeked with ch := 10 }

/-- The bytes stored in `buf` in front of the terminator, and the socket. -/
structure Line where
  buf : List UInt8
  sock : Sock
  deriving DecidableEq, Repr

/-- The value that `get_line` returns. -/
def Line.recvBytes (line : Line) : Int :=
  line.buf.length

/-- `buf[0]`, which is the terminator where nothing is stored. -/
def Line.first (line : Line) : UInt8 :=
  line.buf.headD 0

/-- The loop of `get_line`, with `room` places left in front of the one for
the terminator. -/
def getLineFrom (outcomes : Nat → RecvOutcome) : Nat → Sock → Line
  | 0, sock => ⟨[], sock⟩
  | room + 1, sock =>
      let taken := recv outcomes false 0 sock
      if 0 < taken.value then
        let stored :=
          if taken.ch = 13 then afterReturn outcomes taken.sock else taken
        if stored.ch = 10 then
          ⟨[10], stored.sock⟩
        else
          let rest := getLineFrom outcomes room stored.sock
          ⟨stored.ch :: rest.buf, rest.sock⟩
      else
        ⟨[], taken.sock⟩

def getLine
    (outcomes : Nat → RecvOutcome) (size : Nat) (sock : Sock) : Line :=
  getLineFrom outcomes (size - 1) sock

def Arrives
    (outcomes : Nat → RecvOutcome) (sock : Sock) (byte : UInt8) : Prop :=
  outcomes sock.calls = .delivers ∧ sock.stream.head? = some byte

def Silent (outcomes : Nat → RecvOutcome) (sock : Sock) : Prop :=
  outcomes sock.calls ≠ .delivers ∨ sock.stream = []

def Sock.taken (sock : Sock) : Sock :=
  ⟨sock.stream.tail, sock.calls + 1⟩

def Sock.asked (sock : Sock) : Sock :=
  ⟨sock.stream, sock.calls + 1⟩

variable {outcomes : Nat → RecvOutcome} {sock : Sock} {byte : UInt8}

theorem silent_or_arrives (outcomes : Nat → RecvOutcome) (sock : Sock) :
    Silent outcomes sock ∨ ∃ byte, Arrives outcomes sock byte := by
  by_cases delivers : outcomes sock.calls = .delivers
  · cases stream : sock.stream with
    | nil => exact Or.inl (Or.inr stream)
    | cons byte rest =>
        exact Or.inr ⟨byte, delivers, by rw [stream]; rfl⟩
  · exact Or.inl (Or.inl delivers)

theorem Arrives.not_silent (arrives : Arrives outcomes sock byte) :
    ¬ Silent outcomes sock := by
  rintro (refused | empty)
  · exact refused arrives.1
  · have head := arrives.2
    rw [empty] at head
    cases head

theorem Arrives.unique
    {other : UInt8} (arrives : Arrives outcomes sock byte)
    (again : Arrives outcomes sock other) : other = byte :=
  Option.some.inj (again.2.symm.trans arrives.2)

theorem Arrives.recv_eq (arrives : Arrives outcomes sock byte) (ch : UInt8) :
    recv outcomes false ch sock = ⟨1, byte, sock.taken⟩ := by
  obtain ⟨delivers, head⟩ := arrives
  obtain ⟨rest, stream⟩ := List.head?_eq_some_iff.mp head
  unfold recv Sock.taken
  rw [delivers, stream]
  rfl

theorem Arrives.peek_eq (arrives : Arrives outcomes sock byte) (ch : UInt8) :
    recv outcomes true ch sock = ⟨1, byte, sock.asked⟩ := by
  obtain ⟨delivers, head⟩ := arrives
  obtain ⟨rest, stream⟩ := List.head?_eq_some_iff.mp head
  unfold recv Sock.asked
  rw [delivers, stream]
  rfl

/-- The value is 0 or −1 and nothing is stored. -/
theorem Silent.recv_eq
    (silent : Silent outcomes sock) (peek : Bool) (ch : UInt8) :
    ∃ value ≤ 0, recv outcomes peek ch sock = ⟨value, ch, sock.asked⟩ := by
  unfold recv Sock.asked
  cases outcome : outcomes sock.calls with
  | delivers =>
      have empty := silent.resolve_left (not_not_intro outcome)
      rw [empty]
      exact ⟨0, Int.le_refl 0, rfl⟩
  | closed => exact ⟨0, Int.le_refl 0, rfl⟩
  | fails => exact ⟨-1, by decide, rfl⟩

/-- The socket behind a CR: the LF that follows is taken with it, by a second
call that may still fail. -/
inductive ReturnEnds (outcomes : Nat → RecvOutcome) : Sock → Sock → Prop
  | alone {sock : Sock} (noFeed : ¬ Arrives outcomes sock 10) :
      ReturnEnds outcomes sock sock.asked
  | feed {sock : Sock} (peeked : Arrives outcomes sock 10)
      (taken : Arrives outcomes sock.asked 10) :
      ReturnEnds outcomes sock sock.asked.taken
  | refused {sock : Sock} (peeked : Arrives outcomes sock 10)
      (silent : Silent outcomes sock.asked) :
      ReturnEnds outcomes sock sock.asked.asked

theorem afterReturn_spec (outcomes : Nat → RecvOutcome) (sock : Sock) :
    (afterReturn outcomes sock).ch = 10 ∧
      ReturnEnds outcomes sock (afterReturn outcomes sock).sock := by
  unfold afterReturn
  rcases silent_or_arrives outcomes sock with silent | ⟨byte, arrives⟩
  · obtain ⟨value, atMost, received⟩ := silent.recv_eq true 13
    rw [received,
      if_neg (fun both => absurd both.1 (Int.not_lt.mpr atMost))]
    exact ⟨rfl, .alone fun arrives => arrives.not_silent silent⟩
  · rw [arrives.peek_eq 13]
    by_cases isFeed : byte = 10
    · subst isFeed
      rw [if_pos ⟨Int.one_pos, rfl⟩]
      have sameHead : ∀ other, Arrives outcomes sock.asked other → other = 10 :=
        fun other again => Option.some.inj (again.2.symm.trans arrives.2)
      rcases silent_or_arrives outcomes sock.asked with
        silent | ⟨other, again⟩
      · obtain ⟨value, _, received⟩ := silent.recv_eq false 10
        rw [received]
        exact ⟨rfl, .refused arrives silent⟩
      · rw [sameHead other again] at again
        rw [again.recv_eq 10]
        exact ⟨rfl, .feed arrives again⟩
    · rw [if_neg (fun both => isFeed both.2)]
      exact ⟨rfl, .alone fun feed => isFeed (feed.unique arrives)⟩

theorem ReturnEnds.sock_eq
    {next : Sock} (ends : ReturnEnds outcomes sock next) :
    (afterReturn outcomes sock).sock = next := by
  have spec := (afterReturn_spec outcomes sock).2
  generalize (afterReturn outcomes sock).sock = result at spec ⊢
  cases ends with
  | alone noFeed =>
      cases spec with
      | alone _ => rfl
      | feed peeked _ => exact absurd peeked noFeed
      | refused peeked _ => exact absurd peeked noFeed
  | feed peeked taken =>
      cases spec with
      | alone noFeed => exact absurd peeked noFeed
      | feed _ _ => rfl
      | refused _ silent => exact absurd silent taken.not_silent
  | refused peeked silent =>
      cases spec with
      | alone noFeed => exact absurd peeked noFeed
      | feed _ taken => exact absurd silent taken.not_silent
      | refused _ _ => rfl

theorem getLineFrom_of_silent
    (silent : Silent outcomes sock) (room : Nat) :
    getLineFrom outcomes (room + 1) sock = ⟨[], sock.asked⟩ := by
  obtain ⟨value, atMost, received⟩ := silent.recv_eq false 0
  rw [getLineFrom, received, if_neg (Int.not_lt.mpr atMost)]

theorem getLineFrom_of_feed
    (arrives : Arrives outcomes sock 10) (room : Nat) :
    getLineFrom outcomes (room + 1) sock = ⟨[10], sock.taken⟩ := by
  rw [getLineFrom, arrives.recv_eq 0]
  rfl

theorem getLineFrom_of_return
    (arrives : Arrives outcomes sock 13) (room : Nat) :
    getLineFrom outcomes (room + 1) sock =
      ⟨[10], (afterReturn outcomes sock.taken).sock⟩ := by
  rw [getLineFrom, arrives.recv_eq 0]
  simp only [if_true, Int.one_pos, (afterReturn_spec outcomes sock.taken).1]

theorem getLineFrom_of_byte
    (arrives : Arrives outcomes sock byte) (notReturn : byte ≠ 13)
    (notFeed : byte ≠ 10) (room : Nat) :
    getLineFrom outcomes (room + 1) sock =
      ⟨byte :: (getLineFrom outcomes room sock.taken).buf,
        (getLineFrom outcomes room sock.taken).sock⟩ := by
  rw [getLineFrom, arrives.recv_eq 0]
  simp only [if_true, Int.one_pos, if_neg notReturn, if_neg notFeed]

/-- `get_line` never returns −1. -/
theorem recvBytes_nonneg
    (outcomes : Nat → RecvOutcome) (size : Nat) (sock : Sock) :
    0 ≤ (getLine outcomes size sock).recvBytes :=
  Int.natCast_nonneg _

def allAvailable : Nat → RecvOutcome :=
  fun _ => .delivers

/-- A line whose bytes are all available is stored with one LF for its end. -/
theorem getLineFrom_of_available
    (text rest : List UInt8) (noReturn : 13 ∉ text) (noFeed : 10 ∉ text)
    (room calls : Nat) (fits : text.length < room) :
    ∃ later,
      getLineFrom allAvailable room ⟨text ++ 13 :: 10 :: rest, calls⟩ =
        ⟨text ++ [10], ⟨rest, later⟩⟩ := by
  induction text generalizing room calls with
  | nil =>
      obtain ⟨less, rfl⟩ : ∃ less, room = less + 1 := ⟨room - 1, by omega⟩
      have arrives :
          Arrives allAvailable ⟨[] ++ 13 :: 10 :: rest, calls⟩ 13 :=
        ⟨rfl, rfl⟩
      have ends :
          ReturnEnds allAvailable ⟨10 :: rest, calls + 1⟩
            ⟨rest, calls + 1 + 1 + 1⟩ :=
        .feed ⟨rfl, rfl⟩ ⟨rfl, rfl⟩
      refine ⟨calls + 1 + 1 + 1, ?_⟩
      rw [getLineFrom_of_return arrives]
      exact congrArg (Line.mk [10]) ends.sock_eq
  | cons byte text inductionHypothesis =>
      obtain ⟨less, rfl⟩ : ∃ less, room = less + 1 := ⟨room - 1, by omega⟩
      rw [List.mem_cons, not_or] at noReturn noFeed
      have arrives :
          Arrives allAvailable ⟨byte :: text ++ 13 :: 10 :: rest, calls⟩ byte :=
        ⟨rfl, rfl⟩
      obtain ⟨later, restEq⟩ :=
        inductionHypothesis noReturn.2 noFeed.2 less (calls + 1)
          (Nat.lt_of_succ_lt_succ fits)
      refine ⟨later, ?_⟩
      rw [getLineFrom_of_byte arrives (Ne.symm noReturn.1)
        (Ne.symm noFeed.1)]
      show Line.mk (byte :: (getLineFrom allAvailable less
        ⟨text ++ 13 :: 10 :: rest, calls + 1⟩).buf) _ = _
      rw [show (Sock.taken ⟨byte :: text ++ 13 :: 10 :: rest, calls⟩) =
        ⟨text ++ 13 :: 10 :: rest, calls + 1⟩ from rfl, restEq]
      rfl

end LinuxNet.HttpServer
