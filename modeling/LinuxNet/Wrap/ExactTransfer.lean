import LinuxNet.Lib.CInt
import LinuxNet.Wrap.Readline
import LinuxNet.Wrap.Readn

/-!
# `Writen` and `Readn` over any pattern of short transfers

Both loops keep a remaining count of type `size_t` and a pointer in step with
it.  `Writen` returns `n` where `write` has accepted the whole message, and −1
with a part of it accepted; `Readn` fills the front of its buffer with what
comes before the end of the stream.
-/

namespace LinuxNet.Wrap

open LinuxNet.CInt

structure Object where
  bytes : List UInt8
  small : bytes.length ≤ ssizeMax

/-- What a call of `write` does: it takes at most a number of bytes, perhaps
none, or fails. -/
inductive WriteCall where
  | takes (atMost : Nat)
  | eintr
  | fails
  deriving DecidableEq, Repr

/-- `write(fd, ptr, nleft)`. -/
def WriteCall.value (nleft : Nat) : WriteCall → Int
  | takes atMost => (min atMost nleft : Nat)
  | eintr | fails => -1

/-- The variables of `Writen`, and what `write` has accepted. -/
structure Writing where
  nleft : Nat
  ptr : Nat
  accepted : List UInt8
  deriving DecidableEq, Repr

/-- `nleft -= nwritten; ptr += nwritten`. -/
def Writing.move
    (writing : Writing) (message : List UInt8) (nwritten : Nat) : Writing :=
  ⟨toSize (writing.nleft - nwritten), writing.ptr + nwritten,
    writing.accepted ++ (message.drop writing.ptr).take nwritten⟩

/-- The returned value, if the last call of `write` has come back, and the
bytes accepted by then. -/
structure Sent where
  value : Option Int
  accepted : List UInt8
  deriving DecidableEq, Repr

/-- The loop of `Writen`. -/
def writenLoop (message : List UInt8) : List WriteCall → Writing → Sent
  | [], writing =>
      if 0 < writing.nleft then
        ⟨none, writing.accepted⟩
      else
        ⟨some (toSsize message.length), writing.accepted⟩
  | call :: calls, writing =>
      if 0 < writing.nleft then
        if call.value writing.nleft ≤ 0 then
          if call.value writing.nleft < 0 ∧ call = .eintr then
            writenLoop message calls (writing.move message 0)
          else
            ⟨some (-1), writing.accepted⟩
        else
          writenLoop message calls
            (writing.move message (call.value writing.nleft).toNat)
      else
        ⟨some (toSsize message.length), writing.accepted⟩

def writen (message : Object) (calls : List WriteCall) : Sent :=
  writenLoop message.bytes calls ⟨message.bytes.length, 0, []⟩

/-- `read(fd, ptr, nleft)`, which gives at least one byte while there is
one. -/
def ReadCall.value (nleft : Nat) (stream : List UInt8) : ReadCall → Int
  | gives count => (min (max 1 count) (min nleft stream.length) : Nat)
  | eintr | fails => -1

/-- The variables of `Readn`, its buffer, and the stream of the peer. -/
structure Filling where
  nleft : Nat
  ptr : Nat
  buf : List UInt8
  stream : List UInt8
  deriving DecidableEq, Repr

/-- What `read` stores, and `nleft -= nread; ptr += nread`. -/
def Filling.move (filling : Filling) (nread : Nat) : Filling :=
  ⟨toSize (filling.nleft - nread), filling.ptr + nread,
    filling.buf.take filling.ptr ++ filling.stream.take nread ++
      filling.buf.drop (filling.ptr + nread),
    filling.stream.drop nread⟩

structure Filled where
  value : Option Int
  buf : List UInt8
  deriving DecidableEq, Repr

/-- `return n - nleft`. -/
def Filling.returned (filling : Filling) (n : Nat) : Filled :=
  ⟨some (toSsize (toSize (n - filling.nleft))), filling.buf⟩

/-- The loop of `Readn`. -/
def readnIntoLoop (n : Nat) : List ReadCall → Filling → Filled
  | [], filling =>
      if 0 < filling.nleft then
        ⟨none, filling.buf⟩
      else
        filling.returned n
  | call :: calls, filling =>
      if 0 < filling.nleft then
        if call.value filling.nleft filling.stream < 0 then
          if call = .eintr then
            readnIntoLoop n calls (filling.move 0)
          else
            ⟨some (-1), filling.buf⟩
        else if call.value filling.nleft filling.stream = 0 then
          filling.returned n
        else
          readnIntoLoop n calls
            (filling.move (call.value filling.nleft filling.stream).toNat)
      else
        filling.returned n

def readnInto
    (n : Nat) (buf : Object) (stream : List UInt8) (calls : List ReadCall) :
    Filled :=
  readnIntoLoop n calls ⟨n, 0, buf.bytes, stream⟩

/-- `Writen` has returned `n` with the whole message accepted, or it has not,
with a part of it accepted that is not the whole. -/
inductive Sends (message : List UInt8) (sent : Sent) : Prop
  | whole (value : sent.value = some (message.length : Int))
      (accepted : sent.accepted = message) : Sends message sent
  | part (value : sent.value = some (-1) ∨ sent.value = none)
      (count : Nat) (fewer : count < message.length)
      (accepted : sent.accepted = message.take count) : Sends message sent

/-- The pointer is where the remaining count says, behind what was
accepted. -/
structure Writing.InStep (writing : Writing) (message : List UInt8) :
    Prop where
  whole : writing.ptr + writing.nleft = message.length
  accepted_eq : writing.accepted = message.take writing.ptr

theorem Writing.InStep.move
    {writing : Writing} {message : List UInt8}
    (inStep : writing.InStep message) (small : message.length ≤ ssizeMax)
    {nwritten : Nat} (within : nwritten ≤ writing.nleft) :
    (writing.move message nwritten).InStep message := by
  have whole := inStep.whole
  have left : toSize (writing.nleft - nwritten) = writing.nleft - nwritten :=
    toSize_sub (by omega) within
  constructor
  · show writing.ptr + nwritten + toSize (writing.nleft - nwritten) = _
    rw [left]
    omega
  · show writing.accepted ++ (message.drop writing.ptr).take nwritten = _
    rw [inStep.accepted_eq]
    exact List.take_add.symm

theorem Writing.InStep.sends_of_done
    {writing : Writing} {message : List UInt8}
    (inStep : writing.InStep message) (small : message.length ≤ ssizeMax)
    (done : ¬ 0 < writing.nleft) :
    Sends message ⟨some (toSsize message.length), writing.accepted⟩ := by
  have whole := inStep.whole
  apply Sends.whole
  · rw [toSsize_natCast small]
  · rw [inStep.accepted_eq, List.take_of_length_le (by omega)]

theorem Writing.InStep.sends_part
    {writing : Writing} {message : List UInt8}
    (inStep : writing.InStep message) (goesOn : 0 < writing.nleft)
    {value : Option Int} (valueEq : value = some (-1) ∨ value = none) :
    Sends message ⟨value, writing.accepted⟩ := by
  have whole := inStep.whole
  exact .part valueEq writing.ptr (by omega) inStep.accepted_eq

theorem WriteCall.value_le (nleft : Nat) (call : WriteCall) :
    (call.value nleft).toNat ≤ nleft := by
  cases call with
  | takes atMost =>
      show ((min atMost nleft : Nat) : Int).toNat ≤ nleft
      rw [Int.toNat_natCast]
      exact Nat.min_le_right atMost nleft
  | eintr => exact Nat.zero_le nleft
  | fails => exact Nat.zero_le nleft

theorem sends_writenLoop
    {message : List UInt8} (small : message.length ≤ ssizeMax)
    (calls : List WriteCall) {writing : Writing}
    (inStep : writing.InStep message) :
    Sends message (writenLoop message calls writing) := by
  induction calls generalizing writing with
  | nil =>
      rw [writenLoop]
      by_cases goesOn : 0 < writing.nleft
      · rw [if_pos goesOn]
        exact inStep.sends_part goesOn (Or.inr rfl)
      · rw [if_neg goesOn]
        exact inStep.sends_of_done small goesOn
  | cons call calls inductionHypothesis =>
      rw [writenLoop]
      by_cases goesOn : 0 < writing.nleft
      · rw [if_pos goesOn]
        by_cases nothing : call.value writing.nleft ≤ 0
        · rw [if_pos nothing]
          by_cases again : call.value writing.nleft < 0 ∧ call = .eintr
          · rw [if_pos again]
            exact inductionHypothesis (inStep.move small (Nat.zero_le _))
          · rw [if_neg again]
            exact inStep.sends_part goesOn (Or.inl rfl)
        · rw [if_neg nothing]
          exact
            inductionHypothesis
              (inStep.move small (call.value_le writing.nleft))
      · rw [if_neg goesOn]
        exact inStep.sends_of_done small goesOn

theorem sends_writen (message : Object) (calls : List WriteCall) :
    Sends message.bytes (writen message calls) :=
  sends_writenLoop message.small calls
    ⟨Nat.zero_add _, List.take_zero.symm⟩

/-! ## `Readn` -/

/-- The front of the buffer holds what was read of the stream. -/
structure Filling.InStep
    (filling : Filling) (n : Nat) (buf stream : List UInt8) : Prop where
  whole : filling.ptr + filling.nleft = n
  within : filling.ptr ≤ stream.length
  buf_eq :
    filling.buf = stream.take filling.ptr ++ buf.drop filling.ptr
  stream_eq : filling.stream = stream.drop filling.ptr

section Fill

variable {filling : Filling} {n : Nat} {buf stream : List UInt8}

theorem Filling.InStep.move
    (inStep : filling.InStep n buf stream) (small : n ≤ ssizeMax)
    {nread : Nat} (within : nread ≤ filling.nleft)
    (available : nread ≤ filling.stream.length) :
    (filling.move nread).InStep n buf stream := by
  have whole := inStep.whole
  have before := inStep.within
  have left : toSize (filling.nleft - nread) = filling.nleft - nread :=
    toSize_sub (by omega) within
  have taken : (stream.take filling.ptr).length = filling.ptr :=
    List.length_take_of_le before
  rw [inStep.stream_eq, List.length_drop] at available
  constructor
  · show filling.ptr + nread + toSize (filling.nleft - nread) = n
    rw [left]
    omega
  · show filling.ptr + nread ≤ stream.length
    omega
  · show filling.buf.take filling.ptr ++ filling.stream.take nread ++
      filling.buf.drop (filling.ptr + nread) = _
    rw [inStep.buf_eq, inStep.stream_eq, List.take_left' taken,
      ← List.drop_drop, List.drop_left' taken, List.drop_drop,
      ← List.take_add]
    rfl
  · show filling.stream.drop nread = _
    rw [inStep.stream_eq, List.drop_drop]
    rfl

/-- How many calls of `read` come back with a result. -/
def uninterrupted (calls : List ReadCall) : Nat :=
  (calls.filter fun call => call ≠ .eintr).length

theorem uninterrupted_eintr (calls : List ReadCall) :
    uninterrupted (.eintr :: calls) = uninterrupted calls :=
  rfl

theorem uninterrupted_cons
    {call : ReadCall} (notInterrupted : call ≠ .eintr)
    (calls : List ReadCall) :
    uninterrupted (call :: calls) = uninterrupted calls + 1 := by
  simp [uninterrupted, notInterrupted]

/-- What a finished or a waiting call of `Readn` has done. -/
inductive Fills
    (n : Nat) (buf stream : List UInt8) (calls : Nat) (filled : Filled) :
    Prop
  | done (value : filled.value = some ((min n stream.length : Nat) : Int))
      (bufEq :
        filled.buf = stream.take n ++ buf.drop (min n stream.length)) :
      Fills n buf stream calls filled
  | waits (value : filled.value = none) (count : Nat)
      (fewer : count ≤ min n stream.length) (used : calls ≤ count)
      (bufEq : filled.buf = stream.take count ++ buf.drop count) :
      Fills n buf stream calls filled

theorem Filling.InStep.fills_done
    (inStep : filling.InStep n buf stream) (small : n ≤ ssizeMax)
    (calls : Nat) (done : filling.nleft = 0 ∨ filling.stream = []) :
    Fills n buf stream calls (filling.returned n) := by
  have whole := inStep.whole
  have within := inStep.within
  have position : filling.ptr = min n stream.length := by
    rcases done with full | atEnd
    · omega
    · have lengths := congrArg List.length inStep.stream_eq
      rw [atEnd, List.length_nil, List.length_drop] at lengths
      omega
  have value :
      toSsize (toSize (n - filling.nleft)) =
        ((min n stream.length : Nat) : Int) := by
    rw [toSize_sub small (by omega),
      toSsize_natCast (Nat.le_trans (Nat.sub_le _ _) small)]
    omega
  apply Fills.done
  · exact congrArg some value
  · show filling.buf = _
    rw [inStep.buf_eq, position, ← List.take_eq_take_min]

theorem ReadCall.value_spec
    (nleft : Nat) (stream : List UInt8) (call : ReadCall)
    (succeeds : 0 ≤ call.value nleft stream) :
    (call.value nleft stream).toNat ≤ nleft ∧
      (call.value nleft stream).toNat ≤ stream.length ∧
        (call.value nleft stream = 0 → nleft = 0 ∨ stream = []) ∧
          call ≠ .eintr := by
  cases call with
  | gives count =>
      have valueEq :
          (ReadCall.gives count).value nleft stream =
            ((min (max 1 count) (min nleft stream.length) : Nat) : Int) :=
        rfl
      rw [valueEq, Int.toNat_natCast]
      refine ⟨by omega, by omega, ?_, ?_⟩
      · intro nothing
        rw [← List.length_eq_zero_iff]
        omega
      · intro impossible
        cases impossible
  | eintr => cases succeeds
  | fails => cases succeeds

theorem ReadCall.eq_eintr
    {nleft : Nat} {stream : List UInt8} {call : ReadCall}
    (failed : call.value nleft stream < 0) (noError : call ≠ .fails) :
    call = .eintr := by
  cases call with
  | gives count =>
      exact absurd failed (Int.not_lt.mpr (Int.natCast_nonneg _))
  | eintr => rfl
  | fails => exact absurd rfl noError

/-- The loop of `Readn`, with as many calls of `read` behind it that were not
interrupted as bytes at most. -/
theorem fills_readnIntoLoop
    (small : n ≤ ssizeMax) (calls : List ReadCall)
    (noError : ReadCall.fails ∉ calls) (used : Nat)
    (few : used ≤ filling.ptr) (inStep : filling.InStep n buf stream) :
    Fills n buf stream (used + uninterrupted calls)
      (readnIntoLoop n calls filling) := by
  induction calls generalizing filling used with
  | nil =>
      rw [readnIntoLoop]
      by_cases goesOn : 0 < filling.nleft
      · rw [if_pos goesOn]
        have whole := inStep.whole
        have within := inStep.within
        exact
          .waits rfl filling.ptr (by omega) few inStep.buf_eq
      · rw [if_neg goesOn]
        exact inStep.fills_done small _ (Or.inl (by omega))
  | cons call calls inductionHypothesis =>
      rw [List.mem_cons, not_or] at noError
      rw [readnIntoLoop]
      by_cases goesOn : 0 < filling.nleft
      · rw [if_pos goesOn]
        by_cases failed : call.value filling.nleft filling.stream < 0
        · rw [if_pos failed]
          have interrupted := ReadCall.eq_eintr failed (Ne.symm noError.1)
          rw [if_pos interrupted, interrupted, uninterrupted_eintr]
          exact
            inductionHypothesis noError.2 used few
              (inStep.move small (Nat.zero_le _) (Nat.zero_le _))
        · rw [if_neg failed]
          obtain ⟨fits, available, atEnd, notInterrupted⟩ :=
            call.value_spec filling.nleft filling.stream (Int.not_lt.mp failed)
          by_cases nothing : call.value filling.nleft filling.stream = 0
          · rw [if_pos nothing]
            exact inStep.fills_done small _ (atEnd nothing)
          · rw [if_neg nothing, uninterrupted_cons notInterrupted]
            have further :
                used + 1 ≤
                  filling.ptr +
                    (call.value filling.nleft filling.stream).toNat := by
              omega
            have later :=
              inductionHypothesis noError.2 (used + 1) further
                (inStep.move small fits available)
            rw [Nat.add_right_comm] at later
            exact later
      · rw [if_neg goesOn]
        exact inStep.fills_done small _ (Or.inl (by omega))

theorem fills_readnInto
    (target : Object) (room : n ≤ target.bytes.length)
    (stream : List UInt8) (calls : List ReadCall)
    (noError : ReadCall.fails ∉ calls) :
    Fills n target.bytes stream (uninterrupted calls)
      (readnInto n target stream calls) := by
  have started :
      Filling.InStep ⟨n, 0, target.bytes, stream⟩ n target.bytes stream :=
    ⟨Nat.zero_add n, Nat.zero_le _, rfl, rfl⟩
  have filled :=
    fills_readnIntoLoop (Nat.le_trans room target.small) calls noError 0
      (Nat.le_refl 0) started
  rw [Nat.zero_add] at filled
  exact filled

/-- A call of `Readn` is one of the model that collects the bytes, with what
each `read` gave. -/
def CollectsAs (filled : Filled) (block : Option Block) : Prop :=
  ∃ result, block = some result ∧ filled.value = some result.value ∧
    filled.buf.take result.stored.length = result.stored

theorem Filling.InStep.collected
    (inStep : filling.InStep n buf stream) :
    filling.buf.take filling.ptr = stream.take filling.ptr := by
  have taken : (stream.take filling.ptr).length = filling.ptr :=
    List.length_take_of_le inStep.within
  rw [inStep.buf_eq, List.take_left' taken]

theorem Filling.InStep.collectsAs_returned
    (inStep : filling.InStep n buf stream) (small : n ≤ ssizeMax)
    (reads : List SocketRead) :
    CollectsAs (filling.returned n)
      (some ⟨(stream.take filling.ptr).length, stream.take filling.ptr,
        reads⟩) := by
  have whole := inStep.whole
  have taken : (stream.take filling.ptr).length = filling.ptr :=
    List.length_take_of_le inStep.within
  refine ⟨_, rfl, ?_, ?_⟩
  · have value : toSsize (toSize (n - filling.nleft)) = filling.ptr := by
      rw [toSize_sub small (by omega),
        toSsize_natCast (Nat.le_trans (Nat.sub_le _ _) small)]
      omega
    show some (toSsize (toSize (n - filling.nleft))) = _
    rw [value, taken]
  · rw [taken]
    exact inStep.collected

/-- The bytes of a `read` are those that the stream has next. -/
theorem Filling.InStep.take_append
    (inStep : filling.InStep n buf stream) (count : Nat) :
    stream.take filling.ptr ++ filling.stream.take count =
      stream.take (filling.ptr + count) := by
  rw [inStep.stream_eq]
  exact List.take_add.symm

theorem collects_readnIntoLoop
    (small : n ≤ ssizeMax) (calls : List ReadCall)
    (inStep : filling.InStep n buf stream)
    (returns : (readnIntoLoop n calls filling).value ≠ none) :
    ∃ reads,
      CollectsAs (readnIntoLoop n calls filling)
        (readnLoop reads filling.nleft (stream.take filling.ptr)) := by
  induction calls generalizing filling with
  | nil =>
      rw [readnIntoLoop] at returns ⊢
      by_cases goesOn : 0 < filling.nleft
      · rw [if_pos goesOn] at returns
        exact absurd rfl returns
      · rw [if_neg goesOn, Nat.eq_zero_of_not_pos goesOn]
        exact ⟨[], inStep.collectsAs_returned small []⟩
  | cons call calls inductionHypothesis =>
      rw [readnIntoLoop] at returns ⊢
      by_cases goesOn : 0 < filling.nleft
      · rw [if_pos goesOn] at returns ⊢
        obtain ⟨nleft, isNleft⟩ : ∃ nleft, filling.nleft = nleft + 1 :=
          ⟨filling.nleft - 1, by omega⟩
        by_cases failed : call.value filling.nleft filling.stream < 0
        · rw [if_pos failed] at returns ⊢
          by_cases interrupted : call = .eintr
          · rw [if_pos interrupted] at returns ⊢
            have next :=
              inStep.move small (Nat.zero_le _) (Nat.zero_le _)
            obtain ⟨reads, collects⟩ := inductionHypothesis next returns
            have same : (filling.move 0).nleft = nleft + 1 := by
              show toSize (filling.nleft - (0 : Nat)) = _
              rw [toSize_sub (by have whole := inStep.whole; omega)
                (Nat.zero_le _), isNleft]
              rfl
            rw [same] at collects
            refine ⟨.eintr :: reads, ?_⟩
            rw [isNleft, readnLoop]
            exact collects
          · rw [if_neg interrupted, isNleft]
            refine ⟨[.eagain], _, rfl, rfl, ?_⟩
            rw [List.length_take_of_le inStep.within]
            exact inStep.collected
        · rw [if_neg failed] at returns ⊢
          obtain ⟨fits, available, atEnd, _⟩ :=
            call.value_spec filling.nleft filling.stream
              (Int.not_lt.mp failed)
          by_cases nothing : call.value filling.nleft filling.stream = 0
          · rw [if_pos nothing, isNleft]
            exact ⟨[.atEnd], inStep.collectsAs_returned small []⟩
          · rw [if_neg nothing] at returns ⊢
            have next := inStep.move small fits available
            obtain ⟨reads, collects⟩ := inductionHypothesis next returns
            generalize count :
              (call.value filling.nleft filling.stream).toNat = nread
                at fits available next collects ⊢
            have left : (filling.move nread).nleft = nleft + 1 - nread := by
              show toSize (filling.nleft - nread) = _
              rw [toSize_sub (by have whole := inStep.whole; omega) fits,
                isNleft]
            have length : (filling.stream.take nread).length = nread :=
              List.length_take_of_le available
            refine ⟨.takes (filling.stream.take nread) :: reads, ?_⟩
            rw [isNleft, readnLoop, if_pos (by omega), length,
              inStep.take_append]
            rw [left] at collects
            exact collects
      · rw [if_neg goesOn, Nat.eq_zero_of_not_pos goesOn]
        exact ⟨[], inStep.collectsAs_returned small []⟩

/-- `Readn` with its buffer does what the model of the edge-triggered reader
says. -/
theorem collects_readnInto
    (target : Object) (room : n ≤ target.bytes.length)
    (stream : List UInt8) (calls : List ReadCall)
    (returns : (readnInto n target stream calls).value ≠ none) :
    ∃ reads, CollectsAs (readnInto n target stream calls) (readn n reads) := by
  have started :
      Filling.InStep ⟨n, 0, target.bytes, stream⟩ n target.bytes stream :=
    ⟨Nat.zero_add n, Nat.zero_le _, rfl, rfl⟩
  exact
    collects_readnIntoLoop (Nat.le_trans room target.small) calls started
      returns

end Fill

/-- `Writen` returns the length of the message exactly where `write` has
accepted the message, and otherwise −1, if anything, with a proper prefix of
it accepted. -/
structure SendsExactly (message : List UInt8) (sent : Sent) : Prop where
  returns_iff :
    sent.value = some (message.length : Int) ↔ sent.accepted = message
  otherwise :
    ∀ value, sent.value = some value → value ≠ message.length → value = -1
  proper_prefix :
    sent.value ≠ some (message.length : Int) →
      ∃ rest, rest ≠ [] ∧ message = sent.accepted ++ rest

theorem Sends.exactly
    {message : List UInt8} {sent : Sent} (sends : Sends message sent) :
    SendsExactly message sent := by
  cases sends with
  | whole value accepted =>
      refine ⟨iff_of_true value accepted, ?_, fun other => ?_⟩
      · intro other same different
        rw [value] at same
        exact absurd (Option.some.inj same).symm different
      · exact absurd value other
  | part value count fewer accepted =>
      have notAll : sent.accepted ≠ message := by
        intro same
        have lengths := congrArg List.length (accepted.symm.trans same)
        rw [List.length_take] at lengths
        omega
      have notReturned : sent.value ≠ some (message.length : Int) := by
        intro same
        rcases value with failed | waits
        · rw [failed] at same
          have impossible := Option.some.inj same
          omega
        · rw [waits] at same
          cases same
      refine ⟨iff_of_false notReturned notAll, ?_, fun _ => ?_⟩
      · intro other same _
        rcases value with failed | waits
        · rw [failed] at same
          exact (Option.some.inj same).symm
        · rw [waits] at same
          cases same
      · refine ⟨message.drop count, ?_, ?_⟩
        · rw [Ne, List.drop_eq_nil_iff]
          omega
        · rw [accepted, List.take_append_drop]

/-- `Readn` returns the number of the bytes that it has put into the front of
its buffer, comes back once `read` has had as many results, and changes
nothing behind its `n` bytes. -/
structure FillsExactly
    (n : Nat) (target stream : List UInt8) (calls : List ReadCall)
    (filled : Filled) : Prop where
  returned :
    ∀ value, filled.value = some value →
      value = ((min n stream.length : Nat) : Int) ∧
        filled.buf = stream.take n ++ target.drop (min n stream.length)
  comes_back :
    min n stream.length < uninterrupted calls → filled.value.isSome
  beyond : filled.buf.drop n = target.drop n

theorem drop_front
    {stream target : List UInt8} {n count : Nat}
    (few : count ≤ min n stream.length) (room : n ≤ target.length) :
    (stream.take count ++ target.drop count).drop n = target.drop n := by
  have taken : (stream.take count).length = count :=
    List.length_take_of_le (by omega)
  obtain ⟨more, rfl⟩ := Nat.exists_eq_add_of_le (show count ≤ n by omega)
  rw [← List.drop_drop, List.drop_left' taken, List.drop_drop]

theorem Fills.exactly
    {n : Nat} {target stream : List UInt8} {calls : List ReadCall}
    {filled : Filled} (room : n ≤ target.length)
    (fills : Fills n target stream (uninterrupted calls) filled) :
    FillsExactly n target stream calls filled := by
  cases fills with
  | done value bufEq =>
      refine ⟨?_, fun _ => ?_, ?_⟩
      · intro other same
        rw [value] at same
        exact ⟨(Option.some.inj same).symm, bufEq⟩
      · rw [value]
        rfl
      · rw [bufEq, List.take_eq_take_min]
        exact drop_front (Nat.le_refl _) room
  | waits value count fewer used bufEq =>
      refine ⟨?_, fun enough => ?_, ?_⟩
      · intro other same
        rw [value] at same
        cases same
      · omega
      · rw [bufEq]
        exact drop_front fewer room

/-- `Writen` and `Readn` transfer exactly, and what `Writen` has sent whole is
what `Readn` stores. -/
theorem transfers_exactly
    (message : Object) (writes : List WriteCall) (n : Nat) (target : Object)
    (room : n ≤ target.bytes.length) (stream : List UInt8)
    (reads : List ReadCall) (noError : ReadCall.fails ∉ reads) :
    SendsExactly message.bytes (writen message writes) ∧
      FillsExactly n target.bytes stream reads
          (readnInto n target stream reads) ∧
        ((writen message writes).value = some (message.bytes.length : Int) →
          n = message.bytes.length → n < uninterrupted reads →
            readnInto n target (writen message writes).accepted reads =
              ⟨some (n : Int), message.bytes ++ target.bytes.drop n⟩) := by
  have sends := (sends_writen message writes).exactly
  refine
    ⟨sends, (fills_readnInto target room stream reads noError).exactly room,
      ?_⟩
  intro whole isLength enough
  have fills :=
    (fills_readnInto target room message.bytes reads noError).exactly room
  rw [sends.returns_iff.mp whole]
  have bound : min n message.bytes.length = n := by omega
  have back := fills.comes_back (by rw [bound]; exact enough)
  obtain ⟨value, returned⟩ := Option.isSome_iff_exists.mp back
  obtain ⟨valueEq, bufEq⟩ := fills.returned value returned
  rw [bound] at valueEq bufEq
  rw [List.take_of_length_le (by omega)] at bufEq
  rw [← bufEq, ← valueEq, ← returned]

/-- Three bytes in two writes with an interruption, read back byte by byte
into a larger buffer. -/
theorem transfers_exactly_three :
    SendsExactly [7, 8, 9]
        (writen ⟨[7, 8, 9], by decide⟩ [.takes 2, .eintr, .takes 5]) ∧
      FillsExactly 3 [0, 0, 0, 1] [7, 8, 9]
          [.gives 1, .eintr, .gives 1, .gives 1, .gives 1]
          (readnInto 3 ⟨[0, 0, 0, 1], by decide⟩ [7, 8, 9]
            [.gives 1, .eintr, .gives 1, .gives 1, .gives 1]) ∧
        ((writen ⟨[7, 8, 9], by decide⟩
              [.takes 2, .eintr, .takes 5]).value = some ((3 : Nat) : Int) →
          3 = 3 →
            3 < uninterrupted
                [.gives 1, .eintr, .gives 1, .gives 1, .gives 1] →
              readnInto 3 ⟨[0, 0, 0, 1], by decide⟩
                  (writen ⟨[7, 8, 9], by decide⟩
                    [.takes 2, .eintr, .takes 5]).accepted
                  [.gives 1, .eintr, .gives 1, .gives 1, .gives 1] =
                ⟨some ((3 : Nat) : Int), [7, 8, 9] ++ [1]⟩) :=
  transfers_exactly ⟨[7, 8, 9], by decide⟩ [.takes 2, .eintr, .takes 5] 3
    ⟨[0, 0, 0, 1], by decide⟩ (by decide) [7, 8, 9]
    [.gives 1, .eintr, .gives 1, .gives 1, .gives 1] (by decide)

end LinuxNet.Wrap
