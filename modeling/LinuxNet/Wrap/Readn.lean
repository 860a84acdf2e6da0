import LinuxNet.Lib.StepSystem

/-!
# The edge-triggered reader over `Readn`

The loop of `main` writes what `Readn` reports.  `Readn` takes bytes from the
socket until it has a whole block; where it meets `EAGAIN` first it returns
−1, and the caller does not learn of the bytes that it has taken.  They are
lost exactly where an edge does not end on the border of a block.
-/

namespace LinuxNet.Wrap

open LinuxNet.StepSystem

/-- What a call of `read` on the socket does: it takes bytes, finds the end
of the stream, or returns −1 with `EINTR` or for another reason, `EAGAIN`
among them. -/
inductive SocketRead where
  | takes (bytes : List UInt8)
  | atEnd
  | eintr
  | eagain
  deriving DecidableEq, Repr

/-- `MAX_BUFSIZE / 2`. -/
def blockSize : Nat := 5

/-- The value of `Readn`, the bytes that it put into `buf`, and the calls of
`read` that are left. -/
structure Block where
  value : Int
  stored : List UInt8
  reads : List SocketRead
  deriving DecidableEq, Repr

/-- The loop of `Readn` with `nleft` bytes to go. -/
def readnLoop : List SocketRead → Nat → List UInt8 → Option Block
  | reads, 0, stored => some ⟨stored.length, stored, reads⟩
  | [], _ + 1, _ => none
  | .takes bytes :: reads, nleft + 1, stored =>
      if 1 ≤ bytes.length ∧ bytes.length ≤ nleft + 1 then
        readnLoop reads (nleft + 1 - bytes.length) (stored ++ bytes)
      else
        none
  | .atEnd :: reads, _ + 1, stored => some ⟨stored.length, stored, reads⟩
  | .eintr :: reads, nleft + 1, stored => readnLoop reads (nleft + 1) stored
  | .eagain :: reads, _ + 1, stored => some ⟨-1, stored, reads⟩

def readn (n : Nat) (reads : List SocketRead) : Option Block :=
  readnLoop reads n []

/-- All bytes taken from the socket and all bytes written to the standard
output. -/
structure Echo where
  consumed : List UInt8
  written : List UInt8
  deriving DecidableEq, Repr

/-- `while ((read_bytes = Readn(..)) > 0) Write(..)`, where the calls of
`read` are exactly the given ones. -/
def drain : Nat → List SocketRead → Echo → Option Echo
  | 0, _, _ => none
  | fuel + 1, reads, echo =>
      (readn blockSize reads).bind fun block =>
        if 0 < block.value then
          drain fuel block.reads
            ⟨echo.consumed ++ block.stored, echo.written ++ block.stored⟩
        else if block.reads = [] then
          some ⟨echo.consumed ++ block.stored, echo.written⟩
        else
          none

/-- One return of `epoll_wait`: each turn of the loop but the last one uses
up a call of `read`. -/
def edge (echo : Echo) (reads : List SocketRead) : Option Echo :=
  drain (reads.length + 1) reads echo

/-- How many bytes are taken after the last end of the stream that `read`
found. -/
def takenSinceEnd : List SocketRead → Nat → Nat
  | [], count => count
  | .takes bytes :: reads, count => takenSinceEnd reads (count + bytes.length)
  | .atEnd :: reads, _ => takenSinceEnd reads 0
  | .eintr :: reads, count => takenSinceEnd reads count
  | .eagain :: reads, count => takenSinceEnd reads count

/-- The edge ends on the border of a block. -/
def WholeBlocks (reads : List SocketRead) : Prop :=
  takenSinceEnd reads 0 % blockSize = 0

instance (reads : List SocketRead) : Decidable (WholeBlocks reads) := by
  unfold WholeBlocks
  infer_instance

/-! ## One block -/

theorem takenSinceEnd_mod
    (reads : List SocketRead) {count other : Nat}
    (same : count % blockSize = other % blockSize) :
    takenSinceEnd reads count % blockSize =
      takenSinceEnd reads other % blockSize := by
  induction reads generalizing count other with
  | nil => exact same
  | cons read reads inductionHypothesis =>
      cases read with
      | takes bytes =>
          apply inductionHypothesis
          rw [Nat.add_mod, same, ← Nat.add_mod]
      | atEnd => rfl
      | eintr => exact inductionHypothesis same
      | eagain => exact inductionHypothesis same

/-- `Readn` reports what it stored, or returns −1 with part of a block
stored. -/
inductive BlockEnds (reads : List SocketRead) (count : Nat) (block : Block) :
    Prop
  | reported (value : block.value = block.stored.length)
      (taken :
        takenSinceEnd reads count % blockSize =
          takenSinceEnd block.reads 0 % blockSize) :
      BlockEnds reads count block
  | hidden (value : block.value = -1) (short : block.stored.length < blockSize)
      (taken :
        takenSinceEnd reads count =
          takenSinceEnd block.reads block.stored.length) :
      BlockEnds reads count block

theorem readnLoop_spec
    {reads : List SocketRead} {nleft : Nat} {stored : List UInt8}
    {block : Block} (whole : stored.length + nleft = blockSize)
    (ran : readnLoop reads nleft stored = some block) :
    BlockEnds reads stored.length block := by
  induction reads generalizing nleft stored with
  | nil =>
      cases nleft with
      | zero =>
          have full : stored.length = blockSize := whole
          cases ran
          exact .reported rfl (takenSinceEnd_mod [] (by rw [full]; rfl))
      | succ nleft => cases ran
  | cons read reads inductionHypothesis =>
      cases nleft with
      | zero =>
          have full : stored.length = blockSize := whole
          rw [readnLoop] at ran
          cases ran
          refine .reported rfl (takenSinceEnd_mod (read :: reads) ?_)
          rw [full]
          rfl
      | succ nleft =>
          cases read with
          | takes bytes =>
              rw [readnLoop] at ran
              by_cases fits : 1 ≤ bytes.length ∧ bytes.length ≤ nleft + 1
              · rw [if_pos fits] at ran
                have lengthEq : (stored ++ bytes).length =
                    stored.length + bytes.length := List.length_append
                have ends := inductionHypothesis (by omega) ran
                rw [lengthEq] at ends
                cases ends with
                | reported value taken => exact .reported value taken
                | hidden value short taken => exact .hidden value short taken
              · rw [if_neg fits] at ran
                cases ran
          | atEnd =>
              cases ran
              exact .reported rfl rfl
          | eintr =>
              have ends := inductionHypothesis whole ran
              cases ends with
              | reported value taken => exact .reported value taken
              | hidden value short taken => exact .hidden value short taken
          | eagain =>
              cases ran
              refine .hidden rfl ?_ rfl
              show stored.length < blockSize
              omega

theorem readn_spec
    {reads : List SocketRead} {block : Block}
    (ran : readn blockSize reads = some block) : BlockEnds reads 0 block := by
  unfold readn at ran
  exact readnLoop_spec (Nat.zero_add blockSize) ran

/-- A block that is not empty uses up a call of `read`. -/
theorem length_reads_readnLoop
    {reads : List SocketRead} {nleft : Nat} {stored : List UInt8}
    {block : Block} (ran : readnLoop reads nleft stored = some block) :
    block.reads.length ≤ reads.length ∧
      (0 < nleft → block.reads.length < reads.length) := by
  induction reads generalizing nleft stored with
  | nil =>
      cases nleft with
      | zero =>
          cases ran
          exact ⟨Nat.le_refl 0, fun positive => absurd positive (by decide)⟩
      | succ nleft => cases ran
  | cons read reads inductionHypothesis =>
      cases nleft with
      | zero =>
          rw [readnLoop] at ran
          cases ran
          exact ⟨Nat.le_refl _, fun positive => absurd positive (by decide)⟩
      | succ nleft =>
          have fewer : block.reads.length ≤ reads.length := by
            cases read with
            | takes bytes =>
                rw [readnLoop] at ran
                by_cases fits : 1 ≤ bytes.length ∧ bytes.length ≤ nleft + 1
                · rw [if_pos fits] at ran
                  exact (inductionHypothesis ran).1
                · rw [if_neg fits] at ran
                  cases ran
            | atEnd =>
                cases ran
                exact Nat.le_refl _
            | eintr => exact (inductionHypothesis ran).1
            | eagain =>
                cases ran
                exact Nat.le_refl _
          rw [List.length_cons]
          exact ⟨Nat.le_succ_of_le fewer, fun _ => Nat.lt_succ_of_le fewer⟩

/-- The loop runs as many turns as it needs. -/
theorem drain_of_enough
    {fuel : Nat} {reads : List SocketRead} {echo : Echo}
    (enough : reads.length < fuel) :
    drain fuel reads echo = edge echo reads := by
  have stable :
      ∀ (more : Nat) (reads : List SocketRead) (echo : Echo) (fuel : Nat),
        reads.length < fuel → fuel ≤ more →
          drain more reads echo = drain fuel reads echo := by
    intro more
    induction more with
    | zero =>
        intro reads echo fuel enough bound
        omega
    | succ more inductionHypothesis =>
        intro reads echo fuel enough bound
        obtain ⟨less, rfl⟩ : ∃ less, fuel = less + 1 := ⟨fuel - 1, by omega⟩
        rw [drain, drain]
        cases first : readn blockSize reads with
        | none => rfl
        | some block =>
            have fewer :=
              (length_reads_readnLoop first).2 (by decide)
            rw [Option.bind_some, Option.bind_some,
              inductionHypothesis block.reads _ less (by omega) (by omega)]
  exact stable fuel reads echo (reads.length + 1) (Nat.lt_succ_self _) enough

/-- An edge writes all that it takes but the bytes behind the last whole
block. -/
theorem drain_spec
    {fuel : Nat} {reads : List SocketRead} {echo next : Echo}
    (ran : drain fuel reads echo = some next) :
    ∃ passed lost,
      next.consumed = echo.consumed ++ (passed ++ lost) ∧
        next.written = echo.written ++ passed ∧
          lost.length = takenSinceEnd reads 0 % blockSize := by
  induction fuel generalizing reads echo with
  | zero => cases ran
  | succ fuel inductionHypothesis =>
      rw [drain] at ran
      obtain ⟨block, first, ran⟩ := Option.bind_eq_some_iff.mp ran
      have ends := readn_spec first
      by_cases positive : 0 < block.value
      · rw [if_pos positive] at ran
        cases ends with
        | hidden value _ _ => omega
        | reported value taken =>
            obtain ⟨passed, lost, consumed, written, lostEq⟩ :=
              inductionHypothesis ran
            refine ⟨block.stored ++ passed, lost, ?_, ?_, ?_⟩
            · rw [consumed, List.append_assoc, List.append_assoc]
            · rw [written, List.append_assoc]
            · rw [lostEq, taken]
      · rw [if_neg positive] at ran
        by_cases used : block.reads = []
        · rw [if_pos used] at ran
          cases ran
          refine ⟨[], block.stored, rfl, (List.append_nil _).symm, ?_⟩
          cases ends with
          | hidden value short taken =>
              rw [taken, used]
              exact (Nat.mod_eq_of_lt short).symm
          | reported value taken =>
              rw [taken, used]
              show block.stored.length = 0
              omega
        · rw [if_neg used] at ran
          cases ran

theorem edge_spec
    {echo next : Echo} {reads : List SocketRead}
    (sublist : echo.written.Sublist echo.consumed)
    (ran : edge echo reads = some next) :
    next.written.Sublist next.consumed ∧
      (next.written = next.consumed ↔
        echo.written = echo.consumed ∧ WholeBlocks reads) := by
  obtain ⟨passed, lost, consumed, written, lostEq⟩ := drain_spec ran
  rw [consumed, written]
  constructor
  · exact sublist.append (List.sublist_append_left passed lost)
  · unfold WholeBlocks
    rw [← lostEq, List.length_eq_zero_iff]
    constructor
    · intro same
      have lengths := congrArg List.length same
      simp only [List.length_append] at lengths
      have shorter := sublist.length_le
      exact
        ⟨sublist.eq_of_length (by omega),
          List.eq_nil_of_length_eq_zero (by omega)⟩
    · rintro ⟨same, nothing⟩
      rw [same, nothing, List.append_nil]

def Echo.start : Echo := ⟨[], []⟩

/-- Everything that was taken from the socket has been written exactly when
every edge ended on the border of a block. -/
theorem written_eq_consumed_iff
    (edges : List (List SocketRead)) (last : Echo)
    (ran : run edge Echo.start edges = some last) :
    last.written = last.consumed ↔
      StepsMeet edge (fun _ reads => WholeBlocks reads) Echo.start edges := by
  have everyEdge :=
    run_good_iff (fun _ reads => WholeBlocks reads)
      (fun echo : Echo => echo.written.Sublist echo.consumed)
      (fun echo => echo.written = echo.consumed)
      (fun _ _ _ sublist stepped => edge_spec sublist stepped)
      (List.Sublist.refl []) ran
  rw [everyEdge]
  exact and_iff_right rfl

/-- Ten bytes in two segments, and an interrupted call. -/
theorem written_eq_consumed_iff_ten :
    (⟨[1, 2, 3, 4, 5, 6, 7, 8, 9, 10], [1, 2, 3, 4, 5, 6, 7, 8, 9, 10]⟩ :
        Echo).written =
        (⟨[1, 2, 3, 4, 5, 6, 7, 8, 9, 10], [1, 2, 3, 4, 5, 6, 7, 8, 9, 10]⟩ :
          Echo).consumed ↔
      StepsMeet edge (fun _ reads => WholeBlocks reads) Echo.start
        [[.takes [1, 2, 3, 4, 5], .takes [6, 7], .eintr, .takes [8, 9, 10],
          .eagain]] :=
  written_eq_consumed_iff
    [[.takes [1, 2, 3, 4, 5], .takes [6, 7], .eintr, .takes [8, 9, 10],
      .eagain]] _ rfl

/-- Three bytes arrive, and `Readn` returns −1 with them in the buffer. -/
theorem partial_block_is_lost :
    ¬ ∀ (edges : List (List SocketRead)) (last : Echo),
        run edge Echo.start edges = some last →
          last.written = last.consumed := by
  intro always
  have same := always [[.takes [97, 98, 99], .eagain]] _ rfl
  revert same
  decide

end LinuxNet.Wrap
