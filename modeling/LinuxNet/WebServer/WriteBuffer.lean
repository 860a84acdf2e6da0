import LinuxNet.Lib.BoundedLog
import LinuxNet.WebServer.Ownership

/-!
# The write buffer over any calls of `add_response`

`m_write_buf` up to `m_write_idx` is a log of at most 1022 bytes, which
`add_response` appends to or leaves alone: `vsnprintf` is told one byte less
than there is, and a text that fills all of them counts as cut.  So there is
always room for the terminator of a text that is refused, and the size that
`vsnprintf` is told is never zero.
-/

namespace LinuxNet.WebServer

open LinuxNet.CInt LinuxNet.Decimal LinuxNet.Buffer LinuxNet.BoundedLog
open LinuxNet.StepSystem

/-- A call of `vsnprintf` with a size that is positive, and no other number as
a `size_t`. -/
def Event.SizeFits : Event → Prop
  | .vsnprintf size => 0 < size ∧ (toSize size : Int) = size
  | _ => False

namespace Conn

/-- Calls of `add_response` one after the other, with their results. -/
def addResponses : List (List UInt8) → Conn → List Bool × Conn
  | [], c => ([], c)
  | text :: later, c =>
      let (added, c) := c.addResponse text
      let (results, c) := addResponses later c
      (added :: results, c)

abbrev ResponseLog :=
  BoundedLog UInt8 (writeBufferSize - 1)

def noResponse : ResponseLog :=
  BoundedLog.empty (by decide)

/-- The array has its size, and the bytes that count are those of the log. -/
structure Holds (c : Conn) (log : ResponseLog) : Prop where
  size_eq : c.writeBuf.length = writeBufferSize
  writeIdx_eq : c.writeIdx = log.entries.length
  written_eq : c.written = log.entries

section Call

variable {c : Conn} {log : ResponseLog}

theorem Holds.writeIdx_lt (holds : c.Holds log) :
    c.writeIdx < writeBufferSize - 1 := by
  rw [holds.writeIdx_eq]
  exact log.short

theorem holds_init (c : Conn) : c.init.Holds noResponse where
  size_eq := List.length_replicate
  writeIdx_eq := rfl
  written_eq := rfl

/-- The size that `vsnprintf` is told, in the arithmetic of `int`. -/
theorem addResponse_trace
    (below : c.writeIdx < writeBufferSize) (text : List UInt8) :
    (c.addResponse text).2.trace =
      c.trace ++
        [.vsnprintf ((writeBufferSize : Int) - 1 - c.writeIdx)] := by
  have size :
      ((writeBufferSize - 1 - c.writeIdx : Nat) : Int) =
        (writeBufferSize : Int) - 1 - c.writeIdx := by
    simp only [writeBufferSize] at below ⊢
    omega
  rw [addResponse, if_neg (Nat.not_le_of_lt below), ← size]
  dsimp only
  split <;> rfl

theorem Holds.sizeFits (holds : c.Holds log) :
    Event.SizeFits
      (.vsnprintf ((writeBufferSize : Int) - 1 - c.writeIdx)) := by
  have below := holds.writeIdx_lt
  simp only [writeBufferSize] at below
  simp only [Event.SizeFits, toSize, writeBufferSize]
  omega

/-- A text that does not fit is cut behind the bytes that count, and stays
outside them. -/
theorem Holds.addResponse_refused
    (holds : c.Holds log) {text : List UInt8}
    (full : writeBufferSize - 1 ≤ c.writeIdx + text.length) :
    (c.addResponse text).1 = false ∧ (c.addResponse text).2.Holds log := by
  have below := holds.writeIdx_lt
  have size := holds.size_eq
  have positive : 0 < writeBufferSize - 1 - c.writeIdx := by omega
  have cut : writeBufferSize - 1 - c.writeIdx ≤ text.length := by omega
  have inside :
      c.writeIdx +
          (text.take (writeBufferSize - 1 - c.writeIdx - 1) ++ [0]).length ≤
        c.writeBuf.length := by
    rw [List.length_append, List.length_take, List.length_singleton]
    omega
  have start : c.writeIdx ≤ c.writeBuf.length := by omega
  rw [addResponse, if_neg (by omega), if_pos cut,
    printed_eq_placed _ positive]
  refine
    ⟨rfl,
      { size_eq := (length_placed inside).trans size
        writeIdx_eq := holds.writeIdx_eq
        written_eq := ?_ }⟩
  rw [← holds.written_eq]
  exact take_placed_start start _

/-- `add_response` does to the object what `push` does to the log. -/
theorem Holds.addResponse (holds : c.Holds log) (text : List UInt8) :
    (c.addResponse text).1 = (log.push text).1 ∧
      (c.addResponse text).2.Holds (log.push text).2 := by
  have total :
      (log.entries ++ text).length = c.writeIdx + text.length := by
    rw [List.length_append, holds.writeIdx_eq]
  by_cases fits : (log.entries ++ text).length < writeBufferSize - 1
  · obtain ⟨next, called, added⟩ :=
      addResponse_spec text holds.size_eq (by omega)
    rw [called, push_of_fits log text fits]
    exact
      ⟨rfl,
        { size_eq := added.size_eq.trans holds.size_eq
          writeIdx_eq := added.writeIdx_eq.trans total.symm
          written_eq := by rw [added.written_eq, holds.written_eq] }⟩
  · rw [push_of_not_fits log text fits]
    exact holds.addResponse_refused (by omega)

end Call

/-- Any calls do to the object what they do to the log. -/
theorem Holds.addResponses
    {c : Conn} {log : ResponseLog} (holds : c.Holds log)
    (texts : List (List UInt8)) :
    (c.addResponses texts).1 = (pushAll texts log).1 ∧
      (c.addResponses texts).2.Holds (pushAll texts log).2 := by
  induction texts generalizing c log with
  | nil => exact ⟨rfl, holds⟩
  | cons text texts inductionHypothesis =>
      obtain ⟨sameResult, next⟩ := holds.addResponse text
      obtain ⟨sameResults, last⟩ := inductionHypothesis next
      exact ⟨congrArg₂ List.cons sameResult sameResults, last⟩

theorem Holds.since_addResponses
    {c : Conn} {log : ResponseLog} (holds : c.Holds log)
    (texts : List (List UInt8)) :
    Since Event.SizeFits c (c.addResponses texts).2 := by
  induction texts generalizing c log with
  | nil => exact .of_trace_eq rfl
  | cons text texts inductionHypothesis =>
      have below := holds.writeIdx_lt
      have called :
          Since Event.SizeFits c (c.addResponse text).2 :=
        .single holds.sizeFits (addResponse_trace (by omega) text)
      exact called.trans (inductionHypothesis (holds.addResponse text).2)

/-- Behind any calls of `add_response` since `init()`: `m_write_idx` is inside
the array, all sizes told to `vsnprintf` were good ones, and the bytes that
count are the texts of the calls that returned true.  The next call tells
`vsnprintf` the remaining size, less the byte that is kept back, and if it
returns false the bytes that count stay as they are. -/
theorem addResponses_since_init (c : Conn) (texts : List (List UInt8)) :
    (c.init.addResponses texts).2.writeIdx < writeBufferSize ∧
      (c.init.addResponses texts).2.writeBuf.length = writeBufferSize ∧
      Since Event.SizeFits c.init (c.init.addResponses texts).2 ∧
      (c.init.addResponses texts).2.written =
        accepted texts (c.init.addResponses texts).1 ∧
      ∀ text next result,
        (c.init.addResponses texts).2.addResponse text = (result, next) →
          next.trace =
              (c.init.addResponses texts).2.trace ++
                [.vsnprintf
                  ((writeBufferSize : Int) - 1 -
                    (c.init.addResponses texts).2.writeIdx)] ∧
            (result = false →
              next.writeIdx = (c.init.addResponses texts).2.writeIdx ∧
                next.written =
                  (c.init.addResponses texts).2.written) := by
  obtain ⟨sameResults, holds⟩ := (holds_init c).addResponses texts
  have inside :
      (c.init.addResponses texts).2.writeIdx < writeBufferSize :=
    Nat.lt_of_lt_of_le holds.writeIdx_lt (Nat.sub_le writeBufferSize 1)
  have taken := entries_pushAll noResponse texts
  refine
    ⟨inside, holds.size_eq, (holds_init c).since_addResponses texts,
      ?_, ?_⟩
  · rw [holds.written_eq, taken, sameResults]
    rfl
  · intro text next result called
    have traced := addResponse_trace inside text
    obtain ⟨sameResult, held⟩ := holds.addResponse text
    rw [called] at traced sameResult held
    refine ⟨traced, fun refused => ?_⟩
    have kept := push_eq_self_of_refused _ text (sameResult.symm.trans refused)
    rw [kept] at held
    exact
      ⟨held.writeIdx_eq.trans holds.writeIdx_eq.symm,
        held.written_eq.trans holds.written_eq.symm⟩

/-! ## The calls of `process_write` -/

/-- The texts of `add_headers`. -/
def headersTexts (linger : Bool) (contentLength : Int) :
    List (List UInt8) :=
  [ascii "Content-Length: " ++ decimal contentLength ++ crlf,
    ascii "Connection: " ++
      (if linger then ascii "keep-alive" else ascii "close") ++ crlf,
    crlf]

def errorTexts (linger : Bool) (status : Int) (title form : List UInt8) :
    List (List UInt8) :=
  statusText status title ::
    (headersTexts linger (toInt form.length) ++ [form])

/-- The texts that `process_write` appends, in the order of its calls. -/
def responseTexts (c : Conn) : HttpCode → List (List UInt8)
  | .internalError => errorTexts c.linger 500 error500Title error500Form
  | .badRequest => errorTexts c.linger 400 error400Title error400Form
  | .noResource => errorTexts c.linger 404 error404Title error404Form
  | .forbiddenRequest => errorTexts c.linger 403 error403Title error403Form
  | .fileRequest =>
      statusText 200 ok200Title ::
        if c.fileStat.stSize ≠ 0 then
          headersTexts c.linger (toInt c.fileStat.stSize)
        else
          headersTexts c.linger (toInt okString.length) ++ [okString]
  | _ => []

structure SamePrint (c d : Conn) : Prop where
  writeBuf_eq : d.writeBuf = c.writeBuf
  writeIdx_eq : d.writeIdx = c.writeIdx
  trace_eq : d.trace = c.trace

theorem addResponses_append
    (c : Conn) (texts : List (List UInt8)) (text : List UInt8) :
    (c.addResponses (texts ++ [text])).2 =
      ((c.addResponses texts).2.addResponse text).2 := by
  induction texts generalizing c with
  | nil => rfl
  | cons first texts inductionHypothesis =>
      exact inductionHypothesis (c.addResponse first).2

theorem head_eq_addResponses
    (c : Conn) (status : Int) (title : List UInt8) (contentLength : Int) :
    c.head status title contentLength =
      (c.addResponses
        (statusText status title ::
          headersTexts c.linger (toInt contentLength))).2 := by
  have linger :
      ∀ (d : Conn) (text : List UInt8),
        (d.addResponse text).2.linger = d.linger :=
    fun d text => (addResponse_printsOnly d text).linger_eq
  simp only [head, addStatusLine, addHeaders, addContentLength, addLinger,
    addBlankLine, addResponses, headersTexts, statusText, linger]

/-- `process_write` prints by calls of `add_response` only. -/
theorem processWrite_samePrint (c : Conn) (code : HttpCode) :
    SamePrint (c.addResponses (c.responseTexts code)).2
      (c.processWrite code).2 := by
  have error :
      ∀ (status : Int) (title form : List UInt8),
        SamePrint (c.addResponses (errorTexts c.linger status title form)).2
          (c.writeError status title form).2 := by
    intro status title form
    rw [errorTexts, ← List.cons_append, addResponses_append,
      ← head_eq_addResponses, writeError_eq]
    unfold addContent
    generalize (c.head status title form.length).addResponse form = result
    split <;> exact ⟨rfl, rfl, rfl⟩
  cases code with
  | internalError | badRequest | noResource | forbiddenRequest =>
      exact error _ _ _
  | fileRequest =>
      rw [processWrite_file_eq, responseTexts]
      by_cases nonempty : c.fileStat.stSize ≠ 0
      · rw [if_pos nonempty, if_pos nonempty, ← head_eq_addResponses]
        generalize c.head 200 ok200Title c.fileStat.stSize = headed
        exact ⟨rfl, rfl, rfl⟩
      · rw [if_neg nonempty, if_neg nonempty, ← List.cons_append,
          addResponses_append, ← head_eq_addResponses]
        exact ⟨rfl, rfl, rfl⟩
  | noRequest | getRequest | closedConnection => exact ⟨rfl, rfl, rfl⟩

section Responses

variable {c d : Conn} {log : ResponseLog}

theorem Holds.of_eq
    (holds : c.Holds log) (writeBuf_eq : d.writeBuf = c.writeBuf)
    (writeIdx_eq : d.writeIdx = c.writeIdx) : d.Holds log where
  size_eq := by
    rw [writeBuf_eq]
    exact holds.size_eq
  writeIdx_eq := writeIdx_eq.trans holds.writeIdx_eq
  written_eq := by
    unfold written
    rw [writeBuf_eq, writeIdx_eq]
    exact holds.written_eq

/-- `process_write` appends to the log. -/
theorem Holds.processWrite (holds : c.Holds log) (code : HttpCode) :
    (c.processWrite code).2.Holds
      (pushAll (c.responseTexts code) log).2 := by
  have printed := processWrite_samePrint c code
  exact
    (holds.addResponses (c.responseTexts code)).2.of_eq
      printed.writeBuf_eq printed.writeIdx_eq

end Responses

end Conn

namespace Server

variable {pool : Pool} {pages : Nat → List UInt8}

/-- The write buffer of a connection is a log unless it is closed. -/
def HoldsAt (place : Place) (c : Conn) : Prop :=
  place ≠ .closed → ∃ log, c.Holds log

theorem holds_answers
    {fs : FileSystem} {c d e : Conn} {code : HttpCode}
    {log : Conn.ResponseLog} (holds : c.Holds log)
    (reads : Conn.ReadsOnly c d) (answers : Conn.Answers fs c d code e) :
    e.Holds log := by
  have read := holds.of_eq reads.writeBuf_eq reads.writeIdx_eq
  rcases answers with ⟨_, rfl⟩ | ⟨_, requested⟩
  · exact read
  · exact read.of_eq requested.writeBuf_eq requested.writeIdx_eq

theorem holds_move
    {s : Server} {fd : Nat} {label : Label} {place newPlace : Place}
    {c : Conn} (framed : place ≠ .closed → (s.users fd).Framed)
    (hold : HoldsAt place (s.users fd))
    (move : Move pool s fd label place c newPlace) :
    HoldsAt newPlace c := by
  intro stays
  have received :
      ∀ {blocks : List (List UInt8)} {last : RecvEnd},
        (s.users fd).Receivable blocks → place = .armed .epollIn →
          ∃ log, ((s.users fd).read blocks last).2.Holds log := by
    intro blocks last receivable isReading
    have notClosed : place ≠ .closed := by
      rw [isReading]
      exact nofun
    obtain ⟨log, holds⟩ := hold notClosed
    refine ⟨log, ?_⟩
    rcases Conn.read_snd (framed notClosed) receivable last with same | block
    · rw [same]
      exact holds
    · rw [block]
      exact holds.of_eq rfl rfl
  cases move with
  | accept address => exact ⟨_, Conn.holds_init _⟩
  | hangUp | readFails | writeFails | processFails =>
      exact absurd rfl stays
  | read receivable drained room => exact received receivable rfl
  | refused receivable drained full => exact received receivable rfl
  | written returns =>
      cases returns with
      | idle empty => exact ⟨_, Conn.holds_init _⟩
      | again pending sends =>
          obtain ⟨log, holds⟩ := hold nofun
          obtain ⟨events, _, rfl⟩ := sends
          exact ⟨log, holds.of_eq rfl rfl⟩
      | @kept d pending sends linger =>
          exact ⟨_, (Conn.holds_init d.unmap).of_eq rfl rfl⟩
  | dequeue => exact hold nofun
  | processed inside ends =>
      obtain ⟨log, holds⟩ := hold nofun
      cases ends with
      | waits _ reads =>
          exact ⟨log, holds.of_eq reads.writeBuf_eq reads.writeIdx_eq⟩
      | @answers d e code reads answers _ written =>
          have answered := holds_answers holds reads answers
          exact ⟨_, (answered.processWrite code).of_eq rfl rfl⟩

theorem holds_step
    (s : Server) (label : Label) (next : Server)
    (hold : s.Everywhere HoldsAt) (inside : s.StoresInside label)
    (stepped : s.step pool pages label = some next) :
    next.Everywhere HoldsAt :=
  everywhere_step HoldsAt
    (fun {s label} (inside : s.StoresInside label) => inside)
    (fun _ framed hold move => holds_move framed hold move)
    s label next hold inside stepped

/-- In every state that the server reaches without a store outside
`m_read_buf`, the write buffer of an open connection is a log: `m_write_idx`
is below the byte that is kept back. -/
theorem write_buffers_hold
    {users : Nat → Conn} {labels : List Label} {last : Server}
    (inside :
      StepsMeet (step pool pages) StoresInside (start users) labels)
    (ran : run (step pool pages) (start users) labels = some last)
    {fd : Nat} (isOpen : last.shared.opened fd = true) :
    ∃ log, (last.users fd).Holds log := by
  have initially : (start users).Everywhere HoldsAt :=
    fun _ =>
      ⟨.closed, ⟨rfl, rfl, rfl, rfl⟩, fun impossible => absurd rfl impossible⟩
  have hold :=
    guarded_run_keeps StoresInside (Everywhere HoldsAt) holds_step initially
      inside ran
  obtain ⟨place, isAt, holds⟩ := hold fd
  apply holds
  rintro rfl
  rw [isAt.1] at isOpen
  cases isOpen

end Server

end LinuxNet.WebServer
