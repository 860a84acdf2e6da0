import LinuxNet.Lib.Buffer
import LinuxNet.WebServer.Writer

/-!
# The response that `process_write` queues

`addResponse_spec` says what one bounded append does when there is room; the
appends of a response never fill the 1024 bytes of `m_write_buf`.  The
response is well delimited for every error code and for a file of 1 to
`INT_MAX` bytes.  An empty file falls through to `default`, and the size of a
larger file does not survive the conversion to the `int` parameter of
`add_headers`.
-/

namespace LinuxNet.WebServer

open LinuxNet.CString LinuxNet.CInt LinuxNet.Decimal LinuxNet.Buffer

/-! ## Appending to the write buffer -/

namespace Conn

/-- The bytes of `m_write_buf` that count. -/
def written (c : Conn) : List UInt8 :=
  c.writeBuf.take c.writeIdx

/-- What `process_write` and its helpers leave alone: they print into the
write buffer and queue vectors, and nothing else. -/
structure PrintsOnly (c next : Conn) : Prop where
  sockfd_eq : next.sockfd = c.sockfd
  linger_eq : next.linger = c.linger
  fileStat_eq : next.fileStat = c.fileStat
  fileAddress_eq : next.fileAddress = c.fileAddress
  readBuf_eq : next.readBuf = c.readBuf
  readIdx_eq : next.readIdx = c.readIdx
  checkedIdx_eq : next.checkedIdx = c.checkedIdx
  startLine_eq : next.startLine = c.startLine
  trace_eq :
    ∃ sizes : List Int, next.trace = c.trace ++ sizes.map Event.vsnprintf

theorem PrintsOnly.refl (c : Conn) : PrintsOnly c c :=
  ⟨rfl, rfl, rfl, rfl, rfl, rfl, rfl, rfl, [], by simp⟩

theorem PrintsOnly.trans
    {c middle last : Conn}
    (left : PrintsOnly c middle) (right : PrintsOnly middle last) :
    PrintsOnly c last where
  sockfd_eq := right.sockfd_eq.trans left.sockfd_eq
  linger_eq := right.linger_eq.trans left.linger_eq
  fileStat_eq := right.fileStat_eq.trans left.fileStat_eq
  fileAddress_eq := right.fileAddress_eq.trans left.fileAddress_eq
  readBuf_eq := right.readBuf_eq.trans left.readBuf_eq
  readIdx_eq := right.readIdx_eq.trans left.readIdx_eq
  checkedIdx_eq := right.checkedIdx_eq.trans left.checkedIdx_eq
  startLine_eq := right.startLine_eq.trans left.startLine_eq
  trace_eq := by
    obtain ⟨first, firstEq⟩ := left.trace_eq
    obtain ⟨second, secondEq⟩ := right.trace_eq
    exact ⟨first ++ second, by simp [secondEq, firstEq]⟩

theorem addResponse_printsOnly (c : Conn) (text : List UInt8) :
    PrintsOnly c (c.addResponse text).2 := by
  unfold addResponse
  split
  · exact PrintsOnly.refl c
  · dsimp only
    split <;>
      exact ⟨rfl, rfl, rfl, rfl, rfl, rfl, rfl, rfl,
        [(writeBufferSize - 1 - c.writeIdx : Nat)], rfl⟩

theorem addHeaders_printsOnly (c : Conn) (contentLength : Int) :
    PrintsOnly c (c.addHeaders contentLength).2 := by
  unfold addHeaders addContentLength addLinger addBlankLine
  exact
    ((addResponse_printsOnly _ _).trans
      (addResponse_printsOnly _ _)).trans (addResponse_printsOnly _ _)

/-- Status line and headers of a response, as `process_write` prints them. -/
def head (c : Conn) (status : Int) (title : List UInt8)
    (contentLength : Int) : Conn :=
  ((c.addStatusLine status title).2.addHeaders contentLength).2

theorem head_printsOnly (c : Conn) (status : Int) (title : List UInt8)
    (contentLength : Int) :
    PrintsOnly c (c.head status title contentLength) :=
  (addResponse_printsOnly _ _).trans (addHeaders_printsOnly _ _)

theorem queueBuffer_printsOnly (c : Conn) : PrintsOnly c c.queueBuffer :=
  ⟨rfl, rfl, rfl, rfl, rfl, rfl, rfl, rfl, [], by simp [queueBuffer]⟩

theorem queueFile_printsOnly (c : Conn) : PrintsOnly c c.queueFile :=
  ⟨rfl, rfl, rfl, rfl, rfl, rfl, rfl, rfl, [], by simp [queueFile]⟩

theorem writeError_eq (c : Conn) (status : Int) (title form : List UInt8) :
    c.writeError status title form =
      if ((c.head status title form.length).addContent form).1 = true then
        (true,
          ((c.head status title form.length).addContent form).2.queueBuffer)
      else
        (false, ((c.head status title form.length).addContent form).2) := by
  unfold writeError head
  simp only
  rcases
    ((c.addStatusLine status title).2.addHeaders form.length).2.addContent
      form with ⟨printed, next⟩
  cases printed <;> rfl

theorem writeError_printsOnly
    (c : Conn) (status : Int) (title form : List UInt8) :
    PrintsOnly c (c.writeError status title form).2 := by
  have printed :
      PrintsOnly c
        ((c.head status title form.length).addContent form).2 :=
    (head_printsOnly c _ _ _).trans (addResponse_printsOnly _ _)
  rw [writeError_eq]
  split
  · exact printed.trans (queueBuffer_printsOnly _)
  · exact printed

theorem processWrite_file_eq (c : Conn) :
    c.processWrite .fileRequest =
      if c.fileStat.stSize ≠ 0 then
        (true, (c.head 200 ok200Title c.fileStat.stSize).queueFile)
      else
        (false,
          ((c.head 200 ok200Title okString.length).addContent
            okString).2) := by
  have sameStat :
      (c.addStatusLine 200 ok200Title).2.fileStat = c.fileStat :=
    (addResponse_printsOnly c _).fileStat_eq
  unfold processWrite head
  simp only [sameStat]

theorem processWrite_printsOnly (c : Conn) (code : HttpCode) :
    PrintsOnly c (c.processWrite code).2 := by
  cases code with
  | internalError | badRequest | noResource | forbiddenRequest =>
      unfold processWrite
      exact writeError_printsOnly _ _ _ _
  | fileRequest =>
      rw [processWrite_file_eq]
      split
      · exact (head_printsOnly c _ _ _).trans (queueFile_printsOnly _)
      · have headed := head_printsOnly c 200 ok200Title okString.length
        exact headed.trans (addResponse_printsOnly _ okString)
  | noRequest | getRequest | closedConnection =>
      exact PrintsOnly.refl c

/-- `next` is `c` with a text appended to the write buffer. -/
structure Appended (c : Conn) (text : List UInt8) (next : Conn) : Prop where
  writeIdx_eq : next.writeIdx = c.writeIdx + text.length
  written_eq : next.written = c.written ++ text
  size_eq : next.writeBuf.length = c.writeBuf.length
  printsOnly : PrintsOnly c next

theorem Appended.linger_eq
    {c next : Conn} {text : List UInt8} (added : Appended c text next) :
    next.linger = c.linger :=
  added.printsOnly.linger_eq

theorem Appended.fileStat_eq
    {c next : Conn} {text : List UInt8} (added : Appended c text next) :
    next.fileStat = c.fileStat :=
  added.printsOnly.fileStat_eq

theorem Appended.fileAddress_eq
    {c next : Conn} {text : List UInt8} (added : Appended c text next) :
    next.fileAddress = c.fileAddress :=
  added.printsOnly.fileAddress_eq

theorem Appended.trans
    {c middle last : Conn} {first second : List UInt8}
    (left : Appended c first middle) (right : Appended middle second last) :
    Appended c (first ++ second) last where
  writeIdx_eq := by
    rw [right.writeIdx_eq, left.writeIdx_eq, List.length_append]
    omega
  written_eq := by
    rw [right.written_eq, left.written_eq, List.append_assoc]
  size_eq := right.size_eq.trans left.size_eq
  printsOnly := left.printsOnly.trans right.printsOnly

theorem printed_eq_placed
    (c : Conn) {size : Nat} (positive : 0 < size) (text : List UInt8) :
    c.printed size text =
      placed c.writeBuf c.writeIdx (text.take (size - 1) ++ [0]) :=
  if_neg (Nat.ne_of_gt positive)

/-- An append that leaves the reserved byte free succeeds. -/
theorem addResponse_spec
    {c : Conn} (text : List UInt8)
    (size : c.writeBuf.length = writeBufferSize)
    (room : c.writeIdx + text.length < writeBufferSize - 1) :
    ∃ next, c.addResponse text = (true, next) ∧
      Appended c text next := by
  have below : ¬ writeBufferSize ≤ c.writeIdx := by omega
  have fits :
      ¬ writeBufferSize - 1 - c.writeIdx ≤ text.length := by omega
  have positive : 0 < writeBufferSize - 1 - c.writeIdx := by omega
  have uncut :
      text.take (writeBufferSize - 1 - c.writeIdx - 1) = text :=
    List.take_of_length_le (by omega)
  have start : c.writeIdx ≤ c.writeBuf.length := by omega
  have inside :
      c.writeIdx + (text ++ [0]).length ≤ c.writeBuf.length := by
    rw [List.length_append, List.length_singleton]
    omega
  have frame := addResponse_printsOnly c text
  rw [addResponse, if_neg below, if_neg fits,
    printed_eq_placed _ positive, uncut] at frame
  refine
    ⟨_,
      by rw [addResponse, if_neg below, if_neg fits,
        printed_eq_placed _ positive, uncut], ?_⟩
  exact
    { writeIdx_eq := rfl
      written_eq := take_placed_append start text [0]
      size_eq := length_placed inside
      printsOnly := frame }

/-- The text of `add_content_length`, `add_linger` and `add_blank_line`. -/
def headersText (linger : Bool) (contentLength : Int) : List UInt8 :=
  (ascii "Content-Length: " ++ decimal contentLength ++ crlf) ++
    (ascii "Connection: " ++
      (if linger then ascii "keep-alive" else ascii "close") ++ crlf) ++
    crlf

theorem length_decimal_toInt_le (value : Int) :
    (decimal (toInt value)).length ≤ 11 := by
  have fits := fits_toInt value
  simp only [Fits, intMin, intMax] at fits
  have digits : (natDigits (toInt value).natAbs).length ≤ 10 :=
    length_natDigits_le (by decide) (by omega)
  unfold decimal
  split
  · rw [List.length_cons]
    omega
  · omega

theorem length_headersText_le (linger : Bool) (value : Int) :
    (headersText linger (toInt value)).length ≤ 55 := by
  have digits := length_decimal_toInt_le value
  have label : (ascii "Content-Length: ").length = 16 := by decide
  have connection : (ascii "Connection: ").length = 12 := by decide
  have keepAlive : (ascii "keep-alive").length = 10 := by decide
  have close : (ascii "close").length = 5 := by decide
  cases linger <;>
    simp only [headersText, List.length_append, crlf, List.length_cons,
      List.length_nil, Bool.false_eq_true, if_true, if_false] <;>
    omega

theorem addHeaders_spec
    {c : Conn} (contentLength : Int)
    (size : c.writeBuf.length = writeBufferSize)
    (room : c.writeIdx + 55 < writeBufferSize - 1) :
    ∃ next, c.addHeaders contentLength = (true, next) ∧
      Appended c (headersText c.linger (toInt contentLength)) next := by
  have total := length_headersText_le c.linger contentLength
  simp only [headersText, List.length_append] at total
  obtain ⟨first, firstAdded, firstSpec⟩ :=
    addResponse_spec
      (ascii "Content-Length: " ++
        decimal (toInt contentLength) ++ crlf)
      size (by simp only [List.length_append]; omega)
  have firstIdx := firstSpec.writeIdx_eq
  simp only [List.length_append] at firstIdx
  obtain ⟨second, secondAdded, secondSpec⟩ :=
    addResponse_spec
      (ascii "Connection: " ++
        (if first.linger then ascii "keep-alive" else ascii "close") ++
          crlf)
      (firstSpec.size_eq.trans size)
      (by rw [firstSpec.linger_eq]
          simp only [List.length_append]; omega)
  have secondIdx := secondSpec.writeIdx_eq
  rw [firstSpec.linger_eq] at secondIdx secondSpec
  simp only [List.length_append] at secondIdx
  obtain ⟨third, thirdAdded, thirdSpec⟩ :=
    addResponse_spec (c := second) crlf
      (secondSpec.size_eq.trans (firstSpec.size_eq.trans size))
      (by omega)
  refine ⟨third, ?_, (firstSpec.trans secondSpec).trans thirdSpec⟩
  simp only [addHeaders, addContentLength, addLinger, addBlankLine,
    firstAdded, secondAdded, thirdAdded, Bool.and_self]

/-- The bytes offered when only the write buffer is queued. -/
theorem offered_queueBuffer (pages : Nat → List UInt8) (c : Conn) :
    c.queueBuffer.offered pages = c.written := by
  simp [offered, queueBuffer, iovecBytes, written]

end Conn

/-- The status line for a result of `process_read`. -/
def statusLine : HttpCode → List UInt8
  | .fileRequest => ascii "HTTP/1.1 200 OK\r\n"
  | .badRequest => ascii "HTTP/1.1 400 Bad Request\r\n"
  | .forbiddenRequest => ascii "HTTP/1.1 403 Forbidden\r\n"
  | .noResource => ascii "HTTP/1.1 404 Not Found\r\n"
  | .internalError => ascii "HTTP/1.1 500 Internal Error\r\n"
  | _ => []

/-- The body for a result of `process_read`. -/
def bodyFor (code : HttpCode) (file : List UInt8) : List UInt8 :=
  match code with
  | .fileRequest => file
  | .badRequest => error400Form
  | .forbiddenRequest => error403Form
  | .noResource => error404Form
  | .internalError => error500Form
  | _ => []

/-- A status line, a `Content-Length` header whose value is the number of
body bytes, a `Connection` header, a blank line and the body. -/
def WellDelimited
    (response : List UInt8) (code : HttpCode) (linger : Bool)
    (file : List UInt8) : Prop :=
  ∃ digits,
    response =
        statusLine code ++
          (ascii "Content-Length: " ++ digits ++ crlf) ++
          (ascii "Connection: " ++
            (if linger then ascii "keep-alive" else ascii "close") ++
              crlf) ++
          crlf ++ bodyFor code file ∧
      decimalValue digits = some (bodyFor code file).length

/-- `process_write` succeeds and queues a well-delimited response. -/
def QueuesResponse
    (pages : Nat → List UInt8) (c : Conn) (code : HttpCode)
    (file : List UInt8) : Prop :=
  (c.processWrite code).1 = true ∧
    WellDelimited ((c.processWrite code).2.offered pages) code c.linger
      file

theorem wellDelimited_headersText
    {code : HttpCode} {linger : Bool} {file : List UInt8} {length : Int}
    (lengthEq : length = (bodyFor code file).length) :
    WellDelimited
      (statusLine code ++ Conn.headersText linger length ++
        bodyFor code file) code linger file := by
  refine ⟨decimal length, ?_, ?_⟩
  · simp [Conn.headersText]
  · rw [lengthEq]
    exact decimalValue_decimal_ofNat _

/-- Two texts that are cut by the same byte agree in front of it and behind
it. -/
private theorem append_cons_inj
    {stop : UInt8} {left other rest later : List UInt8}
    (clean : stop ∉ left) (otherClean : stop ∉ other)
    (same : left ++ stop :: rest = other ++ stop :: later) :
    left = other ∧ rest = later := by
  induction left generalizing other with
  | nil =>
      cases other with
      | nil => exact ⟨rfl, (List.cons.inj same).2⟩
      | cons byte other =>
          have first : stop = byte := (List.cons.inj same).1
          rw [first] at otherClean
          exact absurd List.mem_cons_self otherClean
  | cons byte left inductionHypothesis =>
      rw [List.mem_cons, not_or] at clean
      cases other with
      | nil => exact absurd (List.cons.inj same).1.symm clean.1
      | cons otherByte other =>
          rw [List.mem_cons, not_or] at otherClean
          obtain ⟨first, others⟩ := List.cons.inj same
          obtain ⟨front, back⟩ :=
            inductionHypothesis clean.2 otherClean.2 others
          exact ⟨by rw [first, front], back⟩

private theorem return_notMem_decimal (value : Int) : 13 ∉ decimal value := by
  intro member
  rcases isdigit_or_minus_of_mem_decimal member with isDigit | isMinus
  · revert isDigit
    decide
  · revert isMinus
    decide

private theorem return_notMem_of_decimalValue
    {digits : List UInt8} {value : Nat}
    (read : decimalValue digits = some value) : 13 ∉ digits := by
  unfold decimalValue at read
  split at read
  · next isNumber =>
      intro member
      have isDigit := List.all_eq_true.mp isNumber.2 13 member
      revert isDigit
      decide
  · cases read

/-- A well-delimited response states the length of its body, and the body is
what follows the headers. -/
theorem body_eq_of_wellDelimited
    {code : HttpCode} {linger : Bool} {file body : List UInt8} {length : Int}
    (wellDelimited :
      WellDelimited
        (statusLine code ++ Conn.headersText linger length ++ body) code
        linger file) :
    length = (bodyFor code file).length ∧ body = bodyFor code file := by
  obtain ⟨digits, shape, value⟩ := wellDelimited
  have cut :
      decimal length ++
          13 :: 10 :: (ascii "Connection: " ++
            ((if linger then ascii "keep-alive" else ascii "close") ++
              (crlf ++ (crlf ++ body)))) =
        digits ++
          13 :: 10 :: (ascii "Connection: " ++
            ((if linger then ascii "keep-alive" else ascii "close") ++
              (crlf ++ (crlf ++ bodyFor code file)))) := by
    simpa [Conn.headersText, crlf] using shape
  obtain ⟨digitsEq, rest⟩ :=
    append_cons_inj (return_notMem_decimal length)
      (return_notMem_of_decimalValue value) cut
  rw [← digitsEq] at value
  refine ⟨decimalValue_decimal_eq_some value, ?_⟩
  simpa using rest

/-- The text of `add_status_line`. -/
def statusText (status : Int) (title : List UInt8) : List UInt8 :=
  ascii "HTTP/1.1" ++ [32] ++ decimal status ++ [32] ++ title ++ crlf

/-- The four error branches, for a status line and a form that leave room. -/
theorem writeError_spec
    {c : Conn} (status : Int) (title : List UInt8) {form : List UInt8}
    (size : c.writeBuf.length = writeBufferSize) (empty : c.writeIdx = 0)
    (room :
      (statusText status title).length + 55 + form.length <
        writeBufferSize - 1)
    (formFits : Fits form.length) :
    ∃ next : Conn, c.writeError status title form = (true, next.queueBuffer) ∧
      next.writeIdx =
        (statusText status title).length +
          (Conn.headersText c.linger form.length).length + form.length ∧
      next.written =
        statusText status title ++
          Conn.headersText c.linger form.length ++ form := by
  have headersLength := Conn.length_headersText_le c.linger form.length
  rw [toInt_of_fits formFits] at headersLength
  obtain ⟨first, firstAdded, firstSpec⟩ :=
    Conn.addResponse_spec (statusText status title) size
      (by omega)
  have firstIdx := firstSpec.writeIdx_eq
  obtain ⟨second, secondAdded, secondSpec⟩ :=
    Conn.addHeaders_spec (c := first) form.length
      (firstSpec.size_eq.trans size) (by omega)
  rw [toInt_of_fits formFits, firstSpec.linger_eq] at secondSpec
  have secondIdx := secondSpec.writeIdx_eq
  obtain ⟨third, thirdAdded, thirdSpec⟩ :=
    Conn.addResponse_spec (c := second) form
      (secondSpec.size_eq.trans (firstSpec.size_eq.trans size))
      (by omega)
  have firstAdded' : c.addStatusLine status title = (true, first) :=
    firstAdded
  have thirdAdded' : second.addContent form = (true, third) := thirdAdded
  refine ⟨third, ?_, ?_, ?_⟩
  · simp only [Conn.writeError, firstAdded', secondAdded, thirdAdded']
  · rw [thirdSpec.writeIdx_eq, secondIdx, firstIdx, empty]
    omega
  · rw [thirdSpec.written_eq, secondSpec.written_eq, firstSpec.written_eq]
    simp [Conn.written, empty]

/-- The file branch, for a file that is not empty. -/
theorem processWrite_fileRequest
    {c : Conn}
    (size : c.writeBuf.length = writeBufferSize) (empty : c.writeIdx = 0)
    (nonempty : c.fileStat.stSize ≠ 0) :
    ∃ next : Conn,
      c.processWrite .fileRequest = (true, next.queueFile) ∧
        next.writeIdx = next.written.length ∧
        next.written =
          statusLine .fileRequest ++
            Conn.headersText c.linger (toInt c.fileStat.stSize) ∧
        next.fileAddress = c.fileAddress ∧
        next.fileStat = c.fileStat := by
  have statusEq :
      statusText 200 ok200Title = statusLine .fileRequest := by decide
  have statusLength : (statusText 200 ok200Title).length = 17 := by decide
  obtain ⟨first, firstAdded, firstSpec⟩ :=
    Conn.addResponse_spec (statusText 200 ok200Title) size
      (by rw [statusLength, empty]; decide)
  have firstIdx := firstSpec.writeIdx_eq
  obtain ⟨second, secondAdded, secondSpec⟩ :=
    Conn.addHeaders_spec (c := first) c.fileStat.stSize
      (firstSpec.size_eq.trans size)
      (by rw [firstIdx, statusLength, empty]; decide)
  have firstAdded' : c.addStatusLine 200 ok200Title = (true, first) :=
    firstAdded
  rw [firstSpec.linger_eq] at secondSpec
  have writtenEq :
      second.written =
        statusLine .fileRequest ++
          Conn.headersText c.linger (toInt c.fileStat.stSize) := by
    rw [secondSpec.written_eq, firstSpec.written_eq, statusEq]
    simp [Conn.written, empty]
  refine ⟨second, ?_, ?_, writtenEq, ?_, ?_⟩
  · simp only [Conn.processWrite, firstAdded', firstSpec.fileStat_eq,
      if_pos nonempty, secondAdded]
  · rw [writtenEq, secondSpec.writeIdx_eq, firstIdx, empty, statusEq,
      List.length_append]
    omega
  · rw [secondSpec.fileAddress_eq, firstSpec.fileAddress_eq]
  · rw [secondSpec.fileStat_eq, firstSpec.fileStat_eq]

/-- The bytes offered when the write buffer and a mapping are queued. -/
theorem offered_queueFile
    {pages : Nat → List UInt8} {c : Conn} {file : List UInt8}
    {address : Nat}
    (mapped : c.fileAddress = .mapping address)
    (content : pages address = file)
    (sizeEq : c.fileStat.stSize = file.length) :
    c.queueFile.offered pages = c.written ++ file := by
  simp [Conn.offered, Conn.queueFile, Conn.iovecBytes, Conn.written,
    mapped, content, sizeEq]

/-- The results of `process_read` that are answered. -/
def Answered (code : HttpCode) : Prop :=
  code = .badRequest ∨ code = .noResource ∨ code = .forbiddenRequest ∨
    code = .internalError ∨ code = .fileRequest

/-- `m_file_stat` and `m_file_address` describe the file. -/
structure FileMapped
    (pages : Nat → List UInt8) (c : Conn) (file : List UInt8) : Prop where
  stSize_eq : c.fileStat.stSize = file.length
  mapped :
    file ≠ [] →
      ∃ address, c.fileAddress = .mapping address ∧ pages address = file

theorem bodyFor_of_ne_file
    {code : HttpCode} (notFile : code ≠ .fileRequest)
    (file : List UInt8) :
    bodyFor code file = bodyFor code [] := by
  cases code <;> first | rfl | exact absurd rfl notFile

private theorem writeError_answers
    {c : Conn} {code : HttpCode} (status : Int)
    (title form : List UInt8)
    (size : c.writeBuf.length = writeBufferSize) (empty : c.writeIdx = 0)
    (branch : c.processWrite code = c.writeError status title form)
    (statusEq : statusText status title = statusLine code)
    (formEq : form = bodyFor code [])
    (room :
      (statusText status title).length + 55 + form.length <
        writeBufferSize - 1) :
    ∃ next : Conn,
      c.processWrite code = (true, next.queueBuffer) ∧
        next.writeIdx = next.written.length ∧
        next.written =
          statusLine code ++
            Conn.headersText c.linger (bodyFor code []).length ++
            bodyFor code [] := by
  have formFits : Fits form.length := by
    simp only [writeBufferSize] at room
    simp only [Fits, intMin, intMax]
    omega
  obtain ⟨next, queued, idxEq, writtenEq⟩ :=
    writeError_spec status title size empty room formFits
  rw [statusEq, formEq] at writtenEq idxEq
  refine ⟨next, branch.trans queued, ?_, writtenEq⟩
  rw [idxEq, writtenEq]
  simp only [List.length_append]

/-- The four error responses. -/
theorem processWrite_errorResponse
    {c : Conn} {code : HttpCode}
    (answered : Answered code) (notFile : code ≠ .fileRequest)
    (size : c.writeBuf.length = writeBufferSize) (empty : c.writeIdx = 0) :
    ∃ next : Conn,
      c.processWrite code = (true, next.queueBuffer) ∧
        next.writeIdx = next.written.length ∧
        next.written =
          statusLine code ++
            Conn.headersText c.linger (bodyFor code []).length ++
            bodyFor code [] := by
  rcases answered with rfl | rfl | rfl | rfl | rfl
  · exact
      writeError_answers 400 error400Title error400Form size empty
        rfl (by decide) rfl (by decide)
  · exact
      writeError_answers 404 error404Title error404Form size empty
        rfl (by decide) rfl (by decide)
  · exact
      writeError_answers 403 error403Title error403Form size empty
        rfl (by decide) rfl (by decide)
  · exact
      writeError_answers 500 error500Title error500Form size empty
        rfl (by decide) rfl (by decide)
  · exact absurd rfl notFile

theorem queuesResponse_of_ne_file
    {pages : Nat → List UInt8} {c : Conn} {code : HttpCode}
    {file : List UInt8}
    (answered : Answered code) (notFile : code ≠ .fileRequest)
    (size : c.writeBuf.length = writeBufferSize) (empty : c.writeIdx = 0) :
    QueuesResponse pages c code file := by
  obtain ⟨next, queued, _, writtenEq⟩ :=
    processWrite_errorResponse answered notFile size empty
  rw [QueuesResponse, queued]
  refine ⟨rfl, ?_⟩
  simp only [Conn.offered_queueBuffer]
  rw [writtenEq, ← bodyFor_of_ne_file notFile file]
  exact wellDelimited_headersText rfl

/-- An empty file runs on into the `default` branch, which fails. -/
theorem processWrite_empty_file
    {c : Conn} (stSize : c.fileStat.stSize = 0)
    (size : c.writeBuf.length = writeBufferSize) (empty : c.writeIdx = 0) :
    (c.processWrite .fileRequest).1 = false := by
  obtain ⟨first, firstAdded, firstSpec⟩ :=
    Conn.addResponse_spec (statusText 200 ok200Title) size
      (by rw [empty]; decide)
  have firstAdded' : c.addStatusLine 200 ok200Title = (true, first) :=
    firstAdded
  simp [Conn.processWrite, firstAdded', firstSpec.fileStat_eq, stSize]

/-- `open` and `mmap` have succeeded: the bytes at `m_file_address` are those
of the file. -/
def MapsFile
    (pages : Nat → List UInt8) (c : Conn) (file : List UInt8) : Prop :=
  ∃ address, c.fileAddress = .mapping address ∧
    (pages address).take file.length = file

/-- What the second vector of a file response designates. -/
theorem iovecBytes_eq_file_iff
    {pages : Nat → List UInt8} {c : Conn} {file : List UInt8}
    (nonempty : file ≠ []) :
    c.iovecBytes pages ⟨.file c.fileAddress, file.length⟩ = file ↔
      MapsFile pages c file := by
  unfold MapsFile Conn.iovecBytes
  cases c.fileAddress with
  | mapping address => simp
  | null | mapFailed => simp [nonempty.symm]

theorem queuesResponse_file_iff
    {pages : Nat → List UInt8} {c : Conn} {file : List UInt8}
    (size : c.writeBuf.length = writeBufferSize) (empty : c.writeIdx = 0)
    (stSize : c.fileStat.stSize = file.length) :
    QueuesResponse pages c .fileRequest file ↔
      0 < c.fileStat.stSize ∧ c.fileStat.stSize ≤ intMax ∧
        MapsFile pages c file := by
  by_cases nonempty : c.fileStat.stSize = 0
  · constructor
    · intro queues
      have fails := processWrite_empty_file nonempty size empty
      rw [queues.1] at fails
      cases fails
    · intro bounds
      omega
  · obtain ⟨next, queued, _, writtenEq, addressEq, statEq⟩ :=
      processWrite_fileRequest size empty nonempty
    have fileNonempty : file ≠ [] := by
      rintro rfl
      exact nonempty stSize
    have offeredEq :
        (c.processWrite .fileRequest).2.offered pages =
          statusLine .fileRequest ++
            Conn.headersText c.linger (toInt c.fileStat.stSize) ++
            c.iovecBytes pages ⟨.file c.fileAddress, file.length⟩ := by
      have length : next.fileStat.stSize.toNat = file.length := by
        rw [statEq, stSize]
        rfl
      rw [queued, ← writtenEq, ← addressEq, ← length]
      simp only [Conn.offered, Conn.queueFile, if_true]
      cases next.fileAddress <;> rfl
    have returns : (c.processWrite .fileRequest).1 = true := by
      rw [queued]
    rw [QueuesResponse, offeredEq]
    constructor
    · rintro ⟨_, wellDelimited⟩
      obtain ⟨lengthEq, bodyEq⟩ := body_eq_of_wellDelimited wellDelimited
      have same : toInt c.fileStat.stSize = c.fileStat.stSize := by
        rw [lengthEq, stSize]
        rfl
      have fits := (toInt_eq_self_iff _).mp same
      exact
        ⟨by omega, fits.2, (iovecBytes_eq_file_iff fileNonempty).mp bodyEq⟩
    · rintro ⟨positive, bounded, mapped⟩
      rw [(iovecBytes_eq_file_iff fileNonempty).mpr mapped]
      refine ⟨returns, wellDelimited_headersText ?_⟩
      rw [toInt_of_fits
        ⟨by simp only [intMin]; omega, bounded⟩, stSize]
      rfl

/-- `process_write`, called with an empty write buffer on a result of
`process_read`, queues a well-delimited response if and only if the result is
not a file, or the file has between 1 and `INT_MAX` bytes and is mapped. -/
theorem processWrite_queuesResponse_iff
    (pages : Nat → List UInt8) (c : Conn) (code : HttpCode)
    (file : List UInt8)
    (answered : Answered code)
    (size : c.writeBuf.length = writeBufferSize) (empty : c.writeIdx = 0)
    (stSize : code = .fileRequest → c.fileStat.stSize = file.length) :
    QueuesResponse pages c code file ↔
      (code = .fileRequest →
        0 < c.fileStat.stSize ∧ c.fileStat.stSize ≤ intMax ∧
          MapsFile pages c file) := by
  by_cases isFile : code = .fileRequest
  · subst isFile
    simp only [true_implies]
    exact queuesResponse_file_iff size empty (stSize rfl)
  · simp only [isFile, false_implies, iff_true]
    exact queuesResponse_of_ne_file answered isFile size empty

def helloRequest : Conn :=
  { Conn.zeroed with
    fileStat := ⟨0o100644, 5⟩
    fileAddress := .mapping 3 }

theorem processWrite_queues_hello :
    QueuesResponse (fun _ => ascii "hello") helloRequest .fileRequest
      (ascii "hello") :=
  (processWrite_queuesResponse_iff (fun _ => ascii "hello") helloRequest
    .fileRequest (ascii "hello")
    (Or.inr (Or.inr (Or.inr (Or.inr rfl))))
    (by simp [helloRequest, Conn.zeroed]) rfl
    (fun _ => by decide)).mpr
    (fun _ => ⟨by decide, by decide, 3, rfl, by decide⟩)

/-- A request for an empty file gets no response. -/
theorem processWrite_drops_empty_file :
    Answered .fileRequest ∧
      Conn.zeroed.writeBuf.length = writeBufferSize ∧
      Conn.zeroed.writeIdx = 0 ∧
      Conn.zeroed.fileStat.stSize = ([] : List UInt8).length ∧
      ¬ QueuesResponse (fun _ => []) Conn.zeroed .fileRequest [] := by
  have size : Conn.zeroed.writeBuf.length = writeBufferSize := by
    simp [Conn.zeroed]
  refine
    ⟨Or.inr (Or.inr (Or.inr (Or.inr rfl))), size, rfl, rfl, ?_⟩
  rintro ⟨returns, _⟩
  rw [processWrite_empty_file rfl size rfl] at returns
  cases returns

end LinuxNet.WebServer
