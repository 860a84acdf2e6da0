import LinuxNet.Lib.HttpMessage
import LinuxNet.HttpServer.FileLoop

/-!
# The answers of the epoll server

`http_request` sends a head and a body, each of them in several calls of
`send` on a non-blocking socket.  Only the head for a regular file gives a
length; behind the others the body goes on up to the end of the connection.
Whatever the name, the client reads the answer back as it was meant exactly
where all of it has been taken and the length is the one of the file.
-/

namespace LinuxNet.HttpServer

open LinuxNet.CString LinuxNet.Decimal LinuxNet.HttpMessage
open LinuxNet.WebServer

/-- `get_file_type`, with the table of the libevent server. -/
def getFileType (filename : List UInt8) : List UInt8 :=
  Libevent.getFileType filename

/-- `send_responsd_head`: what its three calls of `send` offer. -/
def sendResponsdHead
    (no : Int) (description type : List UInt8) (len : Int) :
    List (List UInt8) :=
  [ascii "http/1.1 " ++ decimal no ++ ascii " " ++ description ++ crlf,
    ascii "Content-Type:" ++ type ++ crlf ++ ascii "Content-Length:" ++
      decimal len ++ crlf,
    crlf]

/-- `send_error`: what its three calls of `send` offer. -/
def sendError (status : Int) (title text : List UInt8) :
    List (List UInt8) :=
  [ascii "HTTP/1.1 " ++ decimal status ++ ascii " " ++ title ++ crlf ++
      ascii "Content-Type:text/html" ++ crlf ++ ascii "Content-Length:" ++
      decimal (-1) ++ crlf ++ ascii "Connection: close" ++ crlf,
    crlf,
    ascii "<html><head><title>" ++ decimal status ++ ascii " " ++ title ++
      ascii "</title></head>\n" ++
      ascii "<body bgcolor=\"#cc99cc\"><h2 align=\"center\">" ++
      decimal status ++ ascii " " ++ title ++ ascii "</h4>\n" ++ text ++
      ascii "\n" ++ ascii "<hr>\n</body>\n</html>\n"]

/-- What the server finds under a name, with what the calls of `send` for the
body do.  A regular file is one that can be opened and read. -/
inductive Found where
  | nothing
  | directory (turns : List (DirEntry × SendOutcome)) (last : SendOutcome)
  | regular (stSize : Nat) (content : List UInt8)
      (turns : List (Nat × SendOutcome))
  | other

/-- What the socket takes of the buffers, the outcomes being counted from a
number on. -/
def takenFrom (outcomes : Nat → SendOutcome) :
    Nat → List (List UInt8) → List UInt8
  | _, [] => []
  | number, buf :: bufs =>
      (outcomes number).accepted buf ++ takenFrom outcomes (number + 1) bufs

def AllTaken (outcomes : Nat → SendOutcome) : Nat → List (List UInt8) → Prop
  | _, [] => True
  | number, buf :: bufs =>
      (outcomes number).TakesAll buf.length ∧
        AllTaken outcomes (number + 1) bufs

/-- `http_request` from `stat` on: the buffers behind which no body comes, or
the head. -/
def headBuffers (filename : List UInt8) : Found → List (List UInt8)
  | .nothing =>
      sendError 404 (ascii "Not Found") (ascii "No such file or direntry")
  | .directory _ _ =>
      sendResponsdHead 200 (ascii "OK") (getFileType (ascii ".html")) (-1)
  | .regular stSize _ _ =>
      sendResponsdHead 200 (ascii "OK") (getFileType filename) stSize
  | .other => []

/-- `send_dir` or `send_file`. -/
def sendBody (filename : List UInt8) : Found → Option (List UInt8)
  | .nothing | .other => some []
  | .directory turns last => sendDir filename turns last
  | .regular _ content turns => sendFile content turns

def answerBytes
    (outcomes : Nat → SendOutcome) (filename : List UInt8) (found : Found) :
    Option (List UInt8) :=
  (sendBody filename found).map fun body =>
    takenFrom outcomes 0 (headBuffers filename found) ++ body

def missingPage : List UInt8 :=
  ascii "<html><head><title>404 Not Found</title></head>\n" ++
    ascii "<body bgcolor=\"#cc99cc\"><h2 align=\"center\">404 Not Found</h4>\n" ++
    ascii "No such file or direntry\n" ++ ascii "<hr>\n</body>\n</html>\n"

def typeField (type : List UInt8) : List UInt8 :=
  ascii "Content-Type:" ++ type

def lengthField (len : Int) : List UInt8 :=
  ascii "Content-Length:" ++ decimal len

/-- The answer that is due for what is found.  There is none for what is
neither a directory nor a regular file. -/
def answerFor (filename : List UInt8) : Found → Option Message
  | .nothing =>
      some
        ⟨ascii "HTTP/1.1 404 Not Found",
          [typeField (ascii "text/html"), lengthField (-1),
            ascii "Connection: close"],
          missingPage⟩
  | .directory turns _ =>
      some
        ⟨ascii "http/1.1 200 OK",
          [typeField (ascii "text/html; charset=utf-8"), lengthField (-1)],
          dirPage filename (turns.map Prod.fst)⟩
  | .regular stSize content _ =>
      some
        ⟨ascii "http/1.1 200 OK",
          [typeField (getFileType filename), lengthField stSize], content⟩
  | .other => none

/-- The body is taken whole, and the length is the one that `stat` gave. -/
def BodyArrives (filename : List UInt8) : Found → Prop
  | .nothing | .other => True
  | .directory turns last => PageArrives filename turns last
  | .regular stSize content turns =>
      (∀ turn ∈ turns, turn.2.TakesAll turn.1) ∧ stSize = content.length

theorem feed_notMem_getFileType (filename : List UInt8) :
    10 ∉ getFileType filename := by
  have inTable :
      ∀ entry ∈ Libevent.fileTypes, (10 : UInt8) ∉ entry.2 := by
    decide +kernel
  have plain : (10 : UInt8) ∉ ascii "text/plain; charset=utf-8" := by
    decide +kernel
  unfold getFileType Libevent.getFileType
  cases found :
      (Libevent.lastDot filename).bind fun dot =>
        List.lookup dot Libevent.fileTypes with
  | none => exact plain
  | some type =>
      obtain ⟨dot, _, isType⟩ := Option.bind_eq_some_iff.mp found
      obtain ⟨before, after, inside, _⟩ :=
        List.lookup_eq_some_iff.mp isType
      exact inTable (dot, type) (by rw [inside]; simp)

variable {filename sent : List UInt8} {found : Found} {message : Message}
variable {outcomes : Nat → SendOutcome}

theorem fieldValue_typeField (type : List UInt8) :
    fieldValue lengthName (typeField type) = none :=
  fieldValue_of_start (by decide) (by decide) type

theorem bodyLength_lengthField (len : Int) (later : List (List UInt8)) :
    bodyLength (lengthField len :: later) =
      decimalValue ((decimal len).dropWhile fun byte => byte == 32) :=
  bodyLength_of_first (decimal len) later

theorem isLine_typeField {type : List UInt8} (clean : 10 ∉ type) :
    typeField type ≠ [] ∧ 10 ∉ typeField type := by
  refine ⟨nofun, fun member => ?_⟩
  rcases List.mem_append.mp member with label | inType
  · exact absurd label (by decide)
  · exact clean inType

theorem isLine_lengthField (len : Int) :
    lengthField len ≠ [] ∧ 10 ∉ lengthField len := by
  refine ⟨nofun, fun member => ?_⟩
  rcases List.mem_append.mp member with label | digits
  · exact absurd label (by decide)
  · exact feed_notMem_decimal len digits

theorem wellFormed_answerFor
    (isMessage : answerFor filename found = some message) :
    message.WellFormed := by
  have okLine : (10 : UInt8) ∉ ascii "http/1.1 200 OK" := by decide
  cases found with
  | nothing =>
      cases isMessage
      refine ⟨by decide, fun field member => ?_⟩
      simp only [List.mem_cons, List.not_mem_nil, or_false] at member
      rcases member with rfl | rfl | rfl
      · exact isLine_typeField (by decide)
      · exact isLine_lengthField (-1)
      · exact ⟨nofun, by decide⟩
  | directory turns last =>
      cases isMessage
      refine ⟨okLine, fun field member => ?_⟩
      simp only [List.mem_cons, List.not_mem_nil, or_false] at member
      rcases member with rfl | rfl
      · exact isLine_typeField (by decide)
      · exact isLine_lengthField (-1)
  | regular stSize content turns =>
      cases isMessage
      refine ⟨okLine, fun field member => ?_⟩
      simp only [List.mem_cons, List.not_mem_nil, or_false] at member
      rcases member with rfl | rfl
      · exact isLine_typeField (feed_notMem_getFileType filename)
      · exact isLine_lengthField stSize
  | other => cases isMessage

/-- The length that a head gives. -/
theorem bodyLength_answerFor
    (isMessage : answerFor filename found = some message) :
    bodyLength message.fields =
      match found with
      | .regular stSize _ _ => some stSize
      | .nothing | .directory _ _ | .other => none := by
  cases found with
  | nothing =>
      cases isMessage
      rw [bodyLength_of_other (fieldValue_typeField _),
        bodyLength_lengthField]
      rfl
  | directory turns last =>
      cases isMessage
      rw [bodyLength_of_other (fieldValue_typeField _),
        bodyLength_lengthField]
      rfl
  | regular stSize content turns =>
      cases isMessage
      rw [bodyLength_of_other (fieldValue_typeField _),
        bodyLength_lengthField]
      exact decimalValue_decimal_natCast stSize
  | other => cases isMessage

/-- The body as it should arrive; the page for a missing file is sent with its
head. -/
def wholeBody (filename : List UInt8) : Found → List UInt8
  | .nothing | .other => []
  | .directory turns _ => dirPage filename (turns.map Prod.fst)
  | .regular _ content _ => content

theorem render_okHead (type body : List UInt8) (len : Int) :
    render ⟨ascii "http/1.1 200 OK", [typeField type, lengthField len], body⟩ =
      (sendResponsdHead 200 (ascii "OK") type len).flatten ++ body := by
  have status :
      ascii "http/1.1 " ++ decimal 200 ++ ascii " " ++ ascii "OK" =
        ascii "http/1.1 200 OK" := by decide
  unfold sendResponsdHead
  rw [status]
  simp [render, renderLines, typeField, lengthField, crlf]

theorem render_missing :
    render
        ⟨ascii "HTTP/1.1 404 Not Found",
          [typeField (ascii "text/html"), lengthField (-1),
            ascii "Connection: close"],
          missingPage⟩ =
      (sendError 404 (ascii "Not Found")
        (ascii "No such file or direntry")).flatten := by
  decide +kernel

theorem render_answerFor
    (isMessage : answerFor filename found = some message) :
    render message =
      (headBuffers filename found).flatten ++ wholeBody filename found := by
  cases found with
  | nothing =>
      cases isMessage
      exact render_missing.trans (List.append_nil _).symm
  | directory turns last =>
      cases isMessage
      have type :
          getFileType (ascii ".html") = ascii "text/html; charset=utf-8" := by
        decide +kernel
      unfold headBuffers
      rw [type]
      exact render_okHead _ _ _
  | regular stSize content turns =>
      cases isMessage
      exact render_okHead _ _ _
  | other => cases isMessage

theorem length_takenFrom_le
    (outcomes : Nat → SendOutcome) (number : Nat)
    (bufs : List (List UInt8)) :
    (takenFrom outcomes number bufs).length ≤ bufs.flatten.length := by
  induction bufs generalizing number with
  | nil => exact Nat.le_refl 0
  | cons buf bufs inductionHypothesis =>
      have first := (outcomes number).length_accepted_le buf
      have later := inductionHypothesis (number + 1)
      rw [takenFrom, List.flatten_cons, List.length_append,
        List.length_append]
      omega

theorem takenFrom_eq_flatten_iff
    {bufs : List (List UInt8)} (nonempty : ∀ buf ∈ bufs, buf ≠ [])
    (number : Nat) :
    takenFrom outcomes number bufs = bufs.flatten ↔
      AllTaken outcomes number bufs := by
  induction bufs generalizing number with
  | nil => exact iff_of_true rfl trivial
  | cons buf bufs inductionHypothesis =>
      obtain ⟨here, others⟩ := List.forall_mem_cons.mp nonempty
      rw [takenFrom, List.flatten_cons, AllTaken,
        append_eq_iff_of_length_le
          ((outcomes number).length_accepted_le buf)
          (length_takenFrom_le outcomes (number + 1) bufs),
        (outcomes number).accepted_eq_iff buf here,
        inductionHypothesis others]

theorem headBuffers_ne_nil (filename : List UInt8) (found : Found) :
    ∀ buf ∈ headBuffers filename found, buf ≠ [] := by
  have okHead :
      ∀ (type : List UInt8) (len : Int),
        ∀ buf ∈ sendResponsdHead 200 (ascii "OK") type len, buf ≠ [] := by
    intro type len buf member
    simp only [sendResponsdHead, List.mem_cons, List.not_mem_nil,
      or_false] at member
    rcases member with rfl | rfl | rfl
    · exact nofun
    · exact nofun
    · exact nofun
  cases found with
  | nothing =>
      have missing :
          ∀ buf ∈ sendError 404 (ascii "Not Found")
              (ascii "No such file or direntry"), buf ≠ [] := by
        decide +kernel
      exact missing
  | directory turns last => exact okHead _ _
  | regular stSize content turns => exact okHead _ _
  | other => exact nofun

theorem length_sendDir_le
    {dirname : List UInt8} {turns : List (DirEntry × SendOutcome)}
    {last : SendOutcome} (ran : sendDir dirname turns last = some sent) :
    sent.length ≤ (dirPage dirname (turns.map Prod.fst)).length := by
  obtain ⟨title, isTitle, ran⟩ := Option.bind_eq_some_iff.mp ran
  obtain ⟨_, rfl⟩ := printInto_eq_some_iff.mp isTitle
  obtain ⟨head, isHead, ran⟩ := Option.bind_eq_some_iff.mp ran
  obtain ⟨_, rfl⟩ := printInto_eq_some_iff.mp isHead
  have bound := length_sendRows_le ran
  have shape :
      dirPage dirname (turns.map Prod.fst) =
        [] ++ titleText dirname ++ headingText dirname ++ rowsText turns := by
    simp [dirPage, rowsText]
  rw [shape]
  exact bound

theorem length_sendBody_le
    {body : List UInt8} (ran : sendBody filename found = some body) :
    body.length ≤ (wholeBody filename found).length := by
  cases found with
  | nothing =>
      cases ran
      exact Nat.le_refl 0
  | directory turns last => exact length_sendDir_le ran
  | regular stSize content turns => exact length_sendFile_le ran
  | other =>
      cases ran
      exact Nat.le_refl 0

def LengthRight : Found → Prop
  | .regular stSize content _ => stSize = content.length
  | .nothing | .directory _ _ | .other => True

theorem sendBody_whole_iff
    {body : List UInt8} (ran : sendBody filename found = some body) :
    body = wholeBody filename found ∧ LengthRight found ↔
      BodyArrives filename found := by
  cases found with
  | nothing =>
      cases ran
      exact iff_of_true ⟨rfl, trivial⟩ trivial
  | directory turns last =>
      have page := sendDir_eq_dirPage_iff filename turns last
      rw [show sendDir filename turns last = some body from ran,
        Option.some_inj] at page
      exact (and_iff_left trivial).trans page
  | regular stSize content turns =>
      exact and_congr (sendFile_eq_content_iff ran) Iff.rfl
  | other =>
      cases ran
      exact iff_of_true ⟨rfl, trivial⟩ trivial

/-- The reader stops behind a message exactly where its length is right. -/
theorem takeMessage_answerFor_iff
    (isMessage : answerFor filename found = some message) :
    takeMessage (render message) = some (message, []) ↔
      LengthRight found := by
  have wellFormed := wellFormed_answerFor isMessage
  have length := bodyLength_answerFor isMessage
  cases found with
  | nothing =>
      exact
        iff_of_true (takeMessage_render_to_end wellFormed length) trivial
  | directory turns last =>
      exact
        iff_of_true (takeMessage_render_to_end wellFormed length) trivial
  | regular stSize content turns =>
      cases isMessage
      constructor
      · intro read
        have taken := takeMessage_of_wellFormed wellFormed []
        rw [length] at taken
        simp only [List.append_nil] at taken
        rw [taken] at read
        obtain ⟨atMost, same⟩ := Option.ite_none_right_eq_some.mp read
        have rest := congrArg Prod.snd (Option.some.inj same)
        have notMore := List.drop_eq_nil_iff.mp rest
        exact Nat.le_antisymm atMost notMore
      · intro right
        have delimited :
            Message.Delimited
              ⟨ascii "http/1.1 200 OK",
                [typeField (getFileType filename), lengthField stSize],
                content⟩ :=
          ⟨wellFormed, length.trans (congrArg some right)⟩
        have read := takeMessage_render delimited []
        rw [List.append_nil] at read
        exact read
  | other => cases isMessage

/-- Whatever is asked for, the client reads the answer back as it was meant,
status line, fields and body, if and only if the calls of `send` for the head
take everything, the body arrives, and a file has the length that `stat` gave
for it. -/
theorem answer_read_back_iff
    (isMessage : answerFor filename found = some message)
    (answered : answerBytes outcomes filename found = some sent) :
    takeMessage sent = some (message, []) ↔
      AllTaken outcomes 0 (headBuffers filename found) ∧
        BodyArrives filename found := by
  obtain ⟨body, ran, rfl⟩ := Option.map_eq_some_iff.mp answered
  have shape := render_answerFor isMessage
  have whole :
      takenFrom outcomes 0 (headBuffers filename found) ++ body =
          render message ↔
        AllTaken outcomes 0 (headBuffers filename found) ∧
          body = wholeBody filename found := by
    rw [shape,
      append_eq_iff_of_length_le (length_takenFrom_le outcomes 0 _)
        (length_sendBody_le ran),
      takenFrom_eq_flatten_iff (headBuffers_ne_nil filename found)]
  rw [← sendBody_whole_iff ran, ← and_assoc, ← whole,
    ← takeMessage_answerFor_iff isMessage]
  constructor
  · intro read
    have same := eq_of_takeMessage read
    rw [List.append_nil] at same
    refine ⟨same, ?_⟩
    rw [← same]
    exact read
  · rintro ⟨same, read⟩
    rw [same]
    exact read

/-- A file of two bytes, of which a `send` takes one. -/
theorem answer_read_back_iff_short :
    ∃ sent,
      answerBytes (fun _ => .accepts 4096) (ascii "a.gif")
            (.regular 2 [7, 8] [(2, .accepts 1)]) = some sent ∧
        (takeMessage sent =
            some
              (⟨ascii "http/1.1 200 OK",
                [typeField (getFileType (ascii "a.gif")), lengthField 2],
                [7, 8]⟩, []) ↔
          AllTaken (fun _ => .accepts 4096) 0
              (headBuffers (ascii "a.gif")
                (.regular 2 [7, 8] [(2, .accepts 1)])) ∧
            BodyArrives (ascii "a.gif")
              (.regular 2 [7, 8] [(2, .accepts 1)])) :=
  ⟨_, rfl,
    @answer_read_back_iff (ascii "a.gif") _
      (.regular 2 [7, 8] [(2, .accepts 1)]) _ (fun _ => .accepts 4096) rfl
      rfl⟩

/-! ## The same file from both servers -/

namespace Libevent

open LinuxNet.HttpServer

/-- The head of a file gives its length. -/
theorem delimited_file
    {type : List UInt8} (clean : 10 ∉ type) {size : Nat}
    {body : List UInt8} (right : size = body.length) :
    Message.Delimited
      ⟨ascii "HTTP/1.1 200 OK",
        [typeField type, lengthField size, ascii "Connection: close"],
        body⟩ where
  startLine := by
    have okLine : (10 : UInt8) ∉ ascii "HTTP/1.1 200 OK" := by decide
    exact okLine
  fields := by
    intro field member
    simp only [List.mem_cons, List.not_mem_nil, or_false] at member
    rcases member with rfl | rfl | rfl
    · exact isLine_typeField clean
    · exact isLine_lengthField size
    · exact ⟨nofun, by decide⟩
  length := by
    rw [bodyLength_of_other (fieldValue_typeField type),
      bodyLength_lengthField, ← right]
    exact decimalValue_decimal_natCast size

theorem render_sendHeader (type body : List UInt8) (len : Int) :
    render
        ⟨ascii "HTTP/1.1 200 OK",
          [typeField type, lengthField len, ascii "Connection: close"],
          body⟩ =
      sendHeader 200 (ascii "OK") type len ++ body := by
  have status :
      ascii "HTTP/1.1 " ++ decimal 200 ++ ascii " " ++ ascii "OK" =
        ascii "HTTP/1.1 200 OK" := by decide
  unfold sendHeader
  rw [status]
  simp [render, renderLines, typeField, lengthField, crlf]

/-- What the libevent server sends for a file that it reads to the end. -/
theorem answerName_file
    {site : Site} {pf : List UInt8} {size : Int} {fuel : Nat}
    {calls : List FileCall} (found : site.stat pf = some ⟨false, size⟩)
    (ran : sendFileToHttp fuel (site.openFile pf) = some calls)
    (well : WellSent calls) :
    ∃ answer, answerName site fuel pf = some answer ∧
      answer.bytes =
        render
          ⟨ascii "HTTP/1.1 200 OK",
            [typeField (getFileType pf), lengthField size,
              ascii "Connection: close"],
            calls.flatMap FileCall.readBytes⟩ := by
  refine
    ⟨⟨sendHeader 200 (ascii "OK") (getFileType pf) size, .file calls⟩, ?_,
      ?_⟩
  · unfold answerName
    simp [found, ran]
  · rw [render_sendHeader, ← well.bytes_eq]
    rfl

end Libevent

/-- For a file whose length is the one that `stat` gave, a client that reads
what the epoll server sends and one that reads what the libevent server sends
see the same type, the same length and the same bytes; the answers differ in
the writing of `HTTP` and in the field that closes the connection alone. -/
theorem both_servers_send_the_file
    {site : Libevent.Site} {pf : List UInt8} {size fuel : Nat}
    {calls : List Libevent.FileCall} {turns : List (Nat × SendOutcome)}
    (found : site.stat pf = some ⟨false, size⟩)
    (ran : Libevent.sendFileToHttp fuel (site.openFile pf) = some calls)
    (well : Libevent.WellSent calls)
    (right : size = (calls.flatMap Libevent.FileCall.readBytes).length)
    (answered :
      answerBytes outcomes pf
          (.regular size (calls.flatMap Libevent.FileCall.readBytes) turns) =
        some sent)
    (headTaken :
      AllTaken outcomes 0
        (sendResponsdHead 200 (ascii "OK") (getFileType pf) size))
    (bodyTaken : ∀ turn ∈ turns, turn.2.TakesAll turn.1) :
    ∃ answer fields body,
      Libevent.answerName site fuel pf = some answer ∧
        takeMessage sent =
            some (⟨ascii "http/1.1 200 OK", fields, body⟩, []) ∧
          takeMessage answer.bytes =
            some
              (⟨ascii "HTTP/1.1 200 OK",
                fields ++ [ascii "Connection: close"], body⟩, []) ∧
            body = calls.flatMap Libevent.FileCall.readBytes := by
  obtain ⟨answer, isAnswer, bytes⟩ :=
    Libevent.answerName_file found ran well
  have read :=
    (answer_read_back_iff rfl answered).mpr
      ⟨headTaken, bodyTaken, right⟩
  refine
    ⟨answer, [typeField (getFileType pf), lengthField size], _, isAnswer,
      read, ?_, rfl⟩
  have delimited :=
    Libevent.delimited_file (feed_notMem_getFileType pf) right
  have readThere := takeMessage_render delimited []
  rw [List.append_nil] at readThere
  rw [bytes]
  exact readThere

/-- A `send` for each block of a file of three bytes. -/
def gifSite : Libevent.Site where
  stat := fun _ => some ⟨false, 3⟩
  scandir := fun _ => []
  openFile := fun _ =>
    { fd := 5
      reads := fun turn => if turn = 0 then .bytes [7, 8, 9] else .endOfFile
      counts := by
        intro turn data result
        split at result
        · cases result
          decide
        · cases result
      refused := nofun }

theorem both_servers_send_the_file_gif :
    ∃ answer fields body,
      Libevent.answerName gifSite 2 (ascii "a.gif") = some answer ∧
        takeMessage
              (takenFrom (fun _ => .accepts 4096) 0
                  (sendResponsdHead 200 (ascii "OK")
                    (getFileType (ascii "a.gif")) 3) ++
                [7, 8, 9]) =
            some (⟨ascii "http/1.1 200 OK", fields, body⟩, []) ∧
          takeMessage answer.bytes =
            some
              (⟨ascii "HTTP/1.1 200 OK",
                fields ++ [ascii "Connection: close"], body⟩, []) ∧
            body = [7, 8, 9] := by
  have well :
      Libevent.WellSent
        [.read (.bytes [7, 8, 9]), .write [7, 8, 9] 3, .memset 3,
          .read .endOfFile] :=
    ⟨by decide, rfl⟩
  have taken : ∀ turn ∈ [((3 : Nat), SendOutcome.accepts 4096)],
      turn.2.TakesAll turn.1 := by
    intro turn member
    cases List.mem_singleton.mp member
    show (3 : Nat) ≤ 4096
    decide
  have head :
      AllTaken (fun _ => .accepts 4096) 0
        (sendResponsdHead 200 (ascii "OK") (getFileType (ascii "a.gif"))
          3) := by
    refine ⟨?_, ?_, ?_, trivial⟩
    · show _ ≤ 4096
      decide +kernel
    · show _ ≤ 4096
      decide +kernel
    · show _ ≤ 4096
      decide
  exact
    @both_servers_send_the_file _ (fun _ => .accepts 4096) gifSite
      (ascii "a.gif") 3 2 _ [(3, .accepts 4096)] rfl rfl well rfl rfl
      head taken

end LinuxNet.HttpServer
