import LinuxNet.Lib.Decimal
import LinuxNet.WebServer.Reader

/-!
# Building and sending a response

`add_response` and its callers, `process_write`, the `writev` loop of `write`
and the entry function `process`.  The results of `writev` are an argument,
in the order of the calls; the contents of mapped files are given by the
address of the mapping.
-/

namespace LinuxNet.WebServer

open LinuxNet.CString LinuxNet.CInt LinuxNet.Decimal

def ok200Title : List UInt8 := ascii "OK"
def error400Title : List UInt8 := ascii "Bad Request"
def error400Form : List UInt8 :=
  ascii "Your request has bad syntax or is inherently impossible to satisfy.\n"
def error403Title : List UInt8 := ascii "Forbidden"
def error403Form : List UInt8 :=
  ascii "You do not have permission to get file from this server.\n"
def error404Title : List UInt8 := ascii "Not Found"
def error404Form : List UInt8 :=
  ascii "The requested file was not found on this server.\n"
def error500Title : List UInt8 := ascii "Internal Error"
def error500Form : List UInt8 :=
  ascii "There was an unusual problem serving the requested file.\n"

def okString : List UInt8 := ascii "<html><body></body></html>"

/-- One result of `writev`: the number of bytes accepted, or a failure.  The
kernel transfers at most `0x7ffff000` bytes in one call, so that the number
and the two counters of `write` are `int`s. -/
inductive WritevOutcome where
  | accepted (count : Nat)
  | eagain
  | error
  deriving DecidableEq, Repr

/-- A call of `write`: its result, or `none` while the loop waits for the
next result of `writev`; the object; the results of `writev` not used. -/
structure WriteCall where
  ret : Option Bool
  conn : Conn
  unused : List WritevOutcome

namespace Conn

/-- `unmap()`. -/
def unmap (c : Conn) : Conn :=
  if c.fileAddress ≠ .null then
    let c := c.emit (.munmap c.fileAddress c.fileStat.stSize)
    { c with fileAddress := .null }
  else
    c

/-- `modfd(m_epollfd, m_sockfd, ..)`. -/
def modfd (c : Conn) (interest : Interest) : Conn :=
  c.emit (.epollMod c.sockfd interest)

/-- The bytes an `iovec` designates. -/
def iovecBytes
    (pages : Nat → List UInt8) (c : Conn) (iovec : Iovec) :
    List UInt8 :=
  match iovec.base with
  | .writeBuf => c.writeBuf.take iovec.len
  | .file (.mapping address) => (pages address).take iovec.len
  | .file _ => []

/-- The bytes that `writev(m_sockfd, m_iv, m_iv_count)` offers. -/
def offered (pages : Nat → List UInt8) (c : Conn) : List UInt8 :=
  if c.ivCount = 2 then
    c.iovecBytes pages c.iv0 ++ c.iovecBytes pages c.iv1
  else if c.ivCount = 1 then
    c.iovecBytes pages c.iv0
  else
    []

/-- The `while` loop of `write`. -/
def writeLoop (pages : Nat → List UInt8) :
    List WritevOutcome → Conn → Int → Int → WriteCall
  | [], c, _, _ => ⟨none, c, []⟩
  | .eagain :: rest, c, _, _ => ⟨some true, c.modfd .epollOut, rest⟩
  | .error :: rest, c, _, _ => ⟨some false, c.unmap, rest⟩
  | .accepted temp :: rest, c, bytesToSend, bytesHaveSend =>
      let c := c.emit (.sent ((c.offered pages).take temp))
      let bytesToSend := bytesToSend - temp
      let bytesHaveSend := bytesHaveSend + temp
      if bytesToSend ≤ bytesHaveSend then
        let c := (c.emit .responseSent).unmap
        if c.linger then
          ⟨some true, c.init.modfd .epollIn, rest⟩
        else
          ⟨some false, c.modfd .epollIn, rest⟩
      else
        writeLoop pages rest c bytesToSend bytesHaveSend

/-- `write()`. -/
def write (pages : Nat → List UInt8) (c : Conn)
    (outcomes : List WritevOutcome) : WriteCall :=
  if c.writeIdx = 0 then
    ⟨some true, (c.modfd .epollIn).init, outcomes⟩
  else
    writeLoop pages outcomes c c.writeIdx 0

/-- `m_write_buf` after `vsnprintf` at `m_write_idx`: at most `size - 1`
bytes and a NUL, and nothing when the size is 0. -/
def printed (c : Conn) (size : Nat) (formatted : List UInt8) : List UInt8 :=
  if size = 0 then
    c.writeBuf
  else
    let text := formatted.take (size - 1) ++ [0]
    c.writeBuf.take c.writeIdx ++ text ++
      c.writeBuf.drop (c.writeIdx + text.length)

/-- `add_response`, on the text that the format and its arguments yield. -/
def addResponse (c : Conn) (formatted : List UInt8) : Bool × Conn :=
  if writeBufferSize ≤ c.writeIdx then
    (false, c)
  else
    let size := writeBufferSize - 1 - c.writeIdx
    let c := c.emit (.vsnprintf size)
    let c := { c with writeBuf := c.printed size formatted }
    if size ≤ formatted.length then
      (false, c)
    else
      (true, { c with writeIdx := c.writeIdx + formatted.length })

def addStatusLine (c : Conn) (status : Int) (title : List UInt8) :
    Bool × Conn :=
  c.addResponse
    (ascii "HTTP/1.1" ++ [32] ++ decimal status ++ [32] ++ title ++ crlf)

def addContentLength (c : Conn) (contentLength : Int) : Bool × Conn :=
  c.addResponse (ascii "Content-Length: " ++ decimal contentLength ++ crlf)

def addLinger (c : Conn) : Bool × Conn :=
  c.addResponse
    (ascii "Connection: " ++
      (if c.linger then ascii "keep-alive" else ascii "close") ++ crlf)

def addBlankLine (c : Conn) : Bool × Conn :=
  c.addResponse crlf

/-- `add_headers`; its argument is an `int`. -/
def addHeaders (c : Conn) (contentLength : Int) : Bool × Conn :=
  let (first, c) := c.addContentLength (toInt contentLength)
  let (second, c) := c.addLinger
  let (third, c) := c.addBlankLine
  (first && second && third, c)

def addContent (c : Conn) (content : List UInt8) : Bool × Conn :=
  c.addResponse content

/-- `m_iv[0]` alone, over `m_write_buf`. -/
def queueBuffer (c : Conn) : Conn :=
  { c with iv0 := ⟨.writeBuf, c.writeIdx⟩, ivCount := 1 }

/-- `m_iv[0]` over `m_write_buf` and `m_iv[1]` over the mapped file. -/
def queueFile (c : Conn) : Conn :=
  { c with
    iv0 := ⟨.writeBuf, c.writeIdx⟩
    iv1 := ⟨.file c.fileAddress, c.fileStat.stSize.toNat⟩
    ivCount := 2 }

/-- The four error branches of `process_write`. -/
def writeError
    (c : Conn) (status : Int) (title form : List UInt8) : Bool × Conn :=
  let (_, c) := c.addStatusLine status title
  let (_, c) := c.addHeaders form.length
  match c.addContent form with
  | (false, c) => (false, c)
  | (true, c) => (true, c.queueBuffer)

def processWrite (c : Conn) (ret : HttpCode) : Bool × Conn :=
  match ret with
  | .internalError => c.writeError 500 error500Title error500Form
  | .badRequest => c.writeError 400 error400Title error400Form
  | .noResource => c.writeError 404 error404Title error404Form
  | .forbiddenRequest => c.writeError 403 error403Title error403Form
  | .fileRequest =>
      let (_, c) := c.addStatusLine 200 ok200Title
      if c.fileStat.stSize ≠ 0 then
        let (_, c) := c.addHeaders c.fileStat.stSize
        (true, c.queueFile)
      else
        let (_, c) := c.addHeaders okString.length
        -- the case has no `break`: it runs on into `default`
        match c.addContent okString with
        | (_, c) => (false, c)
  | _ => (false, c)

/-- `process()`, as a worker thread calls it. -/
def process (fs : FileSystem) (c : Conn) : Conn :=
  match c.processRead fs with
  | (.noRequest, c) => c.modfd .epollIn
  | (readRet, c) =>
      match c.processWrite readRet with
      | (true, c) => c.modfd .epollOut
      | (false, c) => c.closeConn.modfd .epollOut

end Conn

end LinuxNet.WebServer
