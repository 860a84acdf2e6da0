import LinuxNet.WebServer.Conn

/-!
# Reading and parsing a request

`read`, the line scanner `parse_line`, the three line parsers, `do_request`
and the loop of `process_read`.  The results of the system calls are
arguments: the byte blocks that `recv` delivers, and a `FileSystem` for
`stat` and for `open` followed by `mmap`.
-/

namespace LinuxNet.WebServer

open LinuxNet.CString LinuxNet.CInt

/-- `doc_root`. -/
def docRoot : List UInt8 := ascii "./var/www/html"

/-- The answers of `stat`, and of `open` and `mmap` on a path and a length;
`none` is a failing `stat`, and `MAP_FAILED`. -/
structure FileSystem where
  stat : List UInt8 → Option FileStat
  mmap : List UInt8 → Int → Option Nat

/-- How the `recv` loop of `read` ends. -/
inductive RecvEnd where
  | eagain
  | error
  | closed
  deriving DecidableEq, Repr

/-- The set `" \t"`. -/
def isBlank (byte : UInt8) : Bool :=
  byte == 32 || byte == 9

namespace Conn

/-- `m_read_buf + m_read_idx` receives a block of bytes. -/
def receive (c : Conn) (block : List UInt8) : Conn :=
  { c with
    readBuf :=
      c.readBuf.take c.readIdx ++ block ++
        c.readBuf.drop (c.readIdx + block.length)
    readIdx := c.readIdx + block.length }

/-- `read()`: one `recv` for each block, and a last one that ends the loop. -/
def read (c : Conn) (blocks : List (List UInt8)) (last : RecvEnd) :
    Bool × Conn :=
  if readBufferSize ≤ c.readIdx then
    (false, c)
  else
    (decide (last = .eagain), blocks.foldl receive c)

/-- The loop of `parse_line`, by the number of bytes left to look at. -/
def parseLineFrom : Nat → Conn → LineStatus × Conn
  | 0, c => (.lineOpen, c)
  | remaining + 1, c =>
      let temp := c.readBuf.getD c.checkedIdx 0
      if temp = 13 then
        if c.checkedIdx + 1 = c.readIdx then
          (.lineOpen, c)
        else if c.readBuf.getD (c.checkedIdx + 1) 0 = 10 then
          let c := c.store c.checkedIdx 0
          let c := { c with checkedIdx := c.checkedIdx + 1 }
          let c := c.store c.checkedIdx 0
          (.lineOk, { c with checkedIdx := c.checkedIdx + 1 })
        else
          (.lineBad, c)
      else if temp = 10 then
        if 1 < c.checkedIdx ∧ c.readBuf.getD (c.checkedIdx - 1) 0 = 13 then
          let c := c.store (c.checkedIdx - 1 : Nat) 0
          let c := c.store c.checkedIdx 0
          (.lineOk, { c with checkedIdx := c.checkedIdx + 1 })
        else
          (.lineBad, c)
      else
        parseLineFrom remaining { c with checkedIdx := c.checkedIdx + 1 }

def parseLine (c : Conn) : LineStatus × Conn :=
  parseLineFrom (c.readIdx - c.checkedIdx) c

/-- The last third of `parse_request_line`: strip an absolute URI down to its
path and require the path to start with `/`. -/
def parseTarget (c : Conn) (url : Nat) : HttpCode × Conn :=
  let c := c.scan url
  let path :=
    if strncasecmp c.readBuf url (ascii "http://") then
      strchr c.readBuf (url + 7) 47
    else
      some url
  let c :=
    if strncasecmp c.readBuf url (ascii "http://") then
      c.scan (url + 7)
    else
      c
  let c := { c with url := path }
  match path with
  | none => (.badRequest, c)
  | some path =>
      if c.readBuf.getD path 0 ≠ 47 then
        (.badRequest, c)
      else
        (.noRequest, { c with checkState := .header })

/-- The middle of `parse_request_line`: the version after the URL. -/
def parseVersion (c : Conn) (url : Nat) : HttpCode × Conn :=
  let c := c.scan url
  match strpbrk c.readBuf url isBlank with
  | none => (.badRequest, { c with version := none })
  | some blank =>
      let c := c.store blank 0
      let c := c.scan (blank + 1)
      let version := blank + 1 + strspn c.readBuf (blank + 1) isBlank
      let c := { c with version := some version }
      let c := c.scan version
      if strcasecmp c.readBuf version (ascii "HTTP/1.1") then
        parseTarget c url
      else
        (.badRequest, c)

def parseRequestLine (c : Conn) (text : Nat) : HttpCode × Conn :=
  let c := c.scan text
  match strpbrk c.readBuf text isBlank with
  | none => (.badRequest, { c with url := none })
  | some blank =>
      let c := c.store blank 0
      let c := c.scan (blank + 1)
      let url := blank + 1 + strspn c.readBuf (blank + 1) isBlank
      let c := { c with url := some url }
      let c := c.scan text
      if strcasecmp c.readBuf text (ascii "GET") then
        parseVersion { c with method := .get } url
      else
        (.badRequest, c)

def parseHeaders (c : Conn) (text : Nat) : HttpCode × Conn :=
  if c.readBuf.getD text 0 = 0 then
    if c.contentLength ≠ 0 then
      (.noRequest, { c with checkState := .content })
    else
      (.getRequest, c)
  else
    let c := c.scan text
    if strncasecmp c.readBuf text (ascii "Connection:") then
      let c := c.scan (text + 11)
      let value := text + 11 + strspn c.readBuf (text + 11) isBlank
      let c := c.scan value
      if strcasecmp c.readBuf value (ascii "keep-alive") then
        (.noRequest, { c with linger := true })
      else
        (.noRequest, c)
    else if strncasecmp c.readBuf text (ascii "Content-Length:") then
      let c := c.scan (text + 15)
      let value := text + 15 + strspn c.readBuf (text + 15) isBlank
      let c := c.scan value
      (.noRequest,
        { c with contentLength := toInt (atol (cstr c.readBuf value)) })
    else if strncasecmp c.readBuf text (ascii "Host:") then
      let c := c.scan (text + 5)
      let value := text + 5 + strspn c.readBuf (text + 5) isBlank
      (.noRequest, { c with host := some value })
    else
      -- printf("oop! unkown header %s\n", text)
      (.noRequest, c.scan text)

def parseContent (c : Conn) (text : Nat) : HttpCode × Conn :=
  let c := c.emit (.sum (c.contentLength + c.checkedIdx))
  if toInt (c.contentLength + c.checkedIdx) ≤ c.readIdx then
    (.getRequest, c.store (text + c.contentLength) 0)
  else
    (.noRequest, c)

/-- The C string that `m_url` points to. -/
def urlText (c : Conn) : List UInt8 :=
  match c.url with
  | none => []
  | some url => cstr c.readBuf url

/-- The C string that `m_host` points to, when it is set. -/
def hostText (c : Conn) : Option (List UInt8) :=
  c.host.map (cstr c.readBuf)

/-- `m_real_file` after `strcpy` of the root and `strncpy` of the URL, which
pads with NULs and leaves the last byte alone. -/
def realFileFor (c : Conn) : List UInt8 :=
  let room := filenameLen - docRoot.length - 1
  let copied := c.urlText.take room
  docRoot ++ copied ++ List.replicate (room - copied.length) 0 ++
    c.realFile.drop (docRoot.length + room)

def doRequest (fs : FileSystem) (c : Conn) : HttpCode × Conn :=
  let c := { c with realFile := c.realFileFor }
  match fs.stat (cstr c.realFile 0) with
  | none => (.noResource, c)
  | some fileStat =>
      let c := { c with fileStat := fileStat }
      -- S_IROTH, S_IFMT and S_IFDIR
      if fileStat.stMode &&& 0o4 = 0 then
        (.forbiddenRequest, c)
      else if fileStat.stMode &&& 0o170000 = 0o40000 then
        (.badRequest, c)
      else
        match fs.mmap (cstr c.realFile 0) fileStat.stSize with
        | none => (.fileRequest, { c with fileAddress := .mapFailed })
        | some address =>
            let c := c.emit (.mmap address fileStat.stSize)
            (.fileRequest, { c with fileAddress := .mapping address })

/-- What one turn of the `process_read` loop leads to: another turn with the
given `line_status`, or the return of a code. -/
inductive Turn where
  | again (lineStatus : LineStatus) (c : Conn)
  | done (code : HttpCode) (c : Conn)

/-- The loop condition of `process_read`: a line is at hand in the content
state after a complete line, else `parse_line` looks for one. -/
def fetchLine (lineStatus : LineStatus) (c : Conn) : LineStatus × Conn :=
  if c.checkState = .content ∧ lineStatus = .lineOk then
    (.lineOk, c)
  else
    c.parseLine

/-- The loop body of `process_read`. -/
def dispatchLine (fs : FileSystem) (c : Conn) : Turn :=
  let text := c.startLine
  let c := { c with startLine := c.checkedIdx }
  -- printf("got 1 http line: %s\n", text)
  let c := c.scan text
  match c.checkState with
  | .requestLine =>
      match c.parseRequestLine text with
      | (.badRequest, c) => .done .badRequest c
      | (_, c) => .again .lineOk c
  | .header =>
      match c.parseHeaders text with
      | (.badRequest, c) => .done .badRequest c
      | (.getRequest, c) => .done (c.doRequest fs).1 (c.doRequest fs).2
      | (_, c) => .again .lineOk c
  | .content =>
      match c.parseContent text with
      | (.getRequest, c) => .done (c.doRequest fs).1 (c.doRequest fs).2
      | (_, c) => .again .lineOpen c

/-- One turn of the `process_read` loop. -/
def turn (fs : FileSystem) (lineStatus : LineStatus) (c : Conn) : Turn :=
  match c.fetchLine lineStatus with
  | (.lineOk, c) => c.dispatchLine fs
  | (_, c) => .done .noRequest c

/-- The `process_read` loop, by a bound on the number of turns. -/
def processReadLoop (fs : FileSystem) :
    Nat → LineStatus → Conn → HttpCode × Conn
  | 0, _, c => (.noRequest, c)
  | fuel + 1, lineStatus, c =>
      match c.turn fs lineStatus with
      | .again lineStatus c => processReadLoop fs fuel lineStatus c
      | .done code c => (code, c)

/-- Every turn but the first in the content state takes a line, so there are
at most this many turns. -/
def turnBound (c : Conn) : Nat :=
  c.readIdx - c.checkedIdx + 2

def processRead (fs : FileSystem) (c : Conn) : HttpCode × Conn :=
  processReadLoop fs c.turnBound .lineOk c

end Conn

end LinuxNet.WebServer
