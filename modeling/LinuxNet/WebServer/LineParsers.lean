import LinuxNet.WebServer.LineScan

/-!
# The line parsers on the text of a line

`parse_request_line` and `parse_headers` are called with a pointer to a line
that `parse_line` has just terminated.  The functions named `..On` below take
the text of that line and read nothing from the buffer; each string function
has become an operation on the text.  The equations hold whenever the pointer
does designate the text, and they are the only place where the C string
functions of the two parsers are unfolded.
-/

namespace LinuxNet.WebServer

open LinuxNet.CString LinuxNet.CInt

/-- `"http://"`, as the target parser compares it. -/
def httpPrefix : List UInt8 := ascii "http://"

def blanks (text : List UInt8) : Nat :=
  (text.takeWhile isBlank).length

def HasName (name line : List UInt8) : Prop :=
  SameIgnoringCase (line.take name.length) name

instance (name line : List UInt8) : Decidable (HasName name line) := by
  unfold HasName
  infer_instance

/-- Where the value of a header field starts in its line. -/
def valueOffset (name line : List UInt8) : Nat :=
  name.length + blanks (line.drop name.length)

def headerValue (name line : List UInt8) : List UInt8 :=
  line.drop (valueOffset name line)

def connectionName : List UInt8 := ascii "Connection:"
def contentLengthName : List UInt8 := ascii "Content-Length:"
def hostName : List UInt8 := ascii "Host:"
def keepAlive : List UInt8 := ascii "keep-alive"

def pathOffset (word : List UInt8) : Option Nat :=
  if SameIgnoringCase (word.take 7) httpPrefix then
    ((word.drop 7).findIdx? (· == 47)).map (7 + ·)
  else
    some 0

namespace Conn

def scanned (c : Conn) (start : Nat) : Conn :=
  c.emit (.scan start true)

def targetOn (c : Conn) (url : Nat) (word : List UInt8) :
    HttpCode × Conn :=
  let c := c.scanned url
  let c :=
    if SameIgnoringCase (word.take 7) httpPrefix then
      c.scanned (url + 7)
    else
      c
  let c := { c with url := (pathOffset word).map (url + ·) }
  match pathOffset word with
  | none => (.badRequest, c)
  | some offset =>
      if word.getD offset 0 ≠ 47 then
        (.badRequest, c)
      else
        (.noRequest, { c with checkState := .header })

def versionOn (c : Conn) (url : Nat) (tail : List UInt8) :
    HttpCode × Conn :=
  let c := c.scanned url
  match tail.findIdx? isBlank with
  | none => (.badRequest, { c with version := none })
  | some blank =>
      let c := c.store ((url + blank : Nat) : Int) 0
      let c := c.scanned (url + blank + 1)
      let offset := blank + 1 + blanks (tail.drop (blank + 1))
      let c := { c with version := some (url + offset) }
      let c := c.scanned (url + offset)
      if SameIgnoringCase (tail.drop offset) (ascii "HTTP/1.1") then
        c.targetOn url (tail.take blank)
      else
        (.badRequest, c)

def requestLineOn (c : Conn) (text : Nat) (line : List UInt8) :
    HttpCode × Conn :=
  let c := c.scanned text
  match line.findIdx? isBlank with
  | none => (.badRequest, { c with url := none })
  | some blank =>
      let c := c.store ((text + blank : Nat) : Int) 0
      let c := c.scanned (text + blank + 1)
      let offset := blank + 1 + blanks (line.drop (blank + 1))
      let c := { c with url := some (text + offset) }
      let c := c.scanned text
      if SameIgnoringCase (line.take blank) (ascii "GET") then
        { c with method := .get }.versionOn (text + offset)
          (line.drop offset)
      else
        (.badRequest, c)

def headersOn (c : Conn) (text : Nat) (line : List UInt8) :
    HttpCode × Conn :=
  if line = [] then
    if c.contentLength ≠ 0 then
      (.noRequest, { c with checkState := .content })
    else
      (.getRequest, c)
  else
    let c := c.scanned text
    if HasName connectionName line then
      let c := c.scanned (text + connectionName.length)
      let c := c.scanned (text + valueOffset connectionName line)
      if SameIgnoringCase (headerValue connectionName line) keepAlive then
        (.noRequest, { c with linger := true })
      else
        (.noRequest, c)
    else if HasName contentLengthName line then
      let c := c.scanned (text + contentLengthName.length)
      let c := c.scanned (text + valueOffset contentLengthName line)
      (.noRequest,
        { c with
          contentLength :=
            toInt (atol (headerValue contentLengthName line)) })
    else if HasName hostName line then
      let c := c.scanned (text + hostName.length)
      (.noRequest,
        { c with host := some (text + valueOffset hostName line) })
    else
      (.noRequest, c.scanned text)

theorem scan_eq
    {c : Conn} {start : Nat} (terminated : Terminated c.readBuf start) :
    c.scan start = c.scanned start := by
  unfold scan scanned
  rw [decide_eq_true terminated]

@[simp]
theorem scanned_readBuf (c : Conn) (start : Nat) :
    (c.scanned start).readBuf = c.readBuf := by
  simp only [scanned, emit_readBuf]

@[simp]
theorem store_natCast_readBuf (c : Conn) (index : Nat) (byte : UInt8) :
    (c.store (index : Int) byte).readBuf = c.readBuf.set index byte := by
  simp [store]

theorem length_of_hasName
    {name line : List UInt8} (named : HasName name line) :
    name.length ≤ line.length := by
  have same := congrArg List.length named
  simp only [List.length_map, List.length_take] at same
  omega

theorem blanks_le (text : List UInt8) : blanks text ≤ text.length :=
  (List.takeWhile_sublist _).length_le

theorem valueOffset_le
    {name line : List UInt8} (named : HasName name line) :
    valueOffset name line ≤ line.length := by
  have bound := length_of_hasName named
  have skipped := blanks_le (line.drop name.length)
  simp only [List.length_drop] at skipped
  unfold valueOffset
  omega

theorem strpbrk_eq
    {memory text : List UInt8} {start : Nat}
    (string : StringAt memory start text) (accept : UInt8 → Bool) :
    strpbrk memory start accept =
      (text.findIdx? accept).map (start + ·) := by
  rw [strpbrk, string.cstr_eq]

theorem strspn_isBlank_eq
    {memory text : List UInt8} {start : Nat}
    (string : StringAt memory start text) :
    strspn memory start isBlank = blanks text := by
  rw [strspn, string.cstr_eq, blanks]

theorem strncasecmp_eq
    {memory line : List UInt8} {start : Nat}
    (string : StringAt memory start line) (name : List UInt8) :
    strncasecmp memory start name = true ↔ HasName name line := by
  simp [strncasecmp, string.cstr_eq, HasName]

theorem strcasecmp_eq
    {memory line : List UInt8} {start : Nat}
    (string : StringAt memory start line) (text : List UInt8) :
    strcasecmp memory start text = true ↔ SameIgnoringCase line text := by
  simp [strcasecmp, string.cstr_eq]

theorem parseTarget_eq
    {c : Conn} {url : Nat} (word : List UInt8)
    (string : StringAt c.readBuf url word) :
    c.parseTarget url = c.targetOn url word := by
  have named :
      strncasecmp c.readBuf url (ascii "http://") = true ↔
        SameIgnoringCase (word.take 7) httpPrefix :=
    strncasecmp_eq string (ascii "http://")
  unfold parseTarget targetOn pathOffset
  simp only [scan_eq string.terminated, scanned_readBuf]
  by_cases absolute : SameIgnoringCase (word.take 7) httpPrefix
  · have isHttp : HasName httpPrefix word := absolute
    have long : 7 ≤ word.length := length_of_hasName isHttp
    have after := string.suffix 7 long
    simp only [named.mpr absolute, if_true, if_pos absolute, strchr,
      strpbrk_eq after, scan_eq, scanned_readBuf, after.terminated]
    cases slash : (word.drop 7).findIdx? (· == 47) with
    | none =>
        rfl
    | some offset =>
        obtain ⟨inside, isSlash, _⟩ :=
          List.findIdx?_eq_some_iff_getElem.mp slash
        rw [List.length_drop] at inside
        have here := string.getD_eq (7 + offset) (by omega)
        simp only [Option.map_some, Nat.add_assoc, here]
  · have plain :
        strncasecmp c.readBuf url (ascii "http://") = false := by
      rw [← Bool.not_eq_true, named]
      exact absolute
    have here := string.getD_eq 0 (Nat.zero_le _)
    rw [Nat.add_zero] at here
    simp only [plain, if_neg absolute, Option.map_some, Nat.add_zero,
      scanned_readBuf, here, Bool.false_eq_true, if_false]

/-- What is left of a string behind one of its bytes that is overwritten
with a NUL, and the blanks after it skipped. -/
theorem stringAt_behind_blank
    {memory text : List UInt8} {start blank : Nat}
    (string : StringAt memory start text) (inside : blank < text.length) :
    StringAt (memory.set (start + blank) 0) (start + blank + 1)
        (text.drop (blank + 1)) ∧
      StringAt (memory.set (start + blank) 0)
        (start + (blank + 1 + blanks (text.drop (blank + 1))))
        (text.drop (blank + 1 + blanks (text.drop (blank + 1)))) := by
  have behind : StringAt (memory.set (start + blank) 0)
      (start + blank + 1) (text.drop (blank + 1)) :=
    (string.suffix (blank + 1) (by omega)).set_of_lt (by omega)
  have skipped := behind.suffix _ (blanks_le (text.drop (blank + 1)))
  rw [List.drop_drop] at skipped
  exact ⟨behind, by simpa only [Nat.add_assoc] using skipped⟩

theorem parseVersion_eq
    {c : Conn} {url : Nat} (tail : List UInt8)
    (string : StringAt c.readBuf url tail) :
    c.parseVersion url = c.versionOn url tail := by
  unfold parseVersion versionOn
  simp only [scan_eq string.terminated, scanned_readBuf,
    strpbrk_eq string]
  cases found : tail.findIdx? isBlank with
  | none =>
      rfl
  | some blank =>
      obtain ⟨inside, _, _⟩ := List.findIdx?_eq_some_iff_getElem.mp found
      obtain ⟨behind, skipped⟩ := stringAt_behind_blank string inside
      have word := string.set_nul blank (by omega)
      simp only [← Nat.add_assoc] at skipped
      simp only [Option.map_some, scan_eq, scanned_readBuf,
        store_natCast_readBuf, strspn_isBlank_eq behind,
        behind.terminated, ← Nat.add_assoc, skipped.terminated,
        strcasecmp_eq skipped]
      rw [parseTarget_eq (tail.take blank)]
      simpa using word

/-- `parse_request_line` on a line with the given text. -/
theorem parseRequestLine_eq
    {c : Conn} {text : Nat} {line : List UInt8}
    (string : StringAt c.readBuf text line) :
    c.parseRequestLine text = c.requestLineOn text line := by
  unfold parseRequestLine requestLineOn
  simp only [scan_eq string.terminated, scanned_readBuf,
    strpbrk_eq string]
  cases found : line.findIdx? isBlank with
  | none =>
      rfl
  | some blank =>
      obtain ⟨inside, _, _⟩ := List.findIdx?_eq_some_iff_getElem.mp found
      obtain ⟨behind, skipped⟩ := stringAt_behind_blank string inside
      have method := string.set_nul blank (by omega)
      simp only [← Nat.add_assoc] at skipped
      simp only [Option.map_some, scan_eq, scanned_readBuf,
        store_natCast_readBuf, strspn_isBlank_eq behind,
        behind.terminated, ← Nat.add_assoc, method.terminated,
        strcasecmp_eq method]
      rw [parseVersion_eq (line.drop
        (blank + 1 + blanks (line.drop (blank + 1))))]
      simpa using skipped

/-- `parse_headers` on a line with the given text. -/
theorem parseHeaders_eq
    {c : Conn} {text : Nat} {line : List UInt8}
    (string : StringAt c.readBuf text line) :
    c.parseHeaders text = c.headersOn text line := by
  have first := string.getD_eq 0 (Nat.zero_le _)
  rw [Nat.add_zero] at first
  have startsWithNul : line.getD 0 0 = 0 ↔ line = [] := by
    cases line with
    | nil =>
        simp
    | cons byte rest =>
        have kept := string.nul_free
        simp only [List.mem_cons, not_or] at kept
        simpa [eq_comm] using kept.1
  have atValue :
      ∀ name : List UInt8, HasName name line →
        StringAt c.readBuf (text + name.length)
            (line.drop name.length) ∧
          StringAt c.readBuf (text + valueOffset name line)
            (headerValue name line) := by
    intro name named
    exact
      ⟨string.suffix _ (length_of_hasName named),
        string.suffix _ (valueOffset_le named)⟩
  have isConnection :
      strncasecmp c.readBuf text (ascii "Connection:") = true ↔
        HasName connectionName line :=
    strncasecmp_eq string connectionName
  have isContentLength :
      strncasecmp c.readBuf text (ascii "Content-Length:") = true ↔
        HasName contentLengthName line :=
    strncasecmp_eq string contentLengthName
  have isHost :
      strncasecmp c.readBuf text (ascii "Host:") = true ↔
        HasName hostName line :=
    strncasecmp_eq string hostName
  have connectionLength : connectionName.length = 11 := rfl
  have contentLengthLength : contentLengthName.length = 15 := rfl
  have hostLength : hostName.length = 5 := rfl
  unfold parseHeaders headersOn
  simp only [first, startsWithNul, scan_eq string.terminated,
    scanned_readBuf, isConnection, isContentLength, isHost]
  by_cases blank : line = []
  · rw [if_pos blank, if_pos blank]
  rw [if_neg blank, if_neg blank]
  by_cases named : HasName connectionName line
  · obtain ⟨behind, value⟩ := atValue connectionName named
    unfold valueOffset at value ⊢
    rw [← Nat.add_assoc] at value ⊢
    rw [connectionLength] at behind value ⊢
    simp only [if_pos named, scan_eq, scanned_readBuf,
      strspn_isBlank_eq behind, behind.terminated, value.terminated,
      strcasecmp_eq value]
    rfl
  rw [if_neg named, if_neg named]
  by_cases named : HasName contentLengthName line
  · obtain ⟨behind, value⟩ := atValue contentLengthName named
    unfold valueOffset at value ⊢
    rw [← Nat.add_assoc] at value ⊢
    rw [contentLengthLength] at behind value ⊢
    simp only [if_pos named, scan_eq, scanned_readBuf,
      strspn_isBlank_eq behind, behind.terminated, value.terminated,
      value.cstr_eq]
  rw [if_neg named, if_neg named]
  by_cases named : HasName hostName line
  · obtain ⟨behind, value⟩ := atValue hostName named
    unfold valueOffset
    rw [← Nat.add_assoc]
    rw [hostLength] at behind ⊢
    simp only [if_pos named, scan_eq, scanned_readBuf,
      strspn_isBlank_eq behind, behind.terminated]
  · rw [if_neg named, if_neg named,
      scan_eq (c := c.scanned text) string.terminated]

end Conn

end LinuxNet.WebServer
