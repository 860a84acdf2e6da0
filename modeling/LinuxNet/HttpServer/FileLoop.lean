import LinuxNet.Lib.Buffer
import LinuxNet.Lib.CInt
import LinuxNet.HttpServer.Conversions
import LinuxNet.HttpServer.ListingBounds

/-!
# The file loop of the libevent server

The loop of `send_file_to_http` ends where `read` returns 0.  A −1, from `read`
or from a descriptor that `open` did not give, becomes a length of type
`size_t`, and the loop goes on.  The page for a missing file is itself sent by
that loop.
-/

namespace LinuxNet.HttpServer.Libevent

open LinuxNet.Buffer LinuxNet.CInt LinuxNet.CString LinuxNet.Decimal
open LinuxNet.WebServer

/-- What `read(fd, buf, sizeof(buf))` gives. -/
inductive ReadResult where
  | bytes (data : List UInt8)
  | endOfFile
  | fails
  deriving DecidableEq, Repr

namespace ReadResult

def value : ReadResult → Int
  | bytes data => data.length
  | endOfFile => 0
  | fails => -1

def data : ReadResult → List UInt8
  | bytes data => data
  | endOfFile | fails => []

end ReadResult

/-- What `open` returns, and every `read` from it. -/
structure OpenedFile where
  fd : Int
  reads : Nat → ReadResult
  counts :
    ∀ turn data, reads turn = .bytes data →
      1 ≤ data.length ∧ data.length ≤ 4096
  refused : fd = -1 → ∀ turn, reads turn = .fails

/-- The calls of the loop: `read`, `bufferevent_write` with the bytes that are
in its buffer, and `memset`. -/
inductive FileCall where
  | read (result : ReadResult)
  | write (data : List UInt8) (length : Nat)
  | memset (length : Nat)
  deriving DecidableEq, Repr

namespace FileCall

def readBytes : FileCall → List UInt8
  | read result => result.data
  | write _ _ | memset _ => []

def written : FileCall → List UInt8
  | write data _ => data
  | read _ | memset _ => []

/-- The third argument of `bufferevent_write` and `memset`. -/
def length? : FileCall → Option Nat
  | read _ => none
  | write _ length | memset length => some length

end FileCall

/-- `memset(buf, 0, length)`. -/
def cleared (buf : List UInt8) (length : Nat) : List UInt8 :=
  List.replicate (min length buf.length) 0 ++ buf.drop length

/-- `while((ret = read(fd, buf, sizeof(buf))))`. -/
def sendFileLoop (file : OpenedFile) :
    Nat → Nat → List UInt8 → Option (List FileCall)
  | 0, _, _ => none
  | fuel + 1, turn, buf =>
      let result := file.reads turn
      let length := toSize result.value
      let filled := placed buf 0 result.data
      if result.value = 0 then
        some [.read result]
      else
        (sendFileLoop file fuel (turn + 1) (cleared filled length)).map
          ([.read result, .write (filled.take length) length,
            .memset length] ++ ·)

def sendFileToHttp (fuel : Nat) (file : OpenedFile) :
    Option (List FileCall) :=
  sendFileLoop file fuel 0 (List.replicate 4096 0)

/-- The lengths are positive and at most the size of the buffer, and what is
written is what was read. -/
structure WellSent (calls : List FileCall) : Prop where
  lengths :
    ∀ call ∈ calls, ∀ length ∈ call.length?, 1 ≤ length ∧ length ≤ 4096
  bytes_eq : calls.flatMap FileCall.written = calls.flatMap FileCall.readBytes

/-- From a turn on, `read` gives bytes up to the end of the file. -/
inductive ReadsOn (file : OpenedFile) : Nat → Prop
  | ends {turn : Nat} (result : file.reads turn = .endOfFile) :
      ReadsOn file turn
  | bytes {turn : Nat} {data : List UInt8}
      (result : file.reads turn = .bytes data)
      (later : ReadsOn file (turn + 1)) : ReadsOn file turn

def ReadsToEnd (file : OpenedFile) : Prop :=
  ReadsOn file 0

section Loop

variable {file : OpenedFile} {turn : Nat}

theorem sendFileLoop_of_end
    (ends : file.reads turn = .endOfFile) (fuel : Nat) (buf : List UInt8) :
    sendFileLoop file (fuel + 1) turn buf = some [.read .endOfFile] := by
  rw [sendFileLoop, ends]
  rfl

theorem sendFileLoop_of_fails
    (fails : file.reads turn = .fails) (fuel : Nat) (buf : List UInt8) :
    sendFileLoop file (fuel + 1) turn buf =
      (sendFileLoop file fuel (turn + 1)
        (cleared buf 18446744073709551615)).map
        ([.read .fails,
          .write (buf.take 18446744073709551615) 18446744073709551615,
          .memset 18446744073709551615] ++ ·) := by
  rw [sendFileLoop, fails]
  show (if (-1 : Int) = 0 then _ else _) = _
  rw [if_neg (by decide)]
  show Option.map _ (sendFileLoop file fuel (turn + 1)
    (cleared (placed buf 0 []) 18446744073709551615)) = _
  rw [placed_nil]
  rfl

/-- A turn in which `read` gives bytes writes these bytes. -/
theorem sendFileLoop_of_bytes
    {data : List UInt8} (bytes : file.reads turn = .bytes data)
    (fuel : Nat) (buf : List UInt8) :
    sendFileLoop file (fuel + 1) turn buf =
      (sendFileLoop file fuel (turn + 1)
        (cleared (placed buf 0 data) data.length)).map
        ([.read (.bytes data), .write data data.length,
          .memset data.length] ++ ·) := by
  obtain ⟨positive, small⟩ := file.counts turn data bytes
  have length : toSize data.length = data.length :=
    toSize_natCast (Nat.le_trans small (by decide))
  have notZero : ¬ (data.length : Int) = 0 := by omega
  rw [sendFileLoop, bytes]
  simp only [ReadResult.value, ReadResult.data, length, if_neg notZero,
    take_placed_zero]

theorem wellSent_end : WellSent [.read .endOfFile] := by
  constructor
  · intro call member length isLength
    cases List.mem_singleton.mp member
    cases isLength
  · rfl

theorem wellSent_bytes_iff
    {data : List UInt8} {calls : List FileCall}
    (positive : 1 ≤ data.length) (small : data.length ≤ 4096) :
    WellSent
        ([.read (.bytes data), .write data data.length,
          .memset data.length] ++ calls) ↔
      WellSent calls := by
  constructor
  · rintro ⟨lengths, same⟩
    constructor
    · intro call member
      exact lengths call (List.mem_append_right _ member)
    · have whole :
          data ++ calls.flatMap FileCall.written =
            data ++ calls.flatMap FileCall.readBytes :=
        same
      exact List.append_cancel_left whole
  · rintro ⟨lengths, same⟩
    constructor
    · intro call member length isLength
      rcases List.mem_append.mp member with now | later
      · simp only [List.mem_cons, List.not_mem_nil, or_false] at now
        rcases now with rfl | rfl | rfl
        · cases isLength
        · cases isLength
          exact ⟨positive, small⟩
        · cases isLength
          exact ⟨positive, small⟩
      · exact lengths call later length isLength
    · exact congrArg (data ++ ·) same

theorem wellSent_loop_iff (turn : Nat) (buf : List UInt8) :
    (∃ fuel calls,
        sendFileLoop file fuel turn buf = some calls ∧ WellSent calls) ↔
      ReadsOn file turn := by
  constructor
  · rintro ⟨fuel, calls, sent, well⟩
    induction fuel generalizing turn buf calls with
    | zero => cases sent
    | succ fuel inductionHypothesis =>
        cases result : file.reads turn with
        | endOfFile => exact .ends result
        | bytes data =>
            obtain ⟨positive, small⟩ := file.counts turn data result
            rw [sendFileLoop_of_bytes result, Option.map_eq_some_iff] at sent
            obtain ⟨rest, sentRest, rfl⟩ := sent
            apply ReadsOn.bytes result
            exact
              inductionHypothesis (turn + 1) _ rest sentRest
                ((wellSent_bytes_iff positive small).mp well)
        | fails =>
            -- The −1 is the length of a write.
            rw [sendFileLoop_of_fails result fuel buf,
              Option.map_eq_some_iff] at sent
            obtain ⟨rest, _, rfl⟩ := sent
            have tooLong :=
              well.lengths (.memset 18446744073709551615) (by simp) _ rfl
            exact absurd tooLong.2 (by decide)
  · intro readsOn
    induction readsOn generalizing buf with
    | ends result =>
        exact ⟨0 + 1, _, sendFileLoop_of_end result 0 buf, wellSent_end⟩
    | @bytes turn data result _ inductionHypothesis =>
        obtain ⟨positive, small⟩ := file.counts turn data result
        obtain ⟨fuel, calls, sent, well⟩ :=
          inductionHypothesis (cleared (placed buf 0 data) data.length)
        refine ⟨fuel + 1, _, ?_,
          (wellSent_bytes_iff positive small).mpr well⟩
        rw [sendFileLoop_of_bytes result, sent]
        rfl

end Loop

/-! ## The answer to a request -/

/-- The table of `get_file_type`. -/
def fileTypes : List (List UInt8 × List UInt8) :=
  [(ascii ".html", ascii "text/html; charset=utf-8"),
    (ascii ".htm", ascii "text/html; charset=utf-8"),
    (ascii ".jpg", ascii "image/jpeg"), (ascii ".jpeg", ascii "image/jpeg"),
    (ascii ".gif", ascii "image/gif"), (ascii ".png", ascii "image/png"),
    (ascii ".css", ascii "text/css"), (ascii ".au", ascii "audio/basic"),
    (ascii ".wav", ascii "audio/wav"),
    (ascii ".avi", ascii "video/x-msvideo"),
    (ascii ".mov", ascii "video/quicktime"),
    (ascii ".qt", ascii "video/quicktime"),
    (ascii ".mpeg", ascii "video/mpeg"), (ascii ".mpe", ascii "video/mpeg"),
    (ascii ".vrml", ascii "model/vrml"), (ascii ".wrl", ascii "model/vrml"),
    (ascii ".midi", ascii "audio/midi"), (ascii ".mid", ascii "audio/midi"),
    (ascii ".mp3", ascii "audio/mpeg"), (ascii ".ogg", ascii "application/ogg"),
    (ascii ".pac", ascii "application/x-ns-proxy-autoconfig")]

/-- `strrchr(name, '.')`: the last dot and what is behind it. -/
def lastDot (name : List UInt8) : Option (List UInt8) :=
  if 46 ∈ name then
    some (46 :: (name.reverse.takeWhile (· ≠ 46)).reverse)
  else
    none

def getFileType (name : List UInt8) : List UInt8 :=
  ((lastDot name).bind fun dot => List.lookup dot fileTypes).getD
    (ascii "text/plain; charset=utf-8")

def sendHeader (no : Int) (desp type : List UInt8) (len : Int) :
    List UInt8 :=
  ascii "HTTP/1.1 " ++ decimal no ++ ascii " " ++ desp ++ crlf ++
    ascii "Content-Type:" ++ type ++ crlf ++ ascii "Content-Length:" ++
    decimal len ++ crlf ++ ascii "Connection: close" ++ crlf ++ crlf

/-- `send_dir`, without a value where a store is outside its array. -/
def sendDir (dirname : List UInt8) (entries : List Entry) :
    Option (List UInt8) :=
  if AllInside (sendDirStores dirname entries) then
    some
      (titleText dirname ++ headingText dirname ++ entries.flatMap rowText ++
        closingText)
  else
    none

/-- What `stat` says about a name. -/
structure FileStat where
  isDirectory : Bool
  size : Int
  deriving DecidableEq, Repr

/-- What the server finds under the names. -/
structure Site where
  stat : List UInt8 → Option FileStat
  scandir : List UInt8 → List Entry
  openFile : List UInt8 → OpenedFile

inductive Body where
  | page (text : List UInt8)
  | file (calls : List FileCall)
  deriving DecidableEq, Repr

structure Answer where
  header : List UInt8
  body : Body
  deriving DecidableEq, Repr

def Answer.bytes (answer : Answer) : List UInt8 :=
  answer.header ++
    match answer.body with
    | .page text => text
    | .file calls => calls.flatMap FileCall.written

/-- `send_error`. -/
def sendError (site : Site) (fuel : Nat) : Option Answer :=
  (sendFileToHttp fuel (site.openFile (ascii "404.html"))).map fun calls =>
    ⟨sendHeader 404 (ascii "File Not Found") (ascii "text/html") (-1),
      .file calls⟩

/-- `response_http` from `stat` on. -/
def answerName (site : Site) (fuel : Nat) (pf : List UInt8) :
    Option Answer :=
  match site.stat pf with
  | none => sendError site fuel
  | some sb =>
      if sb.isDirectory then
        (sendDir pf (site.scandir pf)).map fun text =>
          ⟨sendHeader 200 (ascii "OK") (getFileType (ascii ".html")) (-1),
            .page text⟩
      else
        (sendFileToHttp fuel (site.openFile pf)).map fun calls =>
          ⟨sendHeader 200 (ascii "OK") (getFileType pf) sb.size,
            .file calls⟩

/-- `response_http` on the arrays of the method and the path.  Nothing is sent
for another method than `GET`; there is no value where `strdecode` leaves the
array. -/
def responseHttp (site : Site) (fuel : Nat) (method path : List UInt8) :
    Option (Option Answer) :=
  if strcasecmp method 0 (ascii "GET") then
    (decodeInPlace (path.length + 1) path 0 0).bind fun path =>
      (answerName site fuel
        (if cstr path 0 = ascii "/" ∨ cstr path 0 = ascii "/." then
          ascii "./"
        else
          cstr path 1)).map some
  else
    some none

/-- The call comes back, and where it has sent a file, it has sent it well. -/
def ComesBack (call : Nat → Option (Option Answer)) : Prop :=
  ∃ fuel result, call fuel = some result ∧
    ∀ answer ∈ result, ∀ calls, answer.body = .file calls → WellSent calls

/-- What is sent for a name can be sent: the page of a directory fits into its
arrays, and a file, or `404.html` where there is none, is read up
to the end of the file. -/
def Readable (site : Site) (pf : List UInt8) : Prop :=
  match site.stat pf with
  | none => ReadsToEnd (site.openFile (ascii "404.html"))
  | some sb =>
      if sb.isDirectory then
        ListingFits pf (site.scandir pf)
      else
        ReadsToEnd (site.openFile pf)

/-- The name that `response_http` opens for a target. -/
def targetName (target : List UInt8) : List UInt8 :=
  requestedName [ascii "/", ascii "/."] target

theorem targetName_eq
    {path target : List UInt8} (string : StringAt path 0 target)
    (nonempty : target ≠ []) :
    ∃ decoded, decodeInPlace (path.length + 1) path 0 0 = some decoded ∧
      (if cstr decoded 0 = ascii "/" ∨ cstr decoded 0 = ascii "/." then
          ascii "./"
        else
          cstr decoded 1) = targetName target := by
  obtain ⟨decoded, decodedEq, first, second⟩ :=
    decoded_strings string nonempty
  refine ⟨decoded, decodedEq, ?_⟩
  rw [first, second]
  unfold targetName requestedName
  simp only [List.mem_cons, List.not_mem_nil, or_false]

theorem responseHttp_eq
    (site : Site) (fuel : Nat) (method : List UInt8)
    {path target : List UInt8} (string : StringAt path 0 target)
    (nonempty : target ≠ []) :
    responseHttp site fuel method path =
      if strcasecmp method 0 (ascii "GET") then
        (answerName site fuel (targetName target)).map some
      else
        some none := by
  obtain ⟨decoded, decodedEq, name⟩ := targetName_eq string nonempty
  unfold responseHttp
  rw [decodedEq, Option.bind_some, name]

theorem comesBack_sendFile_iff (file : OpenedFile) (header : List UInt8) :
    ComesBack
        (fun fuel =>
          ((sendFileToHttp fuel file).map fun calls =>
            Answer.mk header (.file calls)).map some) ↔
      ReadsToEnd file := by
  unfold ReadsToEnd
  rw [← wellSent_loop_iff 0 (List.replicate 4096 0)]
  constructor
  · rintro ⟨fuel, result, returned, well⟩
    obtain ⟨answer, sent, rfl⟩ := Option.map_eq_some_iff.mp returned
    obtain ⟨calls, ran, rfl⟩ := Option.map_eq_some_iff.mp sent
    exact ⟨fuel, calls, ran, well _ rfl calls rfl⟩
  · rintro ⟨fuel, calls, ran, well⟩
    have sent : sendFileToHttp fuel file = some calls := ran
    refine ⟨fuel, some ⟨header, .file calls⟩, ?_, ?_⟩
    · simp only [sent, Option.map_some]
    · intro answer isAnswer others isBody
      cases isAnswer
      cases isBody
      exact well

theorem comesBack_answerName_iff (site : Site) (pf : List UInt8) :
    ComesBack (fun fuel => (answerName site fuel pf).map some) ↔
      Readable site pf := by
  unfold answerName Readable
  cases found : site.stat pf with
  | none => exact comesBack_sendFile_iff _ _
  | some sb =>
      by_cases directory : sb.isDirectory = true
      · simp only [if_pos directory]
        rw [← allInside_sendDirStores_iff, sendDir]
        by_cases inside : AllInside (sendDirStores pf (site.scandir pf))
        · rw [if_pos inside]
          refine iff_of_true ⟨0, _, rfl, ?_⟩ inside
          intro answer isAnswer calls isFile
          cases isAnswer
          cases isFile
        · rw [if_neg inside]
          refine iff_of_false ?_ inside
          rintro ⟨fuel, result, returned, _⟩
          cases returned
      · simp only [if_neg directory]
        exact comesBack_sendFile_iff _ _

/-- `response_http` and `send_error` come back, with the file sent well,
exactly when what they send can be read to its end. -/
theorem files_sent_iff
    (site : Site) (method path target : List UInt8)
    (string : StringAt path 0 target) (nonempty : target ≠ []) :
    (ComesBack (fun fuel => responseHttp site fuel method path) ↔
        (strcasecmp method 0 (ascii "GET") = true →
          Readable site (targetName target))) ∧
      (ComesBack (fun fuel => (sendError site fuel).map some) ↔
        ReadsToEnd (site.openFile (ascii "404.html"))) := by
  constructor
  · rw [show (fun fuel => responseHttp site fuel method path) = _ from
      funext fun fuel => responseHttp_eq site fuel method string nonempty]
    by_cases isGet : strcasecmp method 0 (ascii "GET") = true
    · simp only [isGet, if_true, true_implies]
      exact comesBack_answerName_iff site (targetName target)
    · simp only [if_neg isGet]
      refine iff_of_true ⟨0, none, rfl, ?_⟩ fun impossible =>
        absurd impossible isGet
      intro answer impossible
      cases impossible
  · exact comesBack_sendFile_iff _ _

/-- A file that `open` does not find. -/
def missingFile : OpenedFile where
  fd := -1
  reads := fun _ => .fails
  counts := fun _ _ impossible => by cases impossible
  refused := fun _ _ => rfl

def emptyFile : OpenedFile where
  fd := 5
  reads := fun _ => .endOfFile
  counts := fun _ _ impossible => by cases impossible
  refused := fun impossible => by cases impossible

/-- A directory of one file, without `404.html`. -/
def smallSite : Site where
  stat := fun name => if name = ascii "a.txt" then some ⟨false, 0⟩ else none
  scandir := fun _ => []
  openFile := fun name =>
    if name = ascii "a.txt" then emptyFile else missingFile

theorem files_sent_iff_small :
    (ComesBack
          (fun fuel =>
            responseHttp smallSite fuel [71, 69, 84, 0]
              [47, 97, 46, 116, 120, 116, 0]) ↔
        (strcasecmp [71, 69, 84, 0] 0 (ascii "GET") = true →
          Readable smallSite (targetName [47, 97, 46, 116, 120, 116]))) ∧
      (ComesBack (fun fuel => (sendError smallSite fuel).map some) ↔
        ReadsToEnd (smallSite.openFile (ascii "404.html"))) :=
  files_sent_iff smallSite [71, 69, 84, 0] [47, 97, 46, 116, 120, 116, 0]
    [47, 97, 46, 116, 120, 116]
    (StringAt.of_drop_eq
      (show _ = [47, 97, 46, 116, 120, 116] ++ 0 :: [] from rfl)
      (by decide))
    (by decide)

/-- `"/b"` is not there, and there is no `404.html`. -/
theorem files_not_sent :
    ¬ ∀ (site : Site) (method path target : List UInt8),
        StringAt path 0 target → target ≠ [] →
          ComesBack (fun fuel => responseHttp site fuel method path) ∧
            ComesBack (fun fuel => (sendError site fuel).map some) := by
  intro claimed
  have string : StringAt [47, 98, 0] 0 [47, 98] :=
    StringAt.of_drop_eq (show _ = [47, 98] ++ 0 :: [] from rfl) (by decide)
  have both :=
    claimed smallSite [71, 69, 84, 0] [47, 98, 0] [47, 98] string (by decide)
  have reads : ReadsToEnd (smallSite.openFile (ascii "404.html")) :=
    (comesBack_sendFile_iff _ _).mp both.2
  rw [show smallSite.openFile (ascii "404.html") = missingFile from rfl]
    at reads
  cases reads with
  | ends result => cases result
  | bytes result _ => cases result

end LinuxNet.HttpServer.Libevent
