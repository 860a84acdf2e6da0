import LinuxNet.HttpServer.Conversions
import LinuxNet.HttpServer.Fragments
import LinuxNet.HttpServer.InPlace
import LinuxNet.HttpServer.ListingBounds

/-!
# When a client is disconnected

`do_read` reads the whole of a request before it looks at the method.  For a
request that is not a `GET` it does nothing more: the client stays registered
and open, and with an edge-triggered event nothing tells the server about it
again.  A `GET` is disconnected once, behind whatever `http_request` does, if
that comes back.
-/

namespace LinuxNet.HttpServer

open LinuxNet.CString LinuxNet.Scanset LinuxNet.WebServer

/-- How a piece of the program ends: it comes back, or the program ends, with
an error of `disconnect` or of something else, or it leaves an array. -/
inductive Ending (α : Type) where
  | returns (value : α)
  | exits
  | delFails
  | undefined
  deriving DecidableEq, Repr

structure Client where
  registered : Bool
  isOpen : Bool
  disconnects : Nat
  deriving DecidableEq, Repr

/-- `disconnect`: the second `epoll_ctl` for a client fails. -/
def Client.disconnect (client : Client) : Ending Client :=
  if client.registered then
    .returns ⟨false, false, client.disconnects + 1⟩
  else
    .delFails

/-- What `open`, `read` and `send` do in `send_file`: an outcome for each
block, none where `send` fails for another reason than `EAGAIN` and `EINTR`,
and whether the last `read` returns −1. -/
inductive FileRun where
  | openFails
  | reads (sends : List (Option SendOutcome)) (lastFails : Bool)
  deriving DecidableEq, Repr

/-- What the server finds under the names, and what `send` does there. -/
structure Disk where
  stat : List UInt8 → Option FileKind
  dirTurns : List UInt8 → List (DirEntry × Option SendOutcome)
  fileRun : List UInt8 → FileRun

namespace Disk

variable (disk : Disk)

/-- `send_file`, as far as it matters whether it comes back. -/
def sendFile (filename : List UInt8) : Ending Unit :=
  match disk.fileRun filename with
  | .openFails => .exits
  | .reads sends lastFails =>
      if none ∈ sends ∨ lastFails = true then .exits else .returns ()

/-- `send_dir`. -/
def sendDir (dirname : List UInt8) : Ending Unit :=
  if AllInside (sendDirStores dirname (disk.dirTurns dirname)) then
    if none ∈ (disk.dirTurns dirname).map Prod.snd then
      .exits
    else
      .returns ()
  else
    .undefined

/-- `http_request` from `stat` on.  For what is neither a directory nor a
regular file it sends nothing. -/
def answer (filename : List UInt8) : Ending Unit :=
  match disk.stat filename with
  | none => .returns ()
  | some .directory => disk.sendDir filename
  | some .regular => disk.sendFile filename
  | some .other => .returns ()

def httpRequest (arrays : RequestArrays) (request : List UInt8) :
    Ending Unit :=
  match requestedFile arrays request with
  | none => .undefined
  | some requested => disk.answer requested.filename

/-- The calls of `do_read`, one after the other. -/
def runEffects (arrays : RequestArrays) :
    List ReadEffect → Client → Ending Client
  | [], client => .returns client
  | .disconnect :: later, client =>
      match client.disconnect with
      | .returns next => runEffects arrays later next
      | .exits => .exits
      | .delFails => .delFails
      | .undefined => .undefined
  | .httpRequest request :: later, client =>
      match disk.httpRequest arrays request with
      | .returns _ => runEffects arrays later client
      | .exits => .exits
      | .delFails => .delFails
      | .undefined => .undefined

/-- `do_read` for a client whose bytes are all available. -/
def doRead (arrays : RequestArrays) (fuel : Nat) (bytes : List UInt8)
    (client : Client) : Option (Ending Client) :=
  (HttpServer.doRead allAvailable fuel ⟨bytes, 0⟩).map fun result =>
    disk.runEffects arrays result.1 client

end Disk

/-- A first line, header lines, the blank line and what may follow. -/
structure CompleteRequest where
  line : List UInt8
  headers : List (List UInt8)
  body : List UInt8
  clean : Clean line
  cleanHeaders : ∀ header ∈ headers, Clean header

namespace CompleteRequest

variable (request : CompleteRequest)

def bytes : List UInt8 :=
  request.line ++ 13 :: 10 :: (headerBytes request.headers ++ request.body)

/-- The string that `get_line` stores for the first line: what fits in front
of the terminator, up to a NUL. -/
def firstText : List UInt8 :=
  cText ((request.line ++ [10]).take 1023)

def filename : List UInt8 :=
  requestedName [ascii "/"]
    (field stopsAtBlank (behind stopsAtBlank request.firstText))

end CompleteRequest

/-- As `do_accept` registers it. -/
def acceptedClient : Client := ⟨true, true, 0⟩

def disconnectedClient : Client := ⟨false, false, 1⟩

/-- `do_read` ends with the client disconnected once, or the program ends in
`http_request`, whatever is in the arrays. -/
def DisconnectedOnce (disk : Disk) (request : CompleteRequest) : Prop :=
  ∀ arrays : RequestArrays, ∃ fuel ending,
    disk.doRead arrays fuel request.bytes acceptedClient = some ending ∧
      (ending = .returns disconnectedClient ∨ ending = .exits)

/-- The first line begins with `get` in any case and has words that fit, and
where it names a directory, the listing has room. -/
structure Handled (disk : Disk) (request : CompleteRequest) : Prop where
  isGet : SameIgnoringCase (request.firstText.take 3) (ascii "get")
  words : WordsFit request.firstText
  listing :
    disk.stat request.filename = some .directory →
      RoomFor request.filename
        (titleText request.filename ++
          headingText request.filename).length
        (disk.dirTurns request.filename)

/-! ## Reading the request -/

theorem buf_getLineFrom_available
    {text : List UInt8} (clean : Clean text) (rest : List UInt8)
    (room calls : Nat) :
    (getLineFrom allAvailable room ⟨text ++ 13 :: 10 :: rest, calls⟩).buf =
      (text ++ [10]).take room := by
  induction text generalizing room calls with
  | nil =>
      cases room with
      | zero => rfl
      | succ room =>
          have arrives :
              Arrives allAvailable ⟨[] ++ 13 :: 10 :: rest, calls⟩ 13 :=
            ⟨rfl, rfl⟩
          rw [getLineFrom_of_return arrives]
          simp
  | cons byte text inductionHypothesis =>
      cases room with
      | zero => rfl
      | succ room =>
          obtain ⟨notReturn, notFeed⟩ := clean.of_cons
          have arrives :
              Arrives allAvailable
                ⟨byte :: text ++ 13 :: 10 :: rest, calls⟩ byte :=
            ⟨rfl, rfl⟩
          rw [getLineFrom_of_byte arrives notReturn notFeed]
          exact
            congrArg (byte :: ·)
              (inductionHypothesis clean.tail room (calls + 1))

theorem endAhead_headers
    {headers : List (List UInt8)}
    (clean : ∀ header ∈ headers, Clean header) (body : List UInt8) :
    EndAhead (headerBytes headers ++ body) := by
  induction headers with
  | nil => exact .ret body
  | cons header headers inductionHypothesis =>
      obtain ⟨isClean, others⟩ := List.forall_mem_cons.mp clean
      have later := EndAhead.line isClean (inductionHypothesis others)
      have shape :
          headerBytes (header :: headers) ++ body =
            header ++ 13 :: 10 :: (headerBytes headers ++ body) := by
        simp [headerBytes]
      rw [shape]
      exact later

theorem arriving_allAvailable : Arriving allAvailable :=
  fun call => ⟨call, Nat.le_refl call, rfl⟩

namespace CompleteRequest

variable (request : CompleteRequest)

theorem not_silent : ¬ Silent allAvailable ⟨request.bytes, 0⟩ := by
  rintro (refused | empty)
  · exact refused rfl
  · exact
      List.append_ne_nil_of_right_ne_nil request.line
        (List.cons_ne_nil _ _) empty

/-- The loop of `do_read` finds the blank line. -/
theorem readRest_returns :
    ∃ fuel later,
      readRest allAvailable fuel
          (getLine allAvailable lineSize ⟨request.bytes, 0⟩).sock =
        some later := by
  have part :
      Part request.line (headerBytes request.headers ++ request.body)
        (getLine allAvailable lineSize ⟨request.bytes, 0⟩) :=
    part_of_getLineFrom request.clean _ 1023 rfl
  have headers := endAhead_headers request.cleanHeaders request.body
  have ahead :
      EndAhead
        (getLine allAvailable lineSize ⟨request.bytes, 0⟩).sock.stream := by
    cases part with
    | some count within buf stream =>
        rw [stream]
        exact .line (request.clean.drop count) headers
    | all buf stream =>
        rcases stream with stream | stream
        · rw [stream]
          exact headers
        · rw [stream]
          exact .feed _
  obtain ⟨fuel, returns⟩ :=
    readRest_of_blankAhead
      (blankAhead_of_endAhead arriving_allAvailable ahead _)
  obtain ⟨later, rest⟩ := Option.isSome_iff_exists.mp returns
  exact ⟨fuel, later, rest⟩

/-- `do_read` comes to its end with what the first line calls for. -/
theorem disconnectedOnce_iff_effects (disk : Disk) :
    DisconnectedOnce disk request ↔
      ∀ arrays ending,
        disk.runEffects arrays
            (handleLine
              (getLine allAvailable lineSize ⟨request.bytes, 0⟩))
            acceptedClient = ending →
          ending = .returns disconnectedClient ∨ ending = .exits := by
  unfold DisconnectedOnce Disk.doRead
  constructor
  · rintro once arrays _ rfl
    obtain ⟨fuel, ending, ran, good⟩ := once arrays
    rw [doRead_of_not_silent request.not_silent, Option.map_map,
      Option.map_eq_some_iff] at ran
    obtain ⟨later, _, rfl⟩ := ran
    exact good
  · intro good arrays
    obtain ⟨fuel, later, rest⟩ := request.readRest_returns
    refine ⟨fuel, _, ?_, good arrays _ rfl⟩
    rw [doRead_of_not_silent request.not_silent, rest]
    rfl

theorem handleLine_eq :
    handleLine (getLine allAvailable lineSize ⟨request.bytes, 0⟩) =
      if SameIgnoringCase (request.firstText.take 3) (ascii "get") then
        [.httpRequest request.firstText, .disconnect]
      else
        [] := by
  have buf :
      (getLine allAvailable lineSize ⟨request.bytes, 0⟩).buf =
        (request.line ++ [10]).take 1023 :=
    buf_getLineFrom_available request.clean _ 1023 0
  have text :
      cstr ((request.line ++ [10]).take 1023 ++ [0]) 0 =
        request.firstText :=
    cstr_append_nul _ [] 0 (Nat.zero_le _)
  unfold handleLine strncasecmp
  rw [buf, text]
  simp only [decide_eq_true_eq]
  rfl

theorem firstText_spec :
    0 ∉ request.firstText ∧ request.firstText.length ≤ 1023 := by
  refine ⟨cstr_nul_free _ 0, ?_⟩
  have shorter := length_cText_le ((request.line ++ [10]).take 1023)
  rw [List.length_take] at shorter
  unfold firstText
  omega

/-- The name fits into the array of the path. -/
theorem length_filename_lt : request.filename.length < 1023 := by
  have fieldLe :=
    length_field_le stopsAtBlank (behind stopsAtBlank request.firstText)
  have behindLe := length_behind_le stopsAtBlank request.firstText
  have decodedLe :=
    length_decodeFrom_le
      (field stopsAtBlank (behind stopsAtBlank request.firstText))
  have short := request.firstText_spec.2
  unfold filename requestedName
  split
  · decide
  · have cut :=
      length_cText_le
        ((decodeFrom
          (field stopsAtBlank
            (behind stopsAtBlank request.firstText))).drop 1)
    rw [List.length_drop] at cut
    omega

end CompleteRequest

theorem Disk.sendFile_ends (disk : Disk) (filename : List UInt8) :
    disk.sendFile filename = .returns () ∨
      disk.sendFile filename = .exits := by
  unfold Disk.sendFile
  split
  · exact Or.inr rfl
  · split
    · exact Or.inr rfl
    · exact Or.inl rfl

/-- An ending that is none of the two that are allowed. -/
theorem not_ends_of_ne
    {α : Type} {ending : Ending α} {value : α}
    (notReturns : ending ≠ .returns value) (notExits : ending ≠ .exits) :
    ¬ (ending = .returns value ∨ ending = .exits) :=
  not_or.mpr ⟨notReturns, notExits⟩

theorem not_ends_undefined {α : Type} {value : α} :
    ¬ ((Ending.undefined : Ending α) = .returns value ∨
      (Ending.undefined : Ending α) = .exits) :=
  not_ends_of_ne (fun impossible => by cases impossible)
    (fun impossible => by cases impossible)

theorem not_ends_delFails {α : Type} {value : α} :
    ¬ ((Ending.delFails : Ending α) = .returns value ∨
      (Ending.delFails : Ending α) = .exits) :=
  not_ends_of_ne (fun impossible => by cases impossible)
    (fun impossible => by cases impossible)

/-- A client that was not disconnected. -/
theorem not_ends_accepted :
    ¬ ((Ending.returns acceptedClient : Ending Client) =
          .returns disconnectedClient ∨
      (Ending.returns acceptedClient : Ending Client) = .exits) :=
  not_ends_of_ne (by decide) (by decide)

/-- `http_request` comes back or the program ends, unless a listing leaves its
arrays. -/
theorem Disk.answer_ends_iff (disk : Disk) (filename : List UInt8) :
    (disk.answer filename = .returns () ∨ disk.answer filename = .exits) ↔
      (disk.stat filename = some .directory →
        AllInside (sendDirStores filename (disk.dirTurns filename))) := by
  unfold Disk.answer
  cases found : disk.stat filename with
  | none => exact iff_of_true (Or.inl rfl) nofun
  | some kind =>
      cases kind with
      | regular => exact iff_of_true (disk.sendFile_ends filename) nofun
      | other => exact iff_of_true (Or.inl rfl) nofun
      | directory =>
          simp only [true_implies]
          unfold Disk.sendDir
          split
          · next inside =>
              refine iff_of_true ?_ inside
              split
              · exact Or.inr rfl
              · exact Or.inl rfl
          · next outside =>
              exact iff_of_false not_ends_undefined outside

/-- A request that is a `GET`: the client is disconnected behind what
`http_request` does. -/
theorem Disk.runEffects_get_iff
    (disk : Disk) (arrays : RequestArrays) (request : List UInt8) :
    (∀ ending,
        disk.runEffects arrays [.httpRequest request, .disconnect]
            acceptedClient = ending →
          ending = .returns disconnectedClient ∨ ending = .exits) ↔
      (disk.httpRequest arrays request = .returns () ∨
        disk.httpRequest arrays request = .exits) := by
  rw [Disk.runEffects]
  cases disk.httpRequest arrays request with
  | returns value =>
      refine iff_of_true ?_ (Or.inl rfl)
      rintro _ rfl
      exact Or.inl rfl
  | exits =>
      refine iff_of_true ?_ (Or.inr rfl)
      rintro _ rfl
      exact Or.inr rfl
  | delFails =>
      apply iff_of_false _ not_ends_delFails
      intro good
      exact not_ends_delFails (good _ rfl)
  | undefined =>
      apply iff_of_false _ not_ends_undefined
      intro good
      exact not_ends_undefined (good _ rfl)

/-- A client is disconnected once exactly where the first line is a `GET`
whose words fit, and a listing it asks for has room. -/
theorem disconnected_once_iff (disk : Disk) (request : CompleteRequest) :
    DisconnectedOnce disk request ↔ Handled disk request := by
  obtain ⟨nulFree, short⟩ := request.firstText_spec
  have listing_iff :=
    allInside_sendDirStores_iff request.length_filename_lt
      (disk.dirTurns request.filename)
  rw [request.disconnectedOnce_iff_effects, request.handleLine_eq]
  by_cases isGet :
      SameIgnoringCase (request.firstText.take 3) (ascii "get")
  · have nonempty := field_ne_nil_of_get isGet
    simp only [if_pos isGet, disk.runEffects_get_iff]
    constructor
    · intro good
      have found : ∃ requested,
          requestedFile endlessArrays request.firstText =
            some requested := by
        have ends := good endlessArrays
        unfold Disk.httpRequest at ends
        cases requested :
            requestedFile endlessArrays request.firstText with
        | none =>
            rw [requested] at ends
            exact absurd ends not_ends_undefined
        | some found => exact ⟨found, rfl⟩
      obtain ⟨requested, found⟩ := found
      have words := wordsFit_of_requestedFile nonempty found
      have ends := good endlessArrays
      rw [Disk.httpRequest,
        requestedFile_of_wordsFit endlessArrays nulFree
          (Nat.lt_succ_of_le short) nonempty words] at ends
      refine ⟨isGet, words, ?_⟩
      rw [← listing_iff]
      exact (disk.answer_ends_iff request.filename).mp ends
    · rintro ⟨_, words, listing⟩ arrays
      rw [Disk.httpRequest,
        requestedFile_of_wordsFit arrays nulFree (Nat.lt_succ_of_le short)
          nonempty words]
      rw [← listing_iff] at listing
      exact (disk.answer_ends_iff request.filename).mpr listing
  · simp only [if_neg isGet]
    refine iff_of_false ?_ fun handled => isGet handled.isGet
    intro good
    exact not_ends_accepted (good endlessArrays _ rfl)

/-- `"POST / HTTP/1.1"` without headers. -/
def postRequest : CompleteRequest where
  line := ascii "POST / HTTP/1.1"
  headers := []
  body := []
  clean := ⟨by decide, by decide⟩
  cleanHeaders := by
    intro header impossible
    cases impossible

/-- The client of a `POST` stays as it is. -/
theorem post_not_disconnected :
    ¬ ∀ (disk : Disk) (request : CompleteRequest),
        DisconnectedOnce disk request := by
  intro claimed
  have effects :=
    (postRequest.disconnectedOnce_iff_effects
      ⟨fun _ => none, fun _ => [], fun _ => .openFails⟩).mp
      (claimed _ postRequest)
  rw [postRequest.handleLine_eq, if_neg (by decide +kernel)] at effects
  exact not_ends_accepted (effects endlessArrays _ rfl)

end LinuxNet.HttpServer
