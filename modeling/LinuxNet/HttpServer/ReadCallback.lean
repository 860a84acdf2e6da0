import LinuxNet.HttpServer.FileLoop
import LinuxNet.HttpServer.Fragments

/-!
# A request over several read callbacks

`conn_readcb` takes what has arrived for a whole request, and keeps nothing
for the next call.  A request that arrives in pieces gets its one response
exactly where each piece can be split into words, and one piece alone begins
with the word `GET` and has the name of the request in its second word.
-/

namespace LinuxNet.HttpServer.Libevent

open LinuxNet.CString LinuxNet.Decimal LinuxNet.Scanset
open LinuxNet.WebServer

/-- The arrays of `conn_readcb`, with what is in them before `sscanf`. -/
structure ConnArrays where
  method : List UInt8
  path : List UInt8
  protocol : List UInt8
  methodSize : method.length = 50
  pathSize : path.length = 4096
  protocolSize : protocol.length = 32

/-- `conn_readcb`, without a value where it leaves an array. -/
def connReadcb
    (site : Site) (fuel : Nat) (arrays : ConnArrays) (bytes : List UInt8) :
    Option (Option Answer) :=
  let buf := connBuffer bytes
  let fields := scanFields connFormat (cstr buf 0)
  if Terminated buf 0 then
    (storeWord arrays.method fields[0]?).bind fun method =>
      (storeWord arrays.path fields[1]?).bind fun path =>
        (storeWord arrays.protocol fields[2]?).bind fun _ =>
          if strcasecmp method 0 (ascii "GET") then
            responseHttp site fuel method path
          else
            some none
  else
    none

/-- The calls for one connection, each with its arrays and with what has
arrived. -/
def readCallbacks (site : Site) (fuel : Nat) :
    List (ConnArrays × List UInt8) → Option (List Answer)
  | [] => some []
  | (arrays, bytes) :: later =>
      (connReadcb site fuel arrays bytes).bind fun answer =>
        (readCallbacks site fuel later).map (answer.toList ++ ·)

/-- The calls come back and have produced these responses. -/
def Responds
    (site : Site) (turns : List (ConnArrays × List UInt8))
    (responses : List (List UInt8)) : Prop :=
  ∃ fuel answers, readCallbacks site fuel turns = some answers ∧
    answers.map Answer.bytes = responses

/-- The pieces get the response that the whole gets in one call, and no other,
whatever is in the arrays. -/
def OneResponse (bytes : List UInt8) (pieces : List (List UInt8)) : Prop :=
  ∀ (site : Site) (whole : ConnArrays) (response : List UInt8),
    Responds site [(whole, bytes)] [response] →
      ∀ turns : List (ConnArrays × List UInt8),
        turns.map Prod.snd = pieces → Responds site turns [response]

/-- The bytes of a request with the method `GET`. -/
def requestBytes
    (target version : List UInt8) (headers : List (List UInt8)) :
    List UInt8 :=
  ascii "GET" ++ 32 :: (target ++ 32 :: (version ++
    13 :: 10 :: headerBytes headers))

structure Request where
  target : List UInt8
  version : List UInt8
  headers : List (List UInt8)
  visible : ∀ byte ∈ target, 32 < byte
  nonempty : target ≠ []
  isVersion : version = ascii "HTTP/1.0" ∨ version = ascii "HTTP/1.1"
  headerLines : ∀ header ∈ headers, HeaderLine header
  short : (requestBytes target version headers).length ≤ 4000

def Request.bytes (request : Request) : List UInt8 :=
  requestBytes request.target request.version request.headers

/-- The first word is `GET`, in any case. -/
def IsGet (bytes : List UInt8) : Prop :=
  SameIgnoringCase (field stopsAtBlank (cText bytes)) (ascii "GET")

instance (bytes : List UInt8) : Decidable (IsGet bytes) := by
  unfold IsGet
  infer_instance

def nameOf (bytes : List UInt8) : List UInt8 :=
  targetName (field stopsAtBlank (behind stopsAtBlank (cText bytes)))

/-- Every piece has words that fit, and one piece alone is a `GET`, with a
word that gives the name of the request. -/
structure CarriedByOne
    (request : Request) (pieces : List (List UInt8)) : Prop where
  fit : ∀ piece ∈ pieces, ConnFits piece
  one :
    ∃ piece, pieces.filter (fun piece => decide (IsGet piece)) = [piece] ∧
      nameOf piece = targetName request.target

theorem words_of_connFormat
    {text : List UInt8} (nonempty : field stopsAtBlank text ≠ []) :
    Words connFormat stopsAtBlank stopsAtBlank stopsAtLineEnd text :=
  words_of_three ⟨stopsAtBlank, 50⟩ ⟨stopsAtBlank, 4096⟩
    ⟨stopsAtLineEnd, 32⟩ white_of_stopsAtBlank white_of_stopsAtLineEnd
    nonempty

/-- What a call does with bytes whose words fit. -/
theorem connReadcb_of_fits
    {bytes : List UInt8} (received : bytes.length ≤ 4096)
    (fits : ConnFits bytes) (site : Site) (fuel : Nat)
    (arrays : ConnArrays) :
    connReadcb site fuel arrays bytes =
      if IsGet bytes then
        (answerName site fuel (nameOf bytes)).map some
      else
        some none := by
  have nulFree : 0 ∉ cText bytes := cstr_nul_free bytes 0
  have terminated : Terminated (connBuffer bytes) 0 :=
    (terminated_connBuffer_iff received).mpr fits.terminated
  have methodRoom := arrays.methodSize
  have pathRoom := arrays.pathSize
  have protocolRoom := arrays.protocolSize
  have methodNulFree := nul_free_field stopsAtBlank nulFree
  have textLt := length_cText_lt received fits.terminated
  have pathLe :=
    length_field_le stopsAtBlank (behind stopsAtBlank (cText bytes))
  have behindLe := length_behind_le stopsAtBlank (cText bytes)
  have methodShort := fits.method_short
  have words := words_of_connFormat fits.method
  obtain ⟨protocol, storedProtocol⟩ :
      ∃ stored, storeWord arrays.protocol
        (scanFields connFormat (cText bytes))[2]? = some stored := by
    rw [storeWord_isSome_iff]
    intro word isWord
    obtain ⟨_, rfl⟩ := (words.third_iff word).mp isWord
    rw [protocolRoom]
    exact fits.protocol
  simp only [connReadcb, cstr_connBuffer, if_pos terminated, words.first_eq,
    words.second_eq, storedProtocol, Option.bind_some]
  rw [storeWord_of_lt (by omega), Option.bind_some]
  have isGet_iff :=
    strcasecmp_stored (ascii "GET") methodNulFree
      (arrays.method.drop
        ((field stopsAtBlank (cText bytes)).length + 1))
  by_cases noSecond : behind stopsAtBlank (cText bytes) = []
  · have notGet : ¬ IsGet bytes := fun isGet => fits.path isGet noSecond
    rw [if_pos noSecond, if_neg notGet]
    show (if _ then _ else _) = _
    rw [if_neg fun same => notGet (isGet_iff.mp same)]
  · have target : field stopsAtBlank (behind stopsAtBlank (cText bytes)) ≠ [] :=
      fun empty =>
        noSecond ((field_eq_nil_iff white_of_stopsAtBlank).mp empty)
    have string :=
      stringAt_stored
        (nul_free_field stopsAtBlank (nul_free_behind stopsAtBlank nulFree))
        (arrays.path.drop
          ((field stopsAtBlank
            (behind stopsAtBlank (cText bytes))).length + 1))
    rw [if_neg noSecond, storeWord_of_lt (by omega), Option.bind_some]
    by_cases isGet : IsGet bytes
    · rw [if_pos isGet, if_pos (isGet_iff.mpr isGet),
        responseHttp_eq site fuel _ string target,
        if_pos (isGet_iff.mpr isGet)]
      rfl
    · rw [if_neg isGet, if_neg fun same => isGet (isGet_iff.mp same)]

/-- What the stack may hold: the method of an earlier request, and a path
without an end. -/
def leftArrays : ConnArrays where
  method := [71, 69, 84, 0] ++ List.replicate 46 97
  path := List.replicate 4096 97
  protocol := List.replicate 32 97
  methodSize := by decide
  pathSize := List.length_replicate
  protocolSize := List.length_replicate

theorem responseHttp_left
    (site : Site) (fuel : Nat) {method : List UInt8}
    (isGet : strcasecmp method 0 (ascii "GET") = true) :
    responseHttp site fuel method leftArrays.path = none := by
  unfold responseHttp
  rw [if_pos isGet]
  exact congrArg (Option.bind · _) (decodeInPlace_replicate _ 4096 0)

/-- A call that comes back whatever is in the arrays has words that fit. -/
theorem connFits_of_connReadcb
    {bytes : List UInt8} (received : bytes.length ≤ 4096) {site : Site}
    {fuel : Nat} {result : Option Answer}
    (returned : connReadcb site fuel leftArrays bytes = some result) :
    ConnFits bytes := by
  have nulFree : 0 ∉ cText bytes := cstr_nul_free bytes 0
  simp only [connReadcb, cstr_connBuffer] at returned
  split at returned
  case isFalse => cases returned
  case isTrue terminated =>
    obtain ⟨method, storedMethod, returned⟩ :=
      Option.bind_eq_some_iff.mp returned
    obtain ⟨path, storedPath, returned⟩ :=
      Option.bind_eq_some_iff.mp returned
    obtain ⟨protocol, storedProtocol, returned⟩ :=
      Option.bind_eq_some_iff.mp returned
    have nonempty : field stopsAtBlank (cText bytes) ≠ [] := by
      intro empty
      have nothing : scanFields connFormat (cText bytes) = [] :=
        if_pos empty
      rw [nothing] at storedMethod storedPath
      cases storedMethod
      cases storedPath
      rw [if_pos (by decide +kernel),
        responseHttp_left site fuel (by decide +kernel)] at returned
      cases returned
    have words := words_of_connFormat nonempty
    have methodShort := storeWord_isSome_iff.mp ⟨method, storedMethod⟩
    have protocolShort := storeWord_isSome_iff.mp ⟨protocol, storedProtocol⟩
    have short : (field stopsAtBlank (cText bytes)).length < 50 :=
      methodShort _ words.first_eq
    refine
      ⟨(terminated_connBuffer_iff received).mp terminated, nonempty, short,
        ?_, ?_⟩
    · intro isGet noSecond
      rw [words.first_eq, storeWord_of_lt short] at storedMethod
      rw [words.second_eq, if_pos noSecond] at storedPath
      cases storedMethod
      cases storedPath
      have same :=
        (strcasecmp_stored (ascii "GET")
          (nul_free_field stopsAtBlank nulFree)
          (leftArrays.method.drop
            ((field stopsAtBlank (cText bytes)).length + 1))).mpr isGet
      rw [if_pos same, responseHttp_left site fuel same] at returned
      cases returned
    · by_cases noThird :
          behind stopsAtBlank (behind stopsAtBlank (cText bytes)) = []
      · rw [noThird]
        decide
      · exact protocolShort _ ((words.third_iff _).mpr ⟨noThird, rfl⟩)

section Calls

variable {site : Site} {fuel : Nat}
  {turns : List (ConnArrays × List UInt8)}

theorem fit_of_readCallbacks
    {pieces : List (List UInt8)}
    (received : ∀ piece ∈ pieces, piece.length ≤ 4096)
    {answers : List Answer}
    (returned :
      readCallbacks site fuel (pieces.map (Prod.mk leftArrays)) =
        some answers) :
    ∀ piece ∈ pieces, ConnFits piece := by
  induction pieces generalizing answers with
  | nil =>
      intro piece impossible
      cases impossible
  | cons piece pieces inductionHypothesis =>
      obtain ⟨short, others⟩ := List.forall_mem_cons.mp received
      obtain ⟨answer, first, later⟩ := Option.bind_eq_some_iff.mp returned
      obtain ⟨rest, returnedLater, _⟩ := Option.map_eq_some_iff.mp later
      exact
        List.forall_mem_cons.mpr
          ⟨connFits_of_connReadcb short first,
            inductionHypothesis others returnedLater⟩

/-- Where the words of each piece fit, the pieces that are a `GET` have an
answer each. -/
theorem readCallbacks_eq_some_iff
    (fit : ∀ turn ∈ turns, turn.2.length ≤ 4096 ∧ ConnFits turn.2)
    {answers : List Answer} :
    readCallbacks site fuel turns = some answers ↔
      ((turns.map Prod.snd).filter fun piece => decide (IsGet piece)).map
          (fun piece => answerName site fuel (nameOf piece)) =
        answers.map some := by
  induction turns generalizing answers with
  | nil =>
      rw [readCallbacks, Option.some_inj]
      constructor
      · rintro rfl
        rfl
      · intro nothing
        exact (List.map_eq_nil_iff.mp nothing.symm).symm
  | cons turn turns inductionHypothesis =>
      obtain ⟨arrays, bytes⟩ := turn
      obtain ⟨⟨received, fits⟩, others⟩ := List.forall_mem_cons.mp fit
      rw [readCallbacks, connReadcb_of_fits received fits, List.map_cons,
        List.filter_cons]
      by_cases isGet : IsGet bytes
      · rw [if_pos isGet, if_pos (decide_eq_true isGet), List.map_cons]
        cases answered : answerName site fuel (nameOf bytes) with
        | none =>
            refine iff_of_false nofun ?_
            intro impossible
            cases answers with
            | nil => cases impossible
            | cons first rest => cases impossible
        | some answer =>
            rw [Option.map_some, Option.bind_some, Option.map_eq_some_iff]
            constructor
            · rintro ⟨rest, returned, rfl⟩
              rw [(inductionHypothesis others).mp returned]
              rfl
            · intro same
              cases answers with
              | nil => cases same
              | cons first rest =>
                  obtain ⟨isFirst, later⟩ := List.cons.inj same
                  cases isFirst
                  exact ⟨rest, (inductionHypothesis others).mpr later, rfl⟩
      · rw [if_neg isGet,
          if_neg fun impossible => isGet (of_decide_eq_true impossible),
          Option.bind_some, ← inductionHypothesis others]
        cases readCallbacks site fuel turns with
        | none => exact iff_of_false nofun nofun
        | some rest => exact Iff.rfl

end Calls

theorem visible_spec {byte : UInt8} (visible : 32 < byte) :
    isspace byte = false ∧ stopsAtBlank byte = false ∧ byte ≠ 0 := by
  have large : 32 < byte.toNat := UInt8.lt_iff_toNat_lt.mp visible
  refine ⟨?_, ?_, ?_⟩
  · rw [Bool.eq_false_iff]
    intro white
    rw [isspace, Bool.or_eq_true, Bool.and_eq_true, beq_iff_eq,
      decide_eq_true_iff, decide_eq_true_iff, UInt8.le_iff_toNat_le,
      UInt8.le_iff_toNat_le] at white
    rcases white with rfl | ⟨_, upper⟩
    · exact absurd large (by decide)
    · exact absurd (Nat.lt_of_lt_of_le large upper) (by decide)
  · rw [Bool.eq_false_iff]
    intro blank
    rw [stopsAtBlank, beq_iff_eq] at blank
    rw [blank] at large
    exact absurd large (by decide)
  · rintro rfl
    exact absurd large (by decide)

theorem cText_append
    {text : List UInt8} (nulFree : 0 ∉ text) (rest : List UInt8) :
    cText (text ++ rest) = text ++ cText rest := by
  unfold cText
  apply List.takeWhile_append_of_pos
  intro byte member
  rw [decide_eq_true_iff]
  rintro rfl
  exact nulFree member

theorem dropWhile_visible
    {word : List UInt8} (visible : ∀ byte ∈ word, 32 < byte)
    (nonempty : word ≠ []) (rest : List UInt8) :
    (word ++ rest).dropWhile isspace = word ++ rest := by
  cases word with
  | nil => exact absurd rfl nonempty
  | cons first word =>
      have isVisible := visible first List.mem_cons_self
      apply List.dropWhile_cons_of_neg
      rw [(visible_spec isVisible).1]
      exact Bool.false_ne_true

namespace Request

variable (request : Request)

/-- The text of the request, up to a NUL in its headers. -/
theorem cText_bytes :
    cText request.bytes =
      ascii "GET" ++ 32 :: (request.target ++ 32 :: (request.version ++
        13 :: 10 :: cText (headerBytes request.headers))) := by
  have targetNulFree : 0 ∉ request.target := fun member =>
    (visible_spec (request.visible 0 member)).2.2 rfl
  have versionNulFree : 0 ∉ request.version := by
    rcases request.isVersion with isVersion | isVersion
    · rw [isVersion]
      decide
    · rw [isVersion]
      decide
  show cText ([71, 69, 84, 32] ++ (request.target ++ ([32] ++
    (request.version ++ ([13, 10] ++ _))))) = _
  rw [cText_append (by decide), cText_append targetNulFree,
    cText_append (by decide), cText_append versionNulFree,
    cText_append (by decide)]
  rfl

theorem version_spec :
    (∀ byte ∈ request.version, 32 < byte) ∧ request.version ≠ [] ∧
      (∀ byte ∈ request.version, stopsAtLineEnd byte = false) ∧
        request.version.length = 8 := by
  rcases request.isVersion with isVersion | isVersion
  · rw [isVersion]
    decide +kernel
  · rw [isVersion]
    decide +kernel

theorem method_eq :
    field stopsAtBlank (cText request.bytes) = ascii "GET" := by
  rw [request.cText_bytes]
  exact field_append (by decide +kernel) rfl _

theorem behind_eq :
    behind stopsAtBlank (cText request.bytes) =
      request.target ++ 32 :: (request.version ++
        13 :: 10 :: cText (headerBytes request.headers)) := by
  rw [request.cText_bytes, behind_append (by decide +kernel) rfl rfl]
  exact dropWhile_visible request.visible request.nonempty _

theorem nameOf_bytes : nameOf request.bytes = targetName request.target := by
  unfold nameOf
  rw [request.behind_eq, field_append _ rfl]
  exact fun byte member => (visible_spec (request.visible byte member)).2.1

theorem isGet_bytes : IsGet request.bytes := by
  unfold IsGet
  rw [request.method_eq]
  exact rfl

theorem connFits_bytes : ConnFits request.bytes := by
  obtain ⟨visible, nonempty, noEnd, length⟩ := request.version_spec
  constructor
  · exact Or.inl (Nat.lt_of_le_of_lt request.short (by decide))
  · rw [request.method_eq]
    decide
  · rw [request.method_eq]
    decide
  · intro _
    rw [request.behind_eq]
    exact List.append_ne_nil_of_left_ne_nil request.nonempty _
  · rw [request.behind_eq, behind_append _ rfl rfl,
      dropWhile_visible visible nonempty, field_append noEnd rfl, length]
    · decide
    · exact fun byte member =>
        (visible_spec (request.visible byte member)).2.1

end Request

/-! ## The whole and its pieces -/

/-- One empty file has the name, and nothing else is there but an empty
`404.html`. -/
def nameSite (name : List UInt8) : Site where
  stat := fun other => if other = name then some ⟨false, 0⟩ else none
  scandir := fun _ => []
  openFile := fun _ => emptyFile

theorem written_emptyFile
    {fuel : Nat} {calls : List FileCall}
    (sent : sendFileToHttp fuel emptyFile = some calls) :
    calls.flatMap FileCall.written = [] := by
  cases fuel with
  | zero => cases sent
  | succ fuel =>
      unfold sendFileToHttp at sent
      rw [sendFileLoop_of_end rfl] at sent
      cases sent
      rfl

theorem sendHeader_ne
    (desp type other kind : List UInt8) (len size : Int) :
    sendHeader 404 desp type len ≠ sendHeader 200 other kind size := by
  intro same
  unfold sendHeader at same
  simp only [List.append_assoc] at same
  have digits := List.append_cancel_left same
  rw [show decimal 404 = [52, 48, 52] by decide,
    show decimal 200 = [50, 48, 48] by decide] at digits
  exact absurd (List.cons.inj digits).1 (by decide)

theorem bytes_nameSite
    {name other : List UInt8} {fuel : Nat} {answer : Answer}
    (answered : answerName (nameSite name) fuel other = some answer) :
    answer.bytes =
      if other = name then
        sendHeader 200 (ascii "OK") (getFileType name) 0
      else
        sendHeader 404 (ascii "File Not Found") (ascii "text/html") (-1) := by
  unfold answerName nameSite at answered
  by_cases same : other = name
  · subst same
    simp only [if_true] at answered
    obtain ⟨calls, sent, rfl⟩ := Option.map_eq_some_iff.mp answered
    rw [if_pos rfl, Answer.bytes]
    simp only [written_emptyFile sent, List.append_nil]
  · simp only [if_neg same] at answered
    obtain ⟨calls, sent, rfl⟩ := Option.map_eq_some_iff.mp answered
    rw [if_neg same, Answer.bytes]
    simp only [written_emptyFile sent, List.append_nil]

theorem length_le_of_mem_flatten
    {pieces : List (List UInt8)} {piece : List UInt8}
    (member : piece ∈ pieces) : piece.length ≤ pieces.flatten.length :=
  (List.sublist_flatten_of_mem member).length_le

/-- The answer to the whole is the one to its name. -/
theorem responds_whole_iff
    (request : Request) {site : Site} {whole : ConnArrays}
    {response : List UInt8} :
    Responds site [(whole, request.bytes)] [response] ↔
      ∃ fuel answer,
        answerName site fuel (targetName request.target) = some answer ∧
          answer.bytes = response := by
  have fit :
      ∀ turn ∈ [(whole, request.bytes)],
        turn.2.length ≤ 4096 ∧ ConnFits turn.2 := by
    intro turn member
    cases List.mem_singleton.mp member
    exact
      ⟨Nat.le_trans request.short (by decide), request.connFits_bytes⟩
  unfold Responds
  simp only [readCallbacks_eq_some_iff fit, List.map_cons, List.map_nil,
    List.filter_cons, decide_eq_true request.isGet_bytes, if_true,
    List.filter_nil, request.nameOf_bytes]
  constructor
  · rintro ⟨fuel, answers, answered, bytes⟩
    obtain ⟨answer, rfl, isResponse⟩ := List.map_eq_singleton_iff.mp bytes
    exact ⟨fuel, answer, (List.cons.inj answered).1, isResponse⟩
  · rintro ⟨fuel, answer, answered, rfl⟩
    exact ⟨fuel, [answer], congrArg (fun first => [first]) answered, rfl⟩

section Pieces

variable {request : Request} {pieces : List (List UInt8)}
  (split : pieces.flatten = request.bytes)
include split

theorem received_of_split : ∀ piece ∈ pieces, piece.length ≤ 4096 := by
  intro piece member
  have inside := length_le_of_mem_flatten member
  rw [split] at inside
  exact Nat.le_trans inside (Nat.le_trans request.short (by decide))

theorem oneResponse_of_carriedByOne (carried : CarriedByOne request pieces) :
    OneResponse request.bytes pieces := by
  intro site whole response responds turns isPieces
  obtain ⟨fuel, answer, answered, isResponse⟩ :=
    (responds_whole_iff request).mp responds
  obtain ⟨piece, only, name⟩ := carried.one
  have fit :
      ∀ turn ∈ turns, turn.2.length ≤ 4096 ∧ ConnFits turn.2 := by
    intro turn member
    have isPiece : turn.2 ∈ pieces := by
      rw [← isPieces]
      exact List.mem_map_of_mem member
    exact
      ⟨received_of_split split _ isPiece, carried.fit _ isPiece⟩
  refine ⟨fuel, [answer], ?_, congrArg (fun first => [first]) isResponse⟩
  rw [readCallbacks_eq_some_iff fit, isPieces, only]
  show [answerName site fuel (nameOf piece)] = [some answer]
  rw [name, answered]

/-- A site on which another name has another answer. -/
theorem carriedByOne_of_oneResponse
    (one : OneResponse request.bytes pieces) :
    CarriedByOne request pieces := by
  have received := received_of_split split
  have whole :
      Responds (nameSite (targetName request.target))
        [(leftArrays, request.bytes)]
        [sendHeader 200 (ascii "OK")
          (getFileType (targetName request.target)) 0] := by
    rw [responds_whole_iff request]
    refine
      ⟨1, ⟨sendHeader 200 (ascii "OK")
        (getFileType (targetName request.target)) 0,
          .file [.read .endOfFile]⟩, ?_, List.append_nil _⟩
    unfold answerName nameSite
    simp only [if_true]
    rfl
  have snd : (pieces.map (Prod.mk leftArrays)).map Prod.snd = pieces := by
    rw [List.map_map]
    exact List.map_id pieces
  obtain ⟨fuel, answers, returned, bytes⟩ := one _ _ _ whole _ snd
  have fit := fit_of_readCallbacks received returned
  have turnsFit :
      ∀ turn ∈ pieces.map (Prod.mk leftArrays),
        turn.2.length ≤ 4096 ∧ ConnFits turn.2 := by
    intro turn member
    obtain ⟨piece, isPiece, rfl⟩ := List.mem_map.mp member
    exact ⟨received piece isPiece, fit piece isPiece⟩
  have answered := (readCallbacks_eq_some_iff turnsFit).mp returned
  rw [snd] at answered
  obtain ⟨answer, rfl, isResponse⟩ := List.map_eq_singleton_iff.mp bytes
  obtain ⟨piece, only, isAnswer⟩ := List.map_eq_singleton_iff.mp answered
  refine ⟨fit, piece, only, ?_⟩
  by_contra different
  have other := bytes_nameSite isAnswer
  rw [if_neg different, isResponse] at other
  exact sendHeader_ne _ _ _ _ _ _ other.symm

end Pieces

/-- A `GET` that arrives in pieces gets the one response of the whole exactly
where one piece alone carries it. -/
theorem answered_once_iff
    (request : Request) (pieces : List (List UInt8))
    (split : pieces.flatten = request.bytes) :
    OneResponse request.bytes pieces ↔ CarriedByOne request pieces :=
  ⟨carriedByOne_of_oneResponse split, oneResponse_of_carriedByOne split⟩

/-- `"GET /index.html HTTP/1.1"` without headers. -/
def indexRequest : Request where
  target := ascii "/index.html"
  version := ascii "HTTP/1.1"
  headers := []
  visible := by decide +kernel
  nonempty := by decide
  isVersion := Or.inr rfl
  headerLines := by
    intro header impossible
    cases impossible
  short := by decide

theorem answered_once_iff_index :
    OneResponse indexRequest.bytes
        [ascii "GET /ind", ascii "ex.html HTTP/1.1\r\n\r\n"] ↔
      CarriedByOne indexRequest
        [ascii "GET /ind", ascii "ex.html HTTP/1.1\r\n\r\n"] :=
  answered_once_iff indexRequest
    [ascii "GET /ind", ascii "ex.html HTTP/1.1\r\n\r\n"] (by decide)

/-- Cut behind `"GET /ind"`, the request is answered for `"ind"`. -/
theorem not_answered_once :
    ¬ ∀ (request : Request) (pieces : List (List UInt8)),
        pieces.flatten = request.bytes →
          OneResponse request.bytes pieces := by
  intro claimed
  have split :
      [ascii "GET /ind", ascii "ex.html HTTP/1.1\r\n\r\n"].flatten =
        indexRequest.bytes := by
    decide
  have carried :=
    carriedByOne_of_oneResponse split (claimed indexRequest _ split)
  obtain ⟨piece, only, name⟩ := carried.one
  have first : [ascii "GET /ind"] = [piece] := by
    rw [← only]
    decide +kernel
  cases first
  exact absurd name (by decide +kernel)

end LinuxNet.HttpServer.Libevent
