import LinuxNet.Lib.Scanset
import LinuxNet.HttpServer.Chunks
import LinuxNet.HttpServer.DoRead
import LinuxNet.HttpServer.LinkRoundTrip

/-!
# The conversions of both servers

`http_request` and `conn_readcb` split what the client sent with `sscanf`,
without a width in any conversion.  The path always fits into its array, since
the source is no longer than it; the method and the protocol need not, and a
text with too few words leaves an array without a value that is read
afterwards.
-/

namespace LinuxNet.HttpServer

open LinuxNet.CString LinuxNet.Scanset LinuxNet.Buffer LinuxNet.WebServer

/-- The set of `%[^ ]`. -/
def stopsAtBlank (byte : UInt8) : Bool :=
  byte == 32

/-- The set of `%[^ \r\n]`. -/
def stopsAtLineEnd (byte : UInt8) : Bool :=
  byte == 32 || byte == 13 || byte == 10

/-- `"%[^ ] %[^ ] %[^ ]"` into `method`, `path` and `protocol` of
`http_request`. -/
def requestFormat : List Conversion :=
  [⟨stopsAtBlank, 12⟩, ⟨stopsAtBlank, 1024⟩, ⟨stopsAtBlank, 12⟩]

/-- `"%[^ ] %[^ ] %[^ \r\n]"` into the arrays of `conn_readcb`. -/
def connFormat : List Conversion :=
  [⟨stopsAtBlank, 50⟩, ⟨stopsAtBlank, 4096⟩, ⟨stopsAtLineEnd, 32⟩]

/-- `line` of `do_read`, behind the call of `get_line`. -/
def requestLine (outcomes : Nat → RecvOutcome) (sock : Sock) : List UInt8 :=
  (getLineInto outcomes 1024 (List.replicate 1024 0) sock).buf

/-- `buf` of `conn_readcb`, behind the call of `bufferevent_read`. -/
def connBuffer (bytes : List UInt8) : List UInt8 :=
  placed (List.replicate 4096 0) 0 bytes

/-- `decode_str` and `strcmp` read the path of every request. -/
structure HttpRequestSafe (line : List UInt8) : Prop where
  inside : StaysInside requestFormat line
  path_assigned : 2 ≤ (scanFields requestFormat (cstr line 0)).length

/-- `strcasecmp` reads the method of every text, and `strdecode` the path
where the method is `GET`. -/
structure ConnReadcbSafe (buf : List UInt8) : Prop where
  inside : StaysInside connFormat buf
  method_assigned : 1 ≤ (scanFields connFormat (cstr buf 0)).length
  path_assigned :
    ∀ method ∈ (scanFields connFormat (cstr buf 0)).head?,
      SameIgnoringCase method (ascii "GET") →
        2 ≤ (scanFields connFormat (cstr buf 0)).length

/-- The words of a request line: the first and the third one have fewer than
12 bytes, and there is a second one. -/
structure WordsFit (text : List UInt8) : Prop where
  method : (field stopsAtBlank text).length < 12
  path : behind stopsAtBlank text ≠ []
  protocol :
    (field stopsAtBlank
      (behind stopsAtBlank (behind stopsAtBlank text))).length < 12

/-- There is room for the terminator of what was read; the first word is
there and has fewer than 50 bytes, and the third one, which may also end with
the line, has fewer than 32; a method `GET` has a word behind it. -/
structure ConnFits (bytes : List UInt8) : Prop where
  terminated : bytes.length < 4096 ∨ 0 ∈ bytes
  method : field stopsAtBlank (cText bytes) ≠ []
  method_short : (field stopsAtBlank (cText bytes)).length < 50
  path :
    SameIgnoringCase (field stopsAtBlank (cText bytes)) (ascii "GET") →
      behind stopsAtBlank (cText bytes) ≠ []
  protocol :
    (field stopsAtLineEnd
      (behind stopsAtBlank (behind stopsAtBlank (cText bytes)))).length < 32

theorem white_of_stopsAtBlank (byte : UInt8) (stops : stopsAtBlank byte) :
    isspace byte := by
  rw [stopsAtBlank, beq_iff_eq] at stops
  rw [stops]
  rfl

theorem white_of_stopsAtLineEnd
    (byte : UInt8) (stops : stopsAtLineEnd byte) : isspace byte := by
  rw [stopsAtLineEnd, Bool.or_eq_true, Bool.or_eq_true] at stops
  simp only [beq_iff_eq] at stops
  rcases stops with (rfl | rfl) | rfl
  · rfl
  · rfl
  · rfl

/-! ## Stored words -/

theorem storeWord_of_lt
    {memory word : List UInt8} (fits : word.length < memory.length) :
    storeWord memory (some word) =
      some (word ++ 0 :: memory.drop (word.length + 1)) :=
  if_pos fits

theorem stringAt_stored
    {word : List UInt8} (nulFree : 0 ∉ word) (tail : List UInt8) :
    StringAt (word ++ 0 :: tail) 0 word :=
  StringAt.of_drop_eq rfl nulFree

theorem strcasecmp_stored
    (text : List UInt8) {word : List UInt8} (nulFree : 0 ∉ word)
    (tail : List UInt8) :
    strcasecmp (word ++ 0 :: tail) 0 text = true ↔
      SameIgnoringCase word text := by
  unfold strcasecmp
  rw [(stringAt_stored nulFree tail).cstr_eq, decide_eq_true_iff]

/-- A word is stored wherever it fits. -/
theorem storeWord_isSome_iff
    {memory : List UInt8} {word : Option (List UInt8)} :
    (∃ stored, storeWord memory word = some stored) ↔
      ∀ text ∈ word, text.length < memory.length := by
  cases word with
  | none =>
      refine iff_of_true ⟨memory, rfl⟩ ?_
      intro text impossible
      cases impossible
  | some word =>
      rw [storeWord]
      split
      · next fits =>
          refine iff_of_true ⟨_, rfl⟩ ?_
          intro text isWord
          cases isWord
          exact fits
      · next tooLong =>
          refine iff_of_false ?_ fun fits => tooLong (fits word rfl)
          rintro ⟨stored, impossible⟩
          cases impossible

/-- The words of `requestFormat` are those of the model of `http_request`. -/
theorem scanFields_eq_sscanfWords
    {conversions : List Conversion}
    (blank : ∀ conversion ∈ conversions, conversion.stops = stopsAtBlank)
    (text : List UInt8) :
    scanFields conversions text = sscanfWords conversions.length text := by
  induction conversions generalizing text with
  | nil => rfl
  | cons conversion later inductionHypothesis =>
      obtain ⟨isBlank, others⟩ := List.forall_mem_cons.mp blank
      have word : field stopsAtBlank text = text.takeWhile (· ≠ 32) := by
        unfold field stopsAtBlank
        congr 1
        funext byte
        by_cases same : byte = 32
        · simp [same]
        · simp [same]
      have rest :
          behind stopsAtBlank text =
            (text.drop (text.takeWhile (· ≠ 32)).length).dropWhile
              isspace := by
        rw [← word, drop_length_field]
        rfl
      rw [scanFields, List.length_cons, sscanfWords, isBlank,
        inductionHypothesis others, word, rest]

theorem words_of_requestFormat
    {text : List UInt8} (nonempty : field stopsAtBlank text ≠ []) :
    Words requestFormat stopsAtBlank stopsAtBlank stopsAtBlank text :=
  words_of_three ⟨stopsAtBlank, 12⟩ ⟨stopsAtBlank, 1024⟩
    ⟨stopsAtBlank, 12⟩ white_of_stopsAtBlank white_of_stopsAtBlank nonempty

theorem sscanfWords_three (text : List UInt8) :
    sscanfWords 3 text = scanFields requestFormat text := by
  have blank :
      ∀ conversion ∈ requestFormat, conversion.stops = stopsAtBlank := by
    intro conversion member
    simp only [requestFormat, List.mem_cons, List.not_mem_nil, or_false]
      at member
    rcases member with rfl | rfl | rfl
    · rfl
    · rfl
    · rfl
  exact (scanFields_eq_sscanfWords blank text).symm

/-- `http_request` comes to the name that the second word stands for. -/
theorem requestedFile_of_wordsFit
    (arrays : RequestArrays) {request : List UInt8} (nulFree : 0 ∉ request)
    (short : request.length < 1024)
    (nonempty : field stopsAtBlank request ≠ [])
    (fits : WordsFit request) :
    requestedFile arrays request =
      some
        ⟨field stopsAtBlank request,
          requestedName [ascii "/"]
            (field stopsAtBlank (behind stopsAtBlank request))⟩ := by
  have methodRoom := arrays.methodSize
  have pathRoom := arrays.pathSize
  have protocolRoom := arrays.protocolSize
  have words := words_of_requestFormat nonempty
  have second := words.second_eq
  rw [if_neg fits.path] at second
  have target :
      field stopsAtBlank (behind stopsAtBlank request) ≠ [] :=
    fun empty =>
      fits.path ((field_eq_nil_iff white_of_stopsAtBlank).mp empty)
  have pathLe := length_field_le stopsAtBlank (behind stopsAtBlank request)
  have behindLe := length_behind_le stopsAtBlank request
  have methodShort := fits.method
  obtain ⟨protocol, storedProtocol⟩ :
      ∃ stored, storeWord arrays.protocol
        (scanFields requestFormat request)[2]? = some stored := by
    rw [storeWord_isSome_iff]
    intro word isWord
    obtain ⟨_, rfl⟩ := (words.third_iff word).mp isWord
    rw [protocolRoom]
    exact fits.protocol
  have string :=
    stringAt_stored
      (nul_free_field stopsAtBlank (nul_free_behind stopsAtBlank nulFree))
      (arrays.path.drop
        ((field stopsAtBlank (behind stopsAtBlank request)).length + 1))
  obtain ⟨decoded, decodedEq, atFirst, atSecond⟩ :=
    decoded_strings string target
  unfold requestedFile
  simp only [sscanfWords_three, words.first_eq, second, storedProtocol]
  rw [storeWord_of_lt (by omega), Option.bind_some,
    storeWord_of_lt (by omega), Option.bind_some, Option.bind_some,
    decodedEq, Option.map_some, atFirst, atSecond,
    cstr_append_nul _ _ 0 (Nat.zero_le _), List.drop_zero,
    cText_eq_self (nul_free_field stopsAtBlank nulFree)]
  unfold requestedName
  simp only [List.mem_singleton]

/-- What the stack may hold: a path without an end. -/
def endlessArrays : RequestArrays :=
  ⟨List.replicate 12 97, List.replicate 1024 97, List.replicate 12 97,
    List.length_replicate, List.length_replicate, List.length_replicate⟩

theorem wordsFit_of_requestedFile
    {request : List UInt8} (nonempty : field stopsAtBlank request ≠ [])
    {requested : Requested}
    (found : requestedFile endlessArrays request = some requested) :
    WordsFit request := by
  have words := words_of_requestFormat nonempty
  unfold requestedFile at found
  simp only [sscanfWords_three] at found
  obtain ⟨method, storedMethod, found⟩ := Option.bind_eq_some_iff.mp found
  obtain ⟨path, storedPath, found⟩ := Option.bind_eq_some_iff.mp found
  obtain ⟨protocol, storedProtocol, found⟩ :=
    Option.bind_eq_some_iff.mp found
  have methodShort := storeWord_isSome_iff.mp ⟨method, storedMethod⟩
  have protocolShort := storeWord_isSome_iff.mp ⟨protocol, storedProtocol⟩
  refine ⟨methodShort _ words.first_eq, ?_, ?_⟩
  · intro noSecond
    rw [words.second_eq, if_pos noSecond] at storedPath
    cases storedPath
    have endless :
        decodeInPlace (endlessArrays.path.length + 1) endlessArrays.path 0
          0 = none :=
      decodeInPlace_replicate _ 1024 0
    rw [endless] at found
    cases found
  · by_cases noThird : behind stopsAtBlank (behind stopsAtBlank request) = []
    · rw [noThird]
      decide
    · exact protocolShort _ ((words.third_iff _).mpr ⟨noThird, rfl⟩)

theorem terminated_of_placed_set
    {buf text : List UInt8} (fits : text.length < buf.length) :
    Terminated ((placed buf 0 text).set text.length 0) 0 ∧
      cstr ((placed buf 0 text).set text.length 0) 0 = cText text := by
  have shape :
      (placed buf 0 text).set text.length 0 =
        text ++ 0 :: buf.drop (text.length + 1) := by
    rw [placed, List.take_zero, List.nil_append, Nat.zero_add,
      List.set_append_right _ _ (Nat.le_refl _), Nat.sub_self,
      List.drop_eq_getElem_cons fits]
    rfl
  rw [shape]
  constructor
  · exact List.mem_append_right text List.mem_cons_self
  · rw [cstr_append_nul text _ 0 (Nat.zero_le _), List.drop_zero]

theorem length_getLineFrom_le
    (outcomes : Nat → RecvOutcome) (room : Nat) (sock : Sock) :
    (getLineFrom outcomes room sock).buf.length ≤ room := by
  induction room generalizing sock with
  | zero => exact Nat.le_refl 0
  | succ room inductionHypothesis =>
      rcases silent_or_arrives outcomes sock with silent | ⟨byte, arrives⟩
      · rw [getLineFrom_of_silent silent]
        exact Nat.zero_le _
      · by_cases isReturn : byte = 13
        · subst isReturn
          rw [getLineFrom_of_return arrives]
          exact Nat.le_add_left 1 room
        · by_cases isFeed : byte = 10
          · subst isFeed
            rw [getLineFrom_of_feed arrives]
            exact Nat.le_add_left 1 room
          · rw [getLineFrom_of_byte arrives isReturn isFeed]
            exact Nat.succ_le_succ (inductionHypothesis _)

theorem string_requestLine (outcomes : Nat → RecvOutcome) (sock : Sock) :
    Terminated (requestLine outcomes sock) 0 ∧
      cstr (requestLine outcomes sock) 0 =
        cText (getLine outcomes lineSize sock).buf := by
  obtain ⟨_, _, bufEq⟩ :=
    getLineInto_eq outcomes 1024 (List.replicate 1024 0) sock
      (by rw [List.length_replicate])
  unfold requestLine
  rw [bufEq]
  apply terminated_of_placed_set
  rw [List.length_replicate]
  exact Nat.lt_succ_of_le (length_getLineFrom_le outcomes 1023 sock)

theorem length_cText_le (text : List UInt8) :
    (cText text).length ≤ text.length :=
  (List.takeWhile_prefix _).length_le

/-- A text that begins with `get` has a first word. -/
theorem field_ne_nil_of_get
    {text : List UInt8}
    (isGet : SameIgnoringCase (text.take 3) (ascii "get")) :
    field stopsAtBlank text ≠ [] := by
  intro empty
  unfold SameIgnoringCase at isGet
  cases text with
  | nil => exact absurd isGet (by decide)
  | cons first rest =>
      rw [field, List.takeWhile_cons] at empty
      split at empty
      · cases empty
      · next stops =>
          have isBlank : first = 32 := by
            simpa [stopsAtBlank] using stops
          rw [isBlank] at isGet
          have same := congrArg List.head? isGet
          exact absurd same (show ¬ some (lower 32) = some 103 by decide)

theorem httpRequestSafe_iff
    (outcomes : Nat → RecvOutcome) (sock : Sock)
    (isGet :
      strncasecmp (requestLine outcomes sock) 0 (ascii "get") = true) :
    HttpRequestSafe (requestLine outcomes sock) ↔
      WordsFit (cstr (requestLine outcomes sock) 0) := by
  have nonempty := field_ne_nil_of_get (of_decide_eq_true isGet)
  obtain ⟨terminated, textEq⟩ := string_requestLine outcomes sock
  have short : (cstr (requestLine outcomes sock) 0).length ≤ 1023 := by
    rw [textEq]
    exact
      Nat.le_trans (length_cText_le _) (length_getLineFrom_le outcomes _ _)
  have fits :=
    fieldsFit_three_iff ⟨stopsAtBlank, 12⟩ ⟨stopsAtBlank, 1024⟩
      ⟨stopsAtBlank, 12⟩ (cstr (requestLine outcomes sock) 0)
      white_of_stopsAtBlank white_of_stopsAtBlank (by decide) nonempty
  have assigned :=
    two_le_length_scanFields_iff ⟨stopsAtBlank, 12⟩ ⟨stopsAtBlank, 1024⟩
      [⟨stopsAtBlank, 12⟩] (cstr (requestLine outcomes sock) 0)
      white_of_stopsAtBlank nonempty
  constructor
  · intro safe
    obtain ⟨_, fieldsFit⟩ := staysInside_iff.mp safe.inside
    obtain ⟨method, _, protocol⟩ := fits.mp fieldsFit
    exact ⟨method, assigned.mp safe.path_assigned, protocol⟩
  · intro words
    refine ⟨staysInside_iff.mpr ⟨terminated, fits.mpr ?_⟩,
      assigned.mpr words.path⟩
    refine ⟨words.method, fun _ => ?_, words.protocol⟩
    -- The path is a part of a string that has room in an array of its size.
    have pathLe :=
      length_field_le stopsAtBlank
        (behind stopsAtBlank (cstr (requestLine outcomes sock) 0))
    have behindLe :=
      length_behind_le stopsAtBlank (cstr (requestLine outcomes sock) 0)
    have pathShort :
        (field stopsAtBlank
          (behind stopsAtBlank
            (cstr (requestLine outcomes sock) 0))).length < 1024 := by
      omega
    exact pathShort

theorem connBuffer_eq (bytes : List UInt8) :
    connBuffer bytes = bytes ++ List.replicate (4096 - bytes.length) 0 := by
  unfold connBuffer placed
  rw [List.take_zero, List.nil_append, Nat.zero_add, List.drop_replicate]

theorem cstr_connBuffer (bytes : List UInt8) :
    cstr (connBuffer bytes) 0 = cText bytes := by
  rw [connBuffer_eq]
  cases 4096 - bytes.length with
  | zero =>
      rw [List.replicate_zero, List.append_nil]
      rfl
  | succ room =>
      rw [List.replicate_succ, cstr_append_nul bytes _ 0 (Nat.zero_le _)]
      rfl

theorem terminated_connBuffer_iff
    {bytes : List UInt8} (received : bytes.length ≤ 4096) :
    Terminated (connBuffer bytes) 0 ↔
      bytes.length < 4096 ∨ 0 ∈ bytes := by
  unfold Terminated
  rw [connBuffer_eq, List.drop_zero, List.mem_append, List.mem_replicate,
    Or.comm]
  apply or_congr_left
  constructor
  · rintro ⟨room, _⟩
    omega
  · intro shorter
    exact ⟨by omega, rfl⟩

/-- A string in the buffer is shorter than the buffer. -/
theorem length_cText_lt
    {bytes : List UInt8} (received : bytes.length ≤ 4096)
    (terminated : bytes.length < 4096 ∨ 0 ∈ bytes) :
    (cText bytes).length < 4096 := by
  have notLonger := length_cText_le bytes
  rcases terminated with shorter | nul
  · omega
  · have cut : (cText bytes).length ≠ bytes.length := by
      intro same
      have whole : cText bytes = bytes :=
        (List.takeWhile_prefix _).eq_of_length same
      have nulFree : 0 ∉ cText bytes := cstr_nul_free bytes 0
      rw [whole] at nulFree
      exact nulFree nul
    omega

theorem head?_scanFields
    {first : Conversion} {later : List Conversion} {text : List UInt8}
    (nonempty : field first.stops text ≠ []) :
    (scanFields (first :: later) text).head? =
      some (field first.stops text) := by
  rw [scanFields, if_neg nonempty]
  rfl

theorem connReadcbSafe_iff
    {bytes : List UInt8} (received : bytes.length ≤ 4096) :
    ConnReadcbSafe (connBuffer bytes) ↔ ConnFits bytes := by
  have fits :=
    fieldsFit_three_iff ⟨stopsAtBlank, 50⟩ ⟨stopsAtBlank, 4096⟩
      ⟨stopsAtLineEnd, 32⟩ (cText bytes) white_of_stopsAtBlank
      white_of_stopsAtLineEnd (by decide)
  have assigned :=
    two_le_length_scanFields_iff ⟨stopsAtBlank, 50⟩ ⟨stopsAtBlank, 4096⟩
      [⟨stopsAtLineEnd, 32⟩] (cText bytes) white_of_stopsAtBlank
  constructor
  · rintro ⟨inside, methodAssigned, pathAssigned⟩
    rw [cstr_connBuffer] at methodAssigned pathAssigned
    obtain ⟨terminated, fieldsFit⟩ := staysInside_iff.mp inside
    rw [cstr_connBuffer] at fieldsFit
    have nonempty := one_le_length_scanFields_iff.mp methodAssigned
    obtain ⟨method, _, protocol⟩ := (fits nonempty).mp fieldsFit
    refine
      ⟨(terminated_connBuffer_iff received).mp terminated, nonempty, method,
        ?_, protocol⟩
    intro isGet
    exact
      (assigned nonempty).mp
        (pathAssigned _ (head?_scanFields nonempty) isGet)
  · rintro ⟨terminated, nonempty, method, path, protocol⟩
    constructor
    · rw [staysInside_iff, cstr_connBuffer]
      refine ⟨(terminated_connBuffer_iff received).mpr terminated,
        (fits nonempty).mpr ⟨method, fun _ => ?_, protocol⟩⟩
      have pathLe :=
        length_field_le stopsAtBlank (behind stopsAtBlank (cText bytes))
      have behindLe := length_behind_le stopsAtBlank (cText bytes)
      have textLt := length_cText_lt received terminated
      have pathShort :
          (field stopsAtBlank (behind stopsAtBlank (cText bytes))).length <
            4096 := by
        omega
      exact pathShort
    · rw [cstr_connBuffer]
      exact one_le_length_scanFields_iff.mpr nonempty
    · rw [cstr_connBuffer]
      intro word isMethod isGet
      have first : word = field stopsAtBlank (cText bytes) :=
        Option.some.inj (isMethod.symm.trans (head?_scanFields nonempty))
      rw [first] at isGet
      exact (assigned nonempty).mpr (path isGet)

/-- The conversions of both servers are safe for the texts whose words are
there and fit into their arrays, and for no others. -/
theorem conversions_safe_iff
    (outcomes : Nat → RecvOutcome) (sock : Sock) (bytes : List UInt8)
    (isGet :
      strncasecmp (requestLine outcomes sock) 0 (ascii "get") = true)
    (received : bytes.length ≤ 4096) :
    (HttpRequestSafe (requestLine outcomes sock) ↔
        WordsFit (cstr (requestLine outcomes sock) 0)) ∧
      (ConnReadcbSafe (connBuffer bytes) ↔ ConnFits bytes) :=
  ⟨httpRequestSafe_iff outcomes sock isGet, connReadcbSafe_iff received⟩

/-- `"GET / HTTP/1.1"`, as the first line of a stream and as all that was
read. -/
theorem conversions_safe_iff_browser :
    (HttpRequestSafe
          (requestLine allAvailable ⟨ascii "GET / HTTP/1.1\r\n", 0⟩) ↔
        WordsFit
          (cstr
            (requestLine allAvailable ⟨ascii "GET / HTTP/1.1\r\n", 0⟩)
            0)) ∧
      (ConnReadcbSafe (connBuffer (ascii "GET / HTTP/1.1\r\n")) ↔
        ConnFits (ascii "GET / HTTP/1.1\r\n")) :=
  conversions_safe_iff allAvailable ⟨ascii "GET / HTTP/1.1\r\n", 0⟩
    (ascii "GET / HTTP/1.1\r\n")
    (by
      unfold strncasecmp
      rw [(string_requestLine _ _).2]
      decide +kernel)
    (by decide)

/-- The method `GETAAAAAAAAAAAA` runs over its array. -/
theorem conversions_not_safe :
    ¬ ((∀ (outcomes : Nat → RecvOutcome) (sock : Sock),
          strncasecmp (requestLine outcomes sock) 0 (ascii "get") = true →
            HttpRequestSafe (requestLine outcomes sock)) ∧
        ∀ bytes : List UInt8, bytes.length ≤ 4096 →
          ConnReadcbSafe (connBuffer bytes)) := by
  rintro ⟨safe, _⟩
  have isGet :
      strncasecmp
        (requestLine allAvailable
          ⟨ascii "GETAAAAAAAAAAAA / HTTP/1.1\r\n", 0⟩)
        0 (ascii "get") = true := by
    unfold strncasecmp
    rw [(string_requestLine _ _).2]
    decide +kernel
  have words := (httpRequestSafe_iff _ _ isGet).mp (safe _ _ isGet)
  have method := words.method
  rw [(string_requestLine _ _).2] at method
  exact absurd method (by decide +kernel)

end LinuxNet.HttpServer
