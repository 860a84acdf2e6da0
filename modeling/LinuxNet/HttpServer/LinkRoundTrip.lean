import LinuxNet.HttpServer.LineReader
import LinuxNet.HttpServer.Confinement

/-!
# The links of a listing lead back to their files

`http_request` splits its line with `sscanf` into three arrays and decodes
the path in its own array.  The decoder never stores beyond the place it
reads, so the array ends up with the decoded string; what the encoder prints
for a name goes through the line reader and the split unchanged.
-/

namespace LinuxNet.HttpServer

open LinuxNet.CString LinuxNet.WebServer

/-- The arrays `method`, `path` and `protocol` of `http_request`. -/
structure RequestArrays where
  method : List UInt8
  path : List UInt8
  protocol : List UInt8
  methodSize : method.length = 12
  pathSize : path.length = 1024
  protocolSize : protocol.length = 12

/-- The words of `"%[^ ] %[^ ] .."`, as many as are asked for: a word is not
empty, and a blank of the format skips all white space. -/
def sscanfWords : Nat → List UInt8 → List (List UInt8)
  | 0, _ => []
  | count + 1, text =>
      let word := text.takeWhile (· ≠ 32)
      if word = [] then
        []
      else
        word ::
          sscanfWords count ((text.drop word.length).dropWhile isspace)

/-- The array after a word was stored with its terminator, without a value
where it does not fit.  Where there is no word the array stays as it is. -/
def storeWord (memory : List UInt8) : Option (List UInt8) → Option (List UInt8)
  | none => some memory
  | some word =>
      if word.length < memory.length then
        some (word ++ 0 :: memory.drop (word.length + 1))
      else
        none

/-- `decode_str(path, path)`, with the places that `to` and `from` point to.
There is no value where `from` leaves the array. -/
def decodeInPlace : Nat → List UInt8 → Nat → Nat → Option (List UInt8)
  | 0, _, _, _ => none
  | fuel + 1, memory, toIdx, fromIdx =>
      if memory.length ≤ fromIdx then
        none
      else if memory.getD fromIdx 0 = 0 then
        some (memory.set toIdx 0)
      else if memory.getD fromIdx 0 = 37 ∧
          isxdigit (memory.getD (fromIdx + 1) 0) = true ∧
          isxdigit (memory.getD (fromIdx + 2) 0) = true then
        decodeInPlace fuel
          (memory.set toIdx
            (hexit (memory.getD (fromIdx + 1) 0) * 16 +
              hexit (memory.getD (fromIdx + 2) 0)))
          (toIdx + 1) (fromIdx + 3)
      else
        decodeInPlace fuel (memory.set toIdx (memory.getD fromIdx 0))
          (toIdx + 1) (fromIdx + 1)

/-- The method and the name of the file, as C strings. -/
structure Requested where
  method : List UInt8
  filename : List UInt8
  deriving DecidableEq, Repr

/-- `http_request` up to the call of `stat`. -/
def requestedFile
    (arrays : RequestArrays) (request : List UInt8) : Option Requested :=
  let words := sscanfWords 3 request
  (storeWord arrays.method words[0]?).bind fun method =>
    (storeWord arrays.path words[1]?).bind fun path =>
      (storeWord arrays.protocol words[2]?).bind fun _ =>
        (decodeInPlace (path.length + 1) path 0 0).map fun path =>
          ⟨cstr method 0,
            if cstr path 0 = ascii "/" then ascii "./" else cstr path 1⟩

/-! ## Decoding in place -/

theorem lt_length_of_stringAt
    {memory text : List UInt8} {start : Nat}
    (string : StringAt memory start text) :
    start + text.length < memory.length := by
  obtain ⟨tail, shape⟩ := exists_drop_eq_of_terminated string.terminated
  have lengths := congrArg List.length shape
  rw [string.cstr_eq, List.length_drop, List.length_append,
    List.length_cons] at lengths
  omega

theorem take_succ_set
    {memory : List UInt8} {index : Nat} (inside : index < memory.length)
    (byte : UInt8) :
    (memory.set index byte).take (index + 1) =
      memory.take index ++ [byte] := by
  rw [List.set_eq_take_append_cons_drop, if_pos inside, List.take_append,
    List.length_take_of_le (Nat.le_of_lt inside), Nat.add_sub_cancel_left,
    List.take_of_length_le (by rw [List.length_take]; omega)]
  rfl

/-- The decoder ends with the decoded text behind what is stored already, and
a NUL. -/
def DecodesTo
    (fuel : Nat) (memory : List UInt8) (toIdx fromIdx : Nat)
    (decoded : List UInt8) : Prop :=
  ∃ tail,
    decodeInPlace fuel memory toIdx fromIdx =
      some (memory.take toIdx ++ decoded ++ 0 :: tail)

section OneTurn

variable {memory text decoded : List UInt8} {toIdx fromIdx fuel : Nat}

theorem decodesTo_nil
    (string : StringAt memory fromIdx []) (behind : toIdx ≤ fromIdx) :
    DecodesTo (fuel + 1) memory toIdx fromIdx [] := by
  have inside : fromIdx < memory.length := lt_length_of_stringAt string
  have ends : memory.getD fromIdx 0 = 0 :=
    string.getD_eq 0 (Nat.le_refl 0)
  refine ⟨memory.drop (toIdx + 1), ?_⟩
  rw [decodeInPlace, if_neg (Nat.not_le_of_lt inside), if_pos ends,
    List.set_eq_take_append_cons_drop,
    if_pos (Nat.lt_of_le_of_lt behind inside), List.append_nil]

/-- What a turn stores is kept by the later ones. -/
theorem decodesTo_cons
    {byte : UInt8} {later : Nat} (inside : toIdx < memory.length)
    (rest :
      DecodesTo fuel (memory.set toIdx byte) (toIdx + 1) later decoded) :
    ∃ tail,
      decodeInPlace fuel (memory.set toIdx byte) (toIdx + 1) later =
        some (memory.take toIdx ++ byte :: decoded ++ 0 :: tail) := by
  obtain ⟨tail, restEq⟩ := rest
  refine ⟨tail, ?_⟩
  rw [restEq, take_succ_set inside, List.append_assoc (memory.take toIdx)]
  rfl

theorem decodesTo_plain
    {byte : UInt8} {rest : List UInt8}
    (string : StringAt memory fromIdx (byte :: rest))
    (behind : toIdx ≤ fromIdx)
    (plain :
      ¬ (byte = 37 ∧ isxdigit (memory.getD (fromIdx + 1) 0) = true ∧
        isxdigit (memory.getD (fromIdx + 2) 0) = true))
    (later :
      ∀ {changed : List UInt8}, StringAt changed (fromIdx + 1) rest →
        DecodesTo fuel changed (toIdx + 1) (fromIdx + 1) decoded) :
    DecodesTo (fuel + 1) memory toIdx fromIdx (byte :: decoded) := by
  have inside : fromIdx < memory.length :=
    Nat.lt_of_le_of_lt (Nat.le_add_right _ _) (lt_length_of_stringAt string)
  have first : memory.getD fromIdx 0 = byte :=
    string.getD_eq 0 (Nat.zero_le _)
  have nonzero : byte ≠ 0 :=
    fun zero => string.nul_free (by rw [zero]; exact List.mem_cons_self)
  have suffix := string.suffix 1 (Nat.le_add_left 1 rest.length)
  unfold DecodesTo
  rw [decodeInPlace, if_neg (Nat.not_le_of_lt inside), first,
    if_neg nonzero, if_neg plain]
  exact
    decodesTo_cons (Nat.lt_of_le_of_lt behind inside)
      (later (suffix.set_of_lt (Nat.lt_succ_of_le behind)))

theorem decodesTo_escape
    {second third : UInt8} {rest : List UInt8}
    (string : StringAt memory fromIdx (37 :: second :: third :: rest))
    (behind : toIdx ≤ fromIdx) (high : isxdigit second = true)
    (low : isxdigit third = true)
    (later :
      ∀ {changed : List UInt8}, StringAt changed (fromIdx + 3) rest →
        DecodesTo fuel changed (toIdx + 1) (fromIdx + 3) decoded) :
    DecodesTo (fuel + 1) memory toIdx fromIdx
      ((hexit second * 16 + hexit third) :: decoded) := by
  have inside : fromIdx < memory.length :=
    Nat.lt_of_le_of_lt (Nat.le_add_right _ _) (lt_length_of_stringAt string)
  have three : 3 ≤ (37 :: second :: third :: rest).length :=
    Nat.le_add_left 3 rest.length
  have first : memory.getD fromIdx 0 = 37 :=
    string.getD_eq 0 (Nat.zero_le _)
  have secondEq : memory.getD (fromIdx + 1) 0 = second :=
    string.getD_eq 1 (Nat.le_trans (by decide) three)
  have thirdEq : memory.getD (fromIdx + 2) 0 = third :=
    string.getD_eq 2 (Nat.le_trans (by decide) three)
  have suffix := string.suffix 3 three
  unfold DecodesTo
  rw [decodeInPlace, if_neg (Nat.not_le_of_lt inside), first, secondEq,
    thirdEq, if_neg (by decide), if_pos ⟨rfl, high, low⟩]
  exact
    decodesTo_cons (Nat.lt_of_le_of_lt behind inside)
      (later (suffix.set_of_lt (by omega)))

end OneTurn

/-- The loop decodes the string in its own array. -/
theorem decodeInPlace_spec
    (text : List UInt8) {memory : List UInt8} {toIdx fromIdx fuel : Nat}
    (string : StringAt memory fromIdx text) (behind : toIdx ≤ fromIdx)
    (enough : text.length < fuel) :
    DecodesTo fuel memory toIdx fromIdx (decodeFrom text) := by
  obtain ⟨less, rfl⟩ : ∃ less, fuel = less + 1 := ⟨fuel - 1, by omega⟩
  induction text using decodeFrom.induct
    generalizing memory toIdx fromIdx less with
  | case1 first second third rest escape inductionHypothesis =>
      obtain ⟨rfl, high, low⟩ := escape
      rw [decodeFrom, if_pos ⟨rfl, high, low⟩]
      simp only [List.length_cons] at enough
      apply decodesTo_escape string behind high low
      intro changed later
      obtain ⟨fewer, rfl⟩ : ∃ fewer, less = fewer + 1 :=
        ⟨less - 1, by omega⟩
      exact inductionHypothesis later (by omega) fewer (by omega)
  | case2 first second third rest plain inductionHypothesis =>
      rw [decodeFrom, if_neg plain]
      simp only [List.length_cons] at enough inductionHypothesis
      have two : 2 ≤ (first :: second :: third :: rest).length :=
        Nat.le_add_left 2 (rest.length + 1)
      have secondEq := string.getD_eq 1 (Nat.le_trans (by decide) two)
      have thirdEq := string.getD_eq 2 two
      apply decodesTo_plain string behind
      · rw [secondEq, thirdEq]
        exact plain
      · intro changed later
        obtain ⟨fewer, rfl⟩ : ∃ fewer, less = fewer + 1 :=
          ⟨less - 1, by omega⟩
        exact inductionHypothesis later (by omega) fewer (by omega)
  | case3 first rest short inductionHypothesis =>
      rw [decodeFrom]
      · simp only [List.length_cons] at enough
        apply decodesTo_plain string behind
        · rintro ⟨_, high, low⟩
          have secondEq := string.getD_eq 1 (Nat.le_add_left 1 rest.length)
          rw [secondEq] at high
          cases rest with
          | nil => exact absurd (show isxdigit 0 = true from high) (by decide)
          | cons second rest =>
              cases rest with
              | nil =>
                  have thirdEq := string.getD_eq 2 (Nat.le_refl 2)
                  rw [thirdEq] at low
                  exact
                    absurd (show isxdigit 0 = true from low) (by decide)
              | cons third rest => exact absurd rfl (short second third rest)
        · intro changed later
          obtain ⟨fewer, rfl⟩ : ∃ fewer, less = fewer + 1 :=
            ⟨less - 1, by omega⟩
          exact inductionHypothesis later (by omega) fewer (by omega)
      · exact short
  | case4 => exact decodesTo_nil string behind

theorem set_replicate (count index : Nat) (byte : UInt8) :
    (List.replicate count byte).set index byte =
      List.replicate count byte := by
  rw [List.eq_replicate_iff]
  refine ⟨by rw [List.length_set, List.length_replicate], ?_⟩
  intro other member
  rcases List.mem_or_eq_of_mem_set member with old | same
  · exact List.eq_of_mem_replicate old
  · exact same

/-- The decoder runs out of an array without a NUL. -/
theorem decodeInPlace_replicate (fuel count index : Nat) :
    decodeInPlace fuel (List.replicate count 97) index index = none := by
  induction fuel generalizing index with
  | zero => rfl
  | succ fuel inductionHypothesis =>
      rw [decodeInPlace]
      split
      · rfl
      · next inside =>
          rw [List.length_replicate, Nat.not_le] at inside
          have byte :
              (List.replicate count (97 : UInt8)).getD index 0 = 97 := by
            rw [List.getD_eq_getElem?_getD, List.getElem?_replicate,
              if_pos inside]
            rfl
          rw [byte, if_neg (by decide), if_neg (fun both => absurd both.1
            (by decide)), set_replicate]
          exact inductionHypothesis (index + 1)

theorem cstr_append_nul
    (text tail : List UInt8) (count : Nat) (inside : count ≤ text.length) :
    cstr (text ++ 0 :: tail) count = cText (text.drop count) := by
  unfold cstr cText
  rw [List.drop_append_of_le_length inside]
  generalize text.drop count = rest
  induction rest with
  | nil => rfl
  | cons byte rest inductionHypothesis =>
      rw [List.cons_append, List.takeWhile_cons, List.takeWhile_cons,
        inductionHypothesis]

theorem cText_eq_self {text : List UInt8} (nulFree : 0 ∉ text) :
    cText text = text := by
  unfold cText
  rw [List.takeWhile_eq_self_iff]
  intro byte member
  rw [decide_eq_true_iff]
  rintro rfl
  exact nulFree member

theorem decodeFrom_ne_nil {target : List UInt8} (nonempty : target ≠ []) :
    decodeFrom target ≠ [] := by
  unfold decodeFrom
  split
  · split
    · exact List.cons_ne_nil _ _
    · exact List.cons_ne_nil _ _
  · exact List.cons_ne_nil _ _
  · exact absurd rfl nonempty

/-- What `decode_str` and `strdecode` leave in the array of the path: the
strings at its first and at its second byte. -/
theorem decoded_strings
    {path target : List UInt8} (string : StringAt path 0 target)
    (nonempty : target ≠ []) :
    ∃ decoded, decodeInPlace (path.length + 1) path 0 0 = some decoded ∧
      cstr decoded 0 = cText (decodeFrom target) ∧
        cstr decoded 1 = cText ((decodeFrom target).drop 1) := by
  have inside := lt_length_of_stringAt string
  obtain ⟨tail, decodedEq⟩ :
      DecodesTo (path.length + 1) path 0 0 (decodeFrom target) :=
    decodeInPlace_spec target string (Nat.le_refl 0) (by omega)
  rw [List.take_zero, List.nil_append] at decodedEq
  have whole : 1 ≤ (decodeFrom target).length :=
    List.length_pos_iff.mpr (decodeFrom_ne_nil nonempty)
  refine ⟨_, decodedEq, ?_, cstr_append_nul _ tail 1 whole⟩
  rw [cstr_append_nul _ tail 0 (Nat.zero_le _), List.drop_zero]

/-- Where the three words fit, the arrays hold the method and the name that
the decoded target stands for. -/
theorem requestedFile_eq
    {arrays : RequestArrays} {request method target protocol : List UInt8}
    (words : sscanfWords 3 request = [method, target, protocol])
    (methodFits : method.length < 12) (targetFits : target.length < 1024)
    (protocolFits : protocol.length < 12)
    (methodNulFree : 0 ∉ method) (targetNulFree : 0 ∉ target)
    (nonempty : target ≠ []) :
    requestedFile arrays request =
      some ⟨method, requestedName [ascii "/"] target⟩ := by
  have methodRoom := arrays.methodSize
  have pathRoom := arrays.pathSize
  have protocolRoom := arrays.protocolSize
  have string :
      StringAt (target ++ 0 :: arrays.path.drop (target.length + 1)) 0
        target :=
    StringAt.of_drop_eq rfl targetNulFree
  obtain ⟨decoded, decodedEq, first, second⟩ :=
    decoded_strings string nonempty
  unfold requestedFile
  simp only [words, List.getElem?_cons_zero, List.getElem?_cons_succ,
    storeWord]
  rw [if_pos (by omega), Option.bind_some, if_pos (by omega),
    Option.bind_some, if_pos (by omega), Option.bind_some, decodedEq,
    Option.map_some, first, second,
    cstr_append_nul method _ 0 (Nat.zero_le _), List.drop_zero,
    cText_eq_self methodNulFree]
  unfold requestedName
  simp only [List.mem_singleton]

theorem sscanfWords_cons
    {word next : List UInt8} {byte : UInt8} (count : Nat)
    (nonempty : word ≠ []) (noBlank : 32 ∉ word)
    (visible : isspace byte = false) :
    sscanfWords (count + 1) (word ++ 32 :: byte :: next) =
      word :: sscanfWords count (byte :: next) := by
  have kept : ∀ letter ∈ word, decide (letter ≠ 32) = true := by
    intro letter member
    rw [decide_eq_true_iff]
    rintro rfl
    exact noBlank member
  have first :
      (word ++ 32 :: byte :: next).takeWhile (· ≠ 32) = word := by
    rw [List.takeWhile_append_of_pos kept]
    simp
  rw [sscanfWords]
  simp only [first]
  rw [if_neg nonempty, List.drop_left, List.dropWhile_cons_of_pos rfl,
    List.dropWhile_cons_of_neg (by rw [visible]; exact Bool.false_ne_true)]

theorem sscanfWords_last
    {word : List UInt8} (count : Nat) (nonempty : word ≠ [])
    (noBlank : 32 ∉ word) :
    sscanfWords (count + 1) word = word :: sscanfWords count [] := by
  have whole : word.takeWhile (· ≠ 32) = word := by
    rw [List.takeWhile_eq_self_iff]
    intro letter member
    rw [decide_eq_true_iff]
    rintro rfl
    exact noBlank member
  rw [sscanfWords]
  simp only [whole]
  rw [if_neg nonempty, List.drop_length]
  rfl

/-- The request line for the path `/` with what the encoder left behind
it. -/
def linkRequest (encoded : List UInt8) : List UInt8 :=
  ascii "GET" ++ 32 :: 47 :: (encoded ++ 32 :: ascii "HTTP/1.1")

theorem cstr_encodeStr
    (memory name : List UInt8) (room : memory.length = 1024)
    (short : 3 * name.length + 1 < 1024) :
    cstr (encodeStr memory 1024 name).memory 0 = name.flatMap escapeByte := by
  have initially :
      Printed 1024 ([].flatMap escapeByte) ⟨memory, 0, 0, []⟩ :=
    ⟨rfl, rfl, by decide, Nat.le_of_eq room.symm, rfl,
      fun _ impossible => by cases impossible⟩
  obtain ⟨count, _, string, _, whole⟩ := encodeFrom_spec name [] initially
  have all : count = name.length := by
    apply whole
    rw [List.flatMap_nil, List.length_nil, Nat.zero_add]
    exact short
  rw [all, List.take_length, List.nil_append] at string
  exact string.cstr_eq

theorem length_flatMap_escapeByte_le (name : List UInt8) :
    (name.flatMap escapeByte).length ≤ 3 * name.length := by
  induction name with
  | nil => exact Nat.le_refl 0
  | cons byte rest inductionHypothesis =>
      have first := length_escapeByte_le byte
      rw [List.flatMap_cons, List.length_append, List.length_cons]
      omega

section Link

variable {encoded : List UInt8}
  (printed : ∀ byte ∈ encoded, isEncoded byte = true)
include printed

theorem not_mem_of_not_isEncoded
    {byte : UInt8} (foreign : isEncoded byte = false) : byte ∉ encoded := by
  intro member
  rw [printed byte member] at foreign
  cases foreign

theorem not_mem_linkRequest
    {byte : UInt8} (foreign : isEncoded byte = false)
    (notMethod : byte ∉ ascii "GET" ++ [32, 47])
    (notProtocol : byte ∉ 32 :: ascii "HTTP/1.1") :
    byte ∉ linkRequest encoded := by
  have notEncoded := not_mem_of_not_isEncoded printed foreign
  simp only [linkRequest, List.mem_append, List.mem_cons, not_or,
    List.not_mem_nil, not_false_eq_true, and_true] at *
  exact ⟨notMethod.1, notMethod.2.1, notMethod.2.2, notEncoded, notProtocol⟩

/-- The line reader stores the request line with one LF behind it. -/
theorem getLine_linkRequest
    (fits : encoded.length + 14 < 1023) (rest : List UInt8) (calls : Nat) :
    cstr
        ((getLine allAvailable 1024
          ⟨linkRequest encoded ++ 13 :: 10 :: rest, calls⟩).buf ++ [0]) 0 =
      linkRequest encoded ++ [10] := by
  have lineLength : (linkRequest encoded).length = encoded.length + 14 := by
    simp [linkRequest, ascii]
  have noReturn : 13 ∉ linkRequest encoded :=
    not_mem_linkRequest printed (by decide) (by decide) (by decide)
  have noFeed : 10 ∉ linkRequest encoded :=
    not_mem_linkRequest printed (by decide) (by decide) (by decide)
  have noNul : 0 ∉ linkRequest encoded ++ [10] := by
    rw [List.mem_append, not_or]
    exact
      ⟨not_mem_linkRequest printed (by decide) (by decide) (by decide),
        by decide⟩
  obtain ⟨later, line⟩ :=
    getLineFrom_of_available (linkRequest encoded) rest noReturn noFeed 1023
      calls (by omega)
  have lineEq :
      getLine allAvailable 1024
          ⟨linkRequest encoded ++ 13 :: 10 :: rest, calls⟩ =
        ⟨linkRequest encoded ++ [10], ⟨rest, later⟩⟩ :=
    line
  rw [lineEq, cstr_append_nul _ [] 0 (Nat.zero_le _), List.drop_zero,
    cText_eq_self noNul]

/-- The split finds three words, the last one with the LF. -/
theorem sscanfWords_linkRequest :
    sscanfWords 3 (linkRequest encoded ++ [10]) =
      [ascii "GET", 47 :: encoded, ascii "HTTP/1.1\n"] := by
  have noBlank : (32 : UInt8) ∉ 47 :: encoded := by
    rw [List.mem_cons, not_or]
    exact ⟨by decide, not_mem_of_not_isEncoded printed (by decide)⟩
  have shape :
      linkRequest encoded ++ [10] =
        ascii "GET" ++ 32 :: 47 ::
          (encoded ++ 32 :: 72 :: ascii "TTP/1.1\n") := by
    simp [linkRequest, ascii]
  have second :
      sscanfWords 2 ((47 :: encoded) ++ 32 :: 72 :: ascii "TTP/1.1\n") =
        (47 :: encoded) :: sscanfWords 1 (72 :: ascii "TTP/1.1\n") :=
    sscanfWords_cons 1 (List.cons_ne_nil 47 encoded) noBlank (by decide)
  have third :
      sscanfWords 1 (ascii "HTTP/1.1\n") = [ascii "HTTP/1.1\n"] :=
    sscanfWords_last 0 (by decide) (by decide)
  rw [shape, sscanfWords_cons 2 (by decide) (by decide) (by decide)]
  rw [List.cons_append] at second
  rw [second]
  exact congrArg (fun words => ascii "GET" :: (47 :: encoded) :: words) third

end Link

/-- The decoder gives the name back. -/
theorem requestedName_link
    {encoded name : List UInt8} (decodes : decodeFrom encoded = name)
    (nonempty : name ≠ []) (nulFree : 0 ∉ name) :
    requestedName [ascii "/"] (47 :: encoded) = name := by
  have decodedTarget : decodeFrom (47 :: encoded) = 47 :: name := by
    rw [decodeFrom_cons (by decide), decodes]
  have pathNulFree : 0 ∉ 47 :: name := by
    rw [List.mem_cons, not_or]
    exact ⟨by decide, nulFree⟩
  have notRoot : 47 :: name ∉ [ascii "/"] := by
    rw [List.mem_singleton]
    intro same
    exact nonempty (List.cons.inj same).2
  unfold requestedName
  rw [decodedTarget, cText_eq_self pathNulFree, if_neg notRoot,
    List.drop_one, List.tail_cons, cText_eq_self nulFree]

/-- A file that the listing links to is the one that the server opens for
the link: the line reader, the split and the decoder give the method and the
name back. -/
theorem link_leads_back
    (memory name rest : List UInt8) (arrays : RequestArrays) (calls : Nat)
    (nonempty : name ≠ []) (nulFree : 0 ∉ name)
    (short : 3 * name.length + 30 < 1024) (room : memory.length = 1024) :
    requestedFile arrays
        (cstr
          ((getLine allAvailable 1024
            ⟨linkRequest (cstr (encodeStr memory 1024 name).memory 0) ++
              13 :: 10 :: rest, calls⟩).buf ++ [0]) 0) =
      some ⟨ascii "GET", name⟩ := by
  have printed : ∀ byte ∈ name.flatMap escapeByte, isEncoded byte = true := by
    intro byte member
    obtain ⟨_, _, escaped⟩ := List.mem_flatMap.mp member
    exact isEncoded_of_mem_escapeByte escaped
  have encodedLength := length_flatMap_escapeByte_le name
  have targetNulFree : 0 ∉ 47 :: name.flatMap escapeByte := by
    rw [List.mem_cons, not_or]
    exact ⟨by decide, zero_not_mem_flatMap_escapeByte name⟩
  have targetFits : (47 :: name.flatMap escapeByte).length < 1024 := by
    rw [List.length_cons]
    omega
  rw [cstr_encodeStr memory name room (by omega),
    getLine_linkRequest printed (by omega) rest calls,
    requestedFile_eq (sscanfWords_linkRequest printed) (by decide)
      targetFits (by decide) (by decide) targetNulFree
      (List.cons_ne_nil _ _),
    requestedName_link (decodeFrom_flatMap_escapeByte name) nonempty nulFree]

def blankArrays : RequestArrays :=
  ⟨List.replicate 12 0, List.replicate 1024 0, List.replicate 12 0,
    List.length_replicate, List.length_replicate, List.length_replicate⟩

/-- A name of a blank, a percent sign, CR, LF and a byte of UTF-8. -/
theorem link_leads_back_marks :
    requestedFile blankArrays
        (cstr
          ((getLine allAvailable 1024
            ⟨linkRequest
                (cstr
                  (encodeStr (List.replicate 1024 0) 1024
                    [32, 37, 13, 10, 200]).memory 0) ++
              13 :: 10 :: [], 0⟩).buf ++ [0]) 0) =
      some ⟨ascii "GET", [32, 37, 13, 10, 200]⟩ :=
  link_leads_back (List.replicate 1024 0) [32, 37, 13, 10, 200] []
    blankArrays 0 (by decide) (by decide) (by decide)
    List.length_replicate

end LinuxNet.HttpServer
