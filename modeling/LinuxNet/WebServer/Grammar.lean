import LinuxNet.WebServer.Resume

/-!
# The grammar of a request head

The head of a request as a grammar over byte strings: clean lines, each read
as a C string, the first a request line, the others header lines up to the
first empty one.  Nothing here mentions the parser.  The second half of the
module shows that the line parsers accept exactly the lines of the grammar
and keep what the lines say.
-/

namespace LinuxNet.WebServer

open LinuxNet.CString LinuxNet.CInt

/-- A line read as a C string, up to its first NUL. -/
def cText (line : List UInt8) : List UInt8 :=
  line.takeWhile (· ≠ 0)

def NoBlank (word : List UInt8) : Prop :=
  ∀ byte ∈ word, isBlank byte = false

instance (word : List UInt8) : Decidable (NoBlank word) :=
  List.decidableBAll _ word

def AllBlank (gap : List UInt8) : Prop :=
  ∀ byte ∈ gap, isBlank byte = true

/-- The target that the second word of a request line names: the word
itself, or what follows the host of an absolute URI. -/
inductive TargetOf : List UInt8 → List UInt8 → Prop
  | path (rest : List UInt8) : TargetOf (47 :: rest) (47 :: rest)
  | absolute {scheme host : List UInt8} (rest : List UInt8)
      (isHttp : SameIgnoringCase scheme httpPrefix) (noSlash : 47 ∉ host) :
      TargetOf (scheme ++ host ++ 47 :: rest) (47 :: rest)

/-- The part of a request line behind the method. -/
def VersionedTarget (tail target : List UInt8) : Prop :=
  ∃ word gap version,
    tail = word ++ gap ++ version ∧ NoBlank word ∧ gap ≠ [] ∧
      AllBlank gap ∧ SameIgnoringCase version (ascii "HTTP/1.1") ∧
      TargetOf word target

/-- A request line, as a C string, with its target. -/
def RequestLine (line target : List UInt8) : Prop :=
  ∃ method gap tail,
    line = method ++ gap ++ tail ∧
      SameIgnoringCase method (ascii "GET") ∧ gap ≠ [] ∧
      AllBlank gap ∧ VersionedTarget tail target

/-- Header lines up to the first empty one, and the bytes behind it. -/
inductive HeaderLines :
    List UInt8 → List (List UInt8) → List UInt8 → Prop
  | blank {line : List UInt8} (rest : List UInt8) (clean : Clean line)
      (empty : cText line = []) :
      HeaderLines (line ++ 13 :: 10 :: rest) [] rest
  | cons {line bytes rest : List UInt8} {headers : List (List UInt8)}
      (clean : Clean line) (nonempty : cText line ≠ [])
      (later : HeaderLines bytes headers rest) :
      HeaderLines (line ++ 13 :: 10 :: bytes) (cText line :: headers) rest

def HeadOf
    (bytes target : List UInt8) (headers : List (List UInt8))
    (rest : List UInt8) : Prop :=
  ∃ line after,
    bytes = line ++ 13 :: 10 :: after ∧ Clean line ∧
      RequestLine (cText line) target ∧ HeaderLines after headers rest

def lastValue (name : List UInt8) (headers : List (List UInt8)) :
    Option (List UInt8) :=
  (headers.filter (HasName name ·)).getLast?.map (headerValue name)

def KeepsAlive (headers : List (List UInt8)) : Prop :=
  ∃ header ∈ headers, HasName connectionName header ∧
    SameIgnoringCase (headerValue connectionName header) keepAlive

/-- The `int` conversion of `atol` of the last `Content-Length` field. -/
def contentLengthOf (headers : List (List UInt8)) : Int :=
  match lastValue contentLengthName headers with
  | none => 0
  | some value => toInt (atol value)

/-- `GET`, a path and the version, one space apart. -/
theorem requestLine_get
    {path : List UInt8} (noBlank : NoBlank path) :
    RequestLine (ascii "GET /" ++ path ++ ascii " HTTP/1.1")
      (47 :: path) := by
  have word : NoBlank (47 :: path) := by
    intro byte member
    rcases List.mem_cons.mp member with rfl | later
    · rfl
    · exact noBlank byte later
  have space : AllBlank [32] := by
    intro byte member
    rw [List.mem_singleton.mp member]
    rfl
  refine
    ⟨ascii "GET", [32], 47 :: path ++ ascii " HTTP/1.1", rfl, rfl,
      by simp, space, 47 :: path, [32], ascii "HTTP/1.1", ?_, word,
      by simp, space, rfl, .path path⟩
  rw [List.append_assoc]
  rfl

theorem headOf_of_one_header
    {line header target : List UInt8} (clean : Clean line)
    (isRequestLine : RequestLine (cText line) target)
    (headerClean : Clean header) (text : cText header = header)
    (nonempty : header ≠ []) :
    HeadOf (line ++ crlf ++ header ++ crlf ++ crlf) target [header] [] := by
  have lines :
      HeaderLines (header ++ 13 :: 10 :: ([] ++ [13, 10]))
        [cText header] [] :=
    .cons headerClean (by rw [text]; exact nonempty)
      (.blank [] (by decide) (by decide))
  rw [text] at lines
  refine ⟨line, _, ?_, clean, isRequestLine, lines⟩
  simp [crlf]

def StartsNonBlank (text : List UInt8) : Prop :=
  ∀ byte rest, text = byte :: rest → isBlank byte = false

theorem blanks_append
    {gap tail : List UInt8} (blank : AllBlank gap)
    (starts : StartsNonBlank tail) : blanks (gap ++ tail) = gap.length := by
  unfold blanks
  rw [List.takeWhile_append_of_pos blank]
  cases tail with
  | nil => simp
  | cons byte rest =>
      rw [List.takeWhile_cons_of_neg (by simp [starts byte rest rfl])]
      simp

/-- The first blank of a text, and what stands behind the blanks there. -/
theorem findIdx?_isBlank_split
    {word gap tail : List UInt8} (noBlank : NoBlank word)
    (nonempty : gap ≠ []) (blank : AllBlank gap)
    (starts : StartsNonBlank tail) :
    (word ++ gap ++ tail).findIdx? isBlank = some word.length ∧
      (word ++ gap ++ tail).take word.length = word ∧
      (word ++ gap ++ tail).drop
          (word.length + 1 +
            blanks ((word ++ gap ++ tail).drop (word.length + 1))) =
        tail := by
  obtain ⟨byte, more, rfl⟩ := List.exists_cons_of_ne_nil nonempty
  have moreBlank : AllBlank more :=
    fun other member => blank other (List.mem_cons_of_mem _ member)
  have behind :
      (word ++ byte :: more ++ tail).drop (word.length + 1) =
        more ++ tail := by
    rw [← List.drop_drop, List.append_assoc, List.drop_left]
    rfl
  refine ⟨?_, by rw [List.append_assoc, List.take_left], ?_⟩
  · rw [List.append_assoc, List.findIdx?_append]
    have none : word.findIdx? isBlank = none := by
      rw [List.findIdx?_eq_none_iff]
      exact noBlank
    rw [none, List.cons_append, List.findIdx?_cons,
      blank byte List.mem_cons_self]
    simp
  · rw [behind, blanks_append moreBlank starts, ← List.drop_drop, behind,
      List.drop_left]

theorem exists_isBlank_split
    {text : List UInt8} {count : Nat}
    (found : text.findIdx? isBlank = some count) :
    ∃ word gap tail, text = word ++ gap ++ tail ∧ NoBlank word ∧
      gap ≠ [] ∧ AllBlank gap ∧ StartsNonBlank tail ∧
      word.length = count := by
  obtain ⟨inside, isBlankHere, before⟩ :=
    List.findIdx?_eq_some_iff_getElem.mp found
  refine
    ⟨text.take count, (text.drop count).takeWhile isBlank,
      (text.drop count).dropWhile isBlank, ?_, ?_, ?_, ?_, ?_, ?_⟩
  · rw [List.append_assoc, List.takeWhile_append_dropWhile,
      List.take_append_drop]
  · intro byte member
    obtain ⟨index, bound, rfl⟩ := List.mem_iff_getElem.mp member
    rw [List.length_take] at bound
    rw [List.getElem_take]
    simpa using before index (by omega)
  · rw [List.drop_eq_getElem_cons inside,
      List.takeWhile_cons_of_pos isBlankHere]
    simp
  · exact fun byte member => List.mem_takeWhile_imp member
  · intro byte rest shape
    have first := List.head?_dropWhile_not isBlank (text.drop count)
    rw [shape] at first
    simpa using first
  · rw [List.length_take]
    omega

theorem startsNonBlank_of_noBlank
    {word : List UInt8} (noBlank : NoBlank word) (nonempty : word ≠ [])
    (tail : List UInt8) : StartsNonBlank (word ++ tail) := by
  intro byte rest shape
  obtain ⟨first, more, rfl⟩ := List.exists_cons_of_ne_nil nonempty
  rw [List.cons_append] at shape
  injection shape with same _
  rw [← same]
  exact noBlank first List.mem_cons_self

/-- The case of letters does not hide a blank. -/
theorem noBlank_of_same
    {text other : List UInt8} (same : SameIgnoringCase text other)
    (noBlank : NoBlank (other.map lower)) : NoBlank text := by
  intro byte member
  have lowered : isBlank (lower byte) = false := by
    refine noBlank _ ?_
    rw [← same]
    exact List.mem_map_of_mem member
  by_contra blank
  rw [Bool.not_eq_false] at blank
  have cases : byte = 32 ∨ byte = 9 := by
    simpa [isBlank] using blank
  rcases cases with rfl | rfl <;> simp [lower, isBlank] at lowered

theorem TargetOf.ne_nil
    {word target : List UInt8} (names : TargetOf word target) :
    word ≠ [] := by
  cases names <;> simp

/-! ## The request line -/

theorem targetOf_pathOffset
    {word : List UInt8} {offset : Nat}
    (found : pathOffset word = some offset)
    (slash : word.getD offset 0 = 47) :
    TargetOf word (word.drop offset) := by
  unfold pathOffset at found
  split at found
  · rename_i isHttp
    obtain ⟨index, indexEq, rfl⟩ := Option.map_eq_some_iff.mp found
    obtain ⟨inside, isSlash, before⟩ :=
      List.findIdx?_eq_some_iff_getElem.mp indexEq
    have noSlash : 47 ∉ (word.drop 7).take index := by
      intro member
      obtain ⟨other, bound, same⟩ := List.mem_iff_getElem.mp member
      rw [List.length_take] at bound
      rw [List.getElem_take] at same
      exact before other (by omega) (by simp [same])
    have behind :
        (word.drop 7).drop index = 47 :: (word.drop 7).drop (index + 1) := by
      rw [List.drop_eq_getElem_cons inside]
      simp only [beq_iff_eq] at isSlash
      rw [isSlash]
    have shape :
        word =
          word.take 7 ++ (word.drop 7).take index ++
            47 :: (word.drop 7).drop (index + 1) := by
      calc
        word = word.take 7 ++ word.drop 7 :=
          (List.take_append_drop 7 word).symm
        _ = word.take 7 ++
            ((word.drop 7).take index ++ (word.drop 7).drop index) := by
          rw [List.take_append_drop index (word.drop 7)]
        _ = _ := by
          rw [behind, List.append_assoc]
    have names :=
      TargetOf.absolute ((word.drop 7).drop (index + 1)) isHttp noSlash
    rw [← shape] at names
    rw [← List.drop_drop, behind]
    exact names
  · cases found
    cases word with
    | nil => simp at slash
    | cons byte rest =>
        have same : byte = 47 := by simpa using slash
        subst same
        exact .path rest

theorem TargetOf.pathOffset_eq
    {word target : List UInt8} (names : TargetOf word target) :
    ∃ offset, pathOffset word = some offset ∧
      word.getD offset 0 = 47 ∧ word.drop offset = target := by
  cases names with
  | path rest =>
      have notHttp :
          ¬ SameIgnoringCase ((47 :: rest).take 7) httpPrefix := by
        intro same
        have first := congrArg List.head? same
        simp [httpPrefix, ascii, lower] at first
      exact
        ⟨0, by rw [pathOffset, if_neg notHttp], by simp, by simp⟩
  | @absolute scheme host rest isHttp noSlash =>
      have length : scheme.length = 7 := by
        have same := congrArg List.length isHttp
        simpa [httpPrefix, ascii] using same
      have first :
          (scheme ++ host ++ 47 :: rest).take 7 = scheme := by
        rw [List.append_assoc, ← length, List.take_left]
      have behind :
          (scheme ++ host ++ 47 :: rest).drop 7 = host ++ 47 :: rest := by
        rw [List.append_assoc, ← length, List.drop_left]
      have slash :
          (host ++ 47 :: rest).findIdx? (· == 47) =
            some host.length := by
        rw [List.findIdx?_append]
        have none : host.findIdx? (· == 47) = none := by
          rw [List.findIdx?_eq_none_iff]
          intro byte member
          simp only [beq_eq_false_iff_ne]
          rintro rfl
          exact noSlash member
        rw [none, List.findIdx?_cons]
        simp
      have later :
          (scheme ++ host ++ 47 :: rest).drop (7 + host.length) =
            47 :: rest := by
        rw [← List.drop_drop, behind, List.drop_left]
      refine ⟨7 + host.length, ?_, ?_, later⟩
      · rw [pathOffset, first, if_pos isHttp, behind, slash]
        rfl
      · have here := congrArg (·.getD 0 0) later
        simpa [List.getD_eq_getElem?_getD, List.getElem?_drop] using here
namespace Conn

theorem targetOn_noRequest
    {c : Conn} {url : Nat} {word : List UInt8}
    (accepted : (c.targetOn url word).1 = .noRequest) :
    ∃ target, TargetOf word target := by
  unfold targetOn at accepted
  simp only at accepted
  cases found : pathOffset word with
  | none => simp [found] at accepted
  | some offset =>
      simp only [found] at accepted
      by_cases slash : word.getD offset 0 = 47
      · exact ⟨_, targetOf_pathOffset found slash⟩
      · simp only [ne_eq, slash, not_false_iff, if_true] at accepted
        cases accepted

def HasTarget (c : Conn) (target : List UInt8) : Prop :=
  c.checkState = .header ∧
    ∃ url, c.url = some url ∧ StringAt c.readBuf url target

theorem targetOn_of_targetOf
    {c : Conn} {url : Nat} {word target : List UInt8}
    (names : TargetOf word target)
    (string : StringAt c.readBuf url word) :
    (c.targetOn url word).1 = .noRequest ∧
      (c.targetOn url word).2.HasTarget target := by
  obtain ⟨offset, found, slash, behind⟩ := names.pathOffset_eq
  have target := string.suffix offset (pathOffset_le found)
  rw [behind] at target
  unfold targetOn
  simp only [found, slash]
  refine ⟨rfl, rfl, url + offset, rfl, ?_⟩
  by_cases absolute : SameIgnoringCase (word.take 7) httpPrefix
  · simpa [absolute] using target
  · simpa [absolute] using target

theorem versionOn_noRequest
    {c : Conn} {url : Nat} {tail : List UInt8}
    (accepted : (c.versionOn url tail).1 = .noRequest) :
    ∃ target, VersionedTarget tail target := by
  unfold versionOn at accepted
  cases found : tail.findIdx? isBlank with
  | none => simp [found] at accepted
  | some blank =>
      obtain ⟨word, gap, version, rfl, noBlank, nonempty, allBlank, starts,
        rfl⟩ := exists_isBlank_split found
      obtain ⟨_, wordEq, versionEq⟩ :=
        findIdx?_isBlank_split noBlank nonempty allBlank starts
      simp only [found, wordEq, versionEq] at accepted
      split at accepted
      · rename_i same
        obtain ⟨target, names⟩ := targetOn_noRequest accepted
        exact
          ⟨target, word, gap, version, rfl, noBlank, nonempty, allBlank,
            same, names⟩
      · cases accepted

theorem versionOn_of_versionedTarget
    {c : Conn} {url : Nat} {tail target : List UInt8}
    (versioned : VersionedTarget tail target)
    (string : StringAt c.readBuf url tail) :
    (c.versionOn url tail).1 = .noRequest ∧
      (c.versionOn url tail).2.HasTarget target := by
  obtain ⟨word, gap, version, rfl, noBlank, nonempty, allBlank, same,
    names⟩ := versioned
  have noBlankVersion : NoBlank version :=
    noBlank_of_same same (by decide)
  have starts : StartsNonBlank version :=
    fun byte rest shape =>
      noBlankVersion byte (by rw [shape]; exact List.mem_cons_self)
  obtain ⟨found, wordEq, versionEq⟩ :=
    findIdx?_isBlank_split noBlank nonempty allBlank starts
  have cut := string.set_nul word.length (by simp)
  rw [wordEq] at cut
  unfold versionOn
  simp only [found, wordEq, versionEq, if_pos same]
  refine targetOn_of_targetOf names ?_
  simp only [scanned_readBuf, store_natCast_readBuf]
  exact cut

/-- A request line that is accepted is one of the grammar. -/
theorem requestLineOn_noRequest
    {c : Conn} {text : Nat} {line : List UInt8}
    (accepted : (c.requestLineOn text line).1 = .noRequest) :
    ∃ target, RequestLine line target := by
  unfold requestLineOn at accepted
  cases found : line.findIdx? isBlank with
  | none => simp [found] at accepted
  | some blank =>
      obtain ⟨method, gap, tail, rfl, noBlank, nonempty, allBlank, starts,
        rfl⟩ := exists_isBlank_split found
      obtain ⟨_, methodEq, tailEq⟩ :=
        findIdx?_isBlank_split noBlank nonempty allBlank starts
      simp only [found, methodEq, tailEq] at accepted
      split at accepted
      · rename_i same
        obtain ⟨target, versioned⟩ := versionOn_noRequest accepted
        exact
          ⟨target, method, gap, tail, rfl, same, nonempty, allBlank,
            versioned⟩
      · cases accepted

/-- A request line of the grammar is accepted, and `m_url` is its target. -/
theorem requestLineOn_of_requestLine
    {c : Conn} {text : Nat} {line target : List UInt8}
    (isRequestLine : RequestLine line target)
    (string : StringAt c.readBuf text line) :
    (c.requestLineOn text line).1 = .noRequest ∧
      (c.requestLineOn text line).2.HasTarget target := by
  obtain ⟨method, gap, tail, rfl, same, nonempty, allBlank,
    versioned⟩ := isRequestLine
  have noBlank : NoBlank method := noBlank_of_same same (by decide)
  have starts : StartsNonBlank tail := by
    obtain ⟨word, gap, version, rfl, noBlankWord, _, _, _, names⟩ :=
      versioned
    rw [List.append_assoc]
    exact startsNonBlank_of_noBlank noBlankWord names.ne_nil _
  obtain ⟨found, methodEq, tailEq⟩ :=
    findIdx?_isBlank_split noBlank nonempty allBlank starts
  have inside : method.length < (method ++ gap ++ tail).length := by
    have positive := List.length_pos_iff.mpr nonempty
    simp only [List.length_append]
    omega
  have behind := (stringAt_behind_blank string inside).2
  rw [tailEq] at behind
  unfold requestLineOn
  simp only [found, methodEq, tailEq, if_pos same]
  refine versionOn_of_versionedTarget versioned ?_
  simp only [scanned_readBuf, store_natCast_readBuf]
  exact behind

end Conn

/-- A line that has one name does not have a name that differs from it in its
first bytes. -/
theorem not_hasName
    {name other line : List UInt8} (count : Nat)
    (named : HasName name line) (long : count ≤ name.length)
    (otherLong : count ≤ other.length)
    (differs : (name.map lower).take count ≠ (other.map lower).take count) :
    ¬ HasName other line := by
  intro namedOther
  have first :
      ∀ text : List UInt8, count ≤ text.length → HasName text line →
        (line.map lower).take count = (text.map lower).take count := by
    intro text bound same
    unfold HasName SameIgnoringCase at same
    rw [← same, List.map_take, List.take_take, Nat.min_eq_left bound]
  exact differs
    ((first name long named).symm.trans (first other otherLong namedOther))

theorem lastValue_append
    (name : List UInt8) (first second : List (List UInt8)) :
    lastValue name (first ++ second) =
      (lastValue name second).or (lastValue name first) := by
  unfold lastValue
  rw [List.filter_append, List.getLast?_append]
  cases (second.filter (HasName name ·)).getLast? <;> simp

theorem lastValue_singleton (name line : List UInt8) :
    lastValue name [line] =
      if HasName name line then some (headerValue name line) else none := by
  unfold lastValue
  by_cases named : HasName name line
  · simp [named]
  · simp [named]

theorem keepsAlive_append (first second : List (List UInt8)) :
    KeepsAlive (first ++ second) ↔
      KeepsAlive first ∨ KeepsAlive second := by
  unfold KeepsAlive
  constructor
  · rintro ⟨header, member, holds⟩
    rcases List.mem_append.mp member with inFirst | inSecond
    · exact .inl ⟨header, inFirst, holds⟩
    · exact .inr ⟨header, inSecond, holds⟩
  · rintro (⟨header, member, holds⟩ | ⟨header, member, holds⟩)
    · exact ⟨header, List.mem_append_left _ member, holds⟩
    · exact ⟨header, List.mem_append_right _ member, holds⟩

namespace Conn

/-- From the first object to the second the parser has taken in the header
lines. -/
structure Parsed (c d : Conn) (headers : List (List UInt8)) : Prop where
  url_eq : d.url = c.url
  urlText_eq : d.urlText = c.urlText
  linger_iff : d.linger = true ↔ c.linger = true ∨ KeepsAlive headers
  contentLength_eq :
    d.contentLength =
      ((lastValue contentLengthName headers).map
        (toInt <| atol ·)).getD c.contentLength
  hostText_eq :
    d.hostText = (lastValue hostName headers).or c.hostText

theorem Parsed.nil
    {c d : Conn} (url_eq : d.url = c.url) (linger_eq : d.linger = c.linger)
    (contentLength_eq : d.contentLength = c.contentLength)
    (urlText_eq : d.urlText = c.urlText)
    (hostText_eq : d.hostText = c.hostText) : Parsed c d [] where
  url_eq := url_eq
  urlText_eq := urlText_eq
  linger_iff := by simp [linger_eq, KeepsAlive]
  contentLength_eq := by simp [contentLength_eq, lastValue]
  hostText_eq := by simp [hostText_eq, lastValue]

theorem Parsed.trans
    {c d e : Conn} {first second : List (List UInt8)}
    (former : Parsed c d first) (later : Parsed d e second) :
    Parsed c e (first ++ second) where
  url_eq := later.url_eq.trans former.url_eq
  urlText_eq := later.urlText_eq.trans former.urlText_eq
  linger_iff := by
    rw [later.linger_iff, former.linger_iff, keepsAlive_append, or_assoc]
  contentLength_eq := by
    rw [later.contentLength_eq, former.contentLength_eq, lastValue_append]
    cases lastValue contentLengthName second <;> simp
  hostText_eq := by
    rw [later.hostText_eq, former.hostText_eq, lastValue_append]
    cases lastValue hostName second <;> simp

theorem urlText_of_eq
    {c d : Conn} (url_eq : d.url = c.url) (readBuf_eq : d.readBuf = c.readBuf) :
    d.urlText = c.urlText := by
  unfold urlText
  rw [url_eq, readBuf_eq]

theorem hostText_of_eq
    {c d : Conn} (host_eq : d.host = c.host)
    (readBuf_eq : d.readBuf = c.readBuf) :
    d.hostText = c.hostText := by
  unfold hostText
  rw [host_eq, readBuf_eq]

/-- What a header line other than the empty one does. -/
theorem headersOn_parsed
    {c : Conn} {text : Nat} {line : List UInt8}
    (string : StringAt c.readBuf text line) (nonempty : line ≠ []) :
    (c.headersOn text line).1 = .noRequest ∧
      (c.headersOn text line).2.checkState = c.checkState ∧
      Parsed c (c.headersOn text line).2 [line] := by
  have onlyConnection : HasName connectionName line →
      ¬ HasName contentLengthName line ∧ ¬ HasName hostName line :=
    fun named =>
      ⟨not_hasName 4 named (by decide) (by decide) (by decide),
        not_hasName 4 named (by decide) (by decide) (by decide)⟩
  have onlyContentLength : HasName contentLengthName line →
      ¬ HasName hostName line :=
    fun named => not_hasName 4 named (by decide) (by decide) (by decide)
  have keeps :
      KeepsAlive [line] ↔ HasName connectionName line ∧
        SameIgnoringCase (headerValue connectionName line) keepAlive := by
    simp [KeepsAlive]
  unfold headersOn
  rw [if_neg nonempty]
  simp only
  by_cases isConnection : HasName connectionName line
  · obtain ⟨notContentLength, notHost⟩ := onlyConnection isConnection
    rw [if_pos isConnection]
    split
    · rename_i same
      exact ⟨rfl, rfl,
        { url_eq := rfl
          urlText_eq := urlText_of_eq rfl rfl
          linger_iff := by simp [keeps, isConnection, same]
          contentLength_eq := by
            simp [lastValue_singleton, notContentLength, scanned]
          hostText_eq := by
            simp only [lastValue_singleton, notHost, if_false,
              Option.none_or]
            exact hostText_of_eq rfl rfl }⟩
    · rename_i different
      exact ⟨rfl, rfl,
        { url_eq := rfl
          urlText_eq := urlText_of_eq rfl rfl
          linger_iff := by simp [keeps, different, scanned]
          contentLength_eq := by
            simp [lastValue_singleton, notContentLength, scanned]
          hostText_eq := by
            simp only [lastValue_singleton, notHost, if_false,
              Option.none_or]
            exact hostText_of_eq rfl rfl }⟩
  rw [if_neg isConnection]
  by_cases isContentLength : HasName contentLengthName line
  · have notHost := onlyContentLength isContentLength
    rw [if_pos isContentLength]
    exact ⟨rfl, rfl,
      { url_eq := rfl
        urlText_eq := urlText_of_eq rfl rfl
        linger_iff := by simp [keeps, isConnection, scanned]
        contentLength_eq := by simp [lastValue_singleton, isContentLength]
        hostText_eq := by
          simp only [lastValue_singleton, notHost, if_false,
            Option.none_or]
          exact hostText_of_eq rfl rfl }⟩
  rw [if_neg isContentLength]
  by_cases isHost : HasName hostName line
  · rw [if_pos isHost]
    have value := string.suffix _ (valueOffset_le isHost)
    exact ⟨rfl, rfl,
      { url_eq := rfl
        urlText_eq := urlText_of_eq rfl rfl
        linger_iff := by simp [keeps, isConnection, scanned]
        contentLength_eq := by
          simp [lastValue_singleton, isContentLength, scanned]
        hostText_eq := by
          simp only [lastValue_singleton, isHost, if_true, Option.some_or,
            hostText, Option.map_some, scanned_readBuf]
          rw [value.cstr_eq]
          rfl }⟩
  · rw [if_neg isHost]
    exact ⟨rfl, rfl,
      { url_eq := rfl
        urlText_eq := urlText_of_eq rfl rfl
        linger_iff := by simp [keeps, isConnection, scanned]
        contentLength_eq := by
          simp [lastValue_singleton, isContentLength, scanned]
        hostText_eq := by
          simp only [lastValue_singleton, isHost, if_false,
            Option.none_or]
          exact hostText_of_eq rfl rfl }⟩

end Conn

end LinuxNet.WebServer
