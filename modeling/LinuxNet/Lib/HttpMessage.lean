import LinuxNet.Lib.Decimal

/-!
# HTTP messages on a stream

A message is a start line, header lines and a body, in that order, with an
empty line in front of the body.  A reader takes the head up to the empty line.
Where the head has a `Content-Length` with a number, so many bytes are the body
and the next message begins behind them; otherwise the body ends with the
stream.
-/

namespace LinuxNet.HttpMessage

open LinuxNet.CString LinuxNet.Decimal

structure Message where
  startLine : List UInt8
  fields : List (List UInt8)
  body : List UInt8
  deriving DecidableEq, Repr

def renderLines (lines : List (List UInt8)) : List UInt8 :=
  lines.flatMap (· ++ [13, 10])

def render (message : Message) : List UInt8 :=
  message.startLine ++ [13, 10] ++ renderLines message.fields ++ [13, 10] ++
    message.body

/-- The bytes in front of the first line end, and those behind it. -/
def takeLine : List UInt8 → Option (List UInt8 × List UInt8)
  | [] => none
  | 13 :: 10 :: rest => some ([], rest)
  | byte :: rest =>
      (takeLine rest).map fun taken => (byte :: taken.1, taken.2)

def takeFields :
    Nat → List UInt8 → Option (List (List UInt8) × List UInt8)
  | 0, _ => none
  | fuel + 1, bytes =>
      (takeLine bytes).bind fun taken =>
        if taken.1 = [] then
          some ([], taken.2)
        else
          (takeFields fuel taken.2).map fun later =>
            (taken.1 :: later.1, later.2)

def fieldValue (name line : List UInt8) : Option (List UInt8) :=
  if SameIgnoringCase (line.take (name.length + 1)) (name ++ [58]) then
    some ((line.drop (name.length + 1)).dropWhile fun byte => byte == 32)
  else
    none

def lookupField (name : List UInt8) (lines : List (List UInt8)) :
    Option (List UInt8) :=
  lines.findSome? (fieldValue name)

/-- `Content-Length`. -/
def lengthName : List UInt8 :=
  [67, 111, 110, 116, 101, 110, 116, 45, 76, 101, 110, 103, 116, 104]

/-- The number of a `Content-Length`, if there is one. -/
def bodyLength (lines : List (List UInt8)) : Option Nat :=
  (lookupField lengthName lines).bind decimalValue

/-- The first message of a stream that is complete, and the rest. -/
def takeMessage (stream : List UInt8) :
    Option (Message × List UInt8) :=
  (takeLine stream).bind fun start =>
    (takeFields start.2.length start.2).bind fun head =>
      match bodyLength head.1 with
      | none => some (⟨start.1, head.1, head.2⟩, [])
      | some length =>
          if length ≤ head.2.length then
            some
              (⟨start.1, head.1, head.2.take length⟩, head.2.drop length)
          else
            none

def takeMessages : Nat → List UInt8 → Option (List Message)
  | _, [] => some []
  | 0, _ :: _ => none
  | fuel + 1, byte :: rest =>
      (takeMessage (byte :: rest)).bind fun taken =>
        (takeMessages fuel taken.2).map (taken.1 :: ·)

def readAll (stream : List UInt8) : Option (List Message) :=
  takeMessages stream.length stream

/-- The lines of the head are lines. -/
structure Message.WellFormed (message : Message) : Prop where
  startLine : 10 ∉ message.startLine
  fields : ∀ field ∈ message.fields, field ≠ [] ∧ 10 ∉ field

/-- The head tells where the body ends. -/
structure Message.Delimited (message : Message) : Prop
    extends message.WellFormed where
  length : bodyLength message.fields = some message.body.length

variable {message : Message}

theorem takeLine_append
    {line : List UInt8} (isLine : 10 ∉ line) (rest : List UInt8) :
    takeLine (line ++ 13 :: 10 :: rest) = some (line, rest) := by
  induction line with
  | nil => rfl
  | cons byte line inductionHypothesis =>
      have isRest : 10 ∉ line :=
        fun member => isLine (List.mem_cons_of_mem byte member)
      rw [List.cons_append, takeLine]
      · rw [inductionHypothesis isRest]
        rfl
      · intro later first second
        cases line with
        | nil => exact absurd (List.cons.inj second).1 (by decide)
        | cons next line =>
            have feed := (List.cons.inj second).1
            exact isLine (by simp [feed])

theorem takeFields_renderLines
    {lines : List (List UInt8)}
    (areLines : ∀ line ∈ lines, line ≠ [] ∧ 10 ∉ line)
    {fuel : Nat} (enough : lines.length < fuel) (rest : List UInt8) :
    takeFields fuel (renderLines lines ++ 13 :: 10 :: rest) =
      some (lines, rest) := by
  induction lines generalizing fuel with
  | nil =>
      cases fuel with
      | zero => cases enough
      | succ fuel => rfl
  | cons line lines inductionHypothesis =>
      cases fuel with
      | zero => cases enough
      | succ fuel =>
          obtain ⟨⟨nonempty, isLine⟩, others⟩ :=
            List.forall_mem_cons.mp areLines
          have later :=
            inductionHypothesis others (Nat.lt_of_succ_lt_succ enough)
          have shape :
              renderLines (line :: lines) ++ 13 :: 10 :: rest =
                line ++ 13 :: 10 ::
                  (renderLines lines ++ 13 :: 10 :: rest) := by
            simp [renderLines]
          rw [shape, takeFields, takeLine_append isLine, Option.bind_some,
            if_neg nonempty, later]
          rfl

theorem length_le_length_renderLines (lines : List (List UInt8)) :
    lines.length ≤ (renderLines lines).length := by
  induction lines with
  | nil => exact Nat.le_refl _
  | cons line lines inductionHypothesis =>
      have shape :
          renderLines (line :: lines) =
            line ++ [13, 10] ++ renderLines lines := by
        simp [renderLines]
      rw [shape]
      simp only [List.length_cons, List.length_append, List.length_nil]
      omega

/-- The reader finds the head, whatever is behind it. -/
theorem takeMessage_of_wellFormed
    (wellFormed : message.WellFormed) (later : List UInt8) :
    takeMessage (render message ++ later) =
      match bodyLength message.fields with
      | none =>
          some
            (⟨message.startLine, message.fields, message.body ++ later⟩, [])
      | some length =>
          if length ≤ (message.body ++ later).length then
            some
              (⟨message.startLine, message.fields,
                (message.body ++ later).take length⟩,
                (message.body ++ later).drop length)
          else
            none := by
  have shape :
      render message ++ later =
        message.startLine ++ 13 :: 10 ::
          (renderLines message.fields ++ 13 :: 10 ::
            (message.body ++ later)) := by
    simp [render]
  have enough :
      message.fields.length <
        (renderLines message.fields ++ 13 :: 10 ::
          (message.body ++ later)).length := by
    have atMost := length_le_length_renderLines message.fields
    simp only [List.length_append, List.length_cons]
    omega
  rw [shape, takeMessage, takeLine_append wellFormed.startLine,
    Option.bind_some, takeFields_renderLines wellFormed.fields enough,
    Option.bind_some]

theorem takeMessage_render
    (delimited : message.Delimited) (later : List UInt8) :
    takeMessage (render message ++ later) = some (message, later) := by
  rw [takeMessage_of_wellFormed delimited.toWellFormed]
  simp only [delimited.length]
  rw [if_pos (by simp), List.take_left, List.drop_left]

/-- Without a length the rest of the stream is the body. -/
theorem takeMessage_render_to_end
    (wellFormed : message.WellFormed)
    (noLength : bodyLength message.fields = none) :
    takeMessage (render message) = some (message, []) := by
  have taken := takeMessage_of_wellFormed wellFormed []
  simp only [noLength, List.append_nil] at taken
  exact taken

theorem render_ne_nil (message : Message) : render message ≠ [] := by
  simp [render]

theorem takeMessages_renders
    {messages : List Message}
    (delimited : ∀ message ∈ messages, message.Delimited)
    {fuel : Nat} (enough : messages.length ≤ fuel) :
    takeMessages fuel (messages.flatMap render) = some messages := by
  induction messages generalizing fuel with
  | nil => simp [takeMessages]
  | cons message messages inductionHypothesis =>
      obtain ⟨here, others⟩ := List.forall_mem_cons.mp delimited
      cases fuel with
      | zero => cases enough
      | succ fuel =>
          have later :=
            inductionHypothesis others (Nat.le_of_succ_le_succ enough)
          have taken :=
            takeMessage_render here (messages.flatMap render)
          rw [List.flatMap_cons]
          cases shape : render message ++ messages.flatMap render with
          | nil =>
              exact
                absurd (List.append_eq_nil_iff.mp shape).1
                  (render_ne_nil message)
          | cons byte rest =>
              rw [shape] at taken
              rw [takeMessages, taken, Option.bind_some, later]
              rfl

/-- Messages that tell where they end are read back one by one. -/
theorem readAll_renders
    {messages : List Message}
    (delimited : ∀ message ∈ messages, message.Delimited) :
    readAll (messages.flatMap render) = some messages := by
  apply takeMessages_renders delimited
  induction messages with
  | nil => exact Nat.le_refl _
  | cons message messages inductionHypothesis =>
      obtain ⟨_, others⟩ := List.forall_mem_cons.mp delimited
      have later := inductionHypothesis others
      have positive : 0 < (render message).length :=
        List.length_pos_iff.mpr (render_ne_nil message)
      rw [List.flatMap_cons, List.length_append, List.length_cons]
      omega

theorem eq_of_takeLine
    {stream line rest : List UInt8}
    (taken : takeLine stream = some (line, rest)) :
    stream = line ++ 13 :: 10 :: rest := by
  induction stream using takeLine.induct generalizing line with
  | case1 => cases taken
  | case2 later =>
      cases taken
      rfl
  | case3 byte later notEnd inductionHypothesis =>
      simp only [takeLine] at taken
      obtain ⟨⟨tail, behind⟩, isTail, same⟩ :=
        Option.map_eq_some_iff.mp taken
      cases same
      rw [inductionHypothesis isTail]
      rfl

theorem eq_of_takeFields
    {fuel : Nat} {stream rest : List UInt8} {lines : List (List UInt8)}
    (taken : takeFields fuel stream = some (lines, rest)) :
    stream = renderLines lines ++ 13 :: 10 :: rest := by
  induction fuel generalizing stream lines with
  | zero => cases taken
  | succ fuel inductionHypothesis =>
      obtain ⟨⟨line, behind⟩, isLine, taken⟩ :=
        Option.bind_eq_some_iff.mp taken
      have shape := eq_of_takeLine isLine
      split at taken
      · next empty =>
          cases taken
          rw [shape, show line = [] from empty]
          rfl
      · obtain ⟨⟨others, later⟩, isLater, same⟩ :=
          Option.map_eq_some_iff.mp taken
        cases same
        have tail : behind = renderLines others ++ 13 :: 10 :: later :=
          inductionHypothesis isLater
        rw [shape, tail]
        simp [renderLines]

/-- The reader takes nothing but a message. -/
theorem eq_of_takeMessage
    {stream rest : List UInt8}
    (taken : takeMessage stream = some (message, rest)) :
    stream = render message ++ rest := by
  obtain ⟨⟨start, behind⟩, isStart, taken⟩ :=
    Option.bind_eq_some_iff.mp taken
  obtain ⟨⟨fields, later⟩, isHead, taken⟩ :=
    Option.bind_eq_some_iff.mp taken
  have shape := eq_of_takeLine isStart
  have head : behind = renderLines fields ++ 13 :: 10 :: later :=
    eq_of_takeFields isHead
  rw [shape, head]
  split at taken
  · cases taken
    simp [render]
  · split at taken
    · cases taken
      simp [render]
    · cases taken

/-! ## Looking a field up -/

/-- A line with the name gives its value. -/
theorem fieldValue_self (name value : List UInt8) :
    fieldValue name (name ++ 58 :: value) =
      some (value.dropWhile fun byte => byte == 32) := by
  have shape : name ++ 58 :: value = (name ++ [58]) ++ value := by simp
  have length : name.length + 1 = (name ++ [58]).length := by simp
  have same : SameIgnoringCase (name ++ [58]) (name ++ [58]) := rfl
  rw [fieldValue, shape, length, List.take_left, List.drop_left,
    if_pos same]

theorem lookupField_self
    (name value : List UInt8) (lines : List (List UInt8)) :
    lookupField name ((name ++ 58 :: value) :: lines) =
      some (value.dropWhile fun byte => byte == 32) := by
  rw [lookupField, List.findSome?_cons, fieldValue_self]

theorem lookupField_of_other
    {name line : List UInt8} (other : fieldValue name line = none)
    (lines : List (List UInt8)) :
    lookupField name (line :: lines) = lookupField name lines := by
  rw [lookupField, List.findSome?_cons, other]
  rfl

theorem dropWhile_decimal (value : Int) :
    (decimal value).dropWhile (fun byte => byte == 32) = decimal value := by
  rw [List.dropWhile_eq_self_iff]
  intro nonempty
  rcases isdigit_or_minus_of_mem_decimal (List.getElem_mem nonempty) with
    digit | minus
  · intro blank
    rw [beq_iff_eq.mp blank] at digit
    exact absurd digit (by decide)
  · intro blank
    rw [beq_iff_eq.mp blank] at minus
    exact absurd minus (by decide)

theorem feed_notMem_decimal (value : Int) : 10 ∉ decimal value := by
  intro member
  rcases isdigit_or_minus_of_mem_decimal member with digit | minus
  · exact absurd digit (by decide)
  · exact absurd minus (by decide)

/-- A line that begins in another way is not looked at. -/
theorem fieldValue_of_start
    {name start : List UInt8} (short : start.length ≤ name.length + 1)
    (differs :
      ¬ SameIgnoringCase start ((name ++ [58]).take start.length))
    (rest : List UInt8) : fieldValue name (start ++ rest) = none := by
  refine if_neg fun same => differs ?_
  have starts := congrArg (List.take start.length) same
  rw [← List.map_take, ← List.map_take, List.take_take,
    Nat.min_eq_left short, List.take_left] at starts
  exact starts

theorem bodyLength_of_other
    {line : List UInt8} (other : fieldValue lengthName line = none)
    (lines : List (List UInt8)) :
    bodyLength (line :: lines) = bodyLength lines := by
  unfold bodyLength
  rw [lookupField_of_other other]

/-- The first `Content-Length` counts. -/
theorem bodyLength_of_first
    (value : List UInt8) (lines : List (List UInt8)) :
    bodyLength ((lengthName ++ 58 :: value) :: lines) =
      decimalValue (value.dropWhile fun byte => byte == 32) := by
  unfold bodyLength
  rw [lookupField_self]
  rfl

/-- A printed length is the number, where it is not negative. -/
theorem decimalValue_decimal_natCast (length : Nat) :
    decimalValue
        ((decimal (length : Int)).dropWhile fun byte => byte == 32) =
      some length := by
  rw [dropWhile_decimal]
  exact decimalValue_decimal_ofNat length

end LinuxNet.HttpMessage
