import LinuxNet.HttpServer.Percent
import LinuxNet.Lib.Decimal

/-!
# The bodies that the epoll server sends

The client socket is non-blocking, so `send` may take less than it is
offered, or nothing.  `send_file` goes on to the next block of the file in
any case.  `send_dir` keeps its buffer when `send` refuses it and clears it
otherwise, and does not look at the result of its last `send`.  The body
arrives whole exactly when each `send` takes the whole buffer, save for the
refusals inside `send_dir`'s loop, which must leave room in the buffer.
-/

namespace LinuxNet.HttpServer

open LinuxNet.CString LinuxNet.Decimal

/-- What `send` does with what it is offered; the other errors end the
program. -/
inductive SendOutcome where
  | accepts (count : Nat)
  | eagain
  | eintr
  deriving DecidableEq, Repr

namespace SendOutcome

def accepted (outcome : SendOutcome) (buf : List UInt8) : List UInt8 :=
  match outcome with
  | accepts count => buf.take count
  | eagain | eintr => []

def TakesAll (offered : Nat) : SendOutcome → Prop
  | accepts count => offered ≤ count
  | eagain | eintr => False

theorem length_accepted_le (outcome : SendOutcome) (buf : List UInt8) :
    (outcome.accepted buf).length ≤ buf.length := by
  cases outcome with
  | accepts count => exact List.length_take_le' count buf
  | eagain | eintr => exact Nat.zero_le _

theorem accepted_eq_iff (outcome : SendOutcome) (buf : List UInt8)
    (offered : buf ≠ []) :
    outcome.accepted buf = buf ↔ outcome.TakesAll buf.length := by
  cases outcome with
  | accepts count =>
      constructor
      · intro whole
        have bound := List.length_take_le count buf
        rw [show buf.take count = buf from whole] at bound
        exact bound
      · exact List.take_of_length_le
  | eagain | eintr => exact iff_of_false (Ne.symm offered) id

end SendOutcome

def bodyBufferSize : Nat := 4096

/-- What the socket takes of the rest of a file.  A turn of the loop is a
`read` of the given number of bytes and the `send` of them; there are no such
turns where `read` cannot return the number. -/
def sendFile : List UInt8 → List (Nat × SendOutcome) → Option (List UInt8)
  | [], [] => some []
  | [], _ :: _ => none
  | _ :: _, [] => none
  | byte :: rest, (readBytes, outcome) :: turns =>
      if 1 ≤ readBytes ∧ readBytes ≤ bodyBufferSize ∧
          readBytes ≤ (byte :: rest).length then
        (sendFile ((byte :: rest).drop readBytes) turns).map
          (outcome.accepted ((byte :: rest).take readBytes) ++ ·)
      else
        none

/-- What `S_ISREG` and `S_ISDIR` tell. -/
inductive FileKind where
  | regular
  | directory
  | other
  deriving DecidableEq, Repr

/-- An entry that `scandir` finds, with what `stat` says about it. -/
structure DirEntry where
  name : List UInt8
  kind : FileKind
  size : Int

def utf8 (text : String) : List UInt8 :=
  text.toUTF8.toList

/-- `sprintf(buf + strlen(buf), ..)`, without a value where it runs over the
end of the buffer. -/
def printInto (size : Nat) (buf text : List UInt8) : Option (List UInt8) :=
  if (buf ++ text).length < size then some (buf ++ text) else none

/-- The string in `en_str`, which has 1024 bytes. -/
def enStr (name : List UInt8) : List UInt8 :=
  cstr (encodeStr (List.replicate 1024 0) 1024 name).memory 0

def titleText (dirname : List UInt8) : List UInt8 :=
  utf8 "<html><head><title>目录名: " ++ dirname ++ utf8 "</title></head>"

def headingText (dirname : List UInt8) : List UInt8 :=
  utf8 "<body><h1>当前目录: " ++ dirname ++ utf8 "</h1><table>"

def rowText (entry : DirEntry) : List UInt8 :=
  match entry.kind with
  | .regular =>
      utf8 "<tr><td><a href=\"" ++ enStr entry.name ++ utf8 "\">" ++
        entry.name ++ utf8 "</a></td><td>" ++ decimal entry.size ++
        utf8 "</td></tr>"
  | .directory =>
      utf8 "<tr><td><a href=\"" ++ enStr entry.name ++ utf8 "/\">" ++
        entry.name ++ utf8 "/</a></td><td>" ++ decimal entry.size ++
        utf8 "</td></tr>"
  | .other => []

def closingText : List UInt8 :=
  utf8 "</table></body></html>"

/-- The loop over the entries, each with the outcome of its `send`, and the
last `send`. -/
def sendRows (dirname : List UInt8) (last : SendOutcome) :
    List UInt8 → List (DirEntry × SendOutcome) → Option (List UInt8)
  | buf, [] =>
      (printInto bodyBufferSize buf closingText).map last.accepted
  | buf, (entry, outcome) :: turns =>
      (printInto 1024 [] (dirname ++ 47 :: entry.name)).bind fun _ =>
        (printInto bodyBufferSize buf (rowText entry)).bind fun buf =>
          match outcome with
          | .accepts count =>
              (sendRows dirname last [] turns).map (buf.take count ++ ·)
          | .eagain | .eintr => sendRows dirname last buf turns

/-- What the socket takes of a directory page. -/
def sendDir
    (dirname : List UInt8) (turns : List (DirEntry × SendOutcome))
    (last : SendOutcome) : Option (List UInt8) :=
  (printInto bodyBufferSize [] (titleText dirname)).bind fun buf =>
    (printInto bodyBufferSize buf (headingText dirname)).bind fun buf =>
      sendRows dirname last buf turns

def dirPage (dirname : List UInt8) (entries : List DirEntry) : List UInt8 :=
  titleText dirname ++ headingText dirname ++ entries.flatMap rowText ++
    closingText

/-! ## When a body arrives whole -/

/-- Two texts in a row are what they should be only where each is, if neither
can be longer. -/
theorem append_eq_iff_of_length_le
    {sent rest buf tail : List UInt8} (first : sent.length ≤ buf.length)
    (second : rest.length ≤ tail.length) :
    sent ++ rest = buf ++ tail ↔ sent = buf ∧ rest = tail := by
  constructor
  · intro same
    have lengths := congrArg List.length same
    rw [List.length_append, List.length_append] at lengths
    exact List.append_inj same (by omega)
  · rintro ⟨rfl, rfl⟩
    rfl

theorem sendFile_nil
    {content sent : List UInt8} (ran : sendFile content [] = some sent) :
    content = [] ∧ sent = [] := by
  cases content with
  | nil =>
      cases ran
      exact ⟨rfl, rfl⟩
  | cons byte rest => cases ran

theorem sendFile_cons
    {content sent : List UInt8} {turn : Nat × SendOutcome}
    {turns : List (Nat × SendOutcome)}
    (ran : sendFile content (turn :: turns) = some sent) :
    1 ≤ turn.1 ∧ turn.1 ≤ content.length ∧
      ∃ later, sendFile (content.drop turn.1) turns = some later ∧
        sent = turn.2.accepted (content.take turn.1) ++ later := by
  cases content with
  | nil => cases ran
  | cons byte rest =>
      rw [sendFile] at ran
      split at ran
      · next count =>
          obtain ⟨later, ranLater, rfl⟩ := Option.map_eq_some_iff.mp ran
          exact ⟨count.1, count.2.2, later, ranLater, rfl⟩
      · cases ran

theorem length_sendFile_le
    {content sent : List UInt8} {turns : List (Nat × SendOutcome)}
    (ran : sendFile content turns = some sent) :
    sent.length ≤ content.length := by
  induction turns generalizing content sent with
  | nil =>
      obtain ⟨rfl, rfl⟩ := sendFile_nil ran
      exact Nat.le_refl 0
  | cons turn turns inductionHypothesis =>
      obtain ⟨_, _, later, ranLater, rfl⟩ := sendFile_cons ran
      have laterLe := inductionHypothesis ranLater
      have firstLe := turn.2.length_accepted_le (content.take turn.1)
      rw [List.length_drop] at laterLe
      rw [List.length_take] at firstLe
      rw [List.length_append]
      omega

theorem sendFile_eq_content_iff
    {content sent : List UInt8} {turns : List (Nat × SendOutcome)}
    (ran : sendFile content turns = some sent) :
    sent = content ↔ ∀ turn ∈ turns, turn.2.TakesAll turn.1 := by
  induction turns generalizing content sent with
  | nil =>
      obtain ⟨rfl, rfl⟩ := sendFile_nil ran
      exact iff_of_true rfl (fun _ impossible => by cases impossible)
  | cons turn turns inductionHypothesis =>
      obtain ⟨positive, inside, later, ranLater, rfl⟩ := sendFile_cons ran
      have shape := (List.take_append_drop turn.1 content).symm
      have length : (content.take turn.1).length = turn.1 := by
        rw [List.length_take]
        exact Nat.min_eq_left inside
      have offered : content.take turn.1 ≠ [] := by
        apply List.ne_nil_of_length_pos
        rw [length]
        exact positive
      conv => lhs; rhs; rw [shape]
      rw [append_eq_iff_of_length_le
        (turn.2.length_accepted_le _) (length_sendFile_le ranLater),
        turn.2.accepted_eq_iff _ offered, length,
        inductionHypothesis ranLater, List.forall_mem_cons]

/-- Each `send` of `send_dir` takes the whole buffer, or is one of the loop
and refuses it; and what was refused leaves room for what comes next. -/
def RowsArrive (dirname : List UInt8) (last : SendOutcome) :
    List UInt8 → List (DirEntry × SendOutcome) → Prop
  | buf, [] =>
      (buf ++ closingText).length < bodyBufferSize ∧
        last.TakesAll (buf ++ closingText).length
  | buf, (entry, outcome) :: turns =>
      (dirname ++ 47 :: entry.name).length < 1024 ∧
        (buf ++ rowText entry).length < bodyBufferSize ∧
          (outcome.TakesAll (buf ++ rowText entry).length ∧
              RowsArrive dirname last [] turns ∨
            (outcome = .eagain ∨ outcome = .eintr) ∧
              RowsArrive dirname last (buf ++ rowText entry) turns)

theorem printInto_eq_some_iff
    {size : Nat} {buf text printed : List UInt8} :
    printInto size buf text = some printed ↔
      (buf ++ text).length < size ∧ printed = buf ++ text := by
  unfold printInto
  split
  · next fits =>
      rw [Option.some_inj, eq_comm]
      exact (and_iff_right fits).symm
  · next tooLong =>
      exact iff_of_false nofun (fun fits => tooLong fits.1)

/-- What is behind the buffer in the page. -/
def rowsText (turns : List (DirEntry × SendOutcome)) : List UInt8 :=
  (turns.map Prod.fst).flatMap rowText ++ closingText

theorem rowsText_cons
    (entry : DirEntry) (outcome : SendOutcome)
    (turns : List (DirEntry × SendOutcome)) (buf : List UInt8) :
    buf ++ rowsText ((entry, outcome) :: turns) =
      (buf ++ rowText entry) ++ rowsText turns := by
  simp [rowsText]

/-- One turn of the loop. -/
theorem sendRows_cons_iff
    {dirname buf sent : List UInt8} {last : SendOutcome} {entry : DirEntry}
    {outcome : SendOutcome} {turns : List (DirEntry × SendOutcome)} :
    sendRows dirname last buf ((entry, outcome) :: turns) = some sent ↔
      (dirname ++ 47 :: entry.name).length < 1024 ∧
        (buf ++ rowText entry).length < bodyBufferSize ∧
          ((∃ count later, outcome = .accepts count ∧
              sendRows dirname last [] turns = some later ∧
                sent = (buf ++ rowText entry).take count ++ later) ∨
            (outcome = .eagain ∨ outcome = .eintr) ∧
              sendRows dirname last (buf ++ rowText entry) turns =
                some sent) := by
  rw [sendRows, Option.bind_eq_some_iff]
  constructor
  · rintro ⟨path, isPath, ran⟩
    obtain ⟨printed, isPrinted, ran⟩ := Option.bind_eq_some_iff.mp ran
    obtain ⟨fits, rfl⟩ := printInto_eq_some_iff.mp isPrinted
    refine ⟨(printInto_eq_some_iff.mp isPath).1, fits, ?_⟩
    cases outcome with
    | accepts count =>
        obtain ⟨later, ranLater, rfl⟩ := Option.map_eq_some_iff.mp ran
        exact Or.inl ⟨count, later, rfl, ranLater, rfl⟩
    | eagain => exact Or.inr ⟨Or.inl rfl, ran⟩
    | eintr => exact Or.inr ⟨Or.inr rfl, ran⟩
  · rintro ⟨pathFits, fits, ran⟩
    refine ⟨_, printInto_eq_some_iff.mpr ⟨pathFits, rfl⟩, ?_⟩
    rw [Option.bind_eq_some_iff]
    refine ⟨_, printInto_eq_some_iff.mpr ⟨fits, rfl⟩, ?_⟩
    rcases ran with ⟨count, later, rfl, ranLater, rfl⟩ | ⟨refused, ran⟩
    · exact Option.map_eq_some_iff.mpr ⟨later, ranLater, rfl⟩
    · rcases refused with rfl | rfl
      · exact ran
      · exact ran

theorem length_sendRows_le
    {dirname buf sent : List UInt8} {last : SendOutcome}
    {turns : List (DirEntry × SendOutcome)}
    (ran : sendRows dirname last buf turns = some sent) :
    sent.length ≤ (buf ++ rowsText turns).length := by
  induction turns generalizing buf sent with
  | nil =>
      rw [sendRows, Option.map_eq_some_iff] at ran
      obtain ⟨printed, isPrinted, rfl⟩ := ran
      rw [(printInto_eq_some_iff.mp isPrinted).2]
      exact last.length_accepted_le _
  | cons turn turns inductionHypothesis =>
      obtain ⟨entry, outcome⟩ := turn
      rw [rowsText_cons]
      obtain ⟨_, _, ran⟩ := sendRows_cons_iff.mp ran
      rcases ran with ⟨count, later, _, ranLater, rfl⟩ | ⟨_, ran⟩
      · have laterLe := inductionHypothesis ranLater
        have firstLe := List.length_take_le' count (buf ++ rowText entry)
        rw [List.nil_append] at laterLe
        rw [List.length_append, List.length_append]
        omega
      · exact inductionHypothesis ran

theorem closingText_ne_nil : closingText ≠ [] := by
  decide +kernel

theorem sendRows_eq_iff
    (dirname buf : List UInt8) (last : SendOutcome)
    (turns : List (DirEntry × SendOutcome)) :
    sendRows dirname last buf turns = some (buf ++ rowsText turns) ↔
      RowsArrive dirname last buf turns := by
  induction turns generalizing buf with
  | nil =>
      have offered : buf ++ closingText ≠ [] :=
        List.append_ne_nil_of_right_ne_nil buf closingText_ne_nil
      rw [sendRows, RowsArrive, Option.map_eq_some_iff]
      constructor
      · rintro ⟨printed, isPrinted, whole⟩
        obtain ⟨fits, rfl⟩ := printInto_eq_some_iff.mp isPrinted
        exact ⟨fits, (last.accepted_eq_iff _ offered).mp whole⟩
      · rintro ⟨fits, takesAll⟩
        exact
          ⟨_, printInto_eq_some_iff.mpr ⟨fits, rfl⟩,
            (last.accepted_eq_iff _ offered).mpr takesAll⟩
  | cons turn turns inductionHypothesis =>
      obtain ⟨entry, outcome⟩ := turn
      rw [rowsText_cons, sendRows_cons_iff, RowsArrive,
        ← inductionHypothesis [], ← inductionHypothesis (buf ++ rowText entry),
        List.nil_append]
      apply and_congr_right
      intro _
      apply and_congr_right
      intro _
      apply or_congr_left
      constructor
      · rintro ⟨count, later, rfl, ran, whole⟩
        have laterLe := length_sendRows_le ran
        obtain ⟨first, rfl⟩ :=
          (append_eq_iff_of_length_le
            (List.length_take_le' count (buf ++ rowText entry))
            laterLe).mp whole.symm
        have bound := List.length_take_le count (buf ++ rowText entry)
        rw [first] at bound
        exact ⟨bound, ran⟩
      · rintro ⟨takesAll, ran⟩
        cases outcome with
        | accepts count =>
            refine ⟨count, _, rfl, ran, ?_⟩
            rw [List.take_of_length_le takesAll]
        | eagain | eintr => cases takesAll

/-- The head of the page fits into the buffer, and the rows arrive. -/
def PageArrives
    (dirname : List UInt8) (turns : List (DirEntry × SendOutcome))
    (last : SendOutcome) : Prop :=
  (titleText dirname ++ headingText dirname).length < bodyBufferSize ∧
    RowsArrive dirname last (titleText dirname ++ headingText dirname) turns

theorem sendDir_eq_dirPage_iff
    (dirname : List UInt8) (turns : List (DirEntry × SendOutcome))
    (last : SendOutcome) :
    sendDir dirname turns last = some (dirPage dirname (turns.map Prod.fst)) ↔
      PageArrives dirname turns last := by
  have shape :
      dirPage dirname (turns.map Prod.fst) =
        (titleText dirname ++ headingText dirname) ++ rowsText turns := by
    simp [dirPage, rowsText]
  rw [shape, sendDir, PageArrives, ← sendRows_eq_iff,
    Option.bind_eq_some_iff]
  constructor
  · rintro ⟨title, isTitle, ran⟩
    obtain ⟨_, rfl⟩ := printInto_eq_some_iff.mp isTitle
    obtain ⟨head, isHead, ran⟩ := Option.bind_eq_some_iff.mp ran
    obtain ⟨fits, rfl⟩ := printInto_eq_some_iff.mp isHead
    exact ⟨fits, ran⟩
  · rintro ⟨fits, ran⟩
    have titleFits : ([] ++ titleText dirname).length < bodyBufferSize := by
      rw [List.length_append] at fits
      rw [List.nil_append]
      omega
    refine ⟨_, printInto_eq_some_iff.mpr ⟨titleFits, rfl⟩, ?_⟩
    rw [Option.bind_eq_some_iff]
    exact ⟨_, printInto_eq_some_iff.mpr ⟨fits, rfl⟩, ran⟩

/-- A file arrives whole exactly when each `send` takes its whole block, and
a directory page exactly when each `send` takes the whole buffer, save for
refusals in the loop. -/
theorem bodies_arrive_iff
    (content sent : List UInt8) (reads : List (Nat × SendOutcome))
    (ran : sendFile content reads = some sent)
    (dirname : List UInt8) (turns : List (DirEntry × SendOutcome))
    (last : SendOutcome) :
    (sent = content ↔ ∀ turn ∈ reads, turn.2.TakesAll turn.1) ∧
      (sendDir dirname turns last =
          some (dirPage dirname (turns.map Prod.fst)) ↔
        PageArrives dirname turns last) :=
  ⟨sendFile_eq_content_iff ran, sendDir_eq_dirPage_iff dirname turns last⟩

/-- Three bytes in two blocks, and an empty directory. -/
theorem bodies_arrive_two_blocks :
    (([1, 2] : List UInt8) = [1, 2, 3] ↔
        ∀ turn ∈ [(2, SendOutcome.accepts 2), (1, .eagain)],
          turn.2.TakesAll turn.1) ∧
      (sendDir [46] [] .eagain = some (dirPage [46] []) ↔
        PageArrives [46] [] .eagain) :=
  bodies_arrive_iff [1, 2, 3] [1, 2] [(2, .accepts 2), (1, .eagain)]
    (by decide) [46] [] .eagain

/-- A file of three bytes whose only `send` is refused, and a directory page
whose last one is. -/
theorem bodies_lost_on_eagain :
    ¬ ((∀ (content sent : List UInt8) (reads : List (Nat × SendOutcome)),
          sendFile content reads = some sent → sent = content) ∧
        ∀ (dirname : List UInt8) (turns : List (DirEntry × SendOutcome))
          (last : SendOutcome) (sent : List UInt8),
          sendDir dirname turns last = some sent →
            sent = dirPage dirname (turns.map Prod.fst)) := by
  intro claimed
  have whole := claimed.1 [1, 2, 3] [] [(3, .eagain)] (by decide)
  cases whole

end LinuxNet.HttpServer
