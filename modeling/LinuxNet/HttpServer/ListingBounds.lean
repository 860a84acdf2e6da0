import LinuxNet.HttpServer.LinkRoundTrip
import LinuxNet.HttpServer.SendBody

/-!
# The arrays of the directory pages

`send_dir` of both servers prints into `buf`, into `path` and into the array
of the encoded name, without a look at their sizes.  The encoder stays in its
array.  In the epoll server a refused `send` leaves what is in `buf`, and the
next row goes behind it; the libevent server clears `buf` behind every row, so
that only a long name of the directory can fill it.
-/

namespace LinuxNet.HttpServer

open LinuxNet.CString LinuxNet.Decimal LinuxNet.WebServer

/-- The size of an array and the last place in it that is written. -/
structure Store where
  size : Nat
  last : Nat
  deriving DecidableEq, Repr

def Store.Inside (store : Store) : Prop :=
  store.last < store.size

instance (store : Store) : Decidable store.Inside := by
  unfold Store.Inside
  infer_instance

def AllInside (stores : List Store) : Prop :=
  ∀ store ∈ stores, store.Inside

instance (stores : List Store) : Decidable (AllInside stores) := by
  unfold AllInside
  infer_instance

/-- `sprintf` of a text behind what is in the array, with the NUL behind
it. -/
def printed (size : Nat) (before text : List UInt8) : Store :=
  ⟨size, before.length + text.length⟩

def encodedStores (output : Output) : List Store :=
  output.writes.map (Store.mk 1024)

/-- The body of the loop up to `send`.  Nothing is printed for what is neither
a file nor a directory. -/
def entryStores (dirname buf : List UInt8) (entry : DirEntry) : List Store :=
  printed 1024 [] (dirname ++ 47 :: entry.name) ::
    (encodedStores (encodeStr (List.replicate 1024 0) 1024 entry.name) ++
      if entry.kind = .other then
        []
      else
        [printed bodyBufferSize buf (rowText entry)])

/-- `errno` is `EAGAIN` or `EINTR`. -/
def SendOutcome.refuses : SendOutcome → Bool
  | accepts _ => false
  | eagain | eintr => true

/-- The loop, each entry with the outcome of its `send`, and what is printed
behind it.  There is no outcome where `send` fails for another reason, and the
program ends. -/
def rowsStores (dirname : List UInt8) :
    List UInt8 → List (DirEntry × Option SendOutcome) → List Store
  | buf, [] => [printed bodyBufferSize buf closingText]
  | buf, (entry, none) :: _ => entryStores dirname buf entry
  | buf, (entry, some outcome) :: turns =>
      entryStores dirname buf entry ++
        rowsStores dirname
          (if outcome.refuses then buf ++ rowText entry else []) turns

/-- `send_dir` of the epoll server. -/
def sendDirStores
    (dirname : List UInt8)
    (turns : List (DirEntry × Option SendOutcome)) : List Store :=
  printed bodyBufferSize [] (titleText dirname) ::
    printed bodyBufferSize (titleText dirname) (headingText dirname) ::
      rowsStores dirname (titleText dirname ++ headingText dirname) turns

/-- The path of every entry that is reached has fewer than 1024 bytes, and the
rows behind a refused `send` leave room for the next one and for the end of
the page. -/
def RoomFor (dirname : List UInt8) :
    Nat → List (DirEntry × Option SendOutcome) → Prop
  | kept, [] => kept + closingText.length < bodyBufferSize
  | kept, (entry, none) :: _ =>
      dirname.length + 1 + entry.name.length < 1024 ∧
        kept + (rowText entry).length < bodyBufferSize
  | kept, (entry, some outcome) :: turns =>
      (dirname.length + 1 + entry.name.length < 1024 ∧
        kept + (rowText entry).length < bodyBufferSize) ∧
        RoomFor dirname
          (if outcome.refuses then kept + (rowText entry).length else 0)
          turns

namespace Libevent

/-- What `lstat` and `strftime` say about an entry. -/
structure Stat where
  isDirectory : Bool
  timestr : List UInt8
  size : Int
  timestr_fits : timestr.length < 64
  size_fits : size.natAbs ≤ 9223372036854775808

/-- An entry that `scandir` finds, without a `Stat` where `lstat` fails. -/
structure Entry where
  name : List UInt8
  lstat : Option Stat
  name_fits : name.length ≤ 255

/-- The string in `encoded_name`, which has 1024 bytes. -/
def encodedName (name : List UInt8) : List UInt8 :=
  cstr (strencode (List.replicate 1024 0) 1024 name).memory 0

def titleText (dirname : List UInt8) : List UInt8 :=
  utf8 "<html><head><meta charset=\"utf-8\"><title>" ++ dirname ++
    utf8 "</title></head>"

def headingText (dirname : List UInt8) : List UInt8 :=
  utf8 "<body><h1>当前目录：" ++ dirname ++ utf8 "</h1><table>"

def rowText (entry : Entry) : List UInt8 :=
  match entry.lstat with
  | none =>
      utf8 "<tr><td><a href=\"" ++ encodedName entry.name ++ utf8 "\">" ++
        entry.name ++ utf8 "</a></td></tr>\n"
  | some stat =>
      let slash := if stat.isDirectory then utf8 "/" else []
      utf8 "<tr><td><a href=\"" ++ encodedName entry.name ++ slash ++
        utf8 "\">" ++ entry.name ++ slash ++ utf8 "</a></td><td>" ++
        stat.timestr ++ utf8 "</td><td>" ++ decimal stat.size ++
        utf8 "</td></tr>\n"

def rowsStores (dirname : List UInt8) :
    List UInt8 → List Entry → List Store
  | buf, [] => [printed 4096 buf closingText]
  | buf, entry :: entries =>
      encodedStores (strencode (List.replicate 1024 0) 1024 entry.name) ++
        printed 1024 [] (dirname ++ entry.name) ::
          printed 4096 buf (rowText entry) ::
            rowsStores dirname [] entries

/-- `send_dir` of the libevent server. -/
def sendDirStores
    (dirname : List UInt8) (entries : List Entry) : List Store :=
  printed 4096 [] (titleText dirname) ::
    printed 4096 (titleText dirname) (headingText dirname) ::
      rowsStores dirname (titleText dirname ++ headingText dirname) entries

/-- The path of every entry has fewer than 1024 bytes; where there is no
entry, the page fits into `buf`. -/
structure ListingFits
    (dirname : List UInt8) (entries : List Entry) : Prop where
  paths : ∀ entry ∈ entries, dirname.length + entry.name.length < 1024
  empty :
    entries = [] →
      (titleText dirname ++ headingText dirname ++ closingText).length <
        4096

end Libevent

/-! ## What is inside -/

section Encoder

theorem allInside_append {first second : List Store} :
    AllInside (first ++ second) ↔ AllInside first ∧ AllInside second :=
  List.forall_mem_append

theorem allInside_cons {first : Store} {later : List Store} :
    AllInside (first :: later) ↔ first.Inside ∧ AllInside later :=
  List.forall_mem_cons

theorem allInside_nil : AllInside [] := by
  intro store impossible
  cases impossible

/-- The encoder of both servers stays in the array and leaves at most three
bytes for each one of the name. -/
theorem encoded_inside (name : List UInt8) :
    AllInside
        (encodedStores
          (encodeFrom 1024 name ⟨List.replicate 1024 0, 0, 0, []⟩)) ∧
      (cstr (encodeFrom 1024 name
        ⟨List.replicate 1024 0, 0, 0, []⟩).memory 0).length ≤
          3 * name.length := by
  have initially :
      Printed 1024 ([].flatMap escapeByte)
        ⟨List.replicate 1024 0, 0, 0, []⟩ :=
    ⟨rfl, rfl, by decide, Nat.le_of_eq List.length_replicate.symm, rfl,
      fun _ impossible => by cases impossible⟩
  obtain ⟨count, within, string, inside, _⟩ :=
    encodeFrom_spec name [] initially
  constructor
  · intro store member
    obtain ⟨index, written, rfl⟩ := List.mem_map.mp member
    exact inside index written
  · rw [string.cstr_eq, List.nil_append]
    have escaped := length_flatMap_escapeByte_le (name.take count)
    rw [List.length_take] at escaped
    omega

end Encoder

theorem allInside_entryStores_iff
    {dirname buf : List UInt8} {entry : DirEntry}
    (room : buf.length < bodyBufferSize) :
    AllInside (entryStores dirname buf entry) ↔
      dirname.length + 1 + entry.name.length < 1024 ∧
        buf.length + (rowText entry).length < bodyBufferSize := by
  unfold entryStores
  rw [allInside_cons, allInside_append]
  have encoded := (encoded_inside entry.name).1
  have path :
      (printed 1024 [] (dirname ++ 47 :: entry.name)).Inside ↔
        dirname.length + 1 + entry.name.length < 1024 := by
    unfold printed Store.Inside
    simp only [List.length_nil, List.length_append, List.length_cons]
    omega
  rw [path]
  apply and_congr_right
  intro _
  by_cases other : entry.kind = .other
  · rw [if_pos other]
    have nothing : rowText entry = [] := by
      rw [rowText, other]
    rw [nothing, List.length_nil, Nat.add_zero]
    exact iff_of_true ⟨encoded, allInside_nil⟩ room
  · rw [if_neg other, allInside_cons]
    exact
      ⟨fun inside => inside.2.1,
        fun fits => ⟨encoded, fits, allInside_nil⟩⟩

theorem allInside_rowsStores_iff
    {dirname buf : List UInt8}
    {turns : List (DirEntry × Option SendOutcome)}
    (room : buf.length < bodyBufferSize) :
    AllInside (rowsStores dirname buf turns) ↔
      RoomFor dirname buf.length turns := by
  induction turns generalizing buf with
  | nil =>
      rw [rowsStores, RoomFor, allInside_cons]
      exact ⟨fun inside => inside.1, fun fits => ⟨fits, allInside_nil⟩⟩
  | cons turn turns inductionHypothesis =>
      obtain ⟨entry, outcome⟩ := turn
      cases outcome with
      | none => exact allInside_entryStores_iff room
      | some outcome =>
          rw [rowsStores, RoomFor, allInside_append,
            allInside_entryStores_iff room]
          apply and_congr_right
          intro fits
          cases refused : outcome.refuses with
          | false =>
              exact
                inductionHypothesis (show [].length < bodyBufferSize by decide)
          | true =>
              rw [if_pos rfl, if_pos rfl, ← List.length_append]
              apply inductionHypothesis
              rw [List.length_append]
              exact fits.2

/-- The name of a directory that fits into the request leaves room for the
head of its page. -/
theorem length_head (dirname : List UInt8) :
    (titleText dirname ++ headingText dirname).length =
      2 * dirname.length + 81 := by
  have title :
      (utf8 "<html><head><title>目录名: ").length +
        (utf8 "</title></head>").length = 45 := by
    decide +kernel
  have heading :
      (utf8 "<body><h1>当前目录: ").length +
        (utf8 "</h1><table>").length = 36 := by
    decide +kernel
  unfold titleText headingText
  simp only [List.length_append]
  omega

/-- The model of what the socket takes of a page has a value exactly where
every store is inside. -/
theorem sendRows_isSome_iff
    {dirname buf : List UInt8} {last : SendOutcome}
    {turns : List (DirEntry × SendOutcome)}
    (room : buf.length < bodyBufferSize) :
    (sendRows dirname last buf turns).isSome ↔
      AllInside
        (rowsStores dirname buf
          (turns.map fun turn => (turn.1, some turn.2))) := by
  rw [allInside_rowsStores_iff room]
  induction turns generalizing buf with
  | nil =>
      rw [sendRows, Option.isSome_map, Option.isSome_iff_exists]
      constructor
      · rintro ⟨page, isPage⟩
        have fits := (printInto_eq_some_iff.mp isPage).1
        rw [List.length_append] at fits
        exact fits
      · intro fits
        have fits : (buf ++ closingText).length < bodyBufferSize := by
          rw [List.length_append]
          exact fits
        exact ⟨_, printInto_eq_some_iff.mpr ⟨fits, rfl⟩⟩
  | cons turn turns inductionHypothesis =>
      obtain ⟨entry, outcome⟩ := turn
      rw [List.map_cons, RoomFor, Option.isSome_iff_exists, and_assoc]
      simp only [sendRows_cons_iff]
      have pathLength :
          (dirname ++ 47 :: entry.name).length =
            dirname.length + 1 + entry.name.length := by
        rw [List.length_append, List.length_cons]
        omega
      rw [pathLength, List.length_append, exists_and_left, exists_and_left]
      apply and_congr_right
      intro _
      apply and_congr_right
      intro rowFits
      have keptRoom : (buf ++ rowText entry).length < bodyBufferSize := by
        rw [List.length_append]
        exact rowFits
      cases outcome with
      | accepts count =>
          have next : (sendRows dirname last [] turns).isSome ↔ _ :=
            inductionHypothesis (by decide)
          rw [Option.isSome_iff_exists] at next
          refine Iff.trans ?_ next
          constructor
          · rintro ⟨sent, ⟨_, later, _, ran, _⟩ | ⟨impossible, _⟩⟩
            · exact ⟨later, ran⟩
            · rcases impossible with impossible | impossible
              · cases impossible
              · cases impossible
          · rintro ⟨later, ran⟩
            exact ⟨_, Or.inl ⟨count, later, rfl, ran, rfl⟩⟩
      | eagain | eintr =>
          have next := inductionHypothesis keptRoom
          rw [List.length_append, Option.isSome_iff_exists] at next
          refine Iff.trans ?_ next
          constructor
          · rintro ⟨sent, ⟨_, _, impossible, _⟩ | ⟨_, ran⟩⟩
            · cases impossible
            · exact ⟨sent, ran⟩
          · rintro ⟨sent, ran⟩
            exact ⟨sent, Or.inr ⟨by simp, ran⟩⟩

theorem allInside_sendDirStores_iff
    {dirname : List UInt8} (short : dirname.length < 1023)
    (turns : List (DirEntry × Option SendOutcome)) :
    AllInside (sendDirStores dirname turns) ↔
      RoomFor dirname (titleText dirname ++ headingText dirname).length
        turns := by
  have head := length_head dirname
  have room :
      (titleText dirname ++ headingText dirname).length < bodyBufferSize := by
    show _ < 4096
    omega
  rw [List.length_append] at head
  unfold sendDirStores
  rw [allInside_cons, allInside_cons, allInside_rowsStores_iff room]
  constructor
  · exact fun inside => inside.2.2
  · intro fits
    refine ⟨?_, ?_, fits⟩
    · show 0 + (titleText dirname).length < 4096
      omega
    · show (titleText dirname).length + (headingText dirname).length < 4096
      omega

namespace Libevent

theorem length_head (dirname : List UInt8) :
    (titleText dirname ++ headingText dirname).length =
      2 * dirname.length + 93 := by
  have title :
      (utf8 "<html><head><meta charset=\"utf-8\"><title>").length +
        (utf8 "</title></head>").length = 56 := by
    decide +kernel
  have heading :
      (utf8 "<body><h1>当前目录：").length +
        (utf8 "</h1><table>").length = 37 := by
    decide +kernel
  unfold titleText headingText
  simp only [List.length_append]
  omega

/-- A row has at most three bytes for each one of the name in the link, the
name, the time and the size. -/
theorem length_rowText_le (entry : Entry) :
    (rowText entry).length ≤ 1200 := by
  have short := entry.name_fits
  have encoded : (encodedName entry.name).length ≤ 3 * entry.name.length :=
    (encoded_inside entry.name).2
  have link : (utf8 "<tr><td><a href=\"").length = 17 := by
    decide +kernel
  have behindLink : (utf8 "\">").length = 2 := by
    decide +kernel
  have slash : (utf8 "/").length = 1 := by
    decide +kernel
  unfold rowText
  split
  · have ends : (utf8 "</a></td></tr>\n").length = 15 := by
      decide +kernel
    simp only [List.length_append]
    omega
  · next stat _ =>
      have behindName : (utf8 "</a></td><td>").length = 13 := by
        decide +kernel
      have behindTime : (utf8 "</td><td>").length = 9 := by
        decide +kernel
      have ends : (utf8 "</td></tr>\n").length = 11 := by
        decide +kernel
      have time := stat.timestr_fits
      have size : (decimal stat.size).length ≤ 19 + 1 := by
        apply length_decimal_le (by decide)
        have fits := stat.size_fits
        omega
      have mark :
          (if stat.isDirectory then utf8 "/" else []).length ≤ 1 := by
        split
        · exact Nat.le_of_eq slash
        · exact Nat.zero_le 1
      simp only [List.length_append]
      omega

theorem allInside_rowsStores_iff
    (dirname buf : List UInt8) (entries : List Entry)
    (room : entries ≠ [] → dirname.length < 1024 → buf.length < 2200) :
    AllInside (rowsStores dirname buf entries) ↔
      (∀ entry ∈ entries, dirname.length + entry.name.length < 1024) ∧
        (entries = [] → (buf ++ closingText).length < 4096) := by
  have ending : closingText.length = 22 := by
    decide +kernel
  induction entries generalizing buf with
  | nil =>
      rw [rowsStores, allInside_cons, List.length_append]
      constructor
      · rintro ⟨fits, _⟩
        refine ⟨?_, fun _ => fits⟩
        intro entry impossible
        cases impossible
      · rintro ⟨_, fits⟩
        exact ⟨fits rfl, allInside_nil⟩
  | cons entry entries inductionHypothesis =>
      have rowLe := length_rowText_le entry
      have encoded :
          AllInside
            (encodedStores
              (strencode (List.replicate 1024 0) 1024 entry.name)) :=
        (encoded_inside entry.name).1
      have path :
          (printed 1024 [] (dirname ++ entry.name)).Inside ↔
            dirname.length + entry.name.length < 1024 := by
        unfold printed Store.Inside
        rw [List.length_append, List.length_nil, Nat.zero_add]
      -- The buffer is empty behind the first row.
      have later :
          AllInside (rowsStores dirname [] entries) ↔
            ∀ entry ∈ entries,
              dirname.length + entry.name.length < 1024 := by
        refine (inductionHypothesis [] fun _ _ => by decide).trans ?_
        apply and_iff_left
        intro _
        rw [List.nil_append, ending]
        decide
      rw [rowsStores, allInside_append, allInside_cons, allInside_cons, path,
        later, List.forall_mem_cons]
      constructor
      · rintro ⟨_, pathFits, _, rest⟩
        exact
          ⟨⟨pathFits, rest⟩, fun impossible => by cases impossible⟩
      · rintro ⟨⟨pathFits, rest⟩, _⟩
        refine ⟨encoded, pathFits, ?_, rest⟩
        have bufShort := room (List.cons_ne_nil _ _) (by omega)
        show buf.length + (rowText entry).length < 4096
        omega

theorem allInside_sendDirStores_iff
    (dirname : List UInt8) (entries : List Entry) :
    AllInside (sendDirStores dirname entries) ↔
      ListingFits dirname entries := by
  have head := length_head dirname
  have rows :=
    allInside_rowsStores_iff dirname
      (titleText dirname ++ headingText dirname) entries
      (fun _ short => by omega)
  rw [sendDirStores, allInside_cons, allInside_cons, rows]
  rw [List.length_append] at head
  constructor
  · rintro ⟨_, _, paths, empty⟩
    exact ⟨paths, empty⟩
  · rintro ⟨paths, empty⟩
    have short : 2 * dirname.length + 93 < 4096 := by
      cases entries with
      | nil =>
          have whole := empty rfl
          simp only [List.length_append] at whole
          omega
      | cons entry entries =>
          have path := paths entry List.mem_cons_self
          omega
    refine ⟨?_, ?_, paths, empty⟩
    · show 0 + (titleText dirname).length < 4096
      omega
    · show (titleText dirname).length + (headingText dirname).length < 4096
      omega

end Libevent

/-- The stores of `send_dir` are inside their arrays exactly where every path
is short, the rows behind a refused `send` have room (in the epoll server),
and a page without rows fits (in the libevent server). -/
theorem listings_inside_iff
    (dirname : List UInt8) (short : dirname.length < 1023)
    (turns : List (DirEntry × Option SendOutcome))
    (other : List UInt8) (entries : List Libevent.Entry) :
    (AllInside (sendDirStores dirname turns) ↔
        RoomFor dirname (titleText dirname ++ headingText dirname).length
          turns) ∧
      (AllInside (Libevent.sendDirStores other entries) ↔
        Libevent.ListingFits other entries) :=
  ⟨allInside_sendDirStores_iff short turns,
    Libevent.allInside_sendDirStores_iff other entries⟩

/-- The entry `.`, and a refused `send` in the epoll server. -/
theorem listings_inside_iff_dot :
    (AllInside
          (sendDirStores (ascii "./")
            [(⟨ascii ".", .directory, 4096⟩, some .eagain)]) ↔
        RoomFor (ascii "./")
          (titleText (ascii "./") ++ headingText (ascii "./")).length
          [(⟨ascii ".", .directory, 4096⟩, some .eagain)]) ∧
      (AllInside
          (Libevent.sendDirStores (ascii "./")
            [⟨ascii ".", none, by decide⟩]) ↔
        Libevent.ListingFits (ascii "./") [⟨ascii ".", none, by decide⟩]) :=
  listings_inside_iff (ascii "./") (by decide)
    [(⟨ascii ".", .directory, 4096⟩, some .eagain)] (ascii "./")
    [⟨ascii ".", none, by decide⟩]

/-- `"./././.."`, 2100 bytes in all, which leads to the served directory. -/
theorem listings_not_inside :
    ¬ ((∀ (dirname : List UInt8), dirname.length < 1023 →
          ∀ turns : List (DirEntry × Option SendOutcome),
            (∀ turn ∈ turns, turn.1.name.length ≤ 255) →
              AllInside (sendDirStores dirname turns)) ∧
        ∀ (dirname : List UInt8), dirname.length < 4095 →
          ∀ entries : List Libevent.Entry,
            AllInside (Libevent.sendDirStores dirname entries)) := by
  rintro ⟨_, inside⟩
  have listing :=
    (Libevent.allInside_sendDirStores_iff _ _).mp
      (inside (List.replicate 1050 (ascii "./")).flatten (by decide +kernel)
        [⟨ascii ".", none, by decide⟩])
  have path := listing.paths _ List.mem_cons_self
  exact absurd path (by decide +kernel)

end LinuxNet.HttpServer
