import LinuxNet.Lib.CString
import LinuxNet.Lib.StepSystem

/-!
# One client and one server over a stream

The client writes what it has read from its input to the server and then reads
once from the socket, whatever it gets.  The server writes back what it reads
in capital letters.  Neither ever closes the socket, and both read it without
a look at the result.  In either direction the sockets hold so many bytes and
no more.  A write that does not fit is taken in pieces and blocks until the
last of them has gone, so the two may come to wait for each other in the middle
of their writes.
-/

namespace LinuxNet.TcpSocket

open LinuxNet.CString LinuxNet.StepSystem

/-- `sizeof(buf)`, in the client and in the server. -/
def bufSize : Nat := 4096

def answer (bytes : List UInt8) : List UInt8 :=
  bytes.map toupper

/-- The next call of the client: on its input, on the socket, or on its
output. -/
inductive ClientAt where
  | readIn
  | writeSock (buf : List UInt8)
  | readSock
  | writeOut (buf : List UInt8)
  deriving DecidableEq, Repr

/-- The next call of the server; the buffer is in capital letters. -/
inductive ServerAt where
  | read
  | write (buf : List UInt8)
  deriving DecidableEq, Repr

/-- What the client has in hand for the server. -/
def ClientAt.outgoing : ClientAt → List UInt8
  | .writeSock buf => buf
  | .readIn | .readSock | .writeOut _ => []

def ClientAt.incoming : ClientAt → List UInt8
  | .writeOut buf => buf
  | .readIn | .readSock | .writeSock _ => []

/-- The calls that the client has still to make until it waits, with seven for
each byte that it sends and three for each byte that it prints. -/
def ClientAt.turns : ClientAt → Nat
  | .readIn => 2
  | .writeSock buf => 7 * buf.length + 1
  | .readSock => 0
  | .writeOut buf => 3 * buf.length

def ServerAt.hand : ServerAt → List UInt8
  | .read => []
  | .write buf => buf

/-- How many bytes the sockets hold in the two directions. -/
structure Room where
  toServer : Nat
  toClient : Nat
  someToServer : 0 < toServer
  someToClient : 0 < toClient

/-- The two programs, what is on the way between them, what the client has
printed, and whether its input has ended. -/
structure Dialogue where
  clientAt : ClientAt
  serverAt : ServerAt
  toServer : List UInt8
  toClient : List UInt8
  printed : List UInt8
  ended : Bool
  deriving DecidableEq, Repr

/-- A call, or a piece of a write to a socket.  A read of a socket returns some
number of bytes; no bytes are the end of the input. -/
inductive Label where
  | readIn (bytes : List UInt8)
  | writeSock (count : Nat)
  | readSock (count : Nat)
  | writeOut
  | serverRead (count : Nat)
  | serverWrite (count : Nat)
  deriving DecidableEq, Repr

namespace Dialogue

def start : Dialogue :=
  ⟨.readIn, .read, [], [], [], false⟩

def Readable (stream : List UInt8) (count : Nat) : Prop :=
  0 < count ∧ count ≤ stream.length ∧ count ≤ bufSize

instance decidableReadable (stream : List UInt8) (count : Nat) :
    Decidable (Readable stream count) := by
  unfold Readable
  infer_instance

/-- A stream takes a piece of a buffer.  A write of no bytes does not wait. -/
def Takes (room : Nat) (stream buf : List UInt8) (count : Nat) : Prop :=
  count ≤ buf.length ∧ count ≤ room - stream.length ∧ (count = 0 → buf = [])

instance decidableTakes (room : Nat) (stream buf : List UInt8) (count : Nat) :
    Decidable (Takes room stream buf count) := by
  unfold Takes
  infer_instance

/-- `main` of the client. -/
def clientStep (room : Room) (dialogue : Dialogue) : Label → Option Dialogue
  | .readIn bytes =>
      match dialogue.clientAt with
      | .readIn =>
          if bytes = [] then
            some { dialogue with clientAt := .writeSock [], ended := true }
          else if dialogue.ended = false ∧ bytes.length ≤ bufSize then
            some { dialogue with clientAt := .writeSock bytes }
          else
            none
      | _ => none
  | .writeSock count =>
      match dialogue.clientAt with
      | .writeSock buf =>
          if Takes room.toServer dialogue.toServer buf count then
            some
              { dialogue with
                clientAt :=
                  if count = buf.length then
                    .readSock
                  else
                    .writeSock (buf.drop count)
                toServer := dialogue.toServer ++ buf.take count }
          else
            none
      | _ => none
  | .readSock count =>
      match dialogue.clientAt with
      | .readSock =>
          if Readable dialogue.toClient count then
            some
              { dialogue with
                clientAt := .writeOut (dialogue.toClient.take count)
                toClient := dialogue.toClient.drop count }
          else
            none
      | _ => none
  | .writeOut =>
      match dialogue.clientAt with
      | .writeOut buf =>
          some
            { dialogue with
              clientAt := .readIn
              printed := dialogue.printed ++ buf }
      | _ => none
  | .serverRead _ | .serverWrite _ => none

/-- `main` of the server, behind `accept`. -/
def serverStep (room : Room) (dialogue : Dialogue) : Label → Option Dialogue
  | .serverRead count =>
      match dialogue.serverAt with
      | .read =>
          if Readable dialogue.toServer count then
            some
              { dialogue with
                serverAt := .write (answer (dialogue.toServer.take count))
                toServer := dialogue.toServer.drop count }
          else
            none
      | _ => none
  | .serverWrite count =>
      match dialogue.serverAt with
      | .write buf =>
          if Takes room.toClient dialogue.toClient buf count then
            some
              { dialogue with
                serverAt :=
                  if count = buf.length then .read else .write (buf.drop count)
                toClient := dialogue.toClient ++ buf.take count }
          else
            none
      | _ => none
  | .readIn _ | .writeSock _ | .readSock _ | .writeOut => none

def step (room : Room) (dialogue : Dialogue) (label : Label) :
    Option Dialogue :=
  match label with
  | .serverRead _ | .serverWrite _ => dialogue.serverStep room label
  | .readIn _ | .writeSock _ | .readSock _ | .writeOut =>
      dialogue.clientStep room label

inductive Took : Dialogue → Label → Dialogue → Prop
  | typed {serverAt : ServerAt} {toServer toClient printed bytes : List UInt8}
      (nonempty : bytes ≠ []) :
      Took ⟨.readIn, serverAt, toServer, toClient, printed, false⟩
        (.readIn bytes)
        ⟨.writeSock bytes, serverAt, toServer, toClient, printed, false⟩
  | atEnd {serverAt : ServerAt} {toServer toClient printed : List UInt8}
      {ended : Bool} :
      Took ⟨.readIn, serverAt, toServer, toClient, printed, ended⟩ (.readIn [])
        ⟨.writeSock [], serverAt, toServer, toClient, printed, true⟩
  | sentPart {serverAt : ServerAt}
      {toServer toClient printed buf : List UInt8} {ended : Bool} {count : Nat}
      (positive : 0 < count) (less : count < buf.length) :
      Took ⟨.writeSock buf, serverAt, toServer, toClient, printed, ended⟩
        (.writeSock count)
        ⟨.writeSock (buf.drop count), serverAt, toServer ++ buf.take count,
          toClient, printed, ended⟩
  | sent {serverAt : ServerAt} {toServer toClient printed buf : List UInt8}
      {ended : Bool} :
      Took ⟨.writeSock buf, serverAt, toServer, toClient, printed, ended⟩
        (.writeSock buf.length)
        ⟨.readSock, serverAt, toServer ++ buf, toClient, printed, ended⟩
  | received {serverAt : ServerAt} {toServer toClient printed : List UInt8}
      {ended : Bool} {count : Nat} (readable : Readable toClient count) :
      Took ⟨.readSock, serverAt, toServer, toClient, printed, ended⟩
        (.readSock count)
        ⟨.writeOut (toClient.take count), serverAt, toServer,
          toClient.drop count, printed, ended⟩
  | wrote {serverAt : ServerAt} {toServer toClient printed buf : List UInt8}
      {ended : Bool} :
      Took ⟨.writeOut buf, serverAt, toServer, toClient, printed, ended⟩
        .writeOut
        ⟨.readIn, serverAt, toServer, toClient, printed ++ buf, ended⟩
  | fetched {clientAt : ClientAt} {toServer toClient printed : List UInt8}
      {ended : Bool} {count : Nat} (readable : Readable toServer count) :
      Took ⟨clientAt, .read, toServer, toClient, printed, ended⟩
        (.serverRead count)
        ⟨clientAt, .write (answer (toServer.take count)), toServer.drop count,
          toClient, printed, ended⟩
  | answeredPart {clientAt : ClientAt}
      {toServer toClient printed buf : List UInt8} {ended : Bool} {count : Nat}
      (positive : 0 < count) (less : count < buf.length) :
      Took ⟨clientAt, .write buf, toServer, toClient, printed, ended⟩
        (.serverWrite count)
        ⟨clientAt, .write (buf.drop count), toServer,
          toClient ++ buf.take count, printed, ended⟩
  | answered {clientAt : ClientAt}
      {toServer toClient printed buf : List UInt8} {ended : Bool} :
      Took ⟨clientAt, .write buf, toServer, toClient, printed, ended⟩
        (.serverWrite buf.length)
        ⟨clientAt, .read, toServer, toClient ++ buf, printed, ended⟩

variable {room : Room} {dialogue next last : Dialogue} {label : Label}
  {past labels : List Label}

/-- A piece is all that is left, or some of it. -/
theorem Takes.cases
    {limit count : Nat} {stream buf : List UInt8}
    (takes : Takes limit stream buf count) :
    count = buf.length ∨ 0 < count ∧ count < buf.length := by
  obtain ⟨within, -, nothing⟩ := takes
  rcases Nat.eq_or_lt_of_le within with whole | less
  · exact Or.inl whole
  · refine Or.inr ⟨Nat.pos_of_ne_zero fun zero => ?_, less⟩
    rw [nothing zero] at less
    exact Nat.not_lt_zero _ less

theorem took (stepped : dialogue.step room label = some next) :
    Took dialogue label next := by
  obtain ⟨clientAt, serverAt, toServer, toClient, printed, ended⟩ := dialogue
  cases label with
  | readIn bytes =>
      cases clientAt with
      | readIn =>
          simp only [step, clientStep] at stepped
          split at stepped
          · next isEmpty =>
              subst isEmpty
              cases stepped
              exact .atEnd
          · next nonempty =>
              obtain ⟨⟨running, -⟩, stepped⟩ :=
                Option.ite_none_right_eq_some.mp stepped
              subst running
              cases stepped
              exact .typed nonempty
      | writeSock buf => cases stepped
      | readSock => cases stepped
      | writeOut buf => cases stepped
  | writeSock count =>
      cases clientAt with
      | writeSock buf =>
          obtain ⟨takes, stepped⟩ := Option.ite_none_right_eq_some.mp stepped
          cases stepped
          rcases takes.cases with rfl | ⟨positive, less⟩
          · rw [if_pos rfl, List.take_length]
            exact .sent
          · rw [if_neg (Nat.ne_of_lt less)]
            exact .sentPart positive less
      | readIn => cases stepped
      | readSock => cases stepped
      | writeOut buf => cases stepped
  | readSock count =>
      cases clientAt with
      | readSock =>
          obtain ⟨readable, stepped⟩ := Option.ite_none_right_eq_some.mp stepped
          cases stepped
          exact .received readable
      | readIn => cases stepped
      | writeSock buf => cases stepped
      | writeOut buf => cases stepped
  | writeOut =>
      cases clientAt with
      | writeOut buf =>
          cases stepped
          exact .wrote
      | readIn => cases stepped
      | writeSock buf => cases stepped
      | readSock => cases stepped
  | serverRead count =>
      cases serverAt with
      | read =>
          obtain ⟨readable, stepped⟩ := Option.ite_none_right_eq_some.mp stepped
          cases stepped
          exact .fetched readable
      | write buf => cases stepped
  | serverWrite count =>
      cases serverAt with
      | read => cases stepped
      | write buf =>
          obtain ⟨takes, stepped⟩ := Option.ite_none_right_eq_some.mp stepped
          cases stepped
          rcases takes.cases with rfl | ⟨positive, less⟩
          · rw [if_pos rfl, List.take_length]
            exact .answered
          · rw [if_neg (Nat.ne_of_lt less)]
            exact .answeredPart positive less

/-! ## What is under way -/

def inputOf (labels : List Label) : List UInt8 :=
  labels.flatMap fun label =>
    match label with
    | .readIn bytes => bytes
    | _ => []

theorem inputOf_append (initial suffix : List Label) :
    inputOf (initial ++ suffix) = inputOf initial ++ inputOf suffix :=
  List.flatMap_append

/-- What will be printed when nothing more is read from the input. -/
def underway (dialogue : Dialogue) : List UInt8 :=
  dialogue.clientAt.incoming ++ dialogue.toClient ++ dialogue.serverAt.hand ++
    answer dialogue.toServer ++ answer dialogue.clientAt.outgoing

theorem answer_append (first second : List UInt8) :
    answer (first ++ second) = answer first ++ answer second :=
  List.map_append

theorem answer_eq_nil {bytes : List UInt8} (nothing : answer bytes = []) :
    bytes = [] :=
  List.map_eq_nil_iff.mp nothing

/-- Every byte goes on in its place. -/
theorem Took.underway_eq (tookStep : Took dialogue label next) :
    next.printed ++ next.underway =
      dialogue.printed ++ dialogue.underway ++ answer (inputOf [label]) := by
  cases tookStep with
  | typed nonempty =>
      simp [underway, inputOf, ClientAt.outgoing, ClientAt.incoming, answer]
  | atEnd =>
      simp [underway, inputOf, ClientAt.outgoing, ClientAt.incoming, answer]
  | @sentPart serverAt toServer toClient printed buf ended count positive less =>
      have halves := answer_append (buf.take count) (buf.drop count)
      rw [List.take_append_drop] at halves
      simp only [underway, inputOf, ClientAt.outgoing, ClientAt.incoming,
        answer_append, halves]
      simp [answer]
  | sent =>
      simp [underway, inputOf, ClientAt.outgoing, ClientAt.incoming, answer]
  | @received serverAt toServer toClient printed ended count readable =>
      have whole := List.take_append_drop count toClient
      simp only [underway, inputOf, ClientAt.outgoing,
        ClientAt.incoming, whole]
      simp [answer]
  | wrote =>
      simp [underway, inputOf, ClientAt.outgoing, ClientAt.incoming, answer]
  | @fetched clientAt toServer toClient printed ended count readable =>
      have whole := List.take_append_drop count toServer
      have halves := answer_append (toServer.take count) (toServer.drop count)
      rw [whole] at halves
      simp only [underway, ServerAt.hand, halves]
      simp [inputOf, answer]
  | answeredPart positive less =>
      simp [underway, ServerAt.hand, inputOf, answer]
  | answered => simp [underway, inputOf, ServerAt.hand, answer]

/-- Nobody holds an empty buffer, but the client behind the end of its input;
and only then does it wait for an answer although none is under way. -/
structure Sound (dialogue : Dialogue) : Prop where
  hand : ∀ buf, dialogue.serverAt = .write buf → buf ≠ []
  prints : ∀ buf, dialogue.clientAt = .writeOut buf → buf ≠ []
  sends : dialogue.clientAt = .writeSock [] → dialogue.ended = true
  waits :
    dialogue.clientAt = .readSock → dialogue.underway = [] →
      dialogue.ended = true

theorem take_ne_nil
    {stream : List UInt8} {count : Nat} (readable : Readable stream count) :
    stream.take count ≠ [] := by
  obtain ⟨positive, enough, -⟩ := readable
  intro nothing
  have isLength := List.length_take_of_le enough
  rw [nothing] at isLength
  exact absurd isLength (Nat.ne_of_lt positive)

theorem sound_start : start.Sound where
  hand := by
    intro buf impossible
    cases impossible
  prints := by
    intro buf impossible
    cases impossible
  sends := by
    intro impossible
    cases impossible
  waits := by
    intro impossible
    cases impossible

theorem Took.sound
    (tookStep : Took dialogue label next) (sound : dialogue.Sound) :
    next.Sound := by
  have sameBytes := tookStep.underway_eq
  cases tookStep with
  | typed nonempty =>
      refine ⟨sound.hand, ?_, ?_, ?_⟩
      · intro buf impossible
        cases impossible
      · intro isEmpty
        cases isEmpty
        exact absurd rfl nonempty
      · intro impossible
        cases impossible
  | atEnd =>
      refine ⟨sound.hand, ?_, fun _ => rfl, fun _ _ => rfl⟩
      intro buf impossible
      cases impossible
  | @sentPart serverAt toServer toClient printed buf ended count positive less =>
      refine ⟨sound.hand, ?_, ?_, ?_⟩
      · intro other impossible
        cases impossible
      · intro isEmpty
        have nothing : buf.drop count = [] := ClientAt.writeSock.inj isEmpty
        exact
          absurd (List.drop_eq_nil_iff.mp nothing) (Nat.not_le_of_lt less)
      · intro impossible
        cases impossible
  | @sent serverAt toServer toClient printed buf ended =>
      refine ⟨sound.hand, ?_, ?_, ?_⟩
      · intro other impossible
        cases impossible
      · intro impossible
        cases impossible
      · intro _ nothing
        have isEmpty : buf = [] := by
          simp only [underway, List.append_eq_nil_iff] at nothing
          have both := answer_eq_nil nothing.1.2
          exact (List.append_eq_nil_iff.mp both).2
        subst isEmpty
        exact sound.sends rfl
  | received readable =>
      refine ⟨sound.hand, ?_, ?_, ?_⟩
      · intro buf isBuf
        cases isBuf
        exact take_ne_nil readable
      · intro impossible
        cases impossible
      · intro impossible
        cases impossible
  | wrote =>
      refine ⟨sound.hand, ?_, ?_, ?_⟩
      · intro buf impossible
        cases impossible
      · intro impossible
        cases impossible
      · intro impossible
        cases impossible
  | @fetched clientAt toServer toClient printed ended count readable =>
      refine ⟨?_, sound.prints, sound.sends, ?_⟩
      · intro buf isBuf
        cases isBuf
        intro nothing
        exact take_ne_nil readable (answer_eq_nil nothing)
      · intro reads nothing
        apply sound.waits reads
        rw [nothing] at sameBytes
        simpa [inputOf, answer] using sameBytes
  | @answeredPart clientAt toServer toClient printed buf ended count positive
      less =>
      refine ⟨?_, sound.prints, sound.sends, ?_⟩
      · intro other isOther
        cases isOther
        intro nothing
        exact
          absurd (List.drop_eq_nil_iff.mp nothing) (Nat.not_le_of_lt less)
      · intro reads nothing
        apply sound.waits reads
        rw [nothing] at sameBytes
        simpa [inputOf, answer] using sameBytes
  | @answered clientAt toServer toClient printed buf ended =>
      refine ⟨?_, sound.prints, sound.sends, ?_⟩
      · intro other impossible
        cases impossible
      · intro reads nothing
        apply sound.waits reads
        rw [nothing] at sameBytes
        simpa [inputOf, answer] using sameBytes

/-- What is printed and what is under way are the answer to all that has been
read from the input. -/
def Answers (past : List Label) (dialogue : Dialogue) : Prop :=
  answer (inputOf past) = dialogue.printed ++ dialogue.underway ∧ dialogue.Sound

theorem answers_start : Answers [] start :=
  ⟨rfl, sound_start⟩

theorem answers_step
    (past : List Label) (dialogue : Dialogue) (label : Label)
    (next : Dialogue) (answers : Answers past dialogue)
    (stepped : dialogue.step room label = some next) :
    Answers (past ++ [label]) next := by
  have tookStep := took stepped
  refine ⟨?_, tookStep.sound answers.2⟩
  rw [inputOf_append, answer_append, answers.1, tookStep.underway_eq]

theorem answers_of_run
    (ran : run (step room) start labels = some last) : Answers labels last :=
  run_keeps_history Answers answers_step answers_start ran

/-- The client has printed the answer to what it has read from its input, up
to what is under way, which is in order and misses nothing. -/
theorem printed_with_underway
    (ran : run (step room) start labels = some last) :
    answer (inputOf labels) =
      last.printed ++
        (last.clientAt.incoming ++ last.toClient ++ last.serverAt.hand ++
          answer last.toServer ++ answer last.clientAt.outgoing) :=
  (answers_of_run ran).1

/-- Sockets that hold two bytes in either direction. -/
def narrow : Room :=
  ⟨2, 2, Nat.two_pos, Nat.two_pos⟩

/-- The answer to the first block comes in two parts, and the client reads its
input once between them. -/
def secondBlock : List Label :=
  [.readIn [97, 98], .writeSock 2, .serverRead 2, .serverWrite 2, .readSock 1,
    .writeOut, .readIn [99], .writeSock 1, .readSock 1]

theorem printed_with_underway_second_block :
    ∃ last, run (step narrow) start secondBlock = some last ∧
      answer (inputOf secondBlock) =
        last.printed ++
          (last.clientAt.incoming ++ last.toClient ++ last.serverAt.hand ++
            answer last.toServer ++ answer last.clientAt.outgoing) :=
  ⟨_, rfl, @printed_with_underway narrow _ secondBlock rfl⟩

/-! ## Where it stops -/

/-- Either program is in a write that does not fit. -/
def Blocked (room : Room) (dialogue : Dialogue) : Prop :=
  (∃ buf, dialogue.clientAt = .writeSock buf ∧ buf ≠ []) ∧
    (∃ buf, dialogue.serverAt = .write buf) ∧
      room.toServer ≤ dialogue.toServer.length ∧
        room.toClient ≤ dialogue.toClient.length

/-- A read or a write of one byte is the least that can be done. -/
theorem readable_one {stream : List UInt8} (nonempty : stream ≠ []) :
    Readable stream 1 :=
  ⟨Nat.one_pos, List.length_pos_iff.mpr nonempty, by decide⟩

theorem takes_one
    {limit : Nat} {stream buf : List UInt8} (nonempty : buf ≠ [])
    (fits : stream.length < limit) : Takes limit stream buf 1 :=
  ⟨List.length_pos_iff.mpr nonempty, Nat.sub_pos_of_lt fits, nofun⟩

theorem not_takes_of_full
    {limit count : Nat} {stream buf : List UInt8} (nonempty : buf ≠ [])
    (full : limit ≤ stream.length) : ¬ Takes limit stream buf count := by
  rintro ⟨-, fits, nothing⟩
  rw [Nat.sub_eq_zero_of_le full] at fits
  exact nonempty (nothing (Nat.le_zero.mp fits))

section Stopped

variable (stopped : ∀ label, dialogue.step room label = none)

include stopped

/-- A server that cannot go on waits for a request, or its answer does not
fit. -/
theorem server_of_stopped
    (sound : dialogue.Sound) :
    dialogue.serverAt = .read ∧ dialogue.toServer = [] ∨
      (∃ buf, dialogue.serverAt = .write buf) ∧
        room.toClient ≤ dialogue.toClient.length := by
  cases isAt : dialogue.serverAt with
  | read =>
      refine Or.inl ⟨rfl, ?_⟩
      by_contra nonempty
      have stuck := stopped (.serverRead 1)
      simp [step, serverStep, isAt, readable_one nonempty] at stuck
  | write buf =>
      refine Or.inr ⟨⟨buf, rfl⟩, ?_⟩
      by_contra fits
      have takes :=
        takes_one (sound.hand buf isAt) (Nat.not_le.mp fits)
      have stuck := stopped (.serverWrite 1)
      simp [step, serverStep, isAt, takes] at stuck

/-- A client that cannot go on waits for an answer, or its request does not
fit. -/
theorem client_of_stopped :
    dialogue.clientAt = .readSock ∧ dialogue.toClient = [] ∨
      (∃ buf, dialogue.clientAt = .writeSock buf ∧ buf ≠ []) ∧
        room.toServer ≤ dialogue.toServer.length := by
  cases isAt : dialogue.clientAt with
  | readSock =>
      refine Or.inl ⟨rfl, ?_⟩
      by_contra nonempty
      have stuck := stopped (.readSock 1)
      simp [step, clientStep, isAt, readable_one nonempty] at stuck
  | readIn =>
      have stuck := stopped (.readIn [])
      simp [step, clientStep, isAt] at stuck
  | writeSock buf =>
      have nonempty : buf ≠ [] := by
        rintro rfl
        have takes : Takes room.toServer dialogue.toServer [] 0 :=
          ⟨Nat.le_refl 0, Nat.zero_le _, fun _ => rfl⟩
        have stuck := stopped (.writeSock 0)
        simp [step, clientStep, isAt, takes] at stuck
      refine Or.inr ⟨⟨buf, rfl, nonempty⟩, ?_⟩
      by_contra fits
      have takes := takes_one nonempty (Nat.not_le.mp fits)
      have stuck := stopped (.writeSock 1)
      simp [step, clientStep, isAt, takes] at stuck
  | writeOut buf =>
      have stuck := stopped .writeOut
      simp [step, clientStep, isAt] at stuck

/-- Without a call that can go on, the client waits for an answer and none is
under way, or neither of the two writes fits. -/
theorem waits_of_stopped
    (sound : dialogue.Sound) :
    dialogue.clientAt = .readSock ∧ dialogue.underway = [] ∨
      dialogue.Blocked room := by
  rcases client_of_stopped stopped with ⟨waits, noAnswer⟩ | ⟨writes, full⟩
  · rcases server_of_stopped stopped sound with
      ⟨reads, noRequest⟩ | ⟨_, fullBack⟩
    · refine Or.inl ⟨waits, ?_⟩
      rw [underway, waits, reads, noRequest, noAnswer]
      rfl
    · rw [noAnswer] at fullBack
      exact absurd room.someToClient (Nat.not_lt.mpr fullBack)
  · rcases server_of_stopped stopped sound with
      ⟨_, noRequest⟩ | ⟨answers, fullBack⟩
    · rw [noRequest] at full
      exact absurd room.someToServer (Nat.not_lt.mpr full)
    · exact Or.inr ⟨writes, answers, full, fullBack⟩

end Stopped

/-- Both wait for the other one to write. -/
theorem stopped_of_waits
    (sound : dialogue.Sound) (waits : dialogue.clientAt = .readSock)
    (nothing : dialogue.underway = []) (label : Label) :
    dialogue.step room label = none := by
  cases stepped : dialogue.step room label with
  | none => rfl
  | some next =>
      cases took stepped with
      | typed nonempty => cases waits
      | atEnd => cases waits
      | sentPart positive less => cases waits
      | sent => cases waits
      | received readable =>
          simp only [underway, List.append_eq_nil_iff] at nothing
          have isLength := readable.2.1
          rw [nothing.1.1.1.2] at isLength
          exact absurd readable.1 (Nat.not_lt_of_le isLength)
      | wrote => cases waits
      | fetched readable =>
          simp only [underway, List.append_eq_nil_iff] at nothing
          have isLength := readable.2.1
          rw [answer_eq_nil nothing.1.2] at isLength
          exact absurd readable.1 (Nat.not_lt_of_le isLength)
      | answeredPart positive less =>
          simp only [underway, List.append_eq_nil_iff] at nothing
          exact absurd nothing.1.1.2 (sound.hand _ rfl)
      | answered =>
          simp only [underway, List.append_eq_nil_iff] at nothing
          exact absurd nothing.1.1.2 (sound.hand _ rfl)

/-- Both wait for the other one to read. -/
theorem stopped_of_blocked
    (sound : dialogue.Sound) (blocked : dialogue.Blocked room)
    (label : Label) : dialogue.step room label = none := by
  obtain ⟨⟨buf, writes, nonempty⟩, ⟨hand, answers⟩, full, fullBack⟩ := blocked
  have handNonempty := sound.hand hand answers
  cases label with
  | readIn bytes => simp [step, clientStep, writes]
  | writeSock count =>
      simp only [step, clientStep, writes]
      exact if_neg (not_takes_of_full nonempty full)
  | readSock count => simp [step, clientStep, writes]
  | writeOut => simp [step, clientStep, writes]
  | serverRead count => simp [step, serverStep, answers]
  | serverWrite count =>
      simp only [step, serverStep, answers]
      exact if_neg (not_takes_of_full handNonempty fullBack)

/-- The two programs stop, without an end, exactly where the input has ended
and the client has printed the whole answer and waits for more, and where both
are in a write and the sockets are full in both directions. -/
theorem stops_iff
    (ran : run (step room) start labels = some last) :
    (∀ label, last.step room label = none) ↔
      last.ended = true ∧ last.clientAt = .readSock ∧
          last.printed = answer (inputOf labels) ∨
        last.Blocked room := by
  obtain ⟨answers, sound⟩ := answers_of_run ran
  constructor
  · intro stopped
    rcases waits_of_stopped stopped sound with ⟨waits, nothing⟩ | blocked
    · rw [nothing, List.append_nil] at answers
      exact Or.inl ⟨sound.waits waits nothing, waits, answers.symm⟩
    · exact Or.inr blocked
  · rintro (⟨-, waits, whole⟩ | blocked)
    · rw [← whole, List.self_eq_append_right] at answers
      exact stopped_of_waits sound waits answers
    · exact stopped_of_blocked sound blocked

/-- One block of eight bytes, of which the server reads one by one. -/
def tooMuch : List Label :=
  [.readIn [97, 98, 99, 100, 101, 102, 103, 104], .writeSock 2, .serverRead 1,
    .serverWrite 1, .serverRead 1, .serverWrite 1, .writeSock 2,
    .serverRead 1, .writeSock 1]

theorem stops_iff_too_much :
    ∃ last, run (step narrow) start tooMuch = some last ∧
      last.Blocked narrow ∧
        ((∀ label, last.step narrow label = none) ↔
          last.ended = true ∧ last.clientAt = .readSock ∧
              last.printed = answer (inputOf tooMuch) ∨
            last.Blocked narrow) :=
  ⟨_, rfl, ⟨⟨_, rfl, nofun⟩, ⟨_, rfl⟩, by decide, by decide⟩,
    @stops_iff narrow _ tooMuch rfl⟩

/-- A bound of the steps that are left behind the end of the input: each byte
counts for the places that it has still to go through. -/
def remaining (dialogue : Dialogue) : Nat :=
  dialogue.clientAt.turns + 6 * dialogue.toServer.length +
    5 * dialogue.serverAt.hand.length + 4 * dialogue.toClient.length

theorem Took.remaining_lt
    (tookStep : Took dialogue label next) (sound : dialogue.Sound)
    (ended : dialogue.ended = true) :
    next.ended = true ∧ next.remaining < dialogue.remaining := by
  cases tookStep with
  | typed nonempty => cases ended
  | atEnd => exact ⟨rfl, by simp [remaining, ClientAt.turns]⟩
  | sentPart positive less =>
      refine ⟨ended, ?_⟩
      simp only [remaining, ClientAt.turns, List.length_append,
        List.length_drop, List.length_take]
      omega
  | sent =>
      refine ⟨ended, ?_⟩
      simp only [remaining, ClientAt.turns, List.length_append]
      omega
  | received readable =>
      obtain ⟨positive, enough, -⟩ := readable
      refine ⟨ended, ?_⟩
      simp only [remaining, ClientAt.turns, List.length_drop,
        List.length_take_of_le enough]
      omega
  | wrote =>
      have nonempty := List.length_pos_iff.mpr (sound.prints _ rfl)
      refine ⟨ended, ?_⟩
      simp only [remaining, ClientAt.turns]
      omega
  | fetched readable =>
      obtain ⟨positive, enough, -⟩ := readable
      refine ⟨ended, ?_⟩
      simp only [remaining, ServerAt.hand, answer, List.length_map,
        List.length_drop, List.length_take_of_le enough, List.length_nil]
      omega
  | answeredPart positive less =>
      refine ⟨ended, ?_⟩
      simp only [remaining, ServerAt.hand, List.length_append,
        List.length_drop, List.length_take]
      omega
  | answered =>
      have nonempty := List.length_pos_iff.mpr (sound.hand _ rfl)
      refine ⟨ended, ?_⟩
      simp only [remaining, ServerAt.hand, List.length_append,
        List.length_nil]
      omega

theorem remaining_le (dialogue : Dialogue) :
    dialogue.remaining ≤ 7 * dialogue.underway.length + 2 := by
  obtain ⟨clientAt, serverAt, toServer, toClient, printed, ended⟩ := dialogue
  cases clientAt <;>
    simp only [remaining, underway, answer, ClientAt.turns, ClientAt.incoming,
      ClientAt.outgoing, List.length_append, List.length_map,
      List.length_nil] <;>
    omega

theorem length_add_remaining_le
    (answers : Answers past dialogue) (ended : dialogue.ended = true)
    (ran : run (step room) dialogue labels = some last) :
    labels.length + last.remaining ≤ dialogue.remaining := by
  induction labels generalizing past dialogue with
  | nil =>
      cases ran
      exact Nat.le_of_eq (Nat.zero_add _)
  | cons label labels inductionHypothesis =>
      obtain ⟨next, stepped, rest⟩ :=
        (run_cons_eq_some_iff dialogue last label labels).mp ran
      obtain ⟨stillEnded, fewer⟩ :=
        (took stepped).remaining_lt answers.2 ended
      have later :=
        inductionHypothesis
          (answers_step past dialogue label next answers stepped) stillEnded
          rest
      rw [List.length_cons]
      omega

/-- Behind the end of the input the two programs cannot go on for ever: they
make at most seven calls for each byte under way, and two more, even if each
piece of a write is counted. -/
theorem stops_behind_the_end
    {more : List Label} (ran : run (step room) start labels = some last)
    (ended : last.ended = true)
    (ranOn : run (step room) last more = some next) :
    more.length ≤ 7 * last.underway.length + 2 := by
  have within := length_add_remaining_le (answers_of_run ran) ended ranOn
  have bound := remaining_le last
  omega

/-- The input ends with a byte under way, which takes four calls. -/
theorem stops_behind_the_end_second_block :
    ∃ last next,
      run (step narrow) start
            (secondBlock ++ [.writeOut, .readIn [], .writeSock 0]) =
          some last ∧
        last.ended = true ∧
          run (step narrow) last
                [.serverRead 1, .serverWrite 1, .readSock 1, .writeOut] =
              some next ∧
            [Label.serverRead 1, .serverWrite 1, .readSock 1,
                .writeOut].length ≤
              7 * last.underway.length + 2 :=
  ⟨_, _, rfl, rfl, rfl,
    @stops_behind_the_end narrow _ _
      (secondBlock ++ [.writeOut, .readIn [], .writeSock 0])
      [.serverRead 1, .serverWrite 1, .readSock 1, .writeOut] rfl rfl rfl⟩

end Dialogue

end LinuxNet.TcpSocket
