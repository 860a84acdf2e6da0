import Mathlib.Data.List.Perm.Subperm
import Mathlib.Logic.Function.Basic
import LinuxNet.Lib.CString
import LinuxNet.Lib.StepSystem

/-!
# The UDP server and its clients

A client sends what it has read in one datagram and waits for one datagram,
without end.  The server answers each datagram where it came from.  On the way
datagrams of different clients may overtake each other, and any of them may be
lost.
-/

namespace LinuxNet.Udp

open LinuxNet.CString LinuxNet.StepSystem

/-- `MAX_BUFSIZE`. -/
def maxBufSize : Nat := 4096

def answer (buf : List UInt8) : List UInt8 := buf.map toupper

inductive ClientAt where
  | read
  | sendto (buf : List UInt8)
  | recvfrom
  | write (buf : List UInt8)
  | exited
  deriving DecidableEq, Repr

/-- A client, what it has printed, and what is on the way from it and to
it. -/
structure Peer where
  clientAt : ClientAt
  printed : List UInt8
  requests : List (List UInt8)
  replies : List (List UInt8)

/-- The next call of the server; a datagram in hand is the answer to a
client. -/
inductive ServerAt where
  | recvfrom
  | sendto (client : Nat) (buf : List UInt8)
  | exited
  deriving DecidableEq, Repr

/-- The server and its clients, told apart by their addresses. -/
structure Hosts where
  peers : Nat → Peer
  serverAt : ServerAt

/-- What a call of a client returns; no bytes are the end of the input or an
error, and no datagram is an error. -/
inductive ClientCall where
  | read (bytes : List UInt8)
  | sendto (succeeds : Bool)
  | recvfrom (datagram : Option (List UInt8))
  | write
  deriving DecidableEq, Repr

inductive ServerCall where
  | recvfrom (datagram : Option (Nat × List UInt8))
  | sendto (succeeds : Bool)
  deriving DecidableEq, Repr

inductive Label where
  | client (number : Nat) (call : ClientCall)
  | server (call : ServerCall)
  | requestLost (number : Nat) (buf : List UInt8)
  | replyLost (number : Nat) (buf : List UInt8)
  deriving DecidableEq, Repr

namespace Peer

def start : Peer := ⟨.read, [], [], []⟩

def goto (peer : Peer) (clientAt : ClientAt) : Peer :=
  { peer with clientAt := clientAt }

def send (peer : Peer) (buf : List UInt8) : Peer :=
  { peer with
    clientAt := .recvfrom
    requests := peer.requests ++ [buf] }

def dropRequest (peer : Peer) (buf : List UInt8) : Peer :=
  { peer with requests := peer.requests.erase buf }

def dropReply (peer : Peer) (buf : List UInt8) : Peer :=
  { peer with replies := peer.replies.erase buf }

def addReply (peer : Peer) (buf : List UInt8) : Peer :=
  { peer with replies := peer.replies ++ [buf] }

def print (peer : Peer) (buf : List UInt8) : Peer :=
  { peer with clientAt := .read, printed := peer.printed ++ buf }

/-- `main` of the client. -/
def step (peer : Peer) : ClientCall → Option Peer
  | .read bytes =>
      match peer.clientAt with
      | .read =>
          if bytes = [] then
            some (peer.goto .exited)
          else if bytes.length ≤ maxBufSize then
            some (peer.goto (.sendto bytes))
          else
            none
      | _ => none
  | .sendto succeeds =>
      match peer.clientAt with
      | .sendto buf =>
          some (if succeeds then peer.send buf else peer.goto .exited)
      | _ => none
  | .recvfrom none =>
      match peer.clientAt with
      | .recvfrom => some (peer.goto .exited)
      | _ => none
  | .recvfrom (some buf) =>
      match peer.clientAt with
      | .recvfrom =>
          if peer.replies.contains buf then
            some ((peer.dropReply buf).goto (.write (buf.take maxBufSize)))
          else
            none
      | _ => none
  | .write =>
      match peer.clientAt with
      | .write buf => some (peer.print buf)
      | _ => none

end Peer

namespace Hosts

def start : Hosts := ⟨fun _ => .start, .recvfrom⟩

def setPeer (hosts : Hosts) (number : Nat) (peer : Peer) : Hosts :=
  { hosts with peers := Function.update hosts.peers number peer }

def serverGoto (hosts : Hosts) (serverAt : ServerAt) : Hosts :=
  { hosts with serverAt := serverAt }

/-- `main` of the server. -/
def serverStep (hosts : Hosts) : ServerCall → Option Hosts
  | .recvfrom none =>
      match hosts.serverAt with
      | .recvfrom => some (hosts.serverGoto .exited)
      | _ => none
  | .recvfrom (some (client, buf)) =>
      match hosts.serverAt with
      | .recvfrom =>
          if (hosts.peers client).requests.contains buf then
            some
              ((hosts.setPeer client
                ((hosts.peers client).dropRequest buf)).serverGoto
                  (.sendto client (answer (buf.take maxBufSize))))
          else
            none
      | _ => none
  | .sendto succeeds =>
      match hosts.serverAt with
      | .sendto client buf =>
          some
            (if succeeds then
              (hosts.setPeer client
                ((hosts.peers client).addReply buf)).serverGoto .recvfrom
            else
              hosts.serverGoto .exited)
      | _ => none

def step (hosts : Hosts) : Label → Option Hosts
  | .client number call =>
      ((hosts.peers number).step call).map (hosts.setPeer number)
  | .server call => hosts.serverStep call
  | .requestLost number buf =>
      if (hosts.peers number).requests.contains buf then
        some (hosts.setPeer number ((hosts.peers number).dropRequest buf))
      else
        none
  | .replyLost number buf =>
      if (hosts.peers number).replies.contains buf then
        some (hosts.setPeer number ((hosts.peers number).dropReply buf))
      else
        none

/-! ## What a step can do -/

/-- The answer to a client that the server has in hand. -/
def hand (serverAt : ServerAt) (number : Nat) : List (List UInt8) :=
  match serverAt with
  | .sendto client buf => if client = number then [buf] else []
  | .recvfrom | .exited => []

/-- The answers that may still come to a client. -/
def due (hosts : Hosts) (number : Nat) : List (List UInt8) :=
  (hosts.peers number).requests.map answer ++ hand hosts.serverAt number ++
    (hosts.peers number).replies

inductive Took : Hosts → Label → Hosts → Prop
  | typed {hosts : Hosts} {number : Nat} {bytes : List UInt8}
      (isAt : (hosts.peers number).clientAt = .read) (nonempty : bytes ≠ [])
      (fits : bytes.length ≤ maxBufSize) :
      Took hosts (.client number (.read bytes))
        (hosts.setPeer number ((hosts.peers number).goto (.sendto bytes)))
  | sent {hosts : Hosts} {number : Nat} {buf : List UInt8}
      (isAt : (hosts.peers number).clientAt = .sendto buf) :
      Took hosts (.client number (.sendto true))
        (hosts.setPeer number ((hosts.peers number).send buf))
  | received {hosts : Hosts} {number : Nat} {buf : List UInt8}
      (isAt : (hosts.peers number).clientAt = .recvfrom)
      (there : buf ∈ (hosts.peers number).replies) :
      Took hosts (.client number (.recvfrom (some buf)))
        (hosts.setPeer number
          (((hosts.peers number).dropReply buf).goto
            (.write (buf.take maxBufSize))))
  | printed {hosts : Hosts} {number : Nat} {buf : List UInt8}
      (isAt : (hosts.peers number).clientAt = .write buf) :
      Took hosts (.client number .write)
        (hosts.setPeer number ((hosts.peers number).print buf))
  | left {hosts : Hosts} {number : Nat} {call : ClientCall}
      (before :
        (hosts.peers number).clientAt = .read ∨
          (∃ buf, (hosts.peers number).clientAt = .sendto buf) ∨
            (hosts.peers number).clientAt = .recvfrom)
      (nothing : ∀ bytes, call = .read bytes → bytes = []) :
      Took hosts (.client number call)
        (hosts.setPeer number ((hosts.peers number).goto .exited))
  | fetched {hosts : Hosts} {client : Nat} {buf : List UInt8}
      (isAt : hosts.serverAt = .recvfrom)
      (there : buf ∈ (hosts.peers client).requests) :
      Took hosts (.server (.recvfrom (some (client, buf))))
        ((hosts.setPeer client
          ((hosts.peers client).dropRequest buf)).serverGoto
            (.sendto client (answer (buf.take maxBufSize))))
  | answered {hosts : Hosts} {client : Nat} {buf : List UInt8}
      (isAt : hosts.serverAt = .sendto client buf) :
      Took hosts (.server (.sendto true))
        ((hosts.setPeer client
          ((hosts.peers client).addReply buf)).serverGoto .recvfrom)
  | ended {hosts : Hosts} {call : ServerCall} :
      Took hosts (.server call) (hosts.serverGoto .exited)
  | requestLost {hosts : Hosts} {number : Nat} {buf : List UInt8}
      (there : buf ∈ (hosts.peers number).requests) :
      Took hosts (.requestLost number buf)
        (hosts.setPeer number ((hosts.peers number).dropRequest buf))
  | replyLost {hosts : Hosts} {number : Nat} {buf : List UInt8}
      (there : buf ∈ (hosts.peers number).replies) :
      Took hosts (.replyLost number buf)
        (hosts.setPeer number ((hosts.peers number).dropReply buf))

variable {hosts next last : Hosts} {label : Label} {number : Nat}

theorem took_client
    {call : ClientCall}
    (stepped : hosts.step (.client number call) = some next) :
    Took hosts (.client number call) next := by
  obtain ⟨peer, isPeer, rfl⟩ := Option.map_eq_some_iff.mp stepped
  cases call with
  | read bytes =>
      simp only [Peer.step] at isPeer
      split at isPeer
      · next isAt =>
          split at isPeer
          · next ended =>
              cases isPeer
              refine .left (Or.inl isAt) ?_
              intro other same
              cases same
              exact ended
          · next nonempty =>
              obtain ⟨fits, isPeer⟩ := Option.ite_none_right_eq_some.mp isPeer
              cases isPeer
              exact .typed isAt nonempty fits
      · cases isPeer
  | sendto succeeds =>
      simp only [Peer.step] at isPeer
      split at isPeer
      · next buf isAt =>
          cases isPeer
          cases succeeds with
          | true => exact .sent isAt
          | false => exact .left (Or.inr (Or.inl ⟨buf, isAt⟩)) nofun
      · cases isPeer
  | recvfrom datagram =>
      cases datagram with
      | none =>
          simp only [Peer.step] at isPeer
          split at isPeer
          · next isAt =>
              cases isPeer
              exact .left (Or.inr (Or.inr isAt)) nofun
          · cases isPeer
      | some buf =>
          simp only [Peer.step] at isPeer
          split at isPeer
          · next isAt =>
              obtain ⟨there, isPeer⟩ := Option.ite_none_right_eq_some.mp isPeer
              cases isPeer
              exact .received isAt (List.contains_iff_mem.mp there)
          · cases isPeer
  | write =>
      simp only [Peer.step] at isPeer
      split at isPeer
      · next buf isAt =>
          cases isPeer
          exact .printed isAt
      · cases isPeer

theorem took_server
    {call : ServerCall} (stepped : hosts.step (.server call) = some next) :
    Took hosts (.server call) next := by
  cases call with
  | recvfrom datagram =>
      cases datagram with
      | none =>
          simp only [step, serverStep] at stepped
          split at stepped
          · cases stepped
            exact .ended
          · cases stepped
      | some datagram =>
          obtain ⟨client, buf⟩ := datagram
          simp only [step, serverStep] at stepped
          split at stepped
          · next isAt =>
              obtain ⟨there, stepped⟩ :=
                Option.ite_none_right_eq_some.mp stepped
              cases stepped
              exact .fetched isAt (List.contains_iff_mem.mp there)
          · cases stepped
  | sendto succeeds =>
      simp only [step, serverStep] at stepped
      split at stepped
      · next client buf isAt =>
          cases stepped
          cases succeeds with
          | true => exact .answered isAt
          | false => exact .ended
      · cases stepped

theorem took (stepped : hosts.step label = some next) :
    Took hosts label next := by
  cases label with
  | client number call => exact took_client stepped
  | server call => exact took_server stepped
  | requestLost number buf =>
      obtain ⟨there, stepped⟩ := Option.ite_none_right_eq_some.mp stepped
      cases stepped
      exact .requestLost (List.contains_iff_mem.mp there)
  | replyLost number buf =>
      obtain ⟨there, stepped⟩ := Option.ite_none_right_eq_some.mp stepped
      cases stepped
      exact .replyLost (List.contains_iff_mem.mp there)

/-! ## How far the clients are -/

def typed (number : Nat) (labels : List Label) : List (List UInt8) :=
  labels.filterMap fun label =>
    match label with
    | .client client (.read bytes) =>
        if client = number ∧ bytes ≠ [] then some bytes else none
    | _ => none

@[simp]
theorem typed_append (initial suffix : List Label) :
    typed number (initial ++ suffix) =
      typed number initial ++ typed number suffix :=
  List.filterMap_append

/-- Where a client is, with the blocks it has read, what it has printed, and
the answers that may still come.  At most the last block is without its
answer on the screen. -/
inductive Stage :
    ClientAt → List (List UInt8) → List UInt8 → List (List UInt8) → Prop
  | read (past : List (List UInt8)) :
      Stage .read past (answer past.flatten) []
  | sendto (past : List (List UInt8)) (buf : List UInt8) (nonempty : buf ≠ [])
      (fits : buf.length ≤ maxBufSize) :
      Stage (.sendto buf) (past ++ [buf]) (answer past.flatten) []
  | recvfrom (past : List (List UInt8)) (buf : List UInt8)
      (answers : List (List UInt8)) (nonempty : buf ≠ [])
      (fits : buf.length ≤ maxBufSize) (own : answers.Subperm [answer buf]) :
      Stage .recvfrom (past ++ [buf]) (answer past.flatten) answers
  | write (past : List (List UInt8)) (buf : List UInt8) :
      Stage (.write (answer buf)) (past ++ [buf]) (answer past.flatten) []
  | exited (past rest answers : List (List UInt8)) (short : rest.length ≤ 1) :
      Stage .exited (past ++ rest) (answer past.flatten) answers

/-- Every client is at some stage, and what is on the way to the server fits
into its buffer. -/
def InOrder (past : List Label) (hosts : Hosts) : Prop :=
  ∀ number,
    Stage (hosts.peers number).clientAt (typed number past)
        (hosts.peers number).printed (hosts.due number) ∧
      ∀ buf ∈ (hosts.peers number).requests, buf.length ≤ maxBufSize

theorem answer_append (first second : List UInt8) :
    answer (first ++ second) = answer first ++ answer second :=
  List.map_append

theorem answer_length (buf : List UInt8) : (answer buf).length = buf.length :=
  List.length_map _

namespace Stage

variable {clientAt : ClientAt} {blocks answers fewer : List (List UInt8)}
  {printed : List UInt8}

/-- Answers that do not come any more are no trouble. -/
theorem fewer_answers
    (stage : Stage clientAt blocks printed answers)
    (subperm : fewer.Subperm answers) :
    Stage clientAt blocks printed fewer := by
  cases stage with
  | read past =>
      rw [List.subperm_nil.mp subperm]
      exact .read blocks
  | sendto past buf nonempty fits =>
      rw [List.subperm_nil.mp subperm]
      exact .sendto past buf nonempty fits
  | recvfrom past buf answers nonempty fits own =>
      exact .recvfrom past buf fewer nonempty fits (subperm.trans own)
  | write past buf =>
      rw [List.subperm_nil.mp subperm]
      exact .write past buf
  | exited past rest answers short => exact .exited past rest fewer short

theorem of_read
    (stage : Stage .read blocks printed answers) :
    printed = answer blocks.flatten ∧ answers = [] := by
  cases stage
  exact ⟨rfl, rfl⟩

theorem of_sendto
    {buf : List UInt8} (stage : Stage (.sendto buf) blocks printed answers) :
    ∃ past, blocks = past ++ [buf] ∧ printed = answer past.flatten ∧
      answers = [] ∧ buf ≠ [] ∧ buf.length ≤ maxBufSize := by
  cases stage with
  | sendto past buf nonempty fits => exact ⟨past, rfl, rfl, rfl, nonempty, fits⟩

theorem of_recvfrom
    (stage : Stage .recvfrom blocks printed answers) :
    ∃ past buf, blocks = past ++ [buf] ∧ printed = answer past.flatten ∧
      buf ≠ [] ∧ buf.length ≤ maxBufSize ∧
        answers.Subperm [answer buf] := by
  cases stage with
  | recvfrom past buf answers nonempty fits own =>
      exact ⟨past, buf, rfl, rfl, nonempty, fits, own⟩

theorem of_write
    {buf : List UInt8} (stage : Stage (.write buf) blocks printed answers) :
    ∃ past block, blocks = past ++ [block] ∧ printed = answer past.flatten ∧
      buf = answer block ∧ answers = [] := by
  cases stage with
  | write past block => exact ⟨past, block, rfl, rfl, rfl, rfl⟩

theorem behind
    (stage : Stage clientAt blocks printed answers) :
    ∃ answered rest,
      blocks = answered ++ rest ∧ rest.length ≤ 1 ∧
        printed = answer answered.flatten ∧
          (clientAt = .read → rest = []) := by
  cases stage with
  | read past =>
      refine ⟨blocks, [], (List.append_nil _).symm, Nat.zero_le 1, rfl, ?_⟩
      intro
      rfl
  | sendto past buf nonempty fits =>
      exact ⟨past, [buf], rfl, Nat.le_refl 1, rfl, nofun⟩
  | recvfrom past buf answers nonempty fits own =>
      exact ⟨past, [buf], rfl, Nat.le_refl 1, rfl, nofun⟩
  | write past buf => exact ⟨past, [buf], rfl, Nat.le_refl 1, rfl, nofun⟩
  | exited past rest answers short =>
      exact ⟨past, rest, rfl, short, rfl, nofun⟩

theorem waits
    (stage : Stage clientAt blocks printed answers) (nonempty : answers ≠ []) :
    clientAt = .exited ∨ clientAt = .recvfrom ∧ answers.length ≤ 1 := by
  cases stage with
  | read past => exact absurd rfl nonempty
  | sendto past buf nonempty fits => exact absurd rfl nonempty
  | recvfrom past buf answers nonempty fits own =>
      exact Or.inr ⟨rfl, own.length_le⟩
  | write past buf => exact absurd rfl nonempty
  | exited past rest answers short => exact Or.inl rfl

end Stage

@[simp]
theorem setPeer_peers_self (peer : Peer) :
    (hosts.setPeer number peer).peers number = peer :=
  Function.update_self ..

theorem setPeer_peers_ne
    {other : Nat} (differs : other ≠ number) (peer : Peer) :
    (hosts.setPeer number peer).peers other = hosts.peers other :=
  Function.update_of_ne differs ..

@[simp]
theorem setPeer_serverAt (peer : Peer) :
    (hosts.setPeer number peer).serverAt = hosts.serverAt :=
  rfl

@[simp]
theorem serverGoto_peers (serverAt : ServerAt) :
    (hosts.serverGoto serverAt).peers = hosts.peers :=
  rfl

@[simp]
theorem serverGoto_serverAt (serverAt : ServerAt) :
    (hosts.serverGoto serverAt).serverAt = serverAt :=
  rfl

theorem own_or_others (label : Label) (number : Nat) :
    (∃ call, label = .client number call) ∨
      ∀ call, label ≠ .client number call := by
  by_cases own : ∃ call, label = .client number call
  · exact Or.inl own
  · exact Or.inr (not_exists.mp own)

def Loses (number : Nat) : Label → Prop
  | .requestLost client _ | .replyLost client _ => client = number
  | .client _ _ | .server _ => False

/-- What a step leaves of a client that does not take it. -/
structure Passed
    (label : Label) (hosts next : Hosts) (number : Nat) : Prop where
  clientAt : (next.peers number).clientAt = (hosts.peers number).clientAt
  printed : (next.peers number).printed = (hosts.peers number).printed
  requests : (next.peers number).requests ⊆ (hosts.peers number).requests
  replies :
    hosts.serverAt = .exited →
      (next.peers number).replies ⊆ (hosts.peers number).replies
  fewer : (next.due number).Subperm (hosts.due number)
  whole :
    ¬ Loses number label → next.serverAt ≠ .exited →
      (next.due number).Perm (hosts.due number)

/-- Nothing changes for a client by what happens to another one. -/
theorem passed_apart
    {client : Nat} (differs : number ≠ client) (peer : Peer)
    (serverAt : ServerAt)
    (same : hand serverAt number = hand hosts.serverAt number) :
    Passed label hosts ((hosts.setPeer client peer).serverGoto serverAt)
      number := by
  have isPeer :
      (hosts.setPeer client peer).peers number = hosts.peers number :=
    setPeer_peers_ne differs peer
  have isDue :
      ((hosts.setPeer client peer).serverGoto serverAt).due number =
        hosts.due number := by
    rw [due, serverGoto_peers, isPeer, serverGoto_serverAt, same, due]
  constructor
  · rw [serverGoto_peers, isPeer]
  · rw [serverGoto_peers, isPeer]
  · rw [serverGoto_peers, isPeer]
    exact List.Subset.refl _
  · rw [serverGoto_peers, isPeer]
    intro
    exact List.Subset.refl _
  · rw [isDue]
  · rw [isDue]
    intro _ _
    exact List.Perm.refl _

/-- A datagram of the client has come to the server or left it, or is lost. -/
theorem passed_own
    (peer : Peer) (serverAt : ServerAt)
    (clientAt : peer.clientAt = (hosts.peers number).clientAt)
    (printed : peer.printed = (hosts.peers number).printed)
    (requests : peer.requests ⊆ (hosts.peers number).requests)
    (replies :
      hosts.serverAt = .exited →
        peer.replies ⊆ (hosts.peers number).replies)
    (fewer :
      (peer.requests.map answer ++ hand serverAt number ++
        peer.replies).Subperm (hosts.due number))
    (whole :
      ¬ Loses number label →
        (peer.requests.map answer ++ hand serverAt number ++
          peer.replies).Perm (hosts.due number)) :
    Passed label hosts ((hosts.setPeer number peer).serverGoto serverAt)
      number := by
  have isDue :
      ((hosts.setPeer number peer).serverGoto serverAt).due number =
        peer.requests.map answer ++ hand serverAt number ++
          peer.replies := by
    rw [due, serverGoto_peers, setPeer_peers_self, serverGoto_serverAt]
  constructor
  · rw [serverGoto_peers, setPeer_peers_self, clientAt]
  · rw [serverGoto_peers, setPeer_peers_self, printed]
  · rw [serverGoto_peers, setPeer_peers_self]
    exact requests
  · rw [serverGoto_peers, setPeer_peers_self]
    exact replies
  · rw [isDue]
    exact fewer
  · rw [isDue]
    intro kept _
    exact whole kept

/-- A datagram that is fetched and the ones that stay are the ones that were
there. -/
theorem map_erase_perm
    {bufs : List (List UInt8)} {buf : List UInt8} (there : buf ∈ bufs) :
    ((bufs.erase buf).map answer ++ [answer buf]).Perm (bufs.map answer) :=
  (List.perm_append_singleton _ _).trans
    ((List.perm_cons_erase there).map answer).symm

theorem passed_fetched
    {buf : List UInt8} (there : buf ∈ (hosts.peers number).requests)
    (fits : buf.length ≤ maxBufSize) (isAt : hosts.serverAt = .recvfrom) :
    Passed label hosts
      ((hosts.setPeer number ((hosts.peers number).dropRequest buf)).serverGoto
        (.sendto number (answer (buf.take maxBufSize)))) number := by
  have same :
      (((hosts.peers number).requests.erase buf).map answer ++
        hand (.sendto number (answer (buf.take maxBufSize))) number ++
          (hosts.peers number).replies).Perm (hosts.due number) := by
    have split :=
      (map_erase_perm there).append_right (hosts.peers number).replies
    rw [due, isAt, List.take_of_length_le fits]
    simpa [hand] using split
  apply passed_own
  · rfl
  · rfl
  · exact List.erase_subset
  · intro
    exact List.Subset.refl _
  · exact same.subperm
  · intro
    exact same

theorem passed_answered
    {buf : List UInt8} (isAt : hosts.serverAt = .sendto number buf) :
    Passed label hosts
      ((hosts.setPeer number ((hosts.peers number).addReply buf)).serverGoto
        .recvfrom) number := by
  have same :
      ((hosts.peers number).requests.map answer ++ hand .recvfrom number ++
        ((hosts.peers number).replies ++ [buf])).Perm (hosts.due number) := by
    have moved :=
      (List.perm_append_singleton buf
        (hosts.peers number).replies).append_left
          ((hosts.peers number).requests.map answer)
    rw [due, isAt]
    simpa [hand] using moved
  apply passed_own
  · rfl
  · rfl
  · exact List.Subset.refl _
  · intro exited
    rw [isAt] at exited
    cases exited
  · exact same.subperm
  · intro
    exact same

theorem passed_ended :
    Passed label hosts (hosts.serverGoto .exited) number := by
  constructor
  · rfl
  · rfl
  · exact List.Subset.refl _
  · intro
    exact List.Subset.refl _
  · rw [due, due, serverGoto_peers, serverGoto_serverAt]
    apply (List.subperm_append_right _).mpr
    rw [hand, List.append_nil]
    exact (List.sublist_append_left _ _).subperm
  · intro _ running
    exact absurd rfl running

theorem passed_requestLost
    {buf : List UInt8} :
    Passed (.requestLost number buf) hosts
      (hosts.setPeer number ((hosts.peers number).dropRequest buf))
      number := by
  apply passed_own _ hosts.serverAt
  · rfl
  · rfl
  · exact List.erase_subset
  · intro
    exact List.Subset.refl _
  · rw [due, List.append_assoc, List.append_assoc]
    apply (List.subperm_append_right _).mpr
    exact (List.erase_sublist.map answer).subperm
  · intro kept
    exact absurd rfl kept

theorem passed_replyLost
    {buf : List UInt8} :
    Passed (.replyLost number buf) hosts
      (hosts.setPeer number ((hosts.peers number).dropReply buf))
      number := by
  apply passed_own _ hosts.serverAt
  · rfl
  · rfl
  · exact List.Subset.refl _
  · intro
    exact List.erase_subset
  · apply (List.subperm_append_left _).mpr
    exact List.erase_sublist.subperm
  · intro kept
    exact absurd rfl kept

/-- A step that is not one of the client's own leaves it where it is, and no
answer is on the way that was not to come before. -/
theorem passed
    (fit : ∀ buf ∈ (hosts.peers number).requests, buf.length ≤ maxBufSize)
    (others : ∀ call, label ≠ .client number call)
    (stepped : hosts.step label = some next) :
    Passed label hosts next number := by
  have ne_of_others :
      ∀ {client call}, label = .client client call → number ≠ client := by
    intro client call isLabel same
    subst same
    exact others call isLabel
  cases took stepped with
  | typed isAt nonempty fits => exact passed_apart (ne_of_others rfl) _ _ rfl
  | sent isAt => exact passed_apart (ne_of_others rfl) _ _ rfl
  | received isAt there => exact passed_apart (ne_of_others rfl) _ _ rfl
  | printed isAt => exact passed_apart (ne_of_others rfl) _ _ rfl
  | left before nothing => exact passed_apart (ne_of_others rfl) _ _ rfl
  | @fetched client buf isAt there =>
      by_cases own : number = client
      · subst own
        exact passed_fetched there (fit buf there) isAt
      · apply passed_apart own
        rw [isAt]
        exact if_neg (Ne.symm own)
  | @answered client buf isAt =>
      by_cases own : number = client
      · subst own
        exact passed_answered isAt
      · apply passed_apart own
        rw [isAt]
        exact (if_neg (Ne.symm own)).symm
  | ended => exact passed_ended
  | @requestLost client buf there =>
      by_cases own : number = client
      · subst own
        exact passed_requestLost
      · exact passed_apart own _ hosts.serverAt rfl
  | @replyLost client buf there =>
      by_cases own : number = client
      · subst own
        exact passed_replyLost
      · exact passed_apart own _ hosts.serverAt rfl

theorem due_setPeer_self
    (peer : Peer) :
    (hosts.setPeer number peer).due number =
      peer.requests.map answer ++ hand hosts.serverAt number ++
        peer.replies := by
  rw [due, setPeer_peers_self, setPeer_serverAt]

variable {past labels : List Label}

/-- What the labels of other clients and of the server say is not typed. -/
theorem typed_others
    (others : ∀ call, label ≠ .client number call) :
    typed number (past ++ [label]) = typed number past := by
  rw [typed_append]
  cases label with
  | client client call =>
      have differs : client ≠ number := by
        intro same
        subst same
        exact others call rfl
      cases call <;> simp [typed, differs]
  | server call => simp [typed]
  | requestLost client buf => simp [typed]
  | replyLost client buf => simp [typed]

theorem typed_read
    {bytes : List UInt8} (nonempty : bytes ≠ []) :
    typed number (past ++ [.client number (.read bytes)]) =
      typed number past ++ [bytes] := by
  rw [typed_append]
  simp [typed, nonempty]

theorem typed_nothing
    (call : ClientCall) (nothing : ∀ bytes, call = .read bytes → bytes = []) :
    typed number (past ++ [.client number call]) = typed number past := by
  rw [typed_append]
  cases call with
  | read bytes => simp [typed, nothing bytes rfl]
  | sendto succeeds => simp [typed]
  | recvfrom datagram => simp [typed]
  | write => simp [typed]

/-- A reply that has come is the only thing on the way. -/
theorem only_reply
    {buf block : List UInt8}
    (own : (hosts.due number).Subperm [answer block])
    (there : buf ∈ (hosts.peers number).replies) :
    buf = answer block ∧ (hosts.peers number).requests = [] ∧
      hand hosts.serverAt number = [] ∧
        (hosts.peers number).replies = [buf] := by
  have isAnswer : buf = answer block :=
    List.mem_singleton.mp (own.subset (List.mem_append_right _ there))
  have short := own.length_le
  have nonempty := List.length_pos_of_mem there
  simp only [due, List.length_append, List.length_map,
    List.length_singleton] at short
  refine ⟨isAnswer, ?_, ?_, ?_⟩
  · exact List.length_eq_zero_iff.mp (by omega)
  · exact List.length_eq_zero_iff.mp (by omega)
  · obtain ⟨only, isOnly⟩ := List.length_eq_one_iff.mp
      (show (hosts.peers number).replies.length = 1 by omega)
    rw [isOnly] at there ⊢
    rw [List.mem_singleton.mp there]

/-- A client's own step takes it from one stage to the next. -/
theorem stage_own
    {call : ClientCall}
    (stage :
      Stage (hosts.peers number).clientAt (typed number past)
        (hosts.peers number).printed (hosts.due number))
    (stepped : hosts.step (.client number call) = some next) :
    Stage (next.peers number).clientAt
      (typed number (past ++ [.client number call]))
      (next.peers number).printed (next.due number) := by
  cases took stepped with
  | @typed _ bytes isAt nonempty fits =>
      rw [isAt] at stage
      obtain ⟨isPrinted, nothing⟩ := stage.of_read
      have isDue :
          (hosts.setPeer number
            ((hosts.peers number).goto (.sendto bytes))).due number = [] :=
        (due_setPeer_self _).trans nothing
      rw [isDue, typed_read nonempty, setPeer_peers_self]
      have sending := Stage.sendto (typed number past) bytes nonempty fits
      rw [← isPrinted] at sending
      exact sending
  | @sent _ buf isAt =>
      rw [isAt] at stage
      obtain ⟨blocks, isTyped, isPrinted, nothing, nonempty, fits⟩ :=
        stage.of_sendto
      have isDue :
          (hosts.setPeer number ((hosts.peers number).send buf)).due number =
            [answer buf] := by
        rw [due, List.append_eq_nil_iff, List.append_eq_nil_iff] at nothing
        obtain ⟨⟨noRequests, noHand⟩, noReplies⟩ := nothing
        rw [due_setPeer_self]
        simp [Peer.send, List.map_eq_nil_iff.mp noRequests, noHand, noReplies]
      rw [isDue, typed_nothing (.sendto true) nofun, setPeer_peers_self,
        isTyped]
      have waiting :=
        Stage.recvfrom blocks buf [answer buf] nonempty fits
          (List.Subperm.refl _)
      rw [← isPrinted] at waiting
      exact waiting
  | @received _ buf isAt there =>
      rw [isAt] at stage
      obtain ⟨blocks, block, isTyped, isPrinted, nonempty, fits, own⟩ :=
        stage.of_recvfrom
      obtain ⟨isAnswer, noRequests, noHand, only⟩ := only_reply own there
      have whole : buf.take maxBufSize = answer block := by
        rw [isAnswer]
        apply List.take_of_length_le
        rw [answer_length]
        exact fits
      have isDue :
          (hosts.setPeer number
            (((hosts.peers number).dropReply buf).goto
              (.write (buf.take maxBufSize)))).due number = [] := by
        rw [due_setPeer_self]
        simp [Peer.dropReply, Peer.goto, noRequests, noHand, only]
      rw [isDue, typed_nothing (.recvfrom (some buf)) nofun, setPeer_peers_self,
        isTyped, whole]
      have writing := Stage.write blocks block
      rw [← isPrinted] at writing
      exact writing
  | @printed _ buf isAt =>
      rw [isAt] at stage
      obtain ⟨blocks, block, isTyped, isPrinted, isBuf, nothing⟩ :=
        stage.of_write
      have isDue :
          (hosts.setPeer number ((hosts.peers number).print buf)).due number =
            [] :=
        (due_setPeer_self _).trans nothing
      rw [isDue, typed_nothing .write nofun, setPeer_peers_self, isTyped]
      have reading := Stage.read (blocks ++ [block])
      rw [List.flatten_append, answer_append, ← isPrinted,
        List.flatten_singleton, ← isBuf] at reading
      exact reading
  | left before nothing =>
      rw [typed_nothing call nothing, setPeer_peers_self]
      rcases before with isAt | ⟨buf, isAt⟩ | isAt
      · rw [isAt] at stage
        obtain ⟨isPrinted, -⟩ := stage.of_read
        have gone := Stage.exited (typed number past) []
        rw [← isPrinted, List.append_nil] at gone
        exact gone _ (Nat.zero_le 1)
      · rw [isAt] at stage
        obtain ⟨blocks, isTyped, isPrinted, -⟩ := stage.of_sendto
        have gone := Stage.exited blocks [buf]
        rw [← isPrinted, ← isTyped] at gone
        exact gone _ (Nat.le_refl 1)
      · rw [isAt] at stage
        obtain ⟨blocks, buf, isTyped, isPrinted, -⟩ := stage.of_recvfrom
        have gone := Stage.exited blocks [buf]
        rw [← isPrinted, ← isTyped] at gone
        exact gone _ (Nat.le_refl 1)

/-- What a client sends fits. -/
theorem requests_own
    {call : ClientCall}
    (stage :
      Stage (hosts.peers number).clientAt (typed number past)
        (hosts.peers number).printed (hosts.due number))
    (fit : ∀ buf ∈ (hosts.peers number).requests, buf.length ≤ maxBufSize)
    (stepped : hosts.step (.client number call) = some next) :
    ∀ buf ∈ (next.peers number).requests, buf.length ≤ maxBufSize := by
  cases took stepped with
  | typed isAt nonempty fits =>
      rw [setPeer_peers_self]
      exact fit
  | @sent _ buf isAt =>
      rw [isAt] at stage
      obtain ⟨-, -, -, -, -, fits⟩ := stage.of_sendto
      rw [setPeer_peers_self]
      intro other among
      rcases List.mem_append.mp among with before | now
      · exact fit other before
      · rw [List.mem_singleton.mp now]
        exact fits
  | received isAt there =>
      rw [setPeer_peers_self]
      exact fit
  | printed isAt =>
      rw [setPeer_peers_self]
      exact fit
  | left before nothing =>
      rw [setPeer_peers_self]
      exact fit

theorem inOrder_step
    (past : List Label) (hosts : Hosts) (label : Label) (next : Hosts)
    (inOrder : InOrder past hosts) (stepped : hosts.step label = some next) :
    InOrder (past ++ [label]) next := by
  intro number
  obtain ⟨stage, fit⟩ := inOrder number
  rcases own_or_others label number with ⟨call, rfl⟩ | others
  · exact ⟨stage_own stage stepped, requests_own stage fit stepped⟩
  · have pass := passed fit others stepped
    rw [pass.clientAt, pass.printed, typed_others others]
    exact
      ⟨stage.fewer_answers pass.fewer,
        fun buf among => fit buf (pass.requests among)⟩

theorem inOrder_start : InOrder [] start := by
  intro number
  exact ⟨.read [], nofun⟩

theorem inOrder_of_run
    (ran : run step start labels = some last) : InOrder labels last :=
  run_keeps_history InOrder inOrder_step inOrder_start ran

/-- A client prints the answers to the blocks of its own input, one after the
other, and is at most one behind; when it asks for more input it has printed
them all. -/
theorem printed_in_order
    (ran : run step start labels = some last) (number : Nat) :
    ∃ answered rest,
      typed number labels = answered ++ rest ∧ rest.length ≤ 1 ∧
        (last.peers number).printed = answer answered.flatten ∧
          ((last.peers number).clientAt = .read → rest = []) :=
  (inOrder_of_run ran number).1.behind

/-- Two clients; the server has both requests, and answers the second one
first. -/
def twoClients : List Label :=
  [.client 0 (.read [97]), .client 0 (.sendto true),
    .client 1 (.read [98, 99]), .client 1 (.sendto true),
    .server (.recvfrom (some (1, [98, 99]))), .server (.sendto true),
    .server (.recvfrom (some (0, [97]))),
    .client 1 (.recvfrom (some [66, 67])), .client 1 .write]

theorem printed_in_order_two_clients :
    ∃ last answered rest, run step start twoClients = some last ∧
      typed 1 twoClients = answered ++ rest ∧ rest.length ≤ 1 ∧
        (last.peers 1).printed = answer answered.flatten ∧
          ((last.peers 1).clientAt = .read → rest = []) := by
  obtain ⟨answered, rest, facts⟩ :=
    @printed_in_order _ twoClients rfl 1
  exact ⟨_, answered, rest, rfl, facts⟩

/-! ## Whether the answer comes -/

/-- The client waits for an answer that cannot come any more, or is gone. -/
def Starved (hosts : Hosts) (number : Nat) : Prop :=
  (hosts.peers number).clientAt = .exited ∨
    (hosts.peers number).clientAt = .recvfrom ∧
      (hosts.due number = [] ∨
        hosts.serverAt = .exited ∧ (hosts.peers number).replies = [])

theorem replies_of_due
    (nothing : hosts.due number = []) : (hosts.peers number).replies = [] :=
  (List.append_eq_nil_iff.mp nothing).2

theorem exited_step
    (exited : hosts.serverAt = .exited)
    (stepped : hosts.step label = some next) : next.serverAt = .exited := by
  cases took stepped with
  | typed isAt nonempty fits => exact exited
  | sent isAt => exact exited
  | received isAt there => exact exited
  | printed isAt => exact exited
  | left before nothing => exact exited
  | fetched isAt there =>
      rw [exited] at isAt
      cases isAt
  | answered isAt =>
      rw [exited] at isAt
      cases isAt
  | ended => rfl
  | requestLost there => exact exited
  | replyLost there => exact exited

/-- There is no timer: a client without an answer prints nothing more. -/
theorem starved_step
    (fit : ∀ buf ∈ (hosts.peers number).requests, buf.length ≤ maxBufSize)
    (starved : hosts.Starved number)
    (stepped : hosts.step label = some next) :
    next.Starved number ∧
      (next.peers number).printed = (hosts.peers number).printed := by
  rcases own_or_others label number with ⟨call, rfl⟩ | others
  · have isAt :
        (hosts.peers number).clientAt = .exited ∨
          (hosts.peers number).clientAt = .recvfrom ∧
            (hosts.peers number).replies = [] := by
      rcases starved with gone | ⟨waits, nothing | ⟨-, noReplies⟩⟩
      · exact Or.inl gone
      · exact Or.inr ⟨waits, replies_of_due nothing⟩
      · exact Or.inr ⟨waits, noReplies⟩
    cases took stepped with
    | typed reads nonempty fits => simp [reads] at isAt
    | sent sends => simp [sends] at isAt
    | received waits there =>
        rcases isAt with gone | ⟨-, noReplies⟩
        · rw [waits] at gone
          cases gone
        · rw [noReplies] at there
          cases there
    | printed writes => simp [writes] at isAt
    | left before nothing =>
        rw [Starved, setPeer_peers_self]
        exact ⟨Or.inl rfl, rfl⟩
  · have pass := passed fit others stepped
    refine ⟨?_, pass.printed⟩
    rw [Starved, pass.clientAt]
    rcases starved with gone | ⟨waits, nothing | ⟨exited, noReplies⟩⟩
    · exact Or.inl gone
    · have fewer := pass.fewer
      rw [nothing, List.subperm_nil] at fewer
      exact Or.inr ⟨waits, Or.inl fewer⟩
    · have fewer := pass.replies exited
      rw [noReplies, List.subset_nil] at fewer
      exact Or.inr ⟨waits, Or.inr ⟨exited_step exited stepped, fewer⟩⟩

theorem starved_run
    (inOrder : InOrder past hosts) (starved : hosts.Starved number)
    (ran : run step hosts labels = some last) :
    (last.peers number).printed = (hosts.peers number).printed := by
  induction labels generalizing past hosts with
  | nil =>
      cases ran
      rfl
  | cons label labels inductionHypothesis =>
      obtain ⟨next, stepped, rest⟩ :=
        (run_cons_eq_some_iff hosts last label labels).mp ran
      obtain ⟨still, samePrint⟩ :=
        starved_step (inOrder number).2 starved stepped
      exact
        (inductionHypothesis
          (inOrder_step past hosts label next inOrder stepped) still
            rest).trans samePrint

theorem lost_step
    (loses : Loses number label) (stepped : hosts.step label = some next) :
    (next.peers number).clientAt = (hosts.peers number).clientAt ∧
      (next.due number).length + 1 = (hosts.due number).length := by
  cases took stepped with
  | requestLost there =>
      cases loses
      have shorter := List.length_erase_of_mem there
      have nonempty := List.length_pos_of_mem there
      rw [due_setPeer_self, setPeer_peers_self]
      refine ⟨rfl, ?_⟩
      simp only [due, Peer.dropRequest, List.length_append, List.length_map,
        shorter]
      omega
  | replyLost there =>
      cases loses
      have shorter := List.length_erase_of_mem there
      have nonempty := List.length_pos_of_mem there
      rw [due_setPeer_self, setPeer_peers_self]
      refine ⟨rfl, ?_⟩
      simp only [due, Peer.dropReply, List.length_append, List.length_map,
        shorter]
      omega
  | typed isAt nonempty fits => cases loses
  | sent isAt => cases loses
  | received isAt there => cases loses
  | printed isAt => cases loses
  | left before nothing => cases loses
  | fetched isAt there => cases loses
  | answered isAt => cases loses
  | ended => cases loses

/-- A client that loses a datagram waits for its answer. -/
theorem starved_of_loses
    (inOrder : InOrder past hosts) (loses : Loses number label)
    (stepped : hosts.step label = some next) : next.Starved number := by
  obtain ⟨stays, shorter⟩ := lost_step loses stepped
  have nonempty : hosts.due number ≠ [] := by
    intro nothing
    rw [nothing] at shorter
    cases shorter
  rw [Starved, stays]
  rcases (inOrder number).1.waits nonempty with gone | ⟨waits, short⟩
  · exact Or.inl gone
  · have nothing : next.due number = [] :=
      List.length_eq_zero_iff.mp (by omega)
    exact Or.inr ⟨waits, Or.inl nothing⟩

/-- What has become of the datagrams of a client that waits. -/
def Accounted (past : List Label) (hosts : Hosts) : Prop :=
  ∀ number,
    ((∃ label ∈ past, Loses number label) → hosts.Starved number) ∧
      ((hosts.peers number).clientAt = .recvfrom → hosts.due number = [] →
        (∃ label ∈ past, Loses number label) ∨ hosts.serverAt = .exited)

theorem accounted_start : Accounted [] start := by
  intro number
  refine ⟨?_, nofun⟩
  rintro ⟨label, among, -⟩
  cases among

/-- A client that comes to wait has a request on the way. -/
theorem due_of_own
    {call : ClientCall}
    (stepped : hosts.step (.client number call) = some next)
    (waits : (next.peers number).clientAt = .recvfrom) :
    next.due number ≠ [] := by
  cases took stepped with
  | typed isAt nonempty fits => simp [Peer.goto] at waits
  | sent isAt =>
      rw [due_setPeer_self]
      simp [Peer.send]
  | received isAt there => simp [Peer.goto] at waits
  | printed isAt => simp [Peer.print] at waits
  | left before nothing => simp [Peer.goto] at waits

theorem accounted_step
    (past : List Label) (hosts : Hosts) (label : Label) (next : Hosts)
    (kept : InOrder past hosts ∧ Accounted past hosts)
    (stepped : hosts.step label = some next) :
    InOrder (past ++ [label]) next ∧ Accounted (past ++ [label]) next := by
  obtain ⟨inOrder, accounted⟩ := kept
  refine ⟨inOrder_step past hosts label next inOrder stepped, ?_⟩
  intro number
  obtain ⟨-, fit⟩ := inOrder number
  obtain ⟨starves, waitsFor⟩ := accounted number
  constructor
  · rintro ⟨cause, among, loses⟩
    rcases List.mem_append.mp among with before | now
    · exact (starved_step fit (starves ⟨cause, before, loses⟩) stepped).1
    · rw [List.mem_singleton.mp now] at loses
      exact starved_of_loses inOrder loses stepped
  · intro waits nothing
    rcases own_or_others label number with ⟨call, rfl⟩ | others
    · exact absurd nothing (due_of_own stepped waits)
    · have pass := passed fit others stepped
      by_cases loses : Loses number label
      · exact Or.inl ⟨label, List.mem_append_right _ (by simp), loses⟩
      · by_cases exited : next.serverAt = .exited
        · exact Or.inr exited
        · have same := pass.whole loses exited
          rw [nothing, List.nil_perm] at same
          rw [pass.clientAt] at waits
          rcases waitsFor waits same with ⟨cause, before, lost⟩ | gone
          · exact
              Or.inl ⟨cause, List.mem_append_left _ before, lost⟩
          · exact Or.inr (exited_step gone stepped)

def Completes (past : List Label) (hosts : Hosts) (number : Nat) : Prop :=
  ∃ more next, run step hosts more = some next ∧
    (next.peers number).printed = answer (typed number past).flatten

theorem completes_of_step
    (stepped : hosts.step label = some next)
    (others : ∀ call, label ≠ .client number call)
    (later : Completes (past ++ [label]) next number) :
    Completes past hosts number := by
  obtain ⟨more, final, ran, isPrinted⟩ := later
  rw [typed_others others] at isPrinted
  refine ⟨label :: more, final, ?_, isPrinted⟩
  exact (run_cons_eq_some_iff hosts final label more).mpr ⟨next, stepped, ran⟩

theorem step_received
    {buf : List UInt8} (waits : (hosts.peers number).clientAt = .recvfrom)
    (there : buf ∈ (hosts.peers number).replies) :
    hosts.step (.client number (.recvfrom (some buf))) =
      some
        (hosts.setPeer number
          (((hosts.peers number).dropReply buf).goto
            (.write (buf.take maxBufSize)))) := by
  simp [step, Peer.step, waits, there]

theorem step_printed
    {buf : List UInt8} (writes : (hosts.peers number).clientAt = .write buf) :
    hosts.step (.client number .write) =
      some (hosts.setPeer number ((hosts.peers number).print buf)) := by
  simp [step, Peer.step, writes]

theorem step_answered
    {client : Nat} {buf : List UInt8}
    (inHand : hosts.serverAt = .sendto client buf) :
    hosts.step (.server (.sendto true)) =
      some
        ((hosts.setPeer client
          ((hosts.peers client).addReply buf)).serverGoto .recvfrom) := by
  simp [step, serverStep, inHand]

theorem step_fetched
    {buf : List UInt8} (idle : hosts.serverAt = .recvfrom)
    (there : buf ∈ (hosts.peers number).requests) :
    hosts.step (.server (.recvfrom (some (number, buf)))) =
      some
        ((hosts.setPeer number
          ((hosts.peers number).dropRequest buf)).serverGoto
            (.sendto number (answer (buf.take maxBufSize)))) := by
  simp [step, serverStep, idle, there]

/-- It prints the reply that has come and is back at its input. -/
theorem completes_of_reply
    {buf : List UInt8} (inOrder : InOrder past hosts)
    (waits : (hosts.peers number).clientAt = .recvfrom)
    (there : buf ∈ (hosts.peers number).replies) :
    Completes past hosts number := by
  have received := step_received waits there
  have writes :
      ((hosts.setPeer number
        (((hosts.peers number).dropReply buf).goto
          (.write (buf.take maxBufSize)))).peers number).clientAt =
        .write (buf.take maxBufSize) := by
    rw [setPeer_peers_self]
    rfl
  have printed := step_printed writes
  have ends :=
    inOrder_step _ _ _ _ (inOrder_step past hosts _ _ inOrder received) printed
  obtain ⟨stage, -⟩ := ends number
  rw [setPeer_peers_self, typed_nothing .write nofun,
    typed_nothing (.recvfrom (some buf)) nofun] at stage
  have ran :
      run step hosts
          [.client number (.recvfrom (some buf)), .client number .write] =
        some _ :=
    (run_cons_eq_some_iff hosts _ _ _).mpr
      ⟨_, received, (run_cons_eq_some_iff _ _ _ []).mpr ⟨_, printed, rfl⟩⟩
  refine ⟨_, _, ran, ?_⟩
  rw [setPeer_peers_self]
  exact stage.of_read.1

theorem completes_of_hand
    {buf : List UInt8} (inOrder : InOrder past hosts)
    (waits : (hosts.peers number).clientAt = .recvfrom)
    (inHand : hosts.serverAt = .sendto number buf) :
    Completes past hosts number := by
  have answered := step_answered inHand
  apply completes_of_step answered nofun
  apply completes_of_reply (inOrder_step past hosts _ _ inOrder answered)
  · rw [serverGoto_peers, setPeer_peers_self]
    exact waits
  · rw [serverGoto_peers, setPeer_peers_self]
    exact List.mem_append_right _ List.mem_cons_self

theorem completes_of_request
    {buf : List UInt8} (inOrder : InOrder past hosts)
    (waits : (hosts.peers number).clientAt = .recvfrom)
    (there : buf ∈ (hosts.peers number).requests)
    (idle : hosts.serverAt = .recvfrom) :
    Completes past hosts number := by
  have fetched := step_fetched idle there
  apply completes_of_step fetched nofun
  apply completes_of_hand (inOrder_step past hosts _ _ inOrder fetched)
  · rw [serverGoto_peers, setPeer_peers_self]
    exact waits
  · exact serverGoto_serverAt _

theorem exists_request
    (nothing : hand hosts.serverAt number = [])
    (nonempty :
      (hosts.peers number).requests.map answer ++
        hand hosts.serverAt number ≠ []) :
    ∃ buf, buf ∈ (hosts.peers number).requests := by
  rw [nothing, List.append_nil] at nonempty
  apply List.exists_mem_of_ne_nil
  intro isEmpty
  rw [isEmpty] at nonempty
  exact nonempty rfl

/-- The server sends what it has in hand first. -/
theorem completes_of_running
    (inOrder : InOrder past hosts)
    (waits : (hosts.peers number).clientAt = .recvfrom)
    (running : hosts.serverAt ≠ .exited) (nonempty : hosts.due number ≠ []) :
    Completes past hosts number := by
  cases isReplies : (hosts.peers number).replies with
  | cons buf others =>
      apply completes_of_reply inOrder waits
      rw [isReplies]
      exact List.mem_cons_self
  | nil =>
      rw [due, isReplies, List.append_nil] at nonempty
      cases isAt : hosts.serverAt with
      | exited => exact absurd isAt running
      | recvfrom =>
          have nothing : hand hosts.serverAt number = [] := by
            rw [isAt]
            rfl
          obtain ⟨buf, there⟩ := exists_request nothing nonempty
          exact completes_of_request inOrder waits there isAt
      | sendto client inHand =>
          by_cases own : client = number
          · subst own
            exact completes_of_hand inOrder waits isAt
          · have nothing : hand hosts.serverAt number = [] := by
              rw [isAt]
              exact if_neg own
            obtain ⟨buf, there⟩ := exists_request nothing nonempty
            have answered := step_answered isAt
            have samePeer :
                (hosts.setPeer client
                    ((hosts.peers client).addReply inHand)).peers number =
                  hosts.peers number :=
              setPeer_peers_ne (Ne.symm own) _
            apply completes_of_step answered nofun
            apply
              completes_of_request
                (inOrder_step past hosts _ _ inOrder answered)
            · rw [serverGoto_peers, samePeer]
              exact waits
            · rw [serverGoto_peers, samePeer]
              exact there
            · exact serverGoto_serverAt _

/-- A client that waits comes to print the answer if and only if none of its
datagrams has been lost, and the server runs or has answered already: nothing
is sent a second time. -/
theorem answer_comes_iff
    (ran : run step start labels = some last)
    (waits : (last.peers number).clientAt = .recvfrom) :
    (∃ more next, run step last more = some next ∧
      (next.peers number).printed = answer (typed number labels).flatten) ↔
        (∀ label ∈ labels, ¬ Loses number label) ∧
          (last.serverAt = .exited →
            (last.peers number).replies ≠ []) := by
  obtain ⟨inOrder, accounted⟩ :=
    run_keeps_history (fun past hosts => InOrder past hosts ∧
      Accounted past hosts) accounted_step ⟨inOrder_start, accounted_start⟩ ran
  obtain ⟨starves, waitsFor⟩ := accounted number
  have stage := (inOrder number).1
  rw [waits] at stage
  obtain ⟨blocks, block, isTyped, isPrinted, nonempty, -⟩ := stage.of_recvfrom
  rw [List.nil_append] at *
  constructor
  · rintro ⟨more, next, ranOn, complete⟩
    have notStarved : ¬ last.Starved number := by
      intro starved
      rw [starved_run inOrder starved ranOn, isPrinted, isTyped,
        List.flatten_append, answer_append, List.flatten_singleton,
        List.self_eq_append_right] at complete
      exact nonempty (List.map_eq_nil_iff.mp complete)
    constructor
    · intro label among loses
      exact notStarved (starves ⟨label, among, loses⟩)
    · intro exited noReplies
      exact notStarved (Or.inr ⟨waits, Or.inr ⟨exited, noReplies⟩⟩)
  · rintro ⟨kept, answered⟩
    by_cases exited : last.serverAt = .exited
    · obtain ⟨buf, there⟩ := List.exists_mem_of_ne_nil _ (answered exited)
      exact completes_of_reply inOrder waits there
    · apply completes_of_running inOrder waits exited
      intro nothing
      rcases waitsFor waits nothing with ⟨label, among, loses⟩ | gone
      · exact kept label among loses
      · exact exited gone

theorem answer_comes_iff_two_clients :
    ∃ last, run step start twoClients = some last ∧
      (last.peers 0).clientAt = .recvfrom ∧
        ((∃ more next, run step last more = some next ∧
          (next.peers 0).printed = answer (typed 0 twoClients).flatten) ↔
            (∀ label ∈ twoClients, ¬ Loses 0 label) ∧
              (last.serverAt = .exited → (last.peers 0).replies ≠ [])) :=
  ⟨_, rfl, rfl, @answer_comes_iff _ 0 twoClients rfl rfl⟩

end Hosts

end LinuxNet.Udp
