import LinuxNet.Lib.CString
import LinuxNet.Lib.Sockets
import LinuxNet.Lib.Threads
import LinuxNet.MulProcess.Zombies

/-!
# The descriptors of the multi-process server

`fork` gives the child a copy of the parent's table of descriptors, and a
connection is shut down when no process has a descriptor for it any more.  The
parent closes its copy of each client's descriptor behind the `fork`, so a
child gets the descriptor of its own client and of no other one, and a
connection ends with its child.
-/

namespace LinuxNet.MulProcess

open LinuxNet.CString LinuxNet.EchoService LinuxNet.StepSystem
open LinuxNet.Threads

/-- The size of `buf` in the child. -/
def bufSize : Nat := 4096

/-- The client descriptors of a process with their connections. -/
abbrev Table :=
  List (Nat × Nat)

/-- `close`. -/
def Table.close (table : Table) (fd : Nat) : Table :=
  table.filter fun entry => decide (entry.1 ≠ fd)

/-- The next thing that a child does behind `fork`. -/
inductive ChildAt where
  | closeListen
  | reads
  | writes (buf : List UInt8)
  | closes
  | exits
  deriving DecidableEq, Repr

structure Proc where
  pid : Child
  clientFd : Nat
  fds : Table
  childAt : ChildAt
  running : Bool
  deriving DecidableEq, Repr

/-- The parent, with its signals, its variable `client_fd` and its table; the
children in the order of their creation; the number of the next connection,
and the connections. -/
structure Family where
  server : Server
  clientFd : Nat
  parentFds : Table
  procs : List Proc
  next : Nat
  channels : Nat → Channel UInt8 UInt8

/-- What a child does.  It dies by `exit` or by a signal. -/
inductive ChildCall where
  | closeListen
  | read (returned : ReadReturn)
  | write (count : Nat)
  | close
  | dies
  deriving DecidableEq, Repr

/-- A client, the parent or a child does something; the events of the parent
that concern no descriptor are those of its model. -/
inductive Label where
  | arrives (conn : Nat) (bytes : List UInt8)
  | finishes (conn : Nat)
  | accept (clientFd : Nat)
  | fork (child : Child)
  | close
  | parent (event : Event)
  | child (number : Nat) (call : ChildCall)
  deriving DecidableEq, Repr

namespace Family

def start : Family :=
  ⟨.start, 0, [], [], 0, fun _ => .fresh⟩

def withServer (family : Family) (server : Server) : Family :=
  { family with server := server }

def setChild (family : Family) (number : Nat) (proc : Proc) : Family :=
  { family with procs := family.procs.set number proc }

def setChannel
    (family : Family) (conn : Nat) (channel : Channel UInt8 UInt8) :
    Family :=
  { family with channels := Function.update family.channels conn channel }

def holds (family : Family) (conn : Nat) : Bool :=
  family.parentFds.any (fun entry => entry.2 == conn) ||
    family.procs.any fun proc => proc.fds.any fun entry => entry.2 == conn

/-- The child of the connection has read up to its end. -/
def sawEnd (family : Family) (conn : Nat) : Bool :=
  match family.procs[conn]? with
  | some proc => proc.childAt = .closes ∨ proc.childAt = .exits
  | none => false

/-- A process has given up a descriptor of the connection, which may have been
the last one. -/
def release (family : Family) (conn : Nat) : Family :=
  if family.holds conn then
    family
  else
    family.setChannel conn
      ((family.channels conn).move
        (if family.sawEnd conn then .closed else .dropped))

def releaseAll (family : Family) : List Nat → Family
  | [] => family
  | conn :: conns => (family.release conn).releaseAll conns

def joined (family : Family) (clientFd : Nat) : Family :=
  { family with
    clientFd := clientFd
    parentFds := (clientFd, family.next) :: family.parentFds
    next := family.next + 1
    channels :=
      Function.update family.channels family.next
        ((family.channels family.next).move .opened) }

def accept (listenFd : Nat) (family : Family) (clientFd : Nat) :
    Option Family :=
  if clientFd = listenFd ∨ (family.parentFds.lookup clientFd).isSome then
    none
  else
    (family.server.step (.accept .client)).map fun server =>
      (family.withServer server).joined clientFd

/-- The new child begins with copies of `client_fd` and of the table. -/
def born (family : Family) (child : Child) : Family :=
  { family with
    procs :=
      family.procs ++
        [⟨child, family.clientFd, family.parentFds, .closeListen, true⟩] }

/-- `fork` with a child. -/
def fork (family : Family) (child : Child) : Option Family :=
  (family.server.step (.fork (some child))).map fun server =>
    (family.withServer server).born child

/-- Behind `close(client_fd)` in the parent. -/
def parentClosed (family : Family) : Family :=
  { family with parentFds := family.parentFds.close family.clientFd }

def close (family : Family) : Option Family :=
  (family.server.step .close).map fun server =>
    (family.withServer server).parentClosed.releaseAll
      (family.parentFds.lookup family.clientFd).toList

def parentGone (family : Family) : Family :=
  { family with parentFds := [] }

/-- The events that have no label of their own. -/
def quiet : Event → Bool
  | .accept .client | .fork (some _) | .close | .childExits _ => false
  | _ => true

def parent (family : Family) (event : Event) : Option Family :=
  if quiet event then
    (family.server.step event).map fun server =>
      if server.mainAt = .exited then
        (family.withServer server).parentGone.releaseAll
          (family.parentFds.map Prod.snd)
      else
        family.withServer server
  else
    none

/-- `Read` of a child.  Behind one that fails it passes −1 on as the length of
two `Write`s, which fail with EFAULT, and reads again. -/
def read
    (family : Family) (number : Nat) (proc : Proc) (returned : ReadReturn) :
    Option Family :=
  (proc.fds.lookup proc.clientFd).bind fun conn =>
    let channel := family.channels conn
    match returned with
    | .items count =>
        if count ≤ bufSize ∧ channel.Readable count then
          some
            ((family.setChild number
              { proc with
                childAt := .writes (channel.incoming.take count) }).setChannel
              conn (channel.take count))
        else
          none
    | .zero =>
        if channel.AtEnd then
          some (family.setChild number { proc with childAt := .closes })
        else
          none
    | .error => some family

/-- Behind `close(client_fd)` in a child. -/
def childClosed (proc : Proc) : Proc :=
  { proc with
    fds := proc.fds.close proc.clientFd
    childAt := .exits }

def childGone (proc : Proc) : Proc :=
  { proc with
    fds := []
    running := false }

/-- The parent hears of the death of a child as long as it lives itself. -/
def hear (family : Family) (child : Child) : Option Server :=
  if family.server.mainAt = .exited then
    some family.server
  else
    family.server.step (.childExits child)

def child (family : Family) (number : Nat) (proc : Proc) :
    ChildCall → Option Family
  | .closeListen =>
      if proc.childAt = .closeListen then
        some (family.setChild number { proc with childAt := .reads })
      else
        none
  | .read returned =>
      if proc.childAt = .reads then
        family.read number proc returned
      else
        none
  | .write count =>
      match proc.childAt with
      | .writes buf =>
          (proc.fds.lookup proc.clientFd).map fun conn =>
            (family.setChild number { proc with childAt := .reads }).setChannel
              conn ((family.channels conn).put ((buf.map toupper).take count))
      | .closeListen | .reads | .closes | .exits => none
  | .close =>
      if proc.childAt = .closes then
        some
          ((family.setChild number (childClosed proc)).releaseAll
            (proc.fds.lookup proc.clientFd).toList)
      else
        none
  | .dies =>
      (family.hear proc.pid).map fun server =>
        ((family.withServer server).setChild number
          (childGone proc)).releaseAll (proc.fds.map Prod.snd)

def step (listenFd : Nat) (family : Family) : Label → Option Family
  | .arrives conn bytes =>
      ((family.channels conn).arrive bytes).map (family.setChannel conn)
  | .finishes conn =>
      some (family.setChannel conn (family.channels conn).finish)
  | .accept clientFd => family.accept listenFd clientFd
  | .fork child => family.fork child
  | .close => family.close
  | .parent event => family.parent event
  | .child number call =>
      match family.procs[number]? with
      | some proc =>
          if proc.running then family.child number proc call else none
      | none => none

variable {listenFd : Nat} {family next : Family} {conn number : Nat}
variable {proc new : Proc} {server : Server}

/-- The child has its client's descriptor still. -/
def Keeps (proc : Proc) : Prop :=
  proc.running = true ∧ proc.childAt ≠ .exits

instance (proc : Proc) : Decidable (Keeps proc) := by
  unfold Keeps
  infer_instance

def ownTable (number : Nat) (proc : Proc) : Table :=
  if Keeps proc then [(proc.clientFd, number)] else []

/-- How many connections and children there are, and what the parent has. -/
def Counted (family : Family) : Prop :=
  match family.server.mainAt with
  | .sigaction | .accept =>
      family.parentFds = [] ∧ family.next = family.procs.length
  | .fork =>
      family.parentFds = [(family.clientFd, family.procs.length)] ∧
        family.next = family.procs.length + 1
  | .close =>
      ∃ number, family.parentFds = [(family.clientFd, number)] ∧
        number + 1 = family.procs.length ∧
          family.next = family.procs.length
  | .exited => family.parentFds = [] ∧ family.procs.length ≤ family.next

def IsOpen (family : Family) (conn : Nat) : Prop :=
  (family.channels conn).place = .opened

instance (family : Family) (conn : Nat) : Decidable (family.IsOpen conn) := by
  unfold IsOpen
  infer_instance

structure Tables (family : Family) : Prop where
  counted : family.Counted
  own :
    ∀ {number proc}, family.procs[number]? = some proc →
      proc.fds = ownTable number proc
  waiting :
    ∀ {conn}, family.next ≤ conn → (family.channels conn).place = .backlog

/-- The connections that are open are those for which some process has a
descriptor. -/
structure Valid (family : Family) : Prop extends Tables family where
  open_iff : ∀ conn, family.IsOpen conn ↔ family.holds conn = true

/-- A descriptor of one open connection has just been given up. -/
structure GaveUp (family : Family) (conn : Nat) : Prop
    extends Tables family where
  isOpen : family.IsOpen conn
  others :
    ∀ other, other ≠ conn →
      (family.IsOpen other ↔ family.holds other = true)

theorem ownTable_of_keeps (keeps : Keeps proc) :
    ownTable number proc = [(proc.clientFd, number)] :=
  if_pos keeps

theorem ownTable_of_not_keeps (gone : ¬ Keeps proc) :
    ownTable number proc = [] :=
  if_neg gone

theorem holds_iff
    (own :
      ∀ {number proc}, family.procs[number]? = some proc →
        proc.fds = ownTable number proc)
    (conn : Nat) :
    family.holds conn = true ↔
      conn ∈ family.parentFds.map Prod.snd ∨
        ∃ proc, family.procs[conn]? = some proc ∧ Keeps proc := by
  unfold holds
  rw [Bool.or_eq_true, List.any_eq_true, List.any_eq_true, List.mem_map]
  apply or_congr
  · simp only [beq_iff_eq]
  · constructor
    · rintro ⟨proc, member, has⟩
      obtain ⟨number, isProc⟩ := List.mem_iff_getElem?.mp member
      rw [own isProc] at has
      unfold ownTable at has
      split at has
      · next keeps =>
          simp only [List.any_cons, List.any_nil, Bool.or_false,
            beq_iff_eq] at has
          exact ⟨proc, has ▸ isProc, keeps⟩
      · cases has
    · rintro ⟨proc, isProc, keeps⟩
      refine ⟨proc, mem_of_at isProc, ?_⟩
      rw [own isProc, ownTable_of_keeps keeps]
      simp

theorem GaveUp.below (gaveUp : family.GaveUp conn) : conn < family.next := by
  by_contra above
  have waiting := gaveUp.waiting (Nat.not_lt.mp above)
  exact absurd (gaveUp.isOpen.symm.trans waiting) nofun

/-- A child that keeps its descriptor keeps its connection open. -/
theorem Valid.isOpen_of_keeps
    (valid : family.Valid) (isAt : family.procs[number]? = some proc)
    (keeps : Keeps proc) : family.IsOpen number :=
  (valid.open_iff number).mpr
    ((holds_iff valid.own number).mpr (Or.inr ⟨proc, isAt, keeps⟩))

/-! ## What changes the tables, and what does not -/

@[simp]
theorem channels_setChannel (channel : Channel UInt8 UInt8) :
    (family.setChannel conn channel).channels =
      Function.update family.channels conn channel :=
  rfl

@[simp]
theorem server_withServer : (family.withServer server).server = server :=
  rfl

@[simp]
theorem withServer_fields :
    (family.withServer server).clientFd = family.clientFd ∧
      (family.withServer server).parentFds = family.parentFds ∧
        (family.withServer server).procs = family.procs ∧
          (family.withServer server).next = family.next ∧
            (family.withServer server).channels = family.channels :=
  ⟨rfl, rfl, rfl, rfl, rfl⟩

@[simp]
theorem joined_fields {clientFd : Nat} :
    (family.joined clientFd).server = family.server ∧
      (family.joined clientFd).clientFd = clientFd ∧
        (family.joined clientFd).parentFds =
            (clientFd, family.next) :: family.parentFds ∧
          (family.joined clientFd).procs = family.procs ∧
            (family.joined clientFd).next = family.next + 1 ∧
              (family.joined clientFd).channels =
                Function.update family.channels family.next
                  ((family.channels family.next).move .opened) :=
  ⟨rfl, rfl, rfl, rfl, rfl, rfl⟩

@[simp]
theorem born_fields {child : Child} :
    (family.born child).server = family.server ∧
      (family.born child).clientFd = family.clientFd ∧
        (family.born child).parentFds = family.parentFds ∧
          (family.born child).procs =
              family.procs ++
                [⟨child, family.clientFd, family.parentFds, .closeListen,
                  true⟩] ∧
            (family.born child).next = family.next ∧
              (family.born child).channels = family.channels :=
  ⟨rfl, rfl, rfl, rfl, rfl, rfl⟩

theorem place_setChannel_of_ne
    {other : Nat} (different : other ≠ conn)
    (channel : Channel UInt8 UInt8) :
    ((family.setChannel conn channel).channels other).place =
      (family.channels other).place := by
  rw [channels_setChannel, Function.update_of_ne different]

theorem place_setChannel_self (channel : Channel UInt8 UInt8) :
    ((family.setChannel conn channel).channels conn).place =
      channel.place := by
  rw [channels_setChannel, Function.update_self]

theorem place_setChannel_of_same
    {channel : Channel UInt8 UInt8}
    (same : channel.place = (family.channels conn).place) (other : Nat) :
    ((family.setChannel conn channel).channels other).place =
      (family.channels other).place := by
  by_cases here : other = conn
  · subst here
    rw [place_setChannel_self, same]
  · exact place_setChannel_of_ne here channel

/-- A connection that stays where it is leaves the tables as they are. -/
theorem Valid.setChannel
    (valid : family.Valid) {channel : Channel UInt8 UInt8}
    (same : channel.place = (family.channels conn).place) :
    (family.setChannel conn channel).Valid where
  counted := valid.counted
  own := valid.own
  waiting := fun {other} above => by
    rw [place_setChannel_of_same same]
    exact valid.waiting above
  open_iff := fun other => by
    unfold IsOpen
    rw [place_setChannel_of_same same]
    exact valid.open_iff other

theorem Tables.withServer
    (tables : family.Tables)
    (same : server.mainAt = family.server.mainAt) :
    (family.withServer server).Tables where
  counted := by
    have counted := tables.counted
    unfold Counted at counted ⊢
    unfold Family.withServer
    simp only [same]
    exact counted
  own := tables.own
  waiting := tables.waiting

theorem Valid.withServer
    (valid : family.Valid)
    (same : server.mainAt = family.server.mainAt) :
    (family.withServer server).Valid where
  toTables := valid.toTables.withServer same
  open_iff := valid.open_iff

theorem Tables.setChild
    (tables : family.Tables) (isAt : family.procs[number]? = some proc)
    (own : new.fds = ownTable number new) :
    (family.setChild number new).Tables where
  counted := by
    have counted := tables.counted
    unfold Counted at counted ⊢
    unfold Family.setChild
    simp only [List.length_set]
    exact counted
  own := fun {other otherProc} isOther => by
    rcases at_set_cases isOther with ⟨rfl, rfl⟩ | ⟨_, isOther⟩
    · exact own
    · exact tables.own isOther
  waiting := tables.waiting

/-- The other connections do not notice what becomes of a child. -/
theorem holds_setChild_of_ne
    (tables : family.Tables) (isAt : family.procs[number]? = some proc)
    (own : new.fds = ownTable number new) {other : Nat}
    (different : other ≠ number) :
    (family.setChild number new).holds other = true ↔
      family.holds other = true := by
  rw [holds_iff (tables.setChild isAt own).own, holds_iff tables.own]
  unfold Family.setChild
  rw [List.getElem?_set_ne (Ne.symm different)]

theorem Valid.setChild
    (valid : family.Valid) (isAt : family.procs[number]? = some proc)
    (own : new.fds = ownTable number new) (keeps : Keeps new ↔ Keeps proc) :
    (family.setChild number new).Valid where
  toTables := valid.toTables.setChild isAt own
  open_iff := fun other => by
    refine (valid.open_iff other).trans ?_
    by_cases same : other = number
    · subst same
      rw [holds_iff (valid.toTables.setChild isAt own).own,
        holds_iff valid.own]
      unfold Family.setChild
      rw [at_set_self isAt, isAt]
      simp [keeps]
    · exact (holds_setChild_of_ne valid.toTables isAt own same).symm

/-- A child gives its client up. -/
theorem Valid.gaveUp_setChild
    (valid : family.Valid) (isAt : family.procs[number]? = some proc)
    (keeps : Keeps proc) (own : new.fds = ownTable number new) :
    (family.setChild number new).GaveUp number where
  toTables := valid.toTables.setChild isAt own
  isOpen := valid.isOpen_of_keeps isAt keeps
  others := fun other different =>
    (valid.open_iff other).trans
      (holds_setChild_of_ne valid.toTables isAt own different).symm

/-- Behind the release everything fits again. -/
theorem GaveUp.release (gaveUp : family.GaveUp conn) :
    (family.release conn).Valid := by
  unfold Family.release
  split
  · next held =>
      refine { toTables := gaveUp.toTables, open_iff := fun other => ?_ }
      by_cases same : other = conn
      · subst same
        exact iff_of_true gaveUp.isOpen held
      · exact gaveUp.others other same
  · next free =>
      have shut :
          ∀ {place : Place}, place ≠ .opened →
            (family.setChannel conn
              ((family.channels conn).move place)).Valid := by
        intro place closed
        refine
          { counted := gaveUp.counted
            own := gaveUp.own
            waiting := fun {other} above => ?_
            open_iff := fun other => ?_ }
        · have below := gaveUp.below
          rw [place_setChannel_of_ne]
          · exact gaveUp.waiting above
          · rintro rfl
            exact absurd below (Nat.not_lt.mpr above)
        · by_cases same : other = conn
          · subst same
            refine iff_of_false ?_ free
            unfold IsOpen
            rw [place_setChannel_self]
            exact closed
          · unfold IsOpen
            rw [place_setChannel_of_ne same]
            exact gaveUp.others other same
      apply shut
      split
      · exact nofun
      · exact nofun

end Family

end LinuxNet.MulProcess
