import LinuxNet.MulProcess.Family

/-!
# What the children do for their clients

The processes together refine the service that sends back what it receives.  A
connection ends for its client when the last descriptor for it is closed, which
is the parent's where the child is quicker.
-/

namespace LinuxNet.MulProcess

open LinuxNet.CString LinuxNet.EchoService LinuxNet.StepSystem
open LinuxNet.Threads

namespace Family

variable {listenFd : Nat} {family next : Family} {conn number : Nat}
variable {proc new : Proc} {server : Server}

/-! ## The family as a service -/

/-- What a child has in hand for its client; behind `close` it is still the
end of the stream, until nobody has the connection any more. -/
def handOf : Option Proc → Hand UInt8
  | none => .nothing
  | some proc =>
      match proc.childAt, proc.running with
      | .writes buf, true => .items buf
      | .writes _, false => .nothing
      | .closes, _ | .exits, _ => .theEnd
      | .closeListen, _ | .reads, _ => .nothing

def hands (family : Family) (conn : Nat) : Hand UInt8 :=
  if family.IsOpen conn then handOf family.procs[conn]? else .nothing

def view (family : Family) : Service UInt8 UInt8 :=
  .of family.channels family.hands

/-- What the release of a connection means to its client. -/
def lastAct (family : Family) (conn : Nat) : List (Nat × Act UInt8) :=
  if family.holds conn then
    []
  else
    [(conn, if family.sawEnd conn then .closes else .drops)]

def releaseActs (family : Family) : List Nat → List (Nat × Act UInt8)
  | [] => []
  | conn :: conns =>
      family.lastAct conn ++ (family.release conn).releaseActs conns

/-- What a child that dies has not written is lost. -/
def lostActs (number : Nat) (proc : Proc) : List (Nat × Act UInt8) :=
  match proc.childAt with
  | .writes _ => [(number, .writes 0)]
  | .closeListen | .reads | .closes | .exits => []

def childActs (family : Family) (number : Nat) (proc : Proc) :
    ChildCall → List (Nat × Act UInt8)
  | .read (.items count) => [(number, .reads count)]
  | .read .zero => [(number, .readsEnd)]
  | .write count => [(number, .writes count)]
  | .close =>
      (family.setChild number (childClosed proc)).releaseActs
        (proc.fds.lookup proc.clientFd).toList
  | .dies =>
      lostActs number proc ++
        (family.setChild number (childGone proc)).releaseActs
          (proc.fds.map Prod.snd)
  | .closeListen | .read .error => []

def acts (family : Family) : Label → List (Nat × Act UInt8)
  | .arrives conn bytes => [(conn, .arrives bytes)]
  | .finishes conn => [(conn, .finishes)]
  | .accept _ => [(family.next, .accepts)]
  | .fork _ => []
  | .close =>
      family.parentClosed.releaseActs
        (family.parentFds.lookup family.clientFd).toList
  | .parent event =>
      match family.server.step event with
      | some server =>
          if server.mainAt = .exited then
            family.parentGone.releaseActs (family.parentFds.map Prod.snd)
          else
            []
      | none => []
  | .child number call =>
      match family.procs[number]? with
      | some proc => family.childActs number proc call
      | none => []

/-- A `Write` of what was read to a client is taken whole, and no child dies
in front of one. -/
def TakesAll (family : Family) : Label → Prop
  | .child number (.write count) =>
      ∀ proc buf, family.procs[number]? = some proc →
        proc.childAt = .writes buf → buf.length ≤ count
  | .child number .dies =>
      ∀ proc buf, family.procs[number]? = some proc →
        proc.childAt = .writes buf → buf = []
  | _ => True

/-- A step of the family and the run of the service that it stands for. -/
structure Refines (family : Family) (label : Label) (next : Family) :
    Prop where
  valid : next.Valid
  ran :
    run (Service.step toupper) family.view (family.acts label) =
      some next.view
  takesAll_iff :
    family.TakesAll label ↔
      StepsMeet (Service.step toupper) Service.Complete family.view
        (family.acts label)

theorem hands_of_isOpen (isOpen : family.IsOpen conn) :
    family.hands conn = handOf family.procs[conn]? :=
  if_pos isOpen

theorem hands_of_not_isOpen (shut : ¬ family.IsOpen conn) :
    family.hands conn = .nothing :=
  if_neg shut

theorem hands_congr
    (place :
      (next.channels conn).place = (family.channels conn).place)
    (procs : next.procs[conn]? = family.procs[conn]?) :
    next.hands conn = family.hands conn := by
  unfold hands
  rw [procs]
  exact if_congr (by unfold IsOpen; rw [place]) rfl rfl

theorem hands_setChannel_of_ne
    {other : Nat} (different : other ≠ conn)
    (channel : Channel UInt8 UInt8) :
    (family.setChannel conn channel).hands other = family.hands other :=
  hands_congr (place_setChannel_of_ne different channel) rfl

theorem view_setChannel
    {channel : Channel UInt8 UInt8}
    (same : channel.place = (family.channels conn).place) :
    (family.setChannel conn channel).view =
      .of (Function.update family.channels conn channel) family.hands := by
  have hands : (family.setChannel conn channel).hands = family.hands :=
    funext fun other => hands_congr (place_setChannel_of_same same other) rfl
  unfold view
  rw [hands]
  rfl

/-- A connection that is shut has nothing in hand. -/
theorem view_shut
    {channel : Channel UInt8 UInt8} (shut : channel.place ≠ .opened) :
    (family.setChannel conn channel).view =
      .of (Function.update family.channels conn channel)
        (Function.update family.hands conn .nothing) := by
  unfold view
  congr 1
  funext other
  by_cases same : other = conn
  · subst same
    rw [Function.update_self]
    apply hands_of_not_isOpen
    unfold IsOpen
    rw [place_setChannel_self]
    exact shut
  · rw [Function.update_of_ne same, hands_setChannel_of_ne same]

theorem hands_setChild
    (isAt : family.procs[number]? = some proc)
    (isOpen : family.IsOpen number) (new : Proc) :
    (family.setChild number new).hands =
      Function.update family.hands number (handOf (some new)) := by
  funext other
  by_cases same : other = number
  · subst same
    rw [Function.update_self]
    have stays : (family.setChild other new).IsOpen other := isOpen
    rw [hands_of_isOpen stays]
    unfold Family.setChild
    rw [at_set_self isAt]
  · rw [Function.update_of_ne same]
    exact hands_congr rfl (List.getElem?_set_ne (Ne.symm same))

theorem view_setChild
    (isAt : family.procs[number]? = some proc)
    (isOpen : family.IsOpen number) (new : Proc) :
    (family.setChild number new).view =
      .of family.channels
        (Function.update family.hands number (handOf (some new))) := by
  unfold view
  rw [hands_setChild isAt isOpen]
  rfl

/-- A child that has the same in hand as before changes nothing for the
clients. -/
theorem view_setChild_of_same
    (isAt : family.procs[number]? = some proc)
    (same : handOf (some new) = handOf (some proc)) :
    (family.setChild number new).view = family.view := by
  unfold view
  congr 1
  funext other
  by_cases here : other = number
  · subst here
    unfold hands Family.setChild
    rw [at_set_self isAt, isAt, same]
    rfl
  · exact hands_congr rfl (List.getElem?_set_ne (Ne.symm here))

theorem view_setChild_setChannel
    (isAt : family.procs[number]? = some proc)
    (isOpen : family.IsOpen number) (new : Proc)
    {channel : Channel UInt8 UInt8}
    (same : channel.place = (family.channels number).place) :
    ((family.setChild number new).setChannel number channel).view =
      .of (Function.update family.channels number channel)
        (Function.update family.hands number (handOf (some new))) := by
  have stays :
      channel.place =
        ((family.setChild number new).channels number).place := same
  rw [view_setChannel stays, hands_setChild isAt isOpen]
  rfl

theorem sawEnd_iff_theEnd :
    family.sawEnd conn = true ↔ handOf family.procs[conn]? = .theEnd := by
  unfold sawEnd handOf
  cases family.procs[conn]? with
  | none => simp
  | some proc =>
      obtain ⟨pid, clientFd, fds, childAt, running⟩ := proc
      cases childAt with
      | writes buf => cases running <;> simp
      | _ => simp

/-- Nothing is in hand for a connection that nobody has. -/
theorem GaveUp.held_eq_nil
    (gaveUp : family.GaveUp conn) (free : ¬ family.holds conn = true) :
    (family.hands conn).held = [] := by
  rw [hands_of_isOpen gaveUp.isOpen]
  cases isAt : family.procs[conn]? with
  | none => rfl
  | some proc =>
      have gone : ¬ Keeps proc := fun keeps =>
        free ((holds_iff gaveUp.own conn).mpr (Or.inr ⟨proc, isAt, keeps⟩))
      obtain ⟨pid, clientFd, fds, childAt, running⟩ := proc
      cases childAt with
      | writes buf =>
          cases running with
          | true => exact absurd ⟨rfl, nofun⟩ gone
          | false => rfl
      | _ => rfl

theorem GaveUp.run_lastAct (gaveUp : family.GaveUp conn) :
    run (Service.step toupper) family.view (family.lastAct conn) =
      some (family.release conn).view := by
  unfold Family.release lastAct
  by_cases held : family.holds conn = true
  · rw [if_pos held, if_pos held]
    rfl
  · rw [if_neg held, if_neg held, run_singleton_eq_some_iff]
    by_cases ended : family.sawEnd conn = true
    · have hand : family.hands conn = .theEnd := by
        rw [hands_of_isOpen gaveUp.isOpen]
        exact sawEnd_iff_theEnd.mp ended
      rw [if_pos ended, if_pos ended, view_shut]
      · refine Service.step_of ?_
        rw [hand]
        rfl
      · exact nofun
    · rw [if_neg ended, if_neg ended, view_shut]
      · exact Service.step_of (Session.step_drops gaveUp.isOpen)
      · exact nofun

theorem GaveUp.complete_lastAct (gaveUp : family.GaveUp conn) :
    StepsMeet (Service.step toupper) Service.Complete family.view
      (family.lastAct conn) := by
  unfold lastAct
  by_cases held : family.holds conn = true
  · rw [if_pos held]
    trivial
  · rw [if_neg held, stepsMeet_singleton_iff]
    by_cases ended : family.sawEnd conn = true
    · rw [if_pos ended]
      trivial
    · rw [if_neg ended]
      exact gaveUp.held_eq_nil held

theorem releaseActs_singleton :
    family.releaseActs [conn] = family.lastAct conn :=
  List.append_nil _

/-! ## What the steps do to the service -/

/-- A step after which nobody has to look for a last descriptor. -/
theorem refines_of_release
    {label : Label} {middle : Family} (gaveUp : middle.GaveUp conn)
    (acts : List (Nat × Act UInt8))
    (isActs : family.acts label = acts ++ middle.lastAct conn)
    (ran : run (Service.step toupper) family.view acts = some middle.view)
    (takesAll :
      family.TakesAll label ↔
        StepsMeet (Service.step toupper) Service.Complete family.view
          acts) :
    Refines family label (middle.release conn) where
  valid := gaveUp.release
  ran := by
    rw [isActs, run_append_eq_some_iff]
    exact ⟨middle.view, ran, gaveUp.run_lastAct⟩
  takesAll_iff := by
    rw [isActs, stepsMeet_append_iff ran, takesAll]
    exact (and_iff_left gaveUp.complete_lastAct).symm

/-- A step that is one on a connection, of which nothing can be lost. -/
theorem refines_of_step
    {label : Label} {act : Act UInt8} (valid : next.Valid)
    (isActs : family.acts label = [(conn, act)])
    (stepped :
      Service.step toupper family.view (conn, act) = some next.view)
    (takesAll :
      family.TakesAll label ↔ family.view.Complete (conn, act)) :
    Refines family label next where
  valid := valid
  ran := by
    rw [isActs, run_singleton_eq_some_iff]
    exact stepped
  takesAll_iff := by
    rw [isActs, stepsMeet_singleton_iff]
    exact takesAll

/-- A step that no client notices. -/
theorem refines_of_same_view
    {label : Label} (valid : next.Valid)
    (isActs : family.acts label = []) (same : next.view = family.view)
    (takesAll : family.TakesAll label) : Refines family label next where
  valid := valid
  ran := by
    rw [isActs, same]
    rfl
  takesAll_iff := by
    rw [isActs]
    exact iff_of_true takesAll trivial

theorem Valid.arrives
    (valid : family.Valid) {bytes : List UInt8}
    (stepped :
      family.step listenFd (.arrives conn bytes) = some next) :
    Refines family (.arrives conn bytes) next := by
  obtain ⟨channel, arrived, rfl⟩ := Option.map_eq_some_iff.mp stepped
  have same : channel.place = (family.channels conn).place := by
    obtain ⟨_, isChannel⟩ := Option.ite_none_left_eq_some.mp arrived
    cases isChannel
    rfl
  refine refines_of_step (valid.setChannel same) rfl ?_
    (iff_of_true trivial trivial)
  rw [view_setChannel same]
  exact Service.step_of_same_hand (Session.step_arrives arrived)

theorem Valid.finishes (valid : family.Valid) (conn : Nat) :
    Refines family (.finishes conn)
      (family.setChannel conn (family.channels conn).finish) := by
  have same :
      (family.channels conn).finish.place = (family.channels conn).place :=
    rfl
  refine refines_of_step (valid.setChannel same) rfl ?_
    (iff_of_true trivial trivial)
  rw [view_setChannel same]
  exact Service.step_of_same_hand rfl

/-- What the calls that concern descriptors do to the parent. -/
theorem step_accept_client
    (stepped : family.server.step (.accept .client) = some server) :
    family.server.mainAt = .accept ∧ server.mainAt = .fork := by
  unfold Server.step at stepped
  obtain ⟨_, stepped⟩ := Option.ite_none_left_eq_some.mp stepped
  obtain ⟨runsMain, isNext⟩ := Option.ite_none_right_eq_some.mp stepped
  cases isNext
  exact ⟨runsMain.1, rfl⟩

theorem step_fork_some
    {child : Child}
    (stepped : family.server.step (.fork (some child)) = some server) :
    family.server.mainAt = .fork ∧ server.mainAt = .close := by
  unfold Server.step at stepped
  obtain ⟨_, stepped⟩ := Option.ite_none_left_eq_some.mp stepped
  obtain ⟨runsMain, forked⟩ := Option.ite_none_right_eq_some.mp stepped
  obtain ⟨_, isNext⟩ := Option.ite_none_left_eq_some.mp forked
  cases isNext
  exact ⟨runsMain.1, rfl⟩

theorem step_close
    (stepped : family.server.step .close = some server) :
    family.server.mainAt = .close ∧ server.mainAt = .accept := by
  unfold Server.step at stepped
  obtain ⟨_, stepped⟩ := Option.ite_none_left_eq_some.mp stepped
  obtain ⟨runsMain, isNext⟩ := Option.ite_none_right_eq_some.mp stepped
  cases isNext
  exact ⟨runsMain.1, rfl⟩

theorem step_childExits
    {child : Child}
    (stepped : family.server.step (.childExits child) = some server) :
    server.mainAt = family.server.mainAt := by
  unfold Server.step at stepped
  obtain ⟨_, stepped⟩ := Option.ite_none_left_eq_some.mp stepped
  obtain ⟨_, isNext⟩ := Option.ite_none_right_eq_some.mp stepped
  cases isNext
  rfl

theorem hear_mainAt
    {child : Child} (heard : family.hear child = some server) :
    server.mainAt = family.server.mainAt := by
  unfold hear at heard
  split at heard
  · cases heard
    rfl
  · exact step_childExits heard

/-- The parent at `accept` has no client's descriptor. -/
theorem Tables.counted_accept
    (tables : family.Tables) (isAt : family.server.mainAt = .accept) :
    family.parentFds = [] ∧ family.next = family.procs.length := by
  have counted := tables.counted
  unfold Counted at counted
  rw [isAt] at counted
  exact counted

theorem Tables.counted_fork
    (tables : family.Tables) (isAt : family.server.mainAt = .fork) :
    family.parentFds = [(family.clientFd, family.procs.length)] ∧
      family.next = family.procs.length + 1 := by
  have counted := tables.counted
  unfold Counted at counted
  rw [isAt] at counted
  exact counted

theorem Tables.counted_close
    (tables : family.Tables) (isAt : family.server.mainAt = .close) :
    ∃ number, family.parentFds = [(family.clientFd, number)] ∧
      number + 1 = family.procs.length ∧
        family.next = family.procs.length := by
  have counted := tables.counted
  unfold Counted at counted
  rw [isAt] at counted
  exact counted

theorem Tables.next_le (tables : family.Tables) :
    family.procs.length ≤ family.next := by
  have counted := tables.counted
  unfold Counted at counted
  split at counted
  · exact Nat.le_of_eq counted.2.symm
  · exact Nat.le_of_eq counted.2.symm
  · exact Nat.le_trans (Nat.le_succ _) (Nat.le_of_eq counted.2.symm)
  · obtain ⟨_, _, _, isNext⟩ := counted
    exact Nat.le_of_eq isNext.symm
  · exact counted.2

theorem Valid.accept
    (valid : family.Valid) {clientFd : Nat}
    (accepted : family.accept listenFd clientFd = some next) :
    Refines family (.accept clientFd) next := by
  unfold Family.accept at accepted
  obtain ⟨_, accepted⟩ := Option.ite_none_left_eq_some.mp accepted
  obtain ⟨server, stepped, rfl⟩ := Option.map_eq_some_iff.mp accepted
  obtain ⟨isAt, isNext⟩ := step_accept_client stepped
  obtain ⟨noFds, count⟩ := valid.counted_accept isAt
  have backlog := valid.waiting (Nat.le_refl family.next)
  have unknown : family.procs[family.next]? = none :=
    List.getElem?_eq_none (Nat.le_of_eq count.symm)
  refine refines_of_step ?_ rfl ?_ (iff_of_true trivial trivial)
  · have own :
        ∀ {number proc},
          ((family.withServer server).joined clientFd).procs[number]? =
              some proc →
            proc.fds = ownTable number proc := valid.own
    refine
      { counted := ?_
        own := own
        waiting := fun {other} above => ?_
        open_iff := fun other => ?_ }
    · unfold Counted
      simp [isNext, noFds, count]
    · have different : other ≠ family.next :=
        Nat.ne_of_gt (Nat.lt_of_succ_le above)
      simp only [joined_fields, withServer_fields,
        Function.update_of_ne different]
      exact valid.waiting (Nat.le_of_succ_le above)
    · rw [holds_iff own]
      unfold IsOpen
      simp only [joined_fields, withServer_fields]
      by_cases same : other = family.next
      · subst same
        rw [Function.update_self]
        exact iff_of_true rfl (Or.inl List.mem_cons_self)
      · rw [Function.update_of_ne same, List.map_cons, List.mem_cons,
          or_iff_right same]
        exact (valid.open_iff other).trans (holds_iff valid.own other)
  · have hands :
        ∀ other, ((family.withServer server).joined clientFd).hands other =
          family.hands other := by
      intro other
      by_cases same : other = family.next
      · subst same
        unfold Family.hands
        simp only [joined_fields, withServer_fields, unknown, handOf,
          ite_self]
      · apply hands_congr
        · simp only [joined_fields, withServer_fields,
            Function.update_of_ne same]
        · rfl
    unfold view
    rw [funext hands]
    exact Service.step_of_same_hand (Session.step_accepts backlog)

theorem Valid.fork
    (valid : family.Valid) {child : Child}
    (forked : family.fork child = some next) :
    Refines family (.fork child) next := by
  obtain ⟨server, stepped, rfl⟩ := Option.map_eq_some_iff.mp forked
  obtain ⟨isAt, isNext⟩ := step_fork_some stepped
  obtain ⟨fds, count⟩ := valid.counted_fork isAt
  have oldOrNew :
      ∀ {number proc},
        ((family.withServer server).born child).procs[number]? = some proc →
          family.procs[number]? = some proc ∨
            number = family.procs.length ∧
              proc = ⟨child, family.clientFd, family.parentFds, .closeListen,
                true⟩ := by
    intro number proc isAt
    rcases Nat.lt_or_ge number family.procs.length with old | new
    · simp only [born_fields, withServer_fields,
        List.getElem?_append_left old] at isAt
      exact Or.inl isAt
    · simp only [born_fields, withServer_fields,
        List.getElem?_append_right new, List.getElem?_singleton] at isAt
      obtain ⟨zero, isProc⟩ := Option.ite_none_right_eq_some.mp isAt
      cases isProc
      exact Or.inr ⟨by omega, rfl⟩
  have own :
      ∀ {number proc},
        ((family.withServer server).born child).procs[number]? = some proc →
          proc.fds = ownTable number proc := by
    intro number proc isAt
    rcases oldOrNew isAt with old | ⟨rfl, rfl⟩
    · exact valid.own old
    · rw [ownTable_of_keeps]
      · exact fds
      · exact ⟨rfl, fun impossible => by cases impossible⟩
  refine refines_of_same_view ?_ rfl ?_ trivial
  · refine
      { counted := ?_
        own := own
        waiting := valid.waiting
        open_iff := fun other => ?_ }
    · unfold Counted
      simp [isNext, fds, count]
    · rw [holds_iff own]
      refine ((valid.open_iff other).trans (holds_iff valid.own other)).trans ?_
      constructor
      · refine Or.imp_right ?_
        rintro ⟨proc, isAt, keeps⟩
        refine ⟨proc, ?_, keeps⟩
        simp only [born_fields, withServer_fields,
          List.getElem?_append_left (lt_length_of_at isAt)]
        exact isAt
      · rintro (inParent | ⟨proc, isAt, keeps⟩)
        · exact Or.inl inParent
        · rcases oldOrNew isAt with old | ⟨rfl, rfl⟩
          · exact Or.inr ⟨proc, old, keeps⟩
          · rw [fds]
            exact Or.inl List.mem_cons_self
  · unfold view
    congr 1
    funext other
    rcases Nat.lt_trichotomy other family.procs.length with
      old | rfl | beyond
    · apply hands_congr
      · rfl
      · simp only [born_fields, withServer_fields,
          List.getElem?_append_left old]
    · unfold hands
      simp only [born_fields, withServer_fields,
        List.getElem?_concat_length, List.getElem?_eq_none (Nat.le_refl _)]
      rw [show handOf none = .nothing from rfl, ite_self]
      exact ite_self _
    · apply hands_congr
      · rfl
      · simp only [born_fields, withServer_fields]
        rw [List.getElem?_eq_none (Nat.le_of_lt beyond),
          List.getElem?_eq_none (by rw [List.length_append]; exact beyond)]

@[simp]
theorem parentClosed_fields :
    family.parentClosed.server = family.server ∧
      family.parentClosed.clientFd = family.clientFd ∧
        family.parentClosed.parentFds =
            family.parentFds.close family.clientFd ∧
          family.parentClosed.procs = family.procs ∧
            family.parentClosed.next = family.next ∧
              family.parentClosed.channels = family.channels :=
  ⟨rfl, rfl, rfl, rfl, rfl, rfl⟩

@[simp]
theorem parentGone_fields :
    family.parentGone.server = family.server ∧
      family.parentGone.clientFd = family.clientFd ∧
        family.parentGone.parentFds = [] ∧
          family.parentGone.procs = family.procs ∧
            family.parentGone.next = family.next ∧
              family.parentGone.channels = family.channels :=
  ⟨rfl, rfl, rfl, rfl, rfl, rfl⟩

/-- The parent gives up its only descriptor. -/
theorem Valid.gaveUp_parent
    (valid : family.Valid) (tables : next.Tables) {fd : Nat}
    (fds : family.parentFds = [(fd, conn)]) (noFds : next.parentFds = [])
    (procs : next.procs = family.procs)
    (channels : next.channels = family.channels) : next.GaveUp conn where
  toTables := tables
  isOpen := by
    have isOpen : family.IsOpen conn := by
      rw [valid.open_iff, holds_iff valid.own, fds]
      exact Or.inl List.mem_cons_self
    unfold IsOpen at isOpen ⊢
    rw [channels]
    exact isOpen
  others := fun other different => by
    have before :=
      (valid.open_iff other).trans (holds_iff valid.own other)
    rw [fds] at before
    rw [holds_iff tables.own, noFds, procs]
    unfold IsOpen at before ⊢
    rw [channels, before]
    simp [different]

theorem closeTable_self (fd : Nat) (conn : Nat) :
    Table.close [(fd, conn)] fd = [] := by
  simp [Table.close]

theorem Valid.close
    (valid : family.Valid) (closed : family.close = some next) :
    Refines family .close next := by
  obtain ⟨server, stepped, rfl⟩ := Option.map_eq_some_iff.mp closed
  obtain ⟨isAt, isNext⟩ := step_close stepped
  obtain ⟨conn, fds, count, isCount⟩ := valid.counted_close isAt
  have found : (family.parentFds.lookup family.clientFd).toList = [conn] := by
    rw [fds]
    simp
  have noFds : family.parentFds.close family.clientFd = [] := by
    rw [fds]
    exact closeTable_self _ _
  have tables : (family.withServer server).parentClosed.Tables := by
    refine
      { counted := ?_
        own := valid.own
        waiting := valid.waiting }
    unfold Counted
    simp [isNext, noFds, isCount]
  rw [found]
  refine
    refines_of_release (valid.gaveUp_parent tables fds noFds rfl rfl) [] ?_
      rfl (iff_of_true trivial trivial)
  unfold acts
  rw [found]
  exact releaseActs_singleton

/-- The parent stays where it is, exits, or comes to `accept`. -/
theorem step_quiet
    {event : Event} (isQuiet : quiet event = true)
    (stepped : family.server.step event = some server) :
    server.mainAt = family.server.mainAt ∨ server.mainAt = .exited ∨
      family.server.mainAt = .sigaction ∧ server.mainAt = .accept := by
  unfold Server.step at stepped
  obtain ⟨_, stepped⟩ := Option.ite_none_left_eq_some.mp stepped
  cases event with
  | sigaction succeeds =>
      obtain ⟨runsMain, isNext⟩ := Option.ite_none_right_eq_some.mp stepped
      cases isNext
      cases succeeds with
      | true => exact Or.inr (Or.inr ⟨runsMain.1, rfl⟩)
      | false => exact Or.inr (Or.inl rfl)
  | accept accepted =>
      obtain ⟨_, isNext⟩ := Option.ite_none_right_eq_some.mp stepped
      cases isNext
      cases accepted with
      | client => cases isQuiet
      | interrupted => exact Or.inl rfl
      | fails => exact Or.inr (Or.inl rfl)
  | fork child =>
      obtain ⟨_, forked⟩ := Option.ite_none_right_eq_some.mp stepped
      cases child with
      | some child => cases isQuiet
      | none =>
          cases forked
          exact Or.inr (Or.inl rfl)
  | close => cases isQuiet
  | childExits child => cases isQuiet
  | childStops =>
      obtain ⟨_, isNext⟩ := Option.ite_none_left_eq_some.mp stepped
      cases isNext
      exact Or.inl rfl
  | deliver =>
      obtain ⟨_, isNext⟩ := Option.ite_none_right_eq_some.mp stepped
      cases isNext
      exact Or.inl rfl
  | waitpid child =>
      obtain ⟨_, turned⟩ := Option.ite_none_right_eq_some.mp stepped
      rcases Server.catchChild_cases turned with ⟨_, _, rfl⟩ | ⟨_, rfl⟩
      · exact Or.inl rfl
      · exact Or.inl rfl
  | handlerReturns =>
      obtain ⟨_, isNext⟩ := Option.ite_none_right_eq_some.mp stepped
      cases isNext
      exact Or.inl rfl

/-- The parent has at most one descriptor when it exits. -/
theorem Tables.parentFds_cases
    (tables : family.Tables) :
    family.parentFds = [] ∨
      ∃ number, family.parentFds = [(family.clientFd, number)] := by
  have counted := tables.counted
  unfold Counted at counted
  split at counted
  · exact Or.inl counted.1
  · exact Or.inl counted.1
  · exact Or.inr ⟨_, counted.1⟩
  · obtain ⟨number, fds, _⟩ := counted
    exact Or.inr ⟨number, fds⟩
  · exact Or.inl counted.1

theorem Tables.parentGone
    (tables : family.Tables) (exited : server.mainAt = .exited) :
    (family.withServer server).parentGone.Tables where
  counted := by
    unfold Counted
    simp only [parentGone_fields, server_withServer, withServer_fields,
      exited, true_and]
    exact tables.next_le
  own := tables.own
  waiting := tables.waiting

/-- The parent, as it exits, is the last to have a connection at most that it
has just accepted. -/
theorem Valid.parentGone
    (valid : family.Valid) {event : Event}
    (stepped : family.server.step event = some server)
    (exited : server.mainAt = .exited) :
    Refines family (.parent event)
      ((family.withServer server).parentGone.releaseAll
        (family.parentFds.map Prod.snd)) := by
  have tables := valid.toTables.parentGone exited
  have isActs :
      family.acts (.parent event) =
        family.parentGone.releaseActs (family.parentFds.map Prod.snd) := by
    simp only [acts, stepped]
    exact if_pos exited
  rcases valid.parentFds_cases with noFds | ⟨conn, fds⟩
  · have gone : (family.withServer server).parentGone.Valid := by
      refine { toTables := tables, open_iff := fun other => ?_ }
      refine (valid.open_iff other).trans ?_
      rw [holds_iff valid.own, holds_iff tables.own]
      simp [noFds]
    rw [noFds] at isActs ⊢
    exact refines_of_same_view gone isActs rfl trivial
  · rw [fds] at isActs ⊢
    refine
      refines_of_release (valid.gaveUp_parent tables fds rfl rfl rfl) [] ?_
        rfl (iff_of_true trivial trivial)
    rw [isActs]
    exact releaseActs_singleton

theorem Valid.parent
    (valid : family.Valid) {event : Event}
    (happened : family.parent event = some next) :
    Refines family (.parent event) next := by
  obtain ⟨isQuiet, happened⟩ := Option.ite_none_right_eq_some.mp happened
  obtain ⟨server, stepped, isNext⟩ := Option.map_eq_some_iff.mp happened
  by_cases exited : server.mainAt = .exited
  · rw [if_pos exited] at isNext
    cases isNext
    exact valid.parentGone stepped exited
  · rw [if_neg exited] at isNext
    cases isNext
    have isActs : family.acts (.parent event) = [] := by
      simp only [acts, stepped]
      exact if_neg exited
    refine refines_of_same_view ?_ isActs rfl trivial
    rcases step_quiet isQuiet stepped with same | gone | ⟨before, after⟩
    · exact valid.withServer same
    · exact absurd gone exited
    · refine
        { counted := ?_
          own := valid.own
          waiting := valid.waiting
          open_iff := valid.open_iff }
      have counted := valid.counted
      unfold Counted at counted ⊢
      rw [before] at counted
      simp only [server_withServer, withServer_fields, after]
      exact counted

theorem acts_child
    (isAt : family.procs[number]? = some proc) (call : ChildCall) :
    family.acts (.child number call) = family.childActs number proc call := by
  simp only [acts, isAt]

/-- A child that has its client still goes on. -/
theorem Valid.goesOn
    (valid : family.Valid) (isAt : family.procs[number]? = some proc)
    (keeps : Keeps proc) (childAt : ChildAt) (stays : childAt ≠ .exits) :
    (family.setChild number { proc with childAt := childAt }).Valid := by
  have keepsNew : Keeps { proc with childAt := childAt } :=
    ⟨keeps.1, stays⟩
  refine valid.setChild isAt ?_ (iff_of_true keepsNew keeps)
  rw [ownTable_of_keeps keepsNew]
  exact (valid.own isAt).trans (ownTable_of_keeps keeps)

theorem Valid.fds_of_keeps
    (valid : family.Valid) (isAt : family.procs[number]? = some proc)
    (keeps : Keeps proc) : proc.fds = [(proc.clientFd, number)] :=
  (valid.own isAt).trans (ownTable_of_keeps keeps)

theorem Valid.lookup_of_keeps
    (valid : family.Valid) (isAt : family.procs[number]? = some proc)
    (keeps : Keeps proc) :
    proc.fds.lookup proc.clientFd = some number := by
  rw [valid.fds_of_keeps isAt keeps]
  simp

theorem Valid.childCloseListen
    (valid : family.Valid) (isAt : family.procs[number]? = some proc)
    (keeps : Keeps proc) (atCall : proc.childAt = .closeListen) :
    Refines family (.child number .closeListen)
      (family.setChild number { proc with childAt := .reads }) := by
  refine
    refines_of_same_view (valid.goesOn isAt keeps .reads nofun)
      (acts_child isAt .closeListen) ?_ trivial
  apply view_setChild_of_same isAt
  simp only [handOf, atCall]

theorem Valid.childRead
    (valid : family.Valid) (isAt : family.procs[number]? = some proc)
    (keeps : Keeps proc) (atCall : proc.childAt = .reads)
    {returned : ReadReturn}
    (called : family.read number proc returned = some next) :
    Refines family (.child number (.read returned)) next := by
  have isOpen := valid.isOpen_of_keeps isAt keeps
  have free : family.hands number = .nothing := by
    rw [hands_of_isOpen isOpen, isAt]
    simp only [handOf, atCall]
  unfold Family.read at called
  rw [valid.lookup_of_keeps isAt keeps, Option.bind_some] at called
  cases returned with
  | items count =>
      obtain ⟨⟨_, readable⟩, isNext⟩ :=
        Option.ite_none_right_eq_some.mp called
      cases isNext
      have same :
          ((family.channels number).take count).place =
            (family.channels number).place := rfl
      have goesOn :=
        valid.goesOn isAt keeps
          (.writes ((family.channels number).incoming.take count)) nofun
      refine
        refines_of_step (goesOn.setChannel same)
          (acts_child isAt (.read (.items count))) ?_
          (iff_of_true trivial trivial)
      rw [view_setChild_setChannel isAt isOpen _ same]
      refine Service.step_of ?_
      rw [free]
      refine (Session.step_reads isOpen readable).trans ?_
      simp only [handOf, keeps.1]
  | zero =>
      obtain ⟨atEnd, isNext⟩ := Option.ite_none_right_eq_some.mp called
      cases isNext
      refine
        refines_of_step (valid.goesOn isAt keeps .closes nofun)
          (acts_child isAt (.read .zero)) ?_ (iff_of_true trivial trivial)
      rw [view_setChild isAt isOpen]
      have stepped :
          Session.step toupper
              ⟨family.channels number, family.hands number⟩ .readsEnd =
            some ⟨family.channels number, .theEnd⟩ := by
        rw [free]
        exact Session.step_readsEnd isOpen atEnd
      have moved := Service.step_of stepped
      rw [Function.update_eq_self] at moved
      exact moved
  | error =>
      cases called
      exact
        refines_of_same_view valid (acts_child isAt (.read .error)) rfl
          trivial

theorem Valid.childWrite
    (valid : family.Valid) (isAt : family.procs[number]? = some proc)
    (keeps : Keeps proc) {buf : List UInt8}
    (atCall : proc.childAt = .writes buf) (count : Nat) :
    Refines family (.child number (.write count))
      ((family.setChild number { proc with childAt := .reads }).setChannel
        number
        ((family.channels number).put
          ((buf.map toupper).take count))) := by
  have isOpen := valid.isOpen_of_keeps isAt keeps
  have inHand : family.hands number = .items buf := by
    rw [hands_of_isOpen isOpen, isAt]
    simp only [handOf, atCall, keeps.1]
  have same :
      ((family.channels number).put
        ((buf.map toupper).take count)).place =
          (family.channels number).place := rfl
  refine
    refines_of_step ((valid.goesOn isAt keeps .reads nofun).setChannel same)
      (acts_child isAt (.write count)) ?_ ?_
  · rw [view_setChild_setChannel isAt isOpen _ same]
    refine Service.step_of ?_
    rw [inHand]
    rfl
  · unfold TakesAll Service.Complete Session.Complete view Service.of
    simp only [inHand, Hand.held]
    constructor
    · exact fun takesAll => takesAll proc buf isAt atCall
    · intro whole other otherBuf isOther otherAt
      rw [isAt] at isOther
      cases isOther
      rw [atCall] at otherAt
      cases otherAt
      exact whole

theorem Valid.childClose
    (valid : family.Valid) (isAt : family.procs[number]? = some proc)
    (keeps : Keeps proc) (atCall : proc.childAt = .closes) :
    Refines family (.child number .close)
      ((family.setChild number (childClosed proc)).releaseAll
        (proc.fds.lookup proc.clientFd).toList) := by
  have own : (childClosed proc).fds = ownTable number (childClosed proc) := by
    rw [ownTable_of_not_keeps fun keepsNew => keepsNew.2 rfl]
    unfold childClosed
    rw [valid.fds_of_keeps isAt keeps]
    exact closeTable_self _ _
  have same : handOf (some (childClosed proc)) = handOf (some proc) := by
    simp only [handOf, childClosed, atCall]
  rw [valid.lookup_of_keeps isAt keeps]
  refine
    refines_of_release (valid.gaveUp_setChild isAt keeps own) [] ?_ ?_
      (iff_of_true trivial trivial)
  · rw [acts_child isAt, childActs, valid.lookup_of_keeps isAt keeps]
    exact releaseActs_singleton
  · rw [view_setChild_of_same isAt same]
    rfl

/-- What a child loses as it dies. -/
theorem Valid.run_lostActs
    (valid : family.Valid) (isAt : family.procs[number]? = some proc)
    (keeps : Keeps proc) :
    run (Service.step toupper) family.view (lostActs number proc) =
        some (family.setChild number (childGone proc)).view ∧
      (family.TakesAll (.child number .dies) ↔
        StepsMeet (Service.step toupper) Service.Complete family.view
          (lostActs number proc)) := by
  have isOpen := valid.isOpen_of_keeps isAt keeps
  have isHand : family.hands number = handOf (some proc) := by
    rw [hands_of_isOpen isOpen, isAt]
  have quiet :
      lostActs number proc = [] →
        handOf (some (childGone proc)) = handOf (some proc) →
          (∀ buf, proc.childAt ≠ .writes buf) →
            run (Service.step toupper) family.view (lostActs number proc) =
                some (family.setChild number (childGone proc)).view ∧
              (family.TakesAll (.child number .dies) ↔
                StepsMeet (Service.step toupper) Service.Complete family.view
                  (lostActs number proc)) := by
    intro nothing same noBuf
    rw [nothing, view_setChild_of_same isAt same]
    refine ⟨rfl, iff_of_true ?_ trivial⟩
    intro other buf isOther atCall
    rw [isAt] at isOther
    cases isOther
    exact absurd atCall (noBuf buf)
  cases atCall : proc.childAt with
  | writes buf =>
      have inHand : family.hands number = .items buf := by
        rw [isHand]
        simp only [handOf, atCall, keeps.1]
      have lost : lostActs number proc = [(number, .writes 0)] := by
        simp only [lostActs, atCall]
      rw [lost, run_singleton_eq_some_iff, stepsMeet_singleton_iff]
      constructor
      · have stepped :
            Session.step toupper
                ⟨family.channels number, family.hands number⟩ (.writes 0) =
              some ⟨family.channels number, .nothing⟩ := by
          rw [inHand]
          simp only [Session.step, Channel.put, List.take_zero,
            List.append_nil]
        have moved := Service.step_of stepped
        rw [Function.update_eq_self] at moved
        rw [view_setChild isAt isOpen]
        simp only [handOf, childGone, atCall]
        exact moved
      · unfold TakesAll Service.Complete Session.Complete view Service.of
        simp only [inHand, Hand.held, Nat.le_zero_eq,
          List.length_eq_zero_iff]
        constructor
        · exact fun takesAll => takesAll proc buf isAt atCall
        · intro whole other otherBuf isOther otherAt
          rw [isAt] at isOther
          cases isOther
          rw [atCall] at otherAt
          cases otherAt
          exact whole
  | exits => exact absurd atCall keeps.2
  | _ =>
      apply quiet
      · simp only [lostActs, atCall]
      · simp only [handOf, childGone, atCall]
      · rw [atCall]
        intro buf impossible
        cases impossible

theorem Valid.childDies
    (valid : family.Valid) (isAt : family.procs[number]? = some proc)
    (running : proc.running = true)
    (heard : family.hear proc.pid = some server) :
    Refines family (.child number .dies)
      (((family.withServer server).setChild number
        (childGone proc)).releaseAll (proc.fds.map Prod.snd)) := by
  have withServer := valid.withServer (hear_mainAt heard)
  have gone : ¬ Keeps (childGone proc) := fun keeps => nomatch keeps.1
  have own : (childGone proc).fds = ownTable number (childGone proc) :=
    (ownTable_of_not_keeps gone).symm
  by_cases keeps : Keeps proc
  · obtain ⟨ran, takesAll⟩ := valid.run_lostActs isAt keeps
    rw [valid.fds_of_keeps isAt keeps]
    refine
      refines_of_release (withServer.gaveUp_setChild isAt keeps own)
        (lostActs number proc) ?_ ran takesAll
    rw [acts_child isAt, childActs, valid.fds_of_keeps isAt keeps]
    exact congrArg _ releaseActs_singleton
  · have atExit : proc.childAt = .exits := by
      by_contra elsewhere
      exact keeps ⟨running, elsewhere⟩
    have noFds : proc.fds = [] :=
      (valid.own isAt).trans (ownTable_of_not_keeps keeps)
    have same : handOf (some (childGone proc)) = handOf (some proc) := by
      simp only [handOf, childGone, atExit]
    have nothing : lostActs number proc = [] := by
      simp only [lostActs, atExit]
    rw [noFds]
    refine
      refines_of_same_view
        (withServer.setChild isAt own (iff_of_false gone keeps)) ?_ ?_ ?_
    · rw [acts_child isAt, childActs, noFds, nothing]
      rfl
    · exact view_setChild_of_same isAt same
    · intro other buf isOther atCall
      rw [isAt] at isOther
      cases isOther
      rw [atExit] at atCall
      cases atCall

theorem Valid.child
    (valid : family.Valid) (isAt : family.procs[number]? = some proc)
    (running : proc.running = true) {call : ChildCall}
    (called : family.child number proc call = some next) :
    Refines family (.child number call) next := by
  have keeps_of :
      ∀ {childAt}, proc.childAt = childAt → childAt ≠ .exits →
        Keeps proc := fun atCall elsewhere =>
    ⟨running, by rw [atCall]; exact elsewhere⟩
  cases call with
  | closeListen =>
      obtain ⟨atCall, isNext⟩ := Option.ite_none_right_eq_some.mp called
      cases isNext
      exact valid.childCloseListen isAt (keeps_of atCall nofun) atCall
  | read returned =>
      obtain ⟨atCall, isRead⟩ := Option.ite_none_right_eq_some.mp called
      exact valid.childRead isAt (keeps_of atCall nofun) atCall isRead
  | write count =>
      simp only [Family.child] at called
      split at called
      · next buf atCall =>
          have keeps := keeps_of atCall nofun
          rw [valid.lookup_of_keeps isAt keeps] at called
          cases called
          exact valid.childWrite isAt keeps atCall count
      all_goals cases called
  | close =>
      obtain ⟨atCall, isNext⟩ := Option.ite_none_right_eq_some.mp called
      cases isNext
      exact valid.childClose isAt (keeps_of atCall nofun) atCall
  | dies =>
      obtain ⟨server, heard, rfl⟩ := Option.map_eq_some_iff.mp called
      exact valid.childDies isAt running heard

theorem Valid.refines
    (valid : family.Valid) {label : Label}
    (stepped : family.step listenFd label = some next) :
    Refines family label next := by
  cases label with
  | arrives conn bytes => exact valid.arrives stepped
  | finishes conn =>
      cases stepped
      exact valid.finishes conn
  | accept clientFd => exact valid.accept stepped
  | fork child => exact valid.fork stepped
  | close => exact valid.close stepped
  | parent event => exact valid.parent stepped
  | child number call =>
      simp only [step] at stepped
      split at stepped
      · next proc isAt =>
          obtain ⟨running, called⟩ :=
            Option.ite_none_right_eq_some.mp stepped
          exact valid.child isAt running called
      · cases stepped

theorem valid_start : start.Valid where
  counted := ⟨rfl, rfl⟩
  own := nofun
  waiting := fun _ => rfl
  open_iff := fun _ => iff_of_false nofun nofun

/-- The family refines the service that sends everything back in capital
letters. -/
def simulation (listenFd : Nat) :
    Simulation (step listenFd) (Service.step toupper) where
  view := view
  acts := acts
  Valid := Valid
  valid_step := fun valid stepped => (valid.refines stepped).valid
  run_acts := fun valid stepped => (valid.refines stepped).ran

theorem valid_of_run
    {labels : List Label} {last : Family}
    (ran : run (step listenFd) start labels = some last) : last.Valid :=
  (simulation listenFd).valid_run valid_start ran

/-- Whatever the children and the parent do, a child has no client's descriptor
but the one of its own, and the parent has none while it waits in `accept`;
then a connection is open exactly as long as its child lives and has not closed
it. -/
theorem each_child_has_its_own_client
    {labels : List Label} {last : Family}
    (ran : run (step listenFd) start labels = some last) :
    (∀ (number : Nat) (proc : Proc), last.procs[number]? = some proc →
        proc.fds =
          if proc.running = true ∧ proc.childAt ≠ .exits then
            [(proc.clientFd, number)]
          else
            []) ∧
      (last.server.mainAt = .accept →
        last.parentFds = [] ∧
          ∀ conn, (last.channels conn).place = .opened ↔
            ∃ proc, last.procs[conn]? = some proc ∧
              proc.running = true ∧ proc.childAt ≠ .exits) := by
  have valid := valid_of_run ran
  refine ⟨fun number proc isAt => valid.own isAt, fun isAt => ?_⟩
  have noFds := (valid.counted_accept isAt).1
  refine ⟨noFds, fun conn => ?_⟩
  refine ((valid.open_iff conn).trans (holds_iff valid.own conn)).trans ?_
  rw [noFds]
  simp [Keeps]

/-- The second client gets the number that the parent has just closed, while
the first child works; the first client resets its connection behind the
answer. -/
def reusedNumber : List Label :=
  [.parent (.sigaction true), .accept 4, .fork ⟨7, Nat.succ_pos 6⟩,
    .arrives 0 [104, 105], .child 0 .closeListen,
    .child 0 (.read (.items 2)), .close, .accept 4, .fork ⟨8, Nat.succ_pos 7⟩,
    .close, .child 0 (.write 2), .child 0 (.read .error), .finishes 0,
    .child 0 (.read .zero), .child 0 .close]

theorem each_child_has_its_own_client_reused :
    ∃ last,
      run (step 3) start reusedNumber = some last ∧
        (∀ (number : Nat) (proc : Proc), last.procs[number]? = some proc →
          proc.fds =
            if proc.running = true ∧ proc.childAt ≠ .exits then
              [(proc.clientFd, number)]
            else
              []) ∧
        (last.server.mainAt = .accept →
          last.parentFds = [] ∧
            ∀ conn, (last.channels conn).place = .opened ↔
              ∃ proc, last.procs[conn]? = some proc ∧
                proc.running = true ∧ proc.childAt ≠ .exits) :=
  ⟨_, rfl, @each_child_has_its_own_client 3 reusedNumber _ rfl⟩

/-- Whatever the interleaving of the processes, the clients get back what they
have sent, in capital letters and in order: at any time everything that was
read from them but what is in a child's buffer, if and only if every `Write`
so far of bytes that were read was taken whole and no child died with
something in its buffer; then a client whose connection was closed by its
child has ended its stream and has got back all of it. -/
theorem echoed_by_children_iff
    {labels : List Label} {last : Family}
    (ran : run (step listenFd) start labels = some last) :
    ((∀ conn, (last.view conn).Exact toupper) ↔
        StepsMeet (step listenFd) TakesAll start labels) ∧
      (StepsMeet (step listenFd) TakesAll start labels →
        ∀ conn, (last.channels conn).place = .closed →
          (last.channels conn).ended = true ∧
            (last.channels conn).returned =
              (last.channels conn).sent.map toupper) :=
  served_iff (simulation listenFd)
    (fun valid stepped => (valid.refines stepped).takesAll_iff) valid_start
    (by funext conn; rfl) ran

theorem echoed_by_children_iff_reused :
    ∃ last,
      run (step 3) start reusedNumber = some last ∧
        ((∀ conn, (last.view conn).Exact toupper) ↔
          StepsMeet (step 3) TakesAll start reusedNumber) ∧
        (StepsMeet (step 3) TakesAll start reusedNumber →
          ∀ conn, (last.channels conn).place = .closed →
            (last.channels conn).ended = true ∧
              (last.channels conn).returned =
                (last.channels conn).sent.map toupper) :=
  ⟨_, rfl, @echoed_by_children_iff 3 reusedNumber _ rfl⟩

example :
    (run (step 3) start reusedNumber).map (fun last =>
      ((last.channels 0).returned, (last.channels 0).place)) =
        some ([72, 73], .closed) :=
  rfl

end Family

end LinuxNet.MulProcess
