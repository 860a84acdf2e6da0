import LinuxNet.Lib.Sockets

/-!
# A service that works in rounds

A process that goes through its connections deals with each of them in one go:
it sends back what it reads, closes the connection at the end of the stream,
gives it up, or passes it by.
-/

namespace LinuxNet.EchoService

open LinuxNet.StepSystem

variable {α β : Type}

inductive Dealing (α : Type) where
  /-- What is read, and how much of the answer is taken. -/
  | sendsBack (items : List α) (taken : Nat)
  | parts
  | drops
  | passes
  deriving DecidableEq, Repr

namespace Dealing

def Leaves : Dealing α → Prop
  | parts | drops => True
  | sendsBack _ _ | passes => False

instance : DecidablePred (Leaves : Dealing α → Prop)
  | parts | drops => .isTrue trivial
  | sendsBack _ _ | passes => .isFalse id

def Whole : Dealing α → Prop
  | sendsBack items taken => items.length ≤ taken
  | parts | drops | passes => True

end Dealing

namespace Sockets

variable [DecidableEq α]

def deal
    (convert : α → β) (sockets : Sockets α β) (fd : Nat) :
    Dealing α → Option (Sockets α β)
  | .sendsBack items taken =>
      (sockets.read fd items.length).bind fun read =>
        if read.1 = items then
          some (read.2.write fd ((items.map convert).take taken))
        else
          .none
  | .parts => if sockets.AtEnd fd then sockets.close fd else .none
  | .drops => sockets.drop fd
  | .passes => some sockets

def dealAll (convert : α → β) :
    Sockets α β → List (Nat × Dealing α) → Option (Sockets α β)
  | sockets, [] => some sockets
  | sockets, (fd, dealing) :: later =>
      (sockets.deal convert fd dealing).bind fun sockets =>
        dealAll convert sockets later

/-- What a dealing is to the service. -/
def dealActs
    (sockets : Sockets α β) (fd : Nat) : Dealing α → List (Nat × Act α)
  | .sendsBack items taken =>
      sockets.onPeer fd (.reads items.length) ++
        sockets.onPeer fd (.writes taken)
  | .parts => sockets.onPeer fd .readsEnd ++ sockets.onPeer fd .closes
  | .drops => sockets.onPeer fd .drops
  | .passes => []

def dealAllActs (convert : α → β) :
    Sockets α β → List (Nat × Dealing α) → List (Nat × Act α)
  | _, [] => []
  | sockets, (fd, dealing) :: later =>
      sockets.dealActs fd dealing ++
        match sockets.deal convert fd dealing with
        | .none => []
        | some sockets => dealAllActs convert sockets later

variable {convert : α → β} {sockets later : Sockets α β} {fd : Nat}
variable {dealing : Dealing α} {dealings : List (Nat × Dealing α)}

omit [DecidableEq α] in
theorem onPeer_congr
    (same : later.peerOf = sockets.peerOf) (fd : Nat) (act : Act α) :
    later.onPeer fd act = sockets.onPeer fd act := by
  unfold onPeer
  rw [same]

inductive Dealt (convert : α → β) (sockets : Sockets α β) (fd : Nat) :
    Dealing α → Sockets α β → Prop
  | sentBack {items : List α} {taken : Nat} {read : Sockets α β}
      {conn : Nat} (isPeer : sockets.peerOf fd = some conn)
      (isRead : sockets.read fd items.length = some (items, read)) :
      Dealt convert sockets fd (.sendsBack items taken)
        (read.write fd ((items.map convert).take taken))
  | parted {conn : Nat} (isPeer : sockets.peerOf fd = some conn)
      (atEnd : sockets.AtEnd fd) :
      Dealt convert sockets fd .parts (sockets.parted fd conn)
  | dropped {conn : Nat} (isPeer : sockets.peerOf fd = some conn) :
      Dealt convert sockets fd .drops (sockets.vacated fd conn .dropped)
  | passed : Dealt convert sockets fd .passes sockets

theorem dealt_deal (isDealt : sockets.deal convert fd dealing = some later) :
    Dealt convert sockets fd dealing later := by
  cases dealing with
  | sendsBack items taken =>
      obtain ⟨⟨read, sockets'⟩, isRead, isDealt⟩ :=
        Option.bind_eq_some_iff.mp isDealt
      obtain ⟨same, isLater⟩ := Option.ite_none_right_eq_some.mp isDealt
      cases isLater
      have same : read = items := same
      subst same
      obtain ⟨conn, isPeer, _⟩ := read_eq_some isRead
      exact .sentBack isPeer isRead
  | parts =>
      obtain ⟨atEnd, isDealt⟩ := Option.ite_none_right_eq_some.mp isDealt
      obtain ⟨conn, isPeer, rfl⟩ := Option.map_eq_some_iff.mp isDealt
      exact .parted isPeer atEnd
  | drops =>
      obtain ⟨conn, isPeer, rfl⟩ := Option.map_eq_some_iff.mp isDealt
      exact .dropped isPeer
  | passes =>
      cases isDealt
      exact .passed

omit [DecidableEq α] in
theorem Dealt.coherent
    (dealt : Dealt convert sockets fd dealing later)
    (coherent : sockets.Coherent) : later.Coherent := by
  cases dealt with
  | sentBack isPeer isRead =>
      exact ((coherent.read isRead).coherent.write _ _).coherent
  | parted isPeer atEnd => exact coherent.vacated isPeer nofun
  | dropped isPeer => exact coherent.vacated isPeer nofun
  | passed => exact coherent

omit [DecidableEq α] in
/-- The other connections stay open. -/
theorem Dealt.isOpen_iff
    (dealt : Dealt convert sockets fd dealing later)
    (coherent : sockets.Coherent) (other : Nat) :
    later.IsOpen other ↔
      sockets.IsOpen other ∧ ¬ (other = fd ∧ dealing.Leaves) := by
  cases dealt with
  | @sentBack items taken read conn isPeer isRead =>
      have kept := coherent.read isRead
      have same :=
        (kept.coherent.write fd ((items.map convert).take taken)).peerOf_eq
          |>.trans kept.peerOf_eq
      unfold IsOpen
      rw [same]
      exact (and_iff_left fun both => both.2).symm
  | parted isPeer atEnd =>
      rw [isOpen_parted, and_comm]
      exact and_congr_right fun _ => not_congr (and_iff_left trivial).symm
  | dropped isPeer =>
      rw [isOpen_vacated, and_comm]
      exact and_congr_right fun _ => not_congr (and_iff_left trivial).symm
  | passed => exact (and_iff_left fun both => both.2).symm

omit [DecidableEq α] in
/-- The service does the same. -/
theorem Dealt.run_acts
    (dealt : Dealt convert sockets fd dealing later)
    (coherent : sockets.Coherent) :
    run (Service.step convert) (sockets.service fun _ => .nothing)
        (sockets.dealActs fd dealing) =
      some (later.service fun _ => .nothing) := by
  cases dealt with
  | @sentBack items taken read conn isPeer isRead =>
      have kept := coherent.read isRead
      have readPeer : read.peerOf fd = some conn := by
        rw [kept.peerOf_eq]
        exact isPeer
      have onRead := onPeer_congr kept.peerOf_eq fd (.writes taken)
      rw [dealActs, run_append_eq_some_iff]
      refine ⟨_, service_read_first coherent isRead, ?_⟩
      rw [← onRead]
      exact service_write_last readPeer items taken
  | parted isPeer atEnd =>
      rw [dealActs, run_append_eq_some_iff]
      exact
        ⟨_, service_readEnd_first coherent atEnd, service_close_last isPeer⟩
  | dropped isPeer =>
      rw [dealActs, onPeer_of_peer isPeer, run_singleton_eq_some_iff,
        service_drop coherent isPeer]
      exact congrArg some (congrArg _ (Function.update_eq_self _ _))
  | passed => rfl

omit [DecidableEq α] in
/-- The acts are complete where the answer is taken whole. -/
theorem Dealt.whole_iff
    (dealt : Dealt convert sockets fd dealing later)
    (coherent : sockets.Coherent) :
    dealing.Whole ↔
      StepsMeet (Service.step convert) Service.Complete
        (sockets.service fun _ => .nothing)
        (sockets.dealActs fd dealing) := by
  cases dealt with
  | @sentBack items taken read conn isPeer isRead =>
      have kept := coherent.read isRead
      have readPeer : read.peerOf fd = some conn := by
        rw [kept.peerOf_eq]
        exact isPeer
      have onRead := onPeer_congr kept.peerOf_eq fd (.writes taken)
      rw [dealActs,
        stepsMeet_append_iff (service_read_first coherent isRead), ← onRead,
        stepsMeet_write_last_iff readPeer items taken]
      have lossless : Service.Lossless (.reads items.length : Act α) := trivial
      exact
        (and_iff_right (stepsMeet_onPeer_of_lossless lossless _)).symm
  | parted isPeer atEnd =>
      refine iff_of_true trivial ?_
      rw [dealActs,
        stepsMeet_append_iff (service_readEnd_first coherent atEnd)]
      have reading : Service.Lossless (.readsEnd : Act α) := trivial
      have closing : Service.Lossless (.closes : Act α) := trivial
      exact
        ⟨stepsMeet_onPeer_of_lossless reading _,
          stepsMeet_onPeer_of_lossless closing _⟩
  | dropped isPeer =>
      refine iff_of_true trivial ?_
      rw [dealActs, onPeer_of_peer isPeer, stepsMeet_singleton_iff]
      rfl
  | passed => exact iff_of_true trivial trivial

theorem dealAll_cons
    {rest : List (Nat × Dealing α)}
    (isDealt : sockets.dealAll convert ((fd, dealing) :: rest) = some later) :
    ∃ middle, sockets.deal convert fd dealing = some middle ∧
      middle.dealAll convert rest = some later :=
  Option.bind_eq_some_iff.mp isDealt

/-- A read that is sent back has returned something. -/
theorem ne_nil_of_dealAll
    {items : List α} {taken : Nat}
    (isDealt : sockets.dealAll convert dealings = some later)
    (member : (fd, .sendsBack items taken) ∈ dealings) : items ≠ [] := by
  induction dealings generalizing sockets with
  | nil => cases member
  | cons head rest inductionHypothesis =>
      obtain ⟨middle, first, others⟩ := dealAll_cons isDealt
      rcases List.mem_cons.mp member with rfl | inRest
      · cases dealt_deal first with
        | sentBack isPeer isRead =>
            obtain ⟨conn, _, readable, _⟩ := read_eq_some isRead
            exact List.length_pos_iff.mp readable.1
      · exact inductionHypothesis others inRest

theorem Coherent.dealAll
    (coherent : sockets.Coherent)
    (isDealt : sockets.dealAll convert dealings = some later) :
    later.Coherent := by
  induction dealings generalizing sockets with
  | nil =>
      cases isDealt
      exact coherent
  | cons head rest inductionHypothesis =>
      obtain ⟨middle, first, others⟩ := dealAll_cons isDealt
      exact
        inductionHypothesis ((dealt_deal first).coherent coherent) others

theorem isOpen_dealAll_iff
    (coherent : sockets.Coherent)
    (isDealt : sockets.dealAll convert dealings = some later)
    (other : Nat) :
    later.IsOpen other ↔
      sockets.IsOpen other ∧
        ¬ ∃ dealing, (other, dealing) ∈ dealings ∧ dealing.Leaves := by
  induction dealings generalizing sockets with
  | nil =>
      cases isDealt
      simp
  | cons head rest inductionHypothesis =>
      obtain ⟨fd, dealing⟩ := head
      obtain ⟨middle, first, others⟩ := dealAll_cons isDealt
      have dealt := dealt_deal first
      rw [inductionHypothesis (dealt.coherent coherent) others,
        dealt.isOpen_iff coherent, and_assoc]
      refine and_congr_right fun _ => ?_
      rw [← not_or]
      refine not_congr ?_
      constructor
      · rintro (⟨rfl, leaves⟩ | ⟨later, member, leaves⟩)
        · exact ⟨dealing, List.mem_cons_self, leaves⟩
        · exact ⟨later, List.mem_cons_of_mem _ member, leaves⟩
      · rintro ⟨later, member, leaves⟩
        rcases List.mem_cons.mp member with same | member
        · cases same
          exact .inl ⟨rfl, leaves⟩
        · exact .inr ⟨later, member, leaves⟩

theorem run_dealAllActs
    (coherent : sockets.Coherent)
    (isDealt : sockets.dealAll convert dealings = some later) :
    run (Service.step convert) (sockets.service fun _ => .nothing)
        (sockets.dealAllActs convert dealings) =
      some (later.service fun _ => .nothing) := by
  induction dealings generalizing sockets with
  | nil =>
      cases isDealt
      rfl
  | cons head rest inductionHypothesis =>
      obtain ⟨middle, first, others⟩ := dealAll_cons isDealt
      have dealt := dealt_deal first
      simp only [dealAllActs, first]
      rw [run_append_eq_some_iff]
      exact
        ⟨_, dealt.run_acts coherent,
          inductionHypothesis (dealt.coherent coherent) others⟩

/-- A round is complete where all answers are taken whole. -/
theorem whole_dealAll_iff
    (coherent : sockets.Coherent)
    (isDealt : sockets.dealAll convert dealings = some later) :
    (∀ entry ∈ dealings, entry.2.Whole) ↔
      StepsMeet (Service.step convert) Service.Complete
        (sockets.service fun _ => .nothing)
        (sockets.dealAllActs convert dealings) := by
  induction dealings generalizing sockets with
  | nil => exact iff_of_true nofun trivial
  | cons head rest inductionHypothesis =>
      obtain ⟨middle, first, others⟩ := dealAll_cons isDealt
      have dealt := dealt_deal first
      simp only [dealAllActs, first]
      rw [List.forall_mem_cons, stepsMeet_append_iff (dealt.run_acts coherent),
        ← dealt.whole_iff coherent,
        ← inductionHypothesis (dealt.coherent coherent) others]

/-! ## The order of a round -/

/-- What a dealing does to the channel of an open connection. -/
def channelAfter
    (convert : α → β) (channel : Channel α β) :
    Dealing α → Option (Channel α β)
  | .sendsBack items taken =>
      if channel.Readable items.length ∧
          channel.incoming.take items.length = items then
        some ((channel.take items.length).put ((items.map convert).take taken))
      else
        .none
  | .parts => if channel.AtEnd then some (channel.move .closed) else .none
  | .drops => some (channel.move .dropped)
  | .passes => some channel

/-- The connections with another channel, and a descriptor that is free where
the dealing closes it. -/
def settled
    (sockets : Sockets α β) (fd conn : Nat) (dealing : Dealing α)
    (channel : Channel α β) : Sockets α β :=
  ⟨Function.update sockets.peerOf fd
      (if dealing.Leaves then .none else some conn),
    sockets.next, Function.update sockets.channels conn channel⟩

omit [DecidableEq α] in
theorem settled_of_stays
    {conn : Nat} (isPeer : sockets.peerOf fd = some conn)
    (stays : ¬ dealing.Leaves) (channel : Channel α β) :
    sockets.settled fd conn dealing channel = sockets.update conn channel := by
  unfold settled
  rw [if_neg stays, Function.update_eq_self_iff.mpr isPeer.symm]
  rfl

theorem deal_of_peer
    {conn : Nat} (isPeer : sockets.peerOf fd = some conn)
    (dealing : Dealing α) :
    sockets.deal convert fd dealing =
      (channelAfter convert (sockets.channels conn) dealing).map
        (sockets.settled fd conn dealing) := by
  cases dealing with
  | sendsBack items taken =>
      have stays : ¬ (Dealing.sendsBack items taken).Leaves := id
      simp only [deal, read, channelAfter, isPeer, Option.bind_some]
      by_cases readable : (sockets.channels conn).Readable items.length
      · rw [if_pos readable, Option.bind_some]
        by_cases same :
            (sockets.channels conn).incoming.take items.length = items
        · rw [if_pos same, if_pos ⟨readable, same⟩, Option.map_some,
            settled_of_stays isPeer stays]
          have readPeer :
              (sockets.update conn
                ((sockets.channels conn).take items.length)).peerOf fd =
                  some conn :=
            isPeer
          rw [write_of_peer readPeer, channels_update_self]
          unfold update
          rw [Function.update_idem]
        · rw [if_neg same, if_neg fun both => same both.2]
          rfl
      · rw [if_neg readable, if_neg fun both => readable both.1]
        rfl
  | parts =>
      have atEnd_iff : sockets.AtEnd fd ↔ (sockets.channels conn).AtEnd := by
        unfold AtEnd
        rw [isPeer]
        simp
      simp only [deal, channelAfter]
      by_cases atEnd : (sockets.channels conn).AtEnd
      · rw [if_pos (atEnd_iff.mpr atEnd), if_pos atEnd, close_of_peer isPeer]
        rfl
      · rw [if_neg fun other => atEnd (atEnd_iff.mp other), if_neg atEnd]
        rfl
  | drops =>
      simp only [deal, drop, channelAfter, isPeer]
      rfl
  | passes =>
      have stays : ¬ (Dealing.passes : Dealing α).Leaves := id
      simp only [deal, channelAfter]
      rw [Option.map_some, settled_of_stays isPeer stays]
      unfold update
      rw [Function.update_eq_self]

theorem deal_settled
    {conn other otherConn : Nat} {channel : Channel α β}
    (different : other ≠ fd) (apart : otherConn ≠ conn)
    (isPeer : sockets.peerOf other = some otherConn)
    (otherDealing : Dealing α) :
    (sockets.settled fd conn dealing channel).deal convert other
        otherDealing =
      (channelAfter convert (sockets.channels otherConn) otherDealing).map
        ((sockets.settled fd conn dealing channel).settled other otherConn
          otherDealing) := by
  have stillPeer :
      (sockets.settled fd conn dealing channel).peerOf other =
        some otherConn :=
    (Function.update_of_ne different _ _).trans isPeer
  have sameChannel :
      (sockets.settled fd conn dealing channel).channels otherConn =
        sockets.channels otherConn :=
    Function.update_of_ne apart _ _
  rw [deal_of_peer stillPeer, sameChannel]

/-- Two connections can be dealt with in either order. -/
theorem deal_comm
    (coherent : sockets.Coherent) {other : Nat} (different : fd ≠ other)
    (first : sockets.IsOpen fd) (second : sockets.IsOpen other)
    (dealing otherDealing : Dealing α) :
    ((sockets.deal convert fd dealing).bind fun sockets =>
        sockets.deal convert other otherDealing) =
      (sockets.deal convert other otherDealing).bind fun sockets =>
        sockets.deal convert fd dealing := by
  obtain ⟨conn, isPeer⟩ := first
  obtain ⟨otherConn, isOther⟩ := second
  have apart : conn ≠ otherConn := by
    rintro rfl
    exact different (coherent.distinct isPeer isOther)
  rw [deal_of_peer isPeer, deal_of_peer isOther, Option.bind_map,
    Option.bind_map]
  simp only [Function.comp_def, deal_settled different.symm apart.symm isOther,
    deal_settled different apart isPeer]
  cases channelAfter convert (sockets.channels conn) dealing with
  | none =>
      cases channelAfter convert (sockets.channels otherConn) otherDealing
      all_goals rfl
  | some channel =>
      cases channelAfter convert (sockets.channels otherConn) otherDealing with
      | none => rfl
      | some otherChannel =>
          simp only [Option.bind_some, Option.map_some, settled,
            Function.update_comm different, Function.update_comm apart]

/-- What becomes of the connections does not depend on the order in which
they are dealt with. -/
theorem dealAll_perm
    {others : List (Nat × Dealing α)} (coherent : sockets.Coherent)
    (opened : ∀ entry ∈ dealings, sockets.IsOpen entry.1)
    (distinct : (dealings.map Prod.fst).Nodup)
    (perm : dealings.Perm others) :
    sockets.dealAll convert dealings = sockets.dealAll convert others := by
  induction perm generalizing sockets with
  | nil => rfl
  | @cons head first second perm inductionHypothesis =>
      obtain ⟨headOpen, restOpen⟩ := List.forall_mem_cons.mp opened
      obtain ⟨headApart, restDistinct⟩ := List.nodup_cons.mp distinct
      unfold dealAll
      cases isDealt : sockets.deal convert head.1 head.2 with
      | none => rfl
      | some middle =>
          have dealt := dealt_deal isDealt
          refine
            inductionHypothesis (dealt.coherent coherent) ?_ restDistinct
          intro entry member
          refine (dealt.isOpen_iff coherent _).mpr ⟨restOpen entry member, ?_⟩
          rintro ⟨same, _⟩
          exact headApart (same ▸ List.mem_map_of_mem member)
  | swap one two rest =>
      obtain ⟨firstOpen, laterOpen⟩ := List.forall_mem_cons.mp opened
      have apart : two.1 ≠ one.1 := by
        intro same
        exact
          (List.nodup_cons.mp distinct).1 (same ▸ List.mem_cons_self)
      have secondOpen := laterOpen one List.mem_cons_self
      simp only [dealAll, ← Option.bind_assoc]
      rw [deal_comm coherent apart firstOpen secondOpen]
  | trans first second firstHypothesis secondHypothesis =>
      rw [firstHypothesis coherent opened distinct]
      refine secondHypothesis coherent ?_ ?_
      · exact fun entry member => opened entry (first.mem_iff.mpr member)
      · exact (first.map Prod.fst).nodup_iff.mp distinct

end Sockets

end LinuxNet.EchoService
