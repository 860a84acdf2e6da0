import Mathlib.Logic.Function.Basic
import LinuxNet.Lib.Simulation

/-!
# A service that sends back what it receives

A service has connections, by number.  On each of them a client sends items
until it ends its stream.  The service takes the items up in pieces, turns
every item into another one and writes these back; it closes the connection
when it has come to the end of the stream.  A write may be short, and nothing
is written twice, so what the client was sent is exact as long as every write
was taken whole.
-/

namespace LinuxNet.EchoService

open LinuxNet.StepSystem

variable {α β : Type}

/-- The service's end of a connection: not accepted yet, open, closed behind
the end of the stream, or given up before. -/
inductive Place where
  | backlog
  | opened
  | closed
  | dropped
  deriving DecidableEq, Repr

/-- What has passed over a connection: what the service has taken up, what has
arrived on top of that, whether the client sends no more, and what the client
was sent. -/
structure Channel (α β : Type) where
  consumed : List α
  incoming : List α
  ended : Bool
  returned : List β
  place : Place
  deriving DecidableEq, Repr

namespace Channel

def fresh : Channel α β :=
  ⟨[], [], false, [], .backlog⟩

def sent (channel : Channel α β) : List α :=
  channel.consumed ++ channel.incoming

def AtEnd (channel : Channel α β) : Prop :=
  channel.ended = true ∧ channel.incoming = []

instance (channel : Channel α β) : Decidable channel.AtEnd := by
  unfold AtEnd
  infer_instance

/-- The client sends, which it cannot behind its end. -/
def arrive (channel : Channel α β) (items : List α) : Option (Channel α β) :=
  if channel.ended then
    none
  else
    some { channel with incoming := channel.incoming ++ items }

def finish (channel : Channel α β) : Channel α β :=
  { channel with ended := true }

def move (channel : Channel α β) (place : Place) : Channel α β :=
  { channel with place := place }

def Readable (channel : Channel α β) (count : Nat) : Prop :=
  0 < count ∧ count ≤ channel.incoming.length

instance (channel : Channel α β) (count : Nat) :
    Decidable (channel.Readable count) := by
  unfold Readable
  infer_instance

def take (channel : Channel α β) (count : Nat) : Channel α β :=
  { channel with
    consumed := channel.consumed ++ channel.incoming.take count
    incoming := channel.incoming.drop count }

def put (channel : Channel α β) (items : List β) : Channel α β :=
  { channel with returned := channel.returned ++ items }

end Channel

/-- What the service has in hand for a connection: nothing, items that it has
not written back, or the end of the stream. -/
inductive Hand (α : Type) where
  | nothing
  | items (held : List α)
  | theEnd
  deriving DecidableEq, Repr

def Hand.held : Hand α → List α
  | nothing | theEnd => []
  | items held => held

structure Session (α β : Type) where
  channel : Channel α β
  hand : Hand α
  deriving DecidableEq, Repr

inductive Act (α : Type) where
  | arrives (items : List α)
  | finishes
  | accepts
  | reads (count : Nat)
  | readsEnd
  | writes (count : Nat)
  | closes
  | drops
  deriving DecidableEq, Repr

namespace Session

def fresh : Session α β :=
  ⟨.fresh, .nothing⟩

def step (convert : α → β) (session : Session α β) :
    Act α → Option (Session α β)
  | .arrives items =>
      (session.channel.arrive items).map fun channel =>
        { session with channel := channel }
  | .finishes => some { session with channel := session.channel.finish }
  | .accepts =>
      if session.channel.place = .backlog then
        some { session with channel := session.channel.move .opened }
      else
        none
  | .reads count =>
      match session.hand with
      | .nothing =>
          if session.channel.place = .opened ∧
              session.channel.Readable count then
            some
              ⟨session.channel.take count,
                .items (session.channel.incoming.take count)⟩
          else
            none
      | .items _ | .theEnd => none
  | .readsEnd =>
      match session.hand with
      | .nothing =>
          if session.channel.place = .opened ∧ session.channel.AtEnd then
            some { session with hand := .theEnd }
          else
            none
      | .items _ | .theEnd => none
  | .writes count =>
      match session.hand with
      | .items held =>
          some
            ⟨session.channel.put ((held.map convert).take count), .nothing⟩
      | .nothing | .theEnd => none
  | .closes =>
      match session.hand with
      | .theEnd => some ⟨session.channel.move .closed, .nothing⟩
      | .nothing | .items _ => none
  | .drops =>
      if session.channel.place = .opened then
        some ⟨session.channel.move .dropped, .nothing⟩
      else
        none

section

variable {convert : α → β} {channel later : Channel α β} {hand : Hand α}
variable {count : Nat}

theorem step_arrives
    {items : List α} (arrived : channel.arrive items = some later) :
    step convert ⟨channel, hand⟩ (.arrives items) = some ⟨later, hand⟩ := by
  simp only [step, arrived, Option.map_some]

theorem step_accepts (place : channel.place = .backlog) :
    step convert ⟨channel, hand⟩ .accepts =
      some ⟨channel.move .opened, hand⟩ :=
  if_pos place

theorem step_reads
    (place : channel.place = .opened) (readable : channel.Readable count) :
    step convert ⟨channel, .nothing⟩ (.reads count) =
      some ⟨channel.take count, .items (channel.incoming.take count)⟩ :=
  if_pos ⟨place, readable⟩

theorem step_readsEnd
    (place : channel.place = .opened) (atEnd : channel.AtEnd) :
    step convert ⟨channel, .nothing⟩ .readsEnd = some ⟨channel, .theEnd⟩ :=
  if_pos ⟨place, atEnd⟩

theorem step_drops (place : channel.place = .opened) :
    step convert ⟨channel, hand⟩ .drops =
      some ⟨channel.move .dropped, .nothing⟩ :=
  if_pos place

end

def Complete (session : Session α β) : Act α → Prop
  | .writes count => session.hand.held.length ≤ count
  | .drops => session.hand.held = []
  | .arrives _ | .finishes | .accepts | .reads _ | .readsEnd | .closes => True

/-- What was taken up was written back, save for what is in hand. -/
def Exact (convert : α → β) (session : Session α β) : Prop :=
  session.channel.returned ++ session.hand.held.map convert =
    session.channel.consumed.map convert

/-- What holds of a connection whatever the writes do. -/
structure Sound (session : Session α β) : Prop where
  length_le :
    session.channel.returned.length + session.hand.held.length ≤
      session.channel.consumed.length
  inHand :
    session.hand ≠ .nothing → session.channel.place = .opened
  atEnd :
    session.hand = .theEnd ∨ session.channel.place = .closed →
      session.channel.AtEnd
  untouched :
    session.channel.place = .backlog → session.channel.consumed = []

theorem sound_fresh : (fresh : Session α β).Sound :=
  ⟨Nat.le_refl _, fun impossible => absurd rfl impossible,
    fun either => either.elim nofun nofun, fun _ => rfl⟩

theorem exact_fresh (convert : α → β) :
    (fresh : Session α β).Exact convert :=
  rfl

variable {convert : α → β} {session next : Session α β}

/-- A step keeps a connection sound. -/
theorem Sound.step
    (sound : session.Sound) {act : Act α}
    (stepped : session.step convert act = some next) : next.Sound := by
  obtain ⟨channel, hand⟩ := session
  have before := sound.length_le
  cases act with
  | arrives items =>
      obtain ⟨arrived, isArrived, rfl⟩ := Option.map_eq_some_iff.mp stepped
      obtain ⟨running, isArrived⟩ := Option.ite_none_left_eq_some.mp isArrived
      cases isArrived
      exact
        ⟨before, sound.inHand,
          fun either => absurd (sound.atEnd either).1 running,
          sound.untouched⟩
  | finishes =>
      cases stepped
      exact
        ⟨before, sound.inHand,
          fun either => ⟨rfl, (sound.atEnd either).2⟩, sound.untouched⟩
  | accepts =>
      obtain ⟨place, stepped⟩ := Option.ite_none_right_eq_some.mp stepped
      cases stepped
      refine ⟨before, fun _ => rfl, fun either => ?_, nofun⟩
      exact sound.atEnd (either.imp_right nofun)
  | reads count =>
      cases hand with
      | items held => cases stepped
      | theEnd => cases stepped
      | nothing =>
          obtain ⟨⟨place, readable⟩, stepped⟩ :=
            Option.ite_none_right_eq_some.mp stepped
          cases stepped
          simp only [Hand.held, List.length_nil] at before
          refine
            ⟨?_, fun _ => place,
              fun either => either.elim nofun fun closed => ?_,
              fun backlog => ?_⟩
          · simp only [Channel.take, Hand.held, List.length_append]
            omega
          · exact absurd (place.symm.trans closed) nofun
          · exact absurd (place.symm.trans backlog) nofun
  | readsEnd =>
      cases hand with
      | items held => cases stepped
      | theEnd => cases stepped
      | nothing =>
          obtain ⟨⟨place, atEnd⟩, stepped⟩ :=
            Option.ite_none_right_eq_some.mp stepped
          cases stepped
          exact ⟨before, fun _ => place, fun _ => atEnd, sound.untouched⟩
  | writes count =>
      cases hand with
      | nothing => cases stepped
      | theEnd => cases stepped
      | items held =>
          cases stepped
          have place := sound.inHand nofun
          refine
            ⟨?_, nofun, fun either => either.elim nofun fun closed => ?_,
              sound.untouched⟩
          · simp only [Channel.put, Hand.held, List.length_append,
              List.length_take, List.length_map, List.length_nil] at before ⊢
            omega
          · exact absurd (place.symm.trans closed) nofun
  | closes =>
      cases hand with
      | nothing => cases stepped
      | items held => cases stepped
      | theEnd =>
          cases stepped
          exact ⟨before, nofun, fun _ => sound.atEnd (Or.inl rfl), nofun⟩
  | drops =>
      obtain ⟨place, stepped⟩ := Option.ite_none_right_eq_some.mp stepped
      cases stepped
      exact
        ⟨Nat.le_trans (Nat.add_le_add_left (Nat.zero_le _) _) before, nofun,
          fun either => either.elim nofun nofun, nofun⟩

/-- A deficit cannot be made up for. -/
theorem append_take_eq_iff
    {returned due : List β} {held : List α} {count : Nat}
    (bound : returned.length + held.length ≤ due.length) :
    returned ++ (held.map convert).take count = due ↔
      returned ++ held.map convert = due ∧ held.length ≤ count := by
  constructor
  · intro same
    have lengths := congrArg List.length same
    simp only [List.length_append, List.length_take, List.length_map]
      at lengths
    have whole : held.length ≤ count := by omega
    rw [List.take_of_length_le (by rw [List.length_map]; exact whole)] at same
    exact ⟨same, whole⟩
  · rintro ⟨same, whole⟩
    rw [List.take_of_length_le (by rw [List.length_map]; exact whole)]
    exact same

/-- A connection is exact behind a step if it was before and the step is
complete. -/
theorem Sound.exact_step_iff
    (sound : session.Sound) {act : Act α}
    (stepped : session.step convert act = some next) :
    next.Exact convert ↔ session.Exact convert ∧ session.Complete act := by
  obtain ⟨channel, hand⟩ := session
  have before := sound.length_le
  cases act with
  | arrives items =>
      obtain ⟨arrived, isArrived, rfl⟩ := Option.map_eq_some_iff.mp stepped
      obtain ⟨running, isArrived⟩ := Option.ite_none_left_eq_some.mp isArrived
      cases isArrived
      exact (and_iff_left trivial).symm
  | finishes =>
      cases stepped
      exact (and_iff_left trivial).symm
  | accepts =>
      obtain ⟨place, stepped⟩ := Option.ite_none_right_eq_some.mp stepped
      cases stepped
      exact (and_iff_left trivial).symm
  | reads count =>
      cases hand with
      | items held => cases stepped
      | theEnd => cases stepped
      | nothing =>
          obtain ⟨readable, stepped⟩ :=
            Option.ite_none_right_eq_some.mp stepped
          cases stepped
          simp [Exact, Complete, Channel.take, Hand.held]
  | readsEnd =>
      cases hand with
      | items held => cases stepped
      | theEnd => cases stepped
      | nothing =>
          obtain ⟨atEnd, stepped⟩ :=
            Option.ite_none_right_eq_some.mp stepped
          cases stepped
          exact (and_iff_left trivial).symm
  | writes count =>
      cases hand with
      | nothing => cases stepped
      | theEnd => cases stepped
      | items held =>
          cases stepped
          simp only [Exact, Complete, Channel.put, Hand.held, List.map_nil,
            List.append_nil]
          exact append_take_eq_iff (by rw [List.length_map]; exact before)
  | closes =>
      cases hand with
      | nothing => cases stepped
      | items held => cases stepped
      | theEnd =>
          cases stepped
          exact (and_iff_left trivial).symm
  | drops =>
      obtain ⟨place, stepped⟩ := Option.ite_none_right_eq_some.mp stepped
      cases stepped
      have cut :
          channel.returned ++ (hand.held.map convert).take 0 =
              channel.consumed.map convert ↔
            channel.returned ++ hand.held.map convert =
                channel.consumed.map convert ∧
              hand.held.length ≤ 0 :=
        append_take_eq_iff (by rw [List.length_map]; exact before)
      rw [List.take_zero, List.append_nil, Nat.le_zero_eq,
        List.length_eq_zero_iff] at cut
      simpa [Exact, Complete, Channel.move, Hand.held] using cut

/-- Where the service has closed an exact connection, the client has got
everything back. -/
theorem Exact.whole
    (isExact : session.Exact convert) (sound : session.Sound)
    (closed : session.channel.place = .closed) :
    session.channel.ended = true ∧
      session.channel.returned = session.channel.sent.map convert := by
  obtain ⟨ended, nothing⟩ := sound.atEnd (Or.inr closed)
  have hand : session.hand = .nothing := by
    by_contra inHand
    exact absurd ((sound.inHand inHand).symm.trans closed) nofun
  refine ⟨ended, ?_⟩
  unfold Exact at isExact
  rw [hand] at isExact
  unfold Channel.sent
  rw [nothing, List.append_nil, ← isExact]
  exact (List.append_nil _).symm

end Session

/-! ## All connections -/

abbrev Service (α β : Type) :=
  Nat → Session α β

namespace Service

def start : Service α β :=
  fun _ => .fresh

def step
    (convert : α → β) (service : Service α β) (label : Nat × Act α) :
    Option (Service α β) :=
  ((service label.1).step convert label.2).map
    (Function.update service label.1)

def Complete (service : Service α β) (label : Nat × Act α) : Prop :=
  (service label.1).Complete label.2

variable {convert : α → β} {service next last : Service α β}

theorem step_exact
    (sound : ∀ conn, (service conn).Sound) {label : Nat × Act α}
    (stepped : step convert service label = some next) :
    (∀ conn, (next conn).Sound) ∧
      ((∀ conn, (next conn).Exact convert) ↔
        (∀ conn, (service conn).Exact convert) ∧ service.Complete label) := by
  obtain ⟨conn, act⟩ := label
  obtain ⟨session, isNext, rfl⟩ := Option.map_eq_some_iff.mp stepped
  have soundNext := (sound conn).step isNext
  have exactNext := (sound conn).exact_step_iff isNext
  constructor
  · intro other
    by_cases same : other = conn
    · rw [same, Function.update_self]
      exact soundNext
    · rw [Function.update_of_ne same]
      exact sound other
  · constructor
    · intro all
      have here := all conn
      rw [Function.update_self] at here
      obtain ⟨isExact, complete⟩ := exactNext.mp here
      refine ⟨fun other => ?_, complete⟩
      by_cases same : other = conn
      · rw [same]
        exact isExact
      · have there := all other
        rw [Function.update_of_ne same] at there
        exact there
    · rintro ⟨all, complete⟩ other
      by_cases same : other = conn
      · rw [same, Function.update_self]
        exact exactNext.mpr ⟨all conn, complete⟩
      · rw [Function.update_of_ne same]
        exact all other

def of (channels : Nat → Channel α β) (hands : Nat → Hand α) : Service α β :=
  fun conn => ⟨channels conn, hands conn⟩

/-- One connection goes on, and the others stay. -/
theorem step_of
    {channels : Nat → Channel α β} {hands : Nat → Hand α} {conn : Nat}
    {act : Act α} {channel : Channel α β} {hand : Hand α}
    (stepped :
      Session.step convert ⟨channels conn, hands conn⟩ act =
        some ⟨channel, hand⟩) :
    step convert (of channels hands) (conn, act) =
      some
        (of (Function.update channels conn channel)
          (Function.update hands conn hand)) := by
  refine Option.map_eq_some_iff.mpr ⟨_, stepped, ?_⟩
  funext other
  unfold of
  by_cases same : other = conn
  · subst same
    simp only [Function.update_self]
  · simp only [Function.update_of_ne same]

theorem step_of_same_hand
    {channels : Nat → Channel α β} {hands : Nat → Hand α} {conn : Nat}
    {act : Act α} {channel : Channel α β}
    (stepped :
      Session.step convert ⟨channels conn, hands conn⟩ act =
        some ⟨channel, hands conn⟩) :
    step convert (of channels hands) (conn, act) =
      some (of (Function.update channels conn channel) hands) := by
  rw [step_of stepped, Function.update_eq_self]

/-- Only writes and giving up can lose anything. -/
def Lossless : Act α → Prop
  | .writes _ | .drops => False
  | .arrives _ | .finishes | .accepts | .reads _ | .readsEnd | .closes => True

theorem complete_of_lossless
    {act : Act α} (lossless : Lossless act) (service : Service α β)
    (conn : Nat) : service.Complete (conn, act) := by
  cases act with
  | writes count => exact lossless.elim
  | drops => exact lossless.elim
  | _ => trivial

/-- Every connection is sound along a run, and all are exact exactly where all
steps were complete. -/
theorem run_exact
    {acts : List (Nat × Act α)}
    (ran : run (step convert) start acts = some last) :
    (∀ conn, (last conn).Sound) ∧
      ((∀ conn, (last conn).Exact convert) ↔
        StepsMeet (step convert) Complete start acts) := by
  have sound : ∀ conn, ((start : Service α β) conn).Sound :=
    fun _ => Session.sound_fresh
  constructor
  · exact
      run_keeps (fun service => ∀ conn, (service conn).Sound)
        (fun _ _ _ holds stepped => (step_exact holds stepped).1) sound ran
  · rw [run_good_iff Complete (fun service => ∀ conn, (service conn).Sound)
      (fun service => ∀ conn, (service conn).Exact convert)
      (fun _ _ _ holds stepped => step_exact holds stepped) sound ran]
    exact and_iff_right fun _ => Session.exact_fresh convert

end Service

/-- What a refinement of the service does for its clients. -/
theorem served_iff
    {σ ε : Type} {convert : α → β} {step : σ → ε → Option σ}
    (simulation : Simulation step (Service.step convert))
    {guard : σ → ε → Prop}
    (guards :
      ∀ {state label next},
        simulation.Valid state → step state label = some next →
          (guard state label ↔
            StepsMeet (Service.step convert) Service.Complete
              (simulation.view state) (simulation.acts state label)))
    {first last : σ} {labels : List ε} (valid : simulation.Valid first)
    (starts : simulation.view first = Service.start)
    (ran : run step first labels = some last) :
    ((∀ conn, (simulation.view last conn).Exact convert) ↔
        StepsMeet step guard first labels) ∧
      (StepsMeet step guard first labels →
        ∀ conn, (simulation.view last conn).channel.place = .closed →
          (simulation.view last conn).channel.ended = true ∧
            (simulation.view last conn).channel.returned =
              (simulation.view last conn).channel.sent.map convert) := by
  have seen := simulation.run_translated valid ran
  have met := simulation.stepsMeet_iff guards valid ran
  rw [starts] at seen met
  obtain ⟨sound, exact_iff⟩ := Service.run_exact seen
  rw [← met] at exact_iff
  exact
    ⟨exact_iff, fun meets conn =>
      (exact_iff.mpr meets conn).whole (sound conn)⟩

end LinuxNet.EchoService
