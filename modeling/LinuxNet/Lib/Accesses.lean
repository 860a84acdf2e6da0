/-!
# Reads and writes of an array in their order

A trace lists the places that a piece of code reads and writes.  Where no
place is read after it was written, the code sees the array as it was at
first, whatever it stores on the way.
-/

namespace LinuxNet.Accesses

inductive Access where
  | read (index : Nat)
  | write (index : Nat)
  deriving DecidableEq, Repr

/-- Reads of several places, one after the other. -/
def readsOf (places : List Nat) : List Access :=
  places.map Access.read

def writesOf (places : List Nat) : List Access :=
  places.map Access.write

def ReadsOnly (allowed : Nat → Prop) (trace : List Access) : Prop :=
  ∀ index, .read index ∈ trace → allowed index

def WritesOnly (allowed : Nat → Prop) (trace : List Access) : Prop :=
  ∀ index, .write index ∈ trace → allowed index

/-- No place is read once it has been written. -/
def ReadsFirst : List Access → Prop
  | [] => True
  | .read _ :: rest => ReadsFirst rest
  | .write index :: rest => .read index ∉ rest ∧ ReadsFirst rest

variable {allowed : Nat → Prop} {first second : List Access}

theorem ReadsOnly.append
    (before : ReadsOnly allowed first) (after : ReadsOnly allowed second) :
    ReadsOnly allowed (first ++ second) := by
  intro index member
  rcases List.mem_append.mp member with early | late
  · exact before index early
  · exact after index late

theorem ReadsOnly.mono
    {wider : Nat → Prop} (reads : ReadsOnly allowed first)
    (implies : ∀ index, allowed index → wider index) :
    ReadsOnly wider first :=
  fun index member => implies index (reads index member)

theorem readsOnly_readsOf
    {places : List Nat} (inside : ∀ place ∈ places, allowed place) :
    ReadsOnly allowed (readsOf places) := by
  intro index member
  obtain ⟨place, isPlace, same⟩ := List.mem_map.mp member
  rw [← Access.read.inj same]
  exact inside place isPlace

theorem readsOnly_readsOf_iff {places : List Nat} :
    ReadsOnly allowed (readsOf places) ↔ ∀ place ∈ places, allowed place :=
  ⟨fun reads place member => reads place (List.mem_map_of_mem member),
    readsOnly_readsOf⟩

theorem writesOnly_writesOf_iff {places : List Nat} :
    WritesOnly allowed (writesOf places) ↔
      ∀ place ∈ places, allowed place := by
  constructor
  · intro writes place member
    exact writes place (List.mem_map_of_mem member)
  · intro inside index member
    obtain ⟨place, isPlace, same⟩ := List.mem_map.mp member
    rw [← Access.write.inj same]
    exact inside place isPlace

/-- Reads in front of a trace cannot spoil it. -/
theorem ReadsFirst.reads_append
    (readsFirst : ReadsFirst second) (places : List Nat) :
    ReadsFirst (readsOf places ++ second) := by
  induction places with
  | nil => exact readsFirst
  | cons place places inductionHypothesis => exact inductionHypothesis

/-- A write behind everything that is still to be read. -/
theorem ReadsFirst.write_cons
    {index : Nat} (readsFirst : ReadsFirst second)
    (later : ReadsOnly (index < ·) second) :
    ReadsFirst (.write index :: second) :=
  ⟨fun again => Nat.lt_irrefl index (later index again), readsFirst⟩

end LinuxNet.Accesses
