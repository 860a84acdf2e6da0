/-!
# Lexical resolution of paths

A place in a tree is the list of names on the way down to it from the root.
A path walks from place to place: `.` and an empty component stay, `..` goes
up and stops at the root, a name goes down.  Symbolic links do not exist
here.

Every path has a normal form, a number of steps up followed by names, and a
walk that starts at a place ends below it exactly when the names lead back
down where the steps led up.
-/

namespace LinuxNet.LexicalPath

variable {ν : Type}

inductive Component (ν : Type) where
  | here
  | up
  | name (name : ν)
  deriving DecidableEq, Repr

def enter (place : List ν) : Component ν → List ν
  | .here => place
  | .up => place.dropLast
  | .name name => place ++ [name]

def walk (place : List ν) (path : List (Component ν)) : List ν :=
  path.foldl enter place

/-- So many steps up, and then down the names. -/
structure Normal (ν : Type) where
  climbs : Nat
  names : List ν
  deriving DecidableEq

namespace Normal

def enter (normal : Normal ν) : Component ν → Normal ν
  | .here => normal
  | .up =>
      if normal.names.isEmpty then
        { normal with climbs := normal.climbs + 1 }
      else
        { normal with names := normal.names.dropLast }
  | .name name => { normal with names := normal.names ++ [name] }

def apply (normal : Normal ν) (place : List ν) : List ν :=
  place.take (place.length - normal.climbs) ++ normal.names

end Normal

def normalize (path : List (Component ν)) : Normal ν :=
  path.foldl Normal.enter ⟨0, []⟩

/-- Where the path leads up from the place, its names lead back. -/
def LeadsBack (place : List ν) (path : List (Component ν)) : Prop :=
  place.drop (place.length - (normalize path).climbs) <+:
    (normalize path).names

instance [DecidableEq ν] (place : List ν) (path : List (Component ν)) :
    Decidable (LeadsBack place path) := by
  unfold LeadsBack
  infer_instance

theorem apply_enter
    (normal : Normal ν) (place : List ν) (component : Component ν) :
    (normal.enter component).apply place =
      enter (normal.apply place) component := by
  obtain ⟨climbs, names⟩ := normal
  cases component with
  | here => rfl
  | name name => exact (List.append_assoc _ names [name]).symm
  | up =>
      cases names with
      | nil =>
          show place.take (place.length - (climbs + 1)) ++ [] =
            (place.take (place.length - climbs) ++ []).dropLast
          rw [List.append_nil, List.append_nil, List.dropLast_eq_take,
            List.take_take, List.length_take]
          congr 1
          omega
      | cons first rest =>
          show
            place.take (place.length - climbs) ++ (first :: rest).dropLast =
              (place.take (place.length - climbs) ++
                first :: rest).dropLast
          rw [List.dropLast_append_cons]

/-- A path leads where its normal form leads. -/
theorem walk_eq (place : List ν) (path : List (Component ν)) :
    walk place path = (normalize path).apply place := by
  have general :
      ∀ (path : List (Component ν)) (normal : Normal ν),
        walk (normal.apply place) path =
          (path.foldl Normal.enter normal).apply place := by
    intro path
    induction path with
    | nil => exact fun _ => rfl
    | cons component path inductionHypothesis =>
        intro normal
        rw [List.foldl_cons, ← inductionHypothesis, apply_enter]
        rfl
  have start : (⟨0, []⟩ : Normal ν).apply place = place := by
    simp [Normal.apply]
  rw [normalize, ← general, start]

theorem walk_append (place : List ν) (first second : List (Component ν)) :
    walk place (first ++ second) = walk (walk place first) second :=
  List.foldl_append

/-- A walk that starts at a place ends there or below exactly when it leads
back. -/
theorem prefix_walk_iff (place : List ν) (path : List (Component ν)) :
    place <+: walk place path ↔ LeadsBack place path := by
  have split :
      place <+: (normalize path).apply place ↔
        place.take (place.length - (normalize path).climbs) ++
            place.drop (place.length - (normalize path).climbs) <+:
          (normalize path).apply place := by
    rw [List.take_append_drop]
  rw [walk_eq, split, Normal.apply, List.prefix_append_right_inj, LeadsBack]

theorem walk_root (path : List (Component ν)) :
    walk [] path = (normalize path).names := by
  rw [walk_eq, Normal.apply, List.take_nil, List.nil_append]

def component : List UInt8 → Component (List UInt8)
  | [] => .here
  | [46] => .here
  | [46, 46] => .up
  | text => .name text

def components (path : List UInt8) : List (Component (List UInt8)) :=
  (path.splitOn 47).map component

def IsAbsolute (path : List UInt8) : Prop :=
  path.head? = some 47

instance (path : List UInt8) : Decidable (IsAbsolute path) := by
  unfold IsAbsolute
  infer_instance

/-- The place of a file, for a process in a working directory. -/
def resolve (cwd : List (List UInt8)) (path : List UInt8) :
    List (List UInt8) :=
  walk (if IsAbsolute path then [] else cwd) (components path)

theorem components_append_slash (first second : List UInt8) :
    components (first ++ 47 :: second) =
      components first ++ components second := by
  unfold components
  rw [List.splitOn_append_cons_self, List.map_append]

end LinuxNet.LexicalPath
