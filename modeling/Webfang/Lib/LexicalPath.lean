import Mathlib.Data.List.Basic

/-!
# Paths resolved by their text

Where a path leads is a walk from folder to folder.  Resolving its dots by the text alone gives the
same place, when the path begins at the root and no folder is a link.
-/

namespace LexicalPath

/-- What stands between the slashes of a path. -/
inductive Component (α : Type*)
  | rootDir
  | curDir
  | parentDir
  | normal (name : α)
  deriving DecidableEq, Repr

namespace Component

variable {α : Type*}

/-- The folder that a component leads to, by its names from the root; above the root is the root. -/
def follow (place : List α) : Component α → List α
  | rootDir => []
  | curDir => place
  | parentDir => place.dropLast
  | normal name => place ++ [name]

theorem normal_injective : Function.Injective (normal : α → Component α) :=
  fun _ _ same => normal.inj same

end Component

open Component

variable {α : Type*} {path root rest : List (Component α)} {place : List α}

def walk (place : List α) (path : List (Component α)) : List α := path.foldl follow place

/-- The last name is taken off, and a root is left. -/
def pop (out : List (Component α)) : List (Component α) :=
  match out.getLast? with
  | some (normal _) => out.dropLast
  | _ => out

def push (out : List (Component α)) : Component α → List (Component α)
  | rootDir => [rootDir]
  | c => out ++ [c]

/-- The dots of a path resolved, without a look at the folders. -/
def normalize (path : List (Component α)) : List (Component α) :=
  path.foldl (fun out c =>
    match c with
    | curDir => out
    | parentDir => pop out
    | other => push out other) []

/-- A path without its root. -/
def Rootless (path : List (Component α)) : Prop := rootDir ∉ path

/-- No component leads upwards. -/
def Descends (path : List (Component α)) : Prop := rootDir ∉ path ∧ parentDir ∉ path

/-! ## Walks -/

@[simp] theorem walk_nil (place : List α) : walk place [] = place := rfl

theorem walk_cons (place : List α) (c : Component α) (rest : List (Component α)) :
    walk place (c :: rest) = walk (follow place c) rest := rfl

theorem walk_append (place : List α) (path rest : List (Component α)) :
    walk place (path ++ rest) = walk (walk place path) rest := List.foldl_append

/-- What begins at the root leads to one place from everywhere. -/
theorem walk_rootDir (place : List α) (rest : List (Component α)) :
    walk place (rootDir :: rest) = walk [] rest := rfl

theorem prefix_walk (descends : Descends path) : place <+: walk place path := by
  induction path generalizing place with
  | nil => exact List.prefix_rfl
  | cons c rest ih =>
      obtain ⟨root, up⟩ := descends
      have later : Descends rest :=
        ⟨fun member => root (List.mem_cons_of_mem _ member),
          fun member => up (List.mem_cons_of_mem _ member)⟩
      cases c with
      | rootDir => exact absurd (List.mem_cons_self ..) root
      | parentDir => exact absurd (List.mem_cons_self ..) up
      | curDir => exact ih later
      | normal name => exact (List.prefix_append place [name]).trans (ih later)

/-! ## Dots resolved -/

theorem pop_map (place : List α) : pop (place.map normal) = place.dropLast.map normal := by
  rw [pop, List.getLast?_map]
  cases last : place.getLast? with
  | none =>
      rw [List.getLast?_eq_none_iff.mp last]
      rfl
  | some name => exact (List.map_dropLast ..).symm

theorem pop_rootDir (place : List α) :
    pop (rootDir :: place.map normal) = rootDir :: place.dropLast.map normal := by
  cases last : place.getLast? with
  | none =>
      rw [List.getLast?_eq_none_iff.mp last]
      rfl
  | some name =>
      have some_ : place ≠ [] := fun empty => by
        rw [empty] at last
        cases last
      have here : (rootDir :: place.map normal).getLast? = some (normal name) := by
        rw [List.getLast?_cons, List.getLast?_map, last]
        rfl
      rw [pop, here, List.map_dropLast]
      exact List.dropLast_cons_of_ne_nil (by simpa using some_)

theorem normalize_relative (rootless : Rootless path) :
    normalize path = (walk [] path).map normal := by
  suffices run : ∀ (rest : List (Component α)) (place : List α), Rootless rest →
      rest.foldl _ (place.map normal) = (walk place rest).map normal from run path [] rootless
  intro rest
  induction rest with
  | nil => exact fun _ _ => rfl
  | cons c rest ih =>
      intro place rootless
      have later : Rootless rest := fun member => rootless (List.mem_cons_of_mem _ member)
      rw [List.foldl_cons, walk_cons, ← ih _ later]
      cases c with
      | rootDir => exact absurd (List.mem_cons_self ..) rootless
      | curDir => rfl
      | parentDir =>
          dsimp only
          rw [pop_map]
          rfl
      | normal name =>
          dsimp only [push, follow]
          rw [List.map_append]
          rfl

theorem normalize_absolute (rootless : Rootless rest) :
    normalize (rootDir :: rest) = rootDir :: (walk [] rest).map normal := by
  suffices run : ∀ (rest : List (Component α)) (place : List α), Rootless rest →
      rest.foldl _ (rootDir :: place.map normal) = rootDir :: (walk place rest).map normal from
    run rest [] rootless
  intro rest
  induction rest with
  | nil => exact fun _ _ => rfl
  | cons c rest ih =>
      intro place rootless
      have later : Rootless rest := fun member => rootless (List.mem_cons_of_mem _ member)
      rw [List.foldl_cons, walk_cons, ← ih _ later]
      cases c with
      | rootDir => exact absurd (List.mem_cons_self ..) rootless
      | curDir => rfl
      | parentDir =>
          dsimp only
          rw [pop_rootDir]
          rfl
      | normal name =>
          dsimp only [push, follow]
          rw [List.map_append]
          rfl

/-- From the root: one resolved path begins with the other, when it leads below it. -/
theorem normalize_prefix_iff (above : Rootless root) (below : Rootless rest) :
    normalize (rootDir :: root) <+: normalize (rootDir :: rest) ↔ walk [] root <+: walk [] rest := by
  rw [normalize_absolute above, normalize_absolute below, List.cons_prefix_cons,
    List.prefix_map_iff_of_injective normal_injective]
  exact and_iff_right rfl

/-- A relative path is above one from the root only when nothing is left of it. -/
theorem normalize_relative_prefix_iff (above : Rootless root) (below : Rootless rest) :
    normalize root <+: normalize (rootDir :: rest) ↔ walk [] root = [] := by
  rw [normalize_relative above, normalize_absolute below]
  cases walk [] root with
  | nil => exact iff_of_true List.nil_prefix rfl
  | cons name names =>
      refine iff_of_false (fun starts => ?_) (List.cons_ne_nil _ _)
      obtain ⟨same, -⟩ := List.cons_prefix_cons.mp starts
      cases same

/-! ## Texts -/

def isAbsolute (text : List Char) : Bool := text.head? == some '/'

/-- A segment that is no component. -/
def isNoise (segment : List Char) : Bool := segment.isEmpty || segment == ['.']

def ofSegment (segment : List Char) : Component (List Char) :=
  if segment = ['.', '.'] then parentDir else normal segment

/-- A root or a dot in front, then what the segments are. -/
def components (text : List Char) : List (Component (List Char)) :=
  (if isAbsolute text then [rootDir]
    else if (text.splitOn '/').head? = some ['.'] then [curDir] else []) ++
    ((text.splitOn '/').filter fun segment => !isNoise segment).map ofSegment

/-- The components behind the root. -/
def inner (text : List Char) : List (Component (List Char)) :=
  ((text.splitOn '/').filter fun segment => !isNoise segment).map ofSegment

/-- A name is put behind a path. -/
def join (dir name : List Char) : List Char :=
  if isAbsolute name then name
  else if dir = [] ∨ dir.getLast? = some '/' then dir ++ name
  else dir ++ '/' :: name

/-- One name of a folder or a file. -/
structure IsName (name : List Char) : Prop where
  nonempty : name ≠ []
  dot : name ≠ ['.']
  dots : name ≠ ['.', '.']
  whole : '/' ∉ name

theorem rootless_inner (text : List Char) : Rootless (inner text) := by
  intro member
  obtain ⟨segment, -, same⟩ := List.mem_map.mp member
  unfold ofSegment at same
  split at same <;> cases same

theorem components_absolute {text : List Char} (absolute : isAbsolute text = true) :
    components text = rootDir :: inner text := by
  rw [components, if_pos absolute]
  rfl

theorem rootless_relative {text : List Char} (relative : isAbsolute text = false) :
    Rootless (components text) := by
  rw [components, if_neg (by rw [relative]; exact Bool.false_ne_true)]
  intro member
  rcases List.mem_append.mp member with front | behind
  · split at front
    · cases List.mem_singleton.mp front
    · cases front
  · exact rootless_inner text behind

theorem inner_name {name : List Char} (isName : IsName name) : inner name = [normal name] := by
  have noise : isNoise name = false := by
    simp [isNoise, isName.nonempty, isName.dot]
  rw [inner, List.splitOn_eq_singleton isName.whole, List.filter_cons_of_pos (by simp [noise]),
    List.filter_nil, List.map_singleton, ofSegment, if_neg isName.dots]

theorem isAbsolute_name {name : List Char} (isName : IsName name) : isAbsolute name = false := by
  cases name with
  | nil => rfl
  | cons c rest =>
      have other : c ≠ '/' := fun slash => isName.whole (by rw [slash]; exact List.mem_cons_self ..)
      simp [isAbsolute, other]

/-- Behind a slash a name is the last component. -/
theorem components_append_name (dir : List Char) {name : List Char} (isName : IsName name) :
    components (dir ++ '/' :: name) = components (dir ++ ['/']) ++ [normal name] := by
  have split (tail : List Char) (whole : '/' ∉ tail) :
      (dir ++ '/' :: tail).splitOn '/' = dir.splitOn '/' ++ [tail] := by
    rw [List.splitOn_append_cons_self, List.splitOn_eq_singleton whole]
  have absolute : isAbsolute (dir ++ '/' :: name) = isAbsolute (dir ++ ['/']) := by
    cases dir <;> rfl
  have noise : isNoise name = false := by
    simp [isNoise, isName.nonempty, isName.dot]
  have first (tail : List Char) : (dir.splitOn '/' ++ [tail]).head? = (dir.splitOn '/').head? := by
    cases cut : dir.splitOn '/' with
    | nil => exact absurd cut (List.splitOn_ne_nil '/' dir)
    | cons segment segments => rfl
  have empty : '/' ∉ ([] : List Char) := List.not_mem_nil
  rw [components, components, absolute, split name isName.whole, split [] empty, first, first,
    List.filter_append, List.filter_append, List.map_append, List.map_append, List.append_assoc,
    List.append_assoc]
  congr 2
  rw [List.filter_cons_of_pos (by simp [noise]), List.filter_nil,
    List.filter_cons_of_neg (by simp [isNoise]), List.filter_nil, List.map_nil, List.nil_append,
    List.map_singleton, ofSegment, if_neg isName.dots]

theorem components_slash {dir : List Char} (nonempty : dir ≠ []) :
    components (dir ++ ['/']) = components dir := by
  have split : (dir ++ ['/']).splitOn '/' = dir.splitOn '/' ++ [[]] := by
    rw [List.splitOn_append_cons_self, List.splitOn_nil]
  have absolute : isAbsolute (dir ++ ['/']) = isAbsolute dir := by
    cases dir with
    | nil => exact absurd rfl nonempty
    | cons c rest => rfl
  have first : (dir.splitOn '/' ++ [[]]).head? = (dir.splitOn '/').head? := by
    cases cut : dir.splitOn '/' with
    | nil => exact absurd cut (List.splitOn_ne_nil '/' dir)
    | cons segment segments => rfl
  rw [components, components, absolute, split, first, List.filter_append,
    List.filter_cons_of_neg (by simp [isNoise]), List.filter_nil, List.append_nil]

/-- The components of a file in a folder. -/
theorem components_join (dir : List Char) {name : List Char} (isName : IsName name) :
    components (join dir name) = components dir ++ [normal name] := by
  rw [join, isAbsolute_name isName, if_neg Bool.false_ne_true]
  by_cases empty : dir = []
  · subst empty
    have relative := isAbsolute_name isName
    rw [if_pos (.inl rfl), List.nil_append, components, relative, if_neg Bool.false_ne_true,
      List.splitOn_eq_singleton isName.whole, if_neg (by simpa using isName.dot)]
    have inside := inner_name isName
    rw [inner, List.splitOn_eq_singleton isName.whole] at inside
    rw [inside]
    rfl
  · by_cases slash : dir.getLast? = some '/'
    · obtain ⟨front, rfl⟩ : ∃ front, dir = front ++ ['/'] := by
        obtain ⟨nonempty, last⟩ := List.getLast?_eq_some_iff.mp slash
        exact ⟨_, last⟩
      rw [if_pos (.inr slash), List.append_assoc, List.singleton_append]
      exact components_append_name front isName
    · rw [if_neg fun either => either.elim empty slash, components_append_name dir isName,
        components_slash empty]

theorem join_injective {dir name other : List Char} (isName : IsName name) (isOther : IsName other)
    (same : join dir name = join dir other) : name = other := by
  rw [join, join, isAbsolute_name isName, isAbsolute_name isOther, if_neg Bool.false_ne_true] at same
  split at same
  · exact List.append_cancel_left same
  · exact List.tail_eq_of_cons_eq (List.append_cancel_left same)

end LexicalPath
