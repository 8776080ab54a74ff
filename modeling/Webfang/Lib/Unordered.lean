import Mathlib.Data.List.Forall2
import Mathlib.Data.List.Perm.Basic
import Webfang.Lib.Parties
import Webfang.Lib.StableSort

/-!
# Bounded work in any order

The inputs of a list are numbered and taken up in their order, so many at a time; each becomes a
task, and the tasks go on and end in any order.  Whatever the order, what the tasks have given when
all have ended, sorted by the numbers, is one result for each input in the order of the inputs.
-/

namespace Unordered

open Parties StableSort

variable {ι φ ο : Type*}

/-- The inputs from the `next`-th on wait; tasks and results have the number of their input. -/
structure Buffer (ι φ ο : Type*) where
  next : Nat
  waiting : List ι
  running : List (Nat × φ)
  finished : List (Nat × ο)
  deriving DecidableEq, Repr

namespace Buffer

def start (inputs : List ι) : Buffer ι φ ο := ⟨0, inputs, [], []⟩

/-- The next input becomes a task, when there is room for one. -/
def draw (limit : Nat) (enter : ι → φ) (b : Buffer ι φ ο) : Option (Buffer ι φ ο) :=
  match b.waiting with
  | [] => none
  | input :: rest =>
      if b.running.length < limit then
        some { b with
          next := b.next + 1, waiting := rest, running := b.running ++ [(b.next, enter input)] }
      else none

/-- The `k`-th of the running tasks goes on. -/
def advance (b : Buffer ι φ ο) (k : Nat) (task : Nat × φ) : Buffer ι φ ο :=
  { b with running := b.running.set k task }

/-- The `k`-th of the running tasks ends. -/
def complete (b : Buffer ι φ ο) (k : Nat) (result : Nat × ο) : Buffer ι φ ο :=
  { b with running := b.running.eraseIdx k, finished := b.finished ++ [result] }

/-- All tasks have ended. -/
def isDone (b : Buffer ι φ ο) : Bool := b.waiting.isEmpty && b.running.isEmpty

/-- The results in the order of the inputs. -/
def restored (b : Buffer ι φ ο) : List ο :=
  (b.finished.insertionSort (ByKey Prod.fst)).map Prod.snd

/-- The numbers of the inputs taken up. -/
def taken (b : Buffer ι φ ο) : List Nat := b.running.map Prod.fst ++ b.finished.map Prod.fst

/-- Every number taken up is one task's or one result's, and what holds of a task or of a result
with its input is `P` and `Q`. -/
structure Tracks (inputs : List ι) (limit : Nat) (P : ι → φ → Prop) (Q : ι → ο → Prop)
    (b : Buffer ι φ ο) : Prop where
  waits : b.waiting = inputs.drop b.next
  within : b.next ≤ inputs.length
  once : b.taken.Perm (List.range b.next)
  bounded : b.running.length ≤ limit
  running : ∀ task ∈ b.running, ∃ input, inputs[task.1]? = some input ∧ P input task.2
  finished : ∀ result ∈ b.finished, ∃ input, inputs[result.1]? = some input ∧ Q input result.2

section Tracks

variable {inputs : List ι} {limit : Nat} {P : ι → φ → Prop} {Q : ι → ο → Prop}
  {b b' : Buffer ι φ ο}

theorem tracks_start (inputs : List ι) (limit : Nat) :
    Tracks inputs limit P Q (start inputs : Buffer ι φ ο) where
  waits := rfl
  within := Nat.zero_le _
  once := .refl _
  bounded := Nat.zero_le _
  running _ member := absurd member List.not_mem_nil
  finished _ member := absurd member List.not_mem_nil

theorem Tracks.mono (tracks : Tracks inputs limit P Q b) {P' : ι → φ → Prop} {Q' : ι → ο → Prop}
    (tasks : ∀ input phase, P input phase → P' input phase)
    (results : ∀ input result, Q input result → Q' input result) :
    Tracks inputs limit P' Q' b where
  waits := tracks.waits
  within := tracks.within
  once := tracks.once
  bounded := tracks.bounded
  running task member := by
    obtain ⟨input, found, holds⟩ := tracks.running task member
    exact ⟨input, found, tasks _ _ holds⟩
  finished result member := by
    obtain ⟨input, found, holds⟩ := tracks.finished result member
    exact ⟨input, found, results _ _ holds⟩

theorem draw_eq_some {enter : ι → φ} (step : b.draw limit enter = some b') :
    b'.next = b.next + 1 ∧ b'.finished = b.finished ∧
      ∃ input, b'.running = b.running ++ [(b.next, enter input)] := by
  unfold Buffer.draw at step
  split at step
  next => cases step
  next input rest waiting =>
      split at step
      next room =>
          cases step
          exact ⟨rfl, rfl, input, rfl⟩
      next => cases step

theorem Tracks.draw (tracks : Tracks inputs limit P Q b) {enter : ι → φ}
    (starts : ∀ input ∈ inputs, P input (enter input)) (step : b.draw limit enter = some b') :
    Tracks inputs limit P Q b' := by
  unfold Buffer.draw at step
  split at step
  next => cases step
  next input rest waiting =>
      split at step
      next room =>
          cases step
          have dropped : inputs.drop b.next = input :: rest := tracks.waits.symm.trans waiting
          have found : inputs[b.next]? = some input := by
            rw [← List.head?_drop, dropped]
            rfl
          have inside : b.next < inputs.length := (List.getElem?_eq_some_iff.mp found).1
          refine ⟨?_, inside, ?_, ?_, ?_, tracks.finished⟩
          · change rest = inputs.drop (b.next + 1)
            rw [← List.tail_drop, dropped, List.tail_cons]
          · change ((b.running ++ [(b.next, enter input)]).map Prod.fst ++
              b.finished.map Prod.fst).Perm (List.range (b.next + 1))
            rw [List.range_succ, List.map_append, List.append_assoc]
            refine List.perm_middle.trans ?_
            exact (tracks.once.cons b.next).trans (List.perm_append_singleton _ _).symm
          · change (b.running ++ [(b.next, enter input)]).length ≤ limit
            rw [List.length_append, List.length_singleton]
            exact room
          · intro task member
            rcases List.mem_append.mp member with before | last
            · exact tracks.running task before
            · rw [List.mem_singleton.mp last]
              exact ⟨input, found, starts input (List.mem_of_getElem? found)⟩
      next => cases step

theorem Tracks.advance (tracks : Tracks inputs limit P Q b) {k i : Nat} {phase phase' : φ}
    (found : b.running[k]? = some (i, phase)) (goes : ∀ input, P input phase → P input phase') :
    Tracks inputs limit P Q (b.advance k (i, phase')) := by
  have same : (b.running.set k (i, phase')).map Prod.fst = b.running.map Prod.fst :=
    map_set_same Prod.fst found rfl
  refine ⟨tracks.waits, tracks.within, ?_, ?_, ?_, tracks.finished⟩
  · rw [taken, Buffer.advance, same]
    exact tracks.once
  · rw [Buffer.advance, List.length_set]
    exact tracks.bounded
  · intro task member
    rcases List.mem_or_eq_of_mem_set member with before | rfl
    · exact tracks.running task before
    · obtain ⟨input, there, holds⟩ := tracks.running _ (List.mem_of_getElem? found)
      exact ⟨input, there, goes input holds⟩

/-- A task takes its place out of the list. -/
theorem perm_eraseIdx {ρ : Type*} {tasks : List ρ} {k : Nat} {task : ρ}
    (found : tasks[k]? = some task) : tasks.Perm (task :: tasks.eraseIdx k) := by
  obtain ⟨inside, same⟩ := List.getElem?_eq_some_iff.mp found
  rw [← same]
  exact (List.getElem_cons_eraseIdx_perm inside).symm

theorem sum_eraseIdx {ρ : Type*} (share : ρ → Nat) {tasks : List ρ} {k : Nat} {task : ρ}
    (found : tasks[k]? = some task) :
    ((tasks.eraseIdx k).map share).sum + share task = (tasks.map share).sum := by
  rw [((perm_eraseIdx found).map share).sum_eq, List.map_cons, List.sum_cons, Nat.add_comm]

theorem sum_le_length {ρ : Type*} {share : ρ → Nat} {tasks : List ρ}
    (each : ∀ task ∈ tasks, share task ≤ 1) : (tasks.map share).sum ≤ tasks.length := by
  induction tasks with
  | nil => exact le_refl _
  | cons first rest ih =>
      obtain ⟨here, later⟩ := List.forall_mem_cons.mp each
      simp only [List.map_cons, List.sum_cons, List.length_cons]
      have rest := ih later
      omega

theorem Tracks.complete (tracks : Tracks inputs limit P Q b) {k i : Nat} {phase : φ} {result : ο}
    (found : b.running[k]? = some (i, phase)) (gives : ∀ input, P input phase → Q input result) :
    Tracks inputs limit P Q (b.complete k (i, result)) := by
  have erased := perm_eraseIdx found
  refine ⟨tracks.waits, tracks.within, ?_, ?_, ?_, ?_⟩
  · change ((b.running.eraseIdx k).map Prod.fst ++ (b.finished ++ [(i, result)]).map Prod.fst).Perm
      (List.range b.next)
    refine List.Perm.trans ?_ tracks.once
    rw [taken, List.map_append, ← List.append_assoc]
    refine (List.perm_append_singleton _ _).trans ?_
    exact (erased.map Prod.fst).symm.append_right _
  · exact (List.length_eraseIdx_le b.running k).trans tracks.bounded
  · intro task member
    exact tracks.running task (List.mem_of_mem_eraseIdx member)
  · intro other member
    rcases List.mem_append.mp member with before | last
    · exact tracks.finished other before
    · rw [List.mem_singleton.mp last]
      obtain ⟨input, there, holds⟩ := tracks.running _ (List.mem_of_getElem? found)
      exact ⟨input, there, gives input holds⟩

theorem Tracks.map_fst_sorted (tracks : Tracks inputs limit P Q b) (done : b.isDone = true) :
    (b.finished.insertionSort (ByKey Prod.fst)).map Prod.fst = List.range inputs.length := by
  obtain ⟨waits, runs⟩ := Bool.and_eq_true_iff.mp done
  have all : b.next = inputs.length := by
    have rest := tracks.waits
    rw [List.isEmpty_iff.mp waits] at rest
    exact Nat.le_antisymm tracks.within (List.drop_eq_nil_iff.mp rest.symm)
  have perm : (b.finished.map Prod.fst).Perm (List.range inputs.length) := by
    have once := tracks.once
    rwa [taken, List.isEmpty_iff.mp runs, List.map_nil, List.nil_append, all] at once
  apply List.Perm.eq_of_pairwise' (r := (· ≤ ·))
  · exact List.pairwise_map.mpr (List.pairwise_insertionSort (ByKey Prod.fst) b.finished)
  · exact List.pairwise_le_range
  · exact ((List.perm_insertionSort (ByKey Prod.fst) b.finished).map Prod.fst).trans perm

theorem Tracks.lt_next_of_running (tracks : Tracks inputs limit P Q b) {task : Nat × φ}
    (member : task ∈ b.running) : task.1 < b.next :=
  List.mem_range.mp (tracks.once.subset
    (List.mem_append_left _ (List.mem_map_of_mem member)))

theorem Tracks.lt_next_of_finished (tracks : Tracks inputs limit P Q b) {result : Nat × ο}
    (member : result ∈ b.finished) : result.1 < b.next :=
  List.mem_range.mp (tracks.once.subset
    (List.mem_append_right _ (List.mem_map_of_mem member)))

theorem Tracks.length_restored (tracks : Tracks inputs limit P Q b) (done : b.isDone = true) :
    b.restored.length = inputs.length := by
  have lengths := congrArg List.length (tracks.map_fst_sorted done)
  rwa [List.length_map, List.length_range, ← List.length_map (f := Prod.snd)] at lengths

/-- The `i`-th result is the one with the number `i`. -/
theorem Tracks.getElem?_restored (tracks : Tracks inputs limit P Q b) (done : b.isDone = true)
    {i : Nat} (inside : i < inputs.length) :
    ∃ result, (i, result) ∈ b.finished ∧ b.restored[i]? = some result := by
  have there : i < (b.finished.insertionSort (ByKey Prod.fst)).length := by
    have length := tracks.length_restored done
    rw [restored, List.length_map] at length
    omega
  have number : (b.finished.insertionSort (ByKey Prod.fst))[i].1 = i := by
    have at_ := congrArg (·[i]?) (tracks.map_fst_sorted done)
    simp only [List.getElem?_map, List.getElem?_eq_getElem there, Option.map_some] at at_
    rw [List.getElem?_range inside] at at_
    exact Option.some.inj at_
  have member := (List.mem_insertionSort (ByKey Prod.fst)).mp (List.getElem_mem there)
  generalize at_ : (b.finished.insertionSort (ByKey Prod.fst))[i] = numbered at number member
  obtain ⟨_, result⟩ := numbered
  subst number
  refine ⟨result, member, ?_⟩
  rw [restored, List.getElem?_map, List.getElem?_eq_getElem there, at_, Option.map_some]

/-- When all tasks have ended there is one result for each input, in the order of the inputs. -/
theorem Tracks.forall₂_restored (tracks : Tracks inputs limit P Q b) (done : b.isDone = true) :
    List.Forall₂ Q inputs b.restored := by
  refine List.forall₂_iff_get.mpr ⟨(tracks.length_restored done).symm, fun i here there => ?_⟩
  obtain ⟨result, member, at_⟩ := tracks.getElem?_restored done here
  obtain ⟨input, found, holds⟩ := tracks.finished _ member
  rw [List.getElem?_eq_getElem here, Option.some.injEq] at found
  rw [List.getElem?_eq_getElem there, Option.some.injEq] at at_
  subst found at_
  exact holds

theorem restored_perm (b : Buffer ι φ ο) : b.restored.Perm (b.finished.map Prod.snd) :=
  (List.perm_insertionSort (ByKey Prod.fst) b.finished).map Prod.snd

/-- Every input has its result. -/
theorem Tracks.exists_result (tracks : Tracks inputs limit P Q b) (done : b.isDone = true)
    {input : ι} (member : input ∈ inputs) : ∃ result ∈ b.restored, Q input result := by
  obtain ⟨length, each⟩ := List.forall₂_iff_get.mp (tracks.forall₂_restored done)
  obtain ⟨i, inside, rfl⟩ := List.mem_iff_getElem.mp member
  exact ⟨_, List.getElem_mem (length ▸ inside), each i inside (length ▸ inside)⟩

/-- Every result is that of an input. -/
theorem Tracks.exists_input (tracks : Tracks inputs limit P Q b) {result : ο}
    (member : result ∈ b.restored) : ∃ input ∈ inputs, Q input result := by
  obtain ⟨⟨i, _⟩, there, rfl⟩ := List.mem_map.mp (b.restored_perm.subset member)
  obtain ⟨input, found, holds⟩ := tracks.finished _ there
  exact ⟨input, List.mem_of_getElem? found, holds⟩

end Tracks

end Buffer

end Unordered
