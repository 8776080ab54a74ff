import Webfang.Lib.JsonTree
import Mathlib.Data.Char
import Mathlib.Data.List.Lex

/-!
# Objects in the order of their keys

A map that is sorted by key holds the members of an object in one order, whatever order they were
written in.  Equality that knows nothing of an order is then the equality of the lists.
-/

namespace JsonTree

mutual

/-- Every object in the value has its members in the strict order of their keys. -/
def Value.Sorted : Value → Prop
  | .array elements => SortedElements elements
  | .object members => (members.map Prod.fst).Pairwise (· < ·) ∧ SortedMembers members
  | _ => True

def SortedElements : List Value → Prop
  | [] => True
  | v :: rest => v.Sorted ∧ SortedElements rest

def SortedMembers : List (Key × Value) → Prop
  | [] => True
  | (_, v) :: rest => v.Sorted ∧ SortedMembers rest

end

/-- A value of a program, its objects maps that are sorted by key. -/
structure Tree where
  value : Value
  sorted : value.Sorted

mutual

/-- Equality of JSON values: objects are equal when they have the same keys and equal values under
them, in whatever order. -/
def Value.Same : Value → Value → Prop
  | .null, .null => True
  | .bool a, .bool b => a = b
  | .number a, .number b => a.beq b = true
  | .string a, .string b => a = b
  | .array as, .array bs => SameElements as bs
  | .object as, .object bs => SameMembers as bs ∧ ∀ key ∈ bs.map Prod.fst, key ∈ as.map Prod.fst
  | _, _ => False

def SameElements : List Value → List Value → Prop
  | [], [] => True
  | a :: as, b :: bs => a.Same b ∧ SameElements as bs
  | _, _ => False

/-- Each member on the left has an equal one under its key on the right. -/
def SameMembers : List (Key × Value) → List (Key × Value) → Prop
  | [], _ => True
  | (k, a) :: as, bs => (∃ b, bs.lookup k = some b ∧ a.Same b) ∧ SameMembers as bs

end

theorem sortedElements_iff {elements : List Value} :
    SortedElements elements ↔ ∀ v ∈ elements, v.Sorted := by
  induction elements with
  | nil => exact iff_of_true trivial fun v inside => absurd inside List.not_mem_nil
  | cons v rest ih => rw [SortedElements, ih, List.forall_mem_cons]

/-! ## Equality in order -/

theorem mem_keys_of_sameMembers {as bs : List (Key × Value)} (same : SameMembers as bs) {key : Key}
    (member : key ∈ as.map Prod.fst) : key ∈ bs.map Prod.fst := by
  induction as with
  | nil => cases member
  | cons entry as ih =>
      obtain ⟨k, a⟩ := entry
      obtain ⟨⟨b, found, -⟩, rest⟩ := same
      rcases List.mem_cons.mp member with here | later
      · rw [here]
        exact List.mem_map.mpr ⟨(k, b), mem_of_lookup found, rfl⟩
      · exact ih rest later

/-- A member under another key makes no difference. -/
theorem sameMembers_cons {as bs : List (Key × Value)} {key : Key} {b : Value}
    (other : key ∉ as.map Prod.fst) : SameMembers as ((key, b) :: bs) ↔ SameMembers as bs := by
  induction as with
  | nil => exact Iff.rfl
  | cons entry as ih =>
      obtain ⟨k, a⟩ := entry
      rw [List.map_cons, List.mem_cons, not_or] at other
      have apart : (k == key) = false := beq_false_of_ne fun same => other.1 same.symm
      rw [SameMembers, SameMembers, ih other.2, List.lookup_cons, apart]

/-- The least keys of two maps with the same keys are the same. -/
theorem least_key_eq {k l : Key} {as bs : List Key} (ordered : (k :: as).Pairwise (· < ·))
    (ordered' : (l :: bs).Pairwise (· < ·)) (left : k ∈ l :: bs) (right : l ∈ k :: as) : k = l := by
  rcases List.mem_cons.mp left with same | later
  · exact same
  rcases List.mem_cons.mp right with same | later'
  · exact same.symm
  have below := (List.pairwise_cons.mp ordered').1 k later
  have above := (List.pairwise_cons.mp ordered).1 l later'
  exact absurd above (List.lt_asymm below)

theorem notMem_of_pairwise {k : Key} {as : List Key} (ordered : (k :: as).Pairwise (· < ·)) :
    k ∉ as :=
  fun member => List.lt_irrefl k ((List.pairwise_cons.mp ordered).1 k member)

mutual

/-- In the order of the keys, equality without an order is equality. -/
theorem Value.beq_iff_same : ∀ a b : Value, a.Sorted → b.Sorted → (a.beq b = true ↔ a.Same b)
  | .null, b, _, _ => by cases b <;> simp [Value.beq, Value.Same]
  | .bool a, b, _, _ => by cases b <;> simp [Value.beq, Value.Same]
  | .number a, b, _, _ => by cases b <;> simp [Value.beq, Value.Same]
  | .string a, b, _, _ => by cases b <;> simp [Value.beq, Value.Same]
  | .array as, b, sorted, sorted' => by
      cases b with
      | array bs => exact beqElements_iff_same as bs sorted sorted'
      | _ => simp [Value.beq, Value.Same]
  | .object as, b, sorted, sorted' => by
      cases b with
      | object bs => exact beqMembers_iff_same as bs sorted.1 sorted'.1 sorted.2 sorted'.2
      | _ => simp [Value.beq, Value.Same]

theorem beqElements_iff_same : ∀ as bs : List Value, SortedElements as → SortedElements bs →
    (beqElements as bs = true ↔ SameElements as bs)
  | [], bs, _, _ => by cases bs <;> simp [beqElements, SameElements]
  | a :: as, bs, sorted, sorted' => by
      cases bs with
      | nil => simp [beqElements, SameElements]
      | cons b bs =>
          rw [beqElements, SameElements, Bool.and_eq_true,
            Value.beq_iff_same a b sorted.1 sorted'.1,
            beqElements_iff_same as bs sorted.2 sorted'.2]

theorem beqMembers_iff_same : ∀ as bs : List (Key × Value),
    (as.map Prod.fst).Pairwise (· < ·) → (bs.map Prod.fst).Pairwise (· < ·) →
    SortedMembers as → SortedMembers bs →
    (beqMembers as bs = true ↔
      SameMembers as bs ∧ ∀ key ∈ bs.map Prod.fst, key ∈ as.map Prod.fst)
  | [], bs, _, _, _, _ => by
      cases bs with
      | nil => simp [beqMembers, SameMembers]
      | cons m bs =>
          refine iff_of_false Bool.false_ne_true ?_
          intro both
          exact absurd (both.2 m.1 List.mem_cons_self) List.not_mem_nil
  | (k, a) :: as, [], _, _, _, _ => by
      refine iff_of_false Bool.false_ne_true ?_
      intro both
      obtain ⟨⟨⟨b, found, -⟩, -⟩, -⟩ := both
      cases found
  | (k, a) :: as, (l, b) :: bs, ordered, ordered', sorted, sorted' => by
      have later := beqMembers_iff_same as bs (List.pairwise_cons.mp ordered).2
        (List.pairwise_cons.mp ordered').2 sorted.2 sorted'.2
      rw [beqMembers, Bool.and_eq_true, Bool.and_eq_true, decide_eq_true_iff,
        Value.beq_iff_same a b sorted.1 sorted'.1, later]
      constructor
      · intro both
        obtain ⟨⟨rfl, here⟩, rest, keys⟩ := both
        refine ⟨⟨⟨b, List.lookup_cons_self, here⟩, ?_⟩, ?_⟩
        · exact (sameMembers_cons (notMem_of_pairwise ordered)).mpr rest
        · intro key member
          rcases List.mem_cons.mp member with same | inside
          · rw [same]
            exact List.mem_cons_self
          · exact List.mem_cons_of_mem _ (keys key inside)
      · intro both
        have same : k = l := least_key_eq ordered ordered'
          (mem_keys_of_sameMembers both.1 List.mem_cons_self) (both.2 l List.mem_cons_self)
        subst same
        obtain ⟨⟨⟨b', found, here⟩, rest⟩, keys⟩ := both
        rw [List.lookup_cons_self] at found
        cases found
        refine ⟨⟨rfl, here⟩, (sameMembers_cons (notMem_of_pairwise ordered)).mp rest, ?_⟩
        intro key member
        rcases List.mem_cons.mp (keys key (List.mem_cons_of_mem _ member)) with same | inside
        · rw [same] at member
          exact absurd member (notMem_of_pairwise ordered')
        · exact inside

end

end JsonTree
