import Mathlib.Data.List.Basic
import Mathlib.Logic.Basic

/-!
# JSON values in memory

A value as a program holds it: a number is an integer without a sign, a negative one, or a finite
double, and an object is the list of its members.  Two values are equal when they are the same but
for the sign of a zero.
-/

namespace JsonTree

/-- A finite double, by its bits. -/
structure Double where
  bits : UInt64
  finite : bits &&& 0x7ff0000000000000 ≠ 0x7ff0000000000000
  deriving DecidableEq

def Double.zero : Double := ⟨0, by decide⟩

def Double.isZero (d : Double) : Bool := d.bits = 0 || d.bits = 0x8000000000000000

/-- The comparison of doubles, which does not see the sign of a zero. -/
def Double.beq (a b : Double) : Bool := a = b || (a.isZero && b.isZero)

inductive Number
  | posInt (n : UInt64)
  | negInt (i : Int) (negative : i < 0) (fits : -9223372036854775808 ≤ i)
  | float (d : Double)
  deriving DecidableEq

def Number.beq : Number → Number → Bool
  | .posInt n, .posInt m => n = m
  | .negInt i _ _, .negInt j _ _ => i = j
  | .float a, .float b => a.beq b
  | _, _ => false

abbrev Key := List Char

inductive Value
  | null
  | bool (b : Bool)
  | number (n : Number)
  | string (text : List Char)
  | array (elements : List Value)
  | object (members : List (Key × Value))

/-! ## Parts -/

/-- The member of an object with this key. -/
def Value.get (v : Value) (key : Key) : Option Value :=
  match v with
  | .object members => members.lookup key
  | _ => none

def Value.asStr : Value → Option (List Char)
  | .string text => some text
  | _ => none

def Value.asArray : Value → Option (List Value)
  | .array elements => some elements
  | _ => none

def Value.asObject : Value → Option (List (Key × Value))
  | .object members => some members
  | _ => none

def Value.isNull : Value → Bool
  | .null => true
  | _ => false

def Value.isBoolean : Value → Bool
  | .bool _ => true
  | _ => false

def Value.isNumber : Value → Bool
  | .number _ => true
  | _ => false

/-- An integer of 64 bits with a sign. -/
def Value.isI64 : Value → Bool
  | .number (.posInt n) => n ≤ 9223372036854775807
  | .number (.negInt _ _ _) => true
  | _ => false

/-- An integer of 64 bits without a sign. -/
def Value.isU64 : Value → Bool
  | .number (.posInt _) => true
  | _ => false

variable {v sub : Value} {key : Key} {members : List (Key × Value)} {elements : List Value}

theorem asStr_eq_some {text : List Char} : v.asStr = some text ↔ v = .string text := by
  cases v <;> simp [Value.asStr]

theorem asArray_eq_some : v.asArray = some elements ↔ v = .array elements := by
  cases v <;> simp [Value.asArray]

theorem asObject_eq_some : v.asObject = some members ↔ v = .object members := by
  cases v <;> simp [Value.asObject]

theorem mem_of_lookup {α : Type*} {entries : List (Key × α)} {found : α}
    (lookup : entries.lookup key = some found) : (key, found) ∈ entries := by
  obtain ⟨before, behind, split, -⟩ := List.lookup_eq_some_iff.mp lookup
  rw [split]
  exact List.mem_append_right _ List.mem_cons_self

theorem sizeOf_lt_of_mem (member : (key, sub) ∈ members) : sizeOf sub < sizeOf members := by
  have smaller := List.sizeOf_lt_of_mem member
  rw [Prod.mk.sizeOf_spec] at smaller
  omega

/-- A part of a value is smaller than the value. -/
theorem sizeOf_lt_of_get (found : v.get key = some sub) : sizeOf sub < sizeOf v := by
  cases v with
  | object members =>
      have smaller := sizeOf_lt_of_mem (mem_of_lookup found)
      rw [Value.object.sizeOf_spec]
      omega
  | null => cases found
  | bool b => cases found
  | number n => cases found
  | string text => cases found
  | array elements => cases found

/-! ## Equality -/

mutual

def Value.beq : Value → Value → Bool
  | .null, .null => true
  | .bool a, .bool b => a = b
  | .number a, .number b => a.beq b
  | .string a, .string b => a = b
  | .array as, .array bs => beqElements as bs
  | .object as, .object bs => beqMembers as bs
  | _, _ => false

def beqElements : List Value → List Value → Bool
  | [], [] => true
  | a :: as, b :: bs => a.beq b && beqElements as bs
  | _, _ => false

def beqMembers : List (Key × Value) → List (Key × Value) → Bool
  | [], [] => true
  | (k, a) :: as, (l, b) :: bs => decide (k = l) && a.beq b && beqMembers as bs
  | _, _ => false

end

/-- A zero without its sign. -/
def Double.unsigned (d : Double) : Double := if d.isZero then .zero else d

def Number.unsigned : Number → Number
  | .float d => .float d.unsigned
  | n => n

mutual

/-- The value with no sign at any zero. -/
def Value.unsigned : Value → Value
  | .number n => .number n.unsigned
  | .array elements => .array (unsignedElements elements)
  | .object members => .object (unsignedMembers members)
  | v => v

def unsignedElements : List Value → List Value
  | [] => []
  | v :: rest => v.unsigned :: unsignedElements rest

def unsignedMembers : List (Key × Value) → List (Key × Value)
  | [] => []
  | (k, v) :: rest => (k, v.unsigned) :: unsignedMembers rest

end

theorem Double.beq_iff (a b : Double) : a.beq b = true ↔ a.unsigned = b.unsigned := by
  rw [Double.beq, Double.unsigned, Double.unsigned, Bool.or_eq_true, Bool.and_eq_true,
    decide_eq_true_iff]
  by_cases zero : a.isZero = true
  · by_cases zero' : b.isZero = true
    · rw [if_pos zero, if_pos zero']
      exact iff_of_true (.inr ⟨zero, zero'⟩) rfl
    · rw [if_pos zero, if_neg zero']
      refine iff_of_false ?_ ?_
      · intro either
        rcases either with same | ⟨-, other⟩
        · exact zero' (same ▸ zero)
        · exact zero' other
      · intro same
        rw [← same] at zero'
        exact zero' rfl
  · by_cases zero' : b.isZero = true
    · rw [if_neg zero, if_pos zero']
      refine iff_of_false ?_ ?_
      · intro either
        rcases either with same | ⟨other, -⟩
        · exact zero (same ▸ zero')
        · exact zero other
      · intro same
        rw [same] at zero
        exact zero rfl
    · rw [if_neg zero, if_neg zero']
      exact or_iff_left fun both => zero both.1

theorem Number.beq_iff (a b : Number) : a.beq b = true ↔ a.unsigned = b.unsigned := by
  cases a <;> cases b <;> simp [Number.beq, Number.unsigned, Double.beq_iff]

mutual

/-- Values are equal when they are the same but for the sign of a zero. -/
theorem Value.beq_iff : ∀ a b : Value, a.beq b = true ↔ a.unsigned = b.unsigned
  | .null, b => by cases b <;> simp [Value.beq, Value.unsigned]
  | .bool a, b => by cases b <;> simp [Value.beq, Value.unsigned]
  | .number a, b => by cases b <;> simp [Value.beq, Value.unsigned, Number.beq_iff]
  | .string a, b => by cases b <;> simp [Value.beq, Value.unsigned]
  | .array as, b => by
      cases b with
      | array bs => simp [Value.beq, Value.unsigned, beqElements_iff as bs]
      | _ => simp [Value.beq, Value.unsigned]
  | .object as, b => by
      cases b with
      | object bs => simp [Value.beq, Value.unsigned, beqMembers_iff as bs]
      | _ => simp [Value.beq, Value.unsigned]

theorem beqElements_iff : ∀ as bs : List Value,
    beqElements as bs = true ↔ unsignedElements as = unsignedElements bs
  | [], bs => by cases bs <;> simp [beqElements, unsignedElements]
  | a :: as, bs => by
      cases bs with
      | nil => simp [beqElements, unsignedElements]
      | cons b bs =>
          simp [beqElements, unsignedElements, Value.beq_iff a b, beqElements_iff as bs]

theorem beqMembers_iff : ∀ as bs : List (Key × Value),
    beqMembers as bs = true ↔ unsignedMembers as = unsignedMembers bs
  | [], bs => by cases bs <;> simp [beqMembers, unsignedMembers]
  | (k, a) :: as, bs => by
      cases bs with
      | nil => simp [beqMembers, unsignedMembers]
      | cons m bs =>
          obtain ⟨l, b⟩ := m
          simp [beqMembers, unsignedMembers, Value.beq_iff a b, beqMembers_iff as bs]

end

theorem Value.beq_refl (a : Value) : a.beq a = true := (Value.beq_iff a a).mpr rfl

theorem Value.beq_comm (a b : Value) : a.beq b = b.beq a := by
  rw [Bool.eq_iff_iff, Value.beq_iff, Value.beq_iff]
  exact eq_comm

end JsonTree
