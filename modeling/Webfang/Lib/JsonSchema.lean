import Webfang.Lib.JsonTree
import Mathlib.Tactic.SplitIfs

/-!
# A subset of JSON Schema

What it is for a value to satisfy a schema of the keywords `type`, `required`, `properties`, `items`
and `enum`.  A schema is a value itself.  `Place` follows a schema and a value down together, and a
value satisfies its schema just when every place is sound by itself.
-/

namespace JsonSchema

open JsonTree

/-! ## Kinds -/

/-- The types that a schema can name. -/
inductive Kind
  | null
  | boolean
  | number
  | integer
  | string
  | array
  | object
  deriving DecidableEq

def Kind.ofName (name : List Char) : Option Kind :=
  if name = "null".toList then some .null
  else if name = "boolean".toList then some .boolean
  else if name = "number".toList then some .number
  else if name = "integer".toList then some .integer
  else if name = "string".toList then some .string
  else if name = "array".toList then some .array
  else if name = "object".toList then some .object
  else none

def Kind.name : Kind → List Char
  | .null => "null".toList
  | .boolean => "boolean".toList
  | .number => "number".toList
  | .integer => "integer".toList
  | .string => "string".toList
  | .array => "array".toList
  | .object => "object".toList

theorem Kind.ofName_eq_some {name : List Char} {k : Kind} (found : Kind.ofName name = some k) :
    name = k.name := by
  unfold Kind.ofName at found
  split_ifs at found with null boolean number integer string array object
  all_goals
    cases found
    assumption

/-- An integer is a number without a fraction and an exponent, of 64 bits. -/
def Kind.holds : Kind → Value → Bool
  | .null, .null => true
  | .boolean, .bool _ => true
  | .number, .number _ => true
  | .integer, .number (.posInt _) => true
  | .integer, .number (.negInt _ _ _) => true
  | .string, .string _ => true
  | .array, .array _ => true
  | .object, .object _ => true
  | _, _ => false

/-- The kind that a schema asks for. -/
def kind (schema : Value) : Option Kind :=
  ((schema.get "type".toList).bind Value.asStr).bind Kind.ofName

def HasKind (schema v : Value) : Prop := ∃ k, kind schema = some k ∧ k.holds v = true

/-! ## Satisfaction -/

/-- What a schema asks of a value without looking below it. -/
structure Local (schema v : Value) : Prop where
  kind : HasKind schema v
  required : ∀ names, schema.get "required".toList = some (.array names) →
    ∀ name, .string name ∈ names → ∀ members, v = .object members → ∃ child, v.get name = some child
  enum : ∀ allowed, schema.get "enum".toList = some (.array allowed) →
    ∃ a ∈ allowed, a.beq v = true

inductive Step
  | key (key : Key)
  | index (i : Nat)
  deriving DecidableEq

/-- A schema and a value right below others. -/
inductive Child (schema v : Value) : Step → Value → Value → Prop
  | property {properties : List (Key × Value)} {key : Key} {sub child : Value}
      (declared : schema.get "properties".toList = some (.object properties))
      (member : (key, sub) ∈ properties) (here : v.get key = some child) :
      Child schema v (.key key) sub child
  | item {elements : List Value} {i : Nat} {sub child : Value}
      (declared : schema.get "items".toList = some sub) (array : v = .array elements)
      (here : elements[i]? = some child) : Child schema v (.index i) sub child

inductive Satisfies : Value → Value → Prop
  | intro {schema v : Value} (here : Local schema v)
      (below : ∀ step sub child, Child schema v step sub child → Satisfies sub child) :
      Satisfies schema v

/-- A schema and a value at the end of some steps. -/
inductive Place : Value → Value → List Step → Value → Value → Prop
  | here (schema v : Value) : Place schema v [] schema v
  | further {schema v sub child sub' child' : Value} {step : Step} {steps : List Step}
      (first : Child schema v step sub child) (later : Place sub child steps sub' child') :
      Place schema v (step :: steps) sub' child'

variable {schema v sub child : Value} {step : Step}

theorem satisfies_iff : Satisfies schema v ↔
    Local schema v ∧ ∀ step sub child, Child schema v step sub child → Satisfies sub child := by
  constructor
  · intro satisfies
    cases satisfies with
    | intro here below => exact ⟨here, below⟩
  · intro both
    exact .intro both.1 both.2

/-- The schema gets smaller from step to step. -/
theorem Child.sizeOf_lt (next : Child schema v step sub child) : sizeOf sub < sizeOf schema := by
  cases next with
  | property declared member here =>
      have whole := sizeOf_lt_of_get declared
      have part := sizeOf_lt_of_mem member
      rw [Value.object.sizeOf_spec] at whole
      omega
  | item declared array here => exact sizeOf_lt_of_get declared

/-- Induction from the parts of a schema to the schema, whatever the value. -/
theorem schema_induction {P : Value → Value → Prop}
    (step : ∀ schema v, (∀ s sub child, Child schema v s sub child → P sub child) → P schema v)
    (schema v : Value) : P schema v := by
  induction size : sizeOf schema using Nat.strongRecOn generalizing schema v with
  | ind n ih =>
      apply step
      intro s sub child next
      have smaller := next.sizeOf_lt
      rw [size] at smaller
      exact ih (sizeOf sub) smaller sub child rfl

/-- A value satisfies its schema just when every place is sound by itself. -/
theorem satisfies_iff_places :
    Satisfies schema v ↔ ∀ steps sub child, Place schema v steps sub child → Local sub child := by
  constructor
  · intro satisfies steps sub child place
    induction place with
    | here => exact (satisfies_iff.mp satisfies).1
    | further first later ih => exact ih ((satisfies_iff.mp satisfies).2 _ _ _ first)
  · induction schema, v using schema_induction with
    | step schema v ih =>
        intro sound
        refine .intro (sound [] schema v (.here schema v)) ?_
        intro s sub child next
        apply ih s sub child next
        intro steps sub' child' place
        exact sound (s :: steps) sub' child' (.further next place)

/-- A part that violates its schema is in a whole that violates its own. -/
theorem not_satisfies_of_place {steps : List Step} (place : Place schema v steps sub child)
    (violates : ¬ Satisfies sub child) : ¬ Satisfies schema v := by
  induction place with
  | here => exact violates
  | further first later ih =>
      intro satisfies
      exact ih violates ((satisfies_iff.mp satisfies).2 _ _ _ first)

theorem Place.snoc {sub' child' : Value} {steps : List Step} {s : Step}
    (place : Place schema v steps sub child) (last : Child sub child s sub' child') :
    Place schema v (steps ++ [s]) sub' child' := by
  induction place with
  | here schema v => exact .further last (.here sub' child')
  | further first later ih => exact .further first (ih last)

end JsonSchema
