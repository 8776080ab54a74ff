import Webfang.Lib.JsonSchema
import Webfang.Lib.Json
import Webfang.Lib.Traversal

/-!
# Validation of extracted records (`domain/llm/validation.rs`)

A schema is checked once, by `validateSchema`, and each record against it, by `validateRecord`.
-/

namespace Webfang.SchemaValidation

open JsonTree JsonSchema Traversal

inductive SchemaError
  | typeMismatch (path expected actual : List Char)
  | missingRequired (path field : List Char)
  | notInEnum (path : List Char)
  | itemsTypeMismatch (path : List Char) (idx : Nat)
  | invalidSchema (msg : List Char)
  deriving DecidableEq

/-- The text of `Display`. -/
def SchemaError.text : SchemaError → List Char
  | .typeMismatch path expected actual =>
      "tipo inválido en ".toList ++ path ++ ": se esperaba ".toList ++ expected ++
        ", se recibió ".toList ++ actual
  | .missingRequired path field =>
      "falta el campo requerido '".toList ++ field ++ "' en ".toList ++ path
  | .notInEnum path => "valor fuera de enum en ".toList ++ path
  | .itemsTypeMismatch path idx =>
      "elemento [".toList ++ Json.ofNat idx ++ "] de ".toList ++ path ++
        " tiene tipo inválido".toList
  | .invalidSchema msg => "esquema inválido: ".toList ++ msg

/-! ## Schemas -/

/-- The name of the type, when there is one. -/
def typeName (node : Value) : Option (List Char) := (node.get "type".toList).bind Value.asStr

/-- The declared properties, none when they are not an object. -/
def properties (node : Value) : List (Key × Value) :=
  ((node.get "properties".toList).bind Value.asObject).getD []

def childPath (path : List Char) (key : Key) : List Char := path ++ '.' :: key

theorem get_properties {node : Value} {entry : Key × Value} (member : entry ∈ properties node) :
    ∃ props, node.get "properties".toList = some (.object props) ∧ entry ∈ props := by
  rw [properties] at member
  cases found : (node.get "properties".toList).bind Value.asObject with
  | none =>
      rw [found] at member
      cases member
  | some props =>
      rw [found] at member
      rcases Option.bind_eq_some_iff.mp found with ⟨v, get, object⟩
      rw [asObject_eq_some.mp object] at get
      exact ⟨props, get, member⟩

theorem properties_of_get {node : Value} {props : List (Key × Value)}
    (get : node.get "properties".toList = some (.object props)) : properties node = props := by
  rw [properties, get]
  rfl

theorem sizeOf_lt_of_property {node : Value} {entry : Key × Value}
    (member : entry ∈ properties node) : sizeOf entry.2 < sizeOf node := by
  rcases get_properties member with ⟨props, get, inside⟩
  have whole := sizeOf_lt_of_get get
  have part : sizeOf entry.2 < sizeOf props := sizeOf_lt_of_mem inside
  rw [Value.object.sizeOf_spec] at whole
  omega

theorem sizeOf_lt_of_items {node items : Value}
    (member : items ∈ (node.get "items".toList).toList) : sizeOf items < sizeOf node :=
  sizeOf_lt_of_get (Option.mem_toList.mp member)

def isSimple (ty : List Char) : Bool :=
  ty = "string".toList || ty = "number".toList || ty = "integer".toList || ty = "boolean".toList ||
    ty = "null".toList

/-- `enum`, when there is one, has to be an array. -/
def checkEnumShape (node : Value) (path : List Char) : Except SchemaError Unit :=
  if (node.get "enum".toList).any fun e => e.asArray.isNone then
    .error (.invalidSchema ("'enum' debe ser un array en ".toList ++ path))
  else .ok ()

def walkSchema (node : Value) (path : List Char) : Except SchemaError Unit :=
  match typeName node with
  | none => .error (.invalidSchema ("el campo 'type' es obligatorio en ".toList ++ path))
  | some ty =>
      (if ty = "object".toList then
        (properties node).attach.forM fun entry =>
          walkSchema entry.val.2 (childPath path entry.val.1)
      else if ty = "array".toList then
        (node.get "items".toList).toList.attach.forM fun items =>
          walkSchema items.val (path ++ ".items".toList)
      else if isSimple ty then .ok ()
      else .error (.invalidSchema
        ("tipo no soportado '".toList ++ ty ++ "' en ".toList ++ path))) >>= fun _ =>
      checkEnumShape node path
termination_by sizeOf node
decreasing_by
  · exact sizeOf_lt_of_property entry.property
  · exact sizeOf_lt_of_items items.property

def validateSchema (schema : Value) : Except SchemaError Unit := walkSchema schema "$".toList

/-! ## Records -/

def actualType : Value → List Char
  | .null => "null".toList
  | .bool _ => "boolean".toList
  | .number _ => "number".toList
  | .string _ => "string".toList
  | .array _ => "array".toList
  | .object _ => "object".toList

def typeMatches (v : Value) (expected : List Char) : Bool :=
  if expected = "string".toList then v.asStr.isSome
  else if expected = "number".toList then v.isNumber
  else if expected = "integer".toList then v.isI64 || v.isU64
  else if expected = "boolean".toList then v.isBoolean
  else if expected = "null".toList then v.isNull
  else if expected = "array".toList then v.asArray.isSome
  else if expected = "object".toList then v.asObject.isSome
  else false

/-- The first required name that the object lacks, if any. -/
def checkRequired (value schema : Value) (path : List Char) : Except SchemaError Unit :=
  match (schema.get "required".toList).bind Value.asArray with
  | none => .ok ()
  | some required => (required.filterMap Value.asStr).forM fun name =>
      if (value.get name).isSome then .ok () else .error (.missingRequired path name)

def checkItemsFrom (expected path : List Char) : Nat → List Value → Except SchemaError Unit
  | _, [] => .ok ()
  | idx, item :: rest =>
      if typeMatches item expected then checkItemsFrom expected path (idx + 1) rest
      else .error (.itemsTypeMismatch path idx)

/-- Of the schema of the items, only the type is looked at. -/
def checkItems (arr : List Value) (schema : Value) (path : List Char) : Except SchemaError Unit :=
  match (schema.get "items".toList).bind typeName with
  | none => .ok ()
  | some expected => checkItemsFrom expected path 0 arr

def checkEnum (value schema : Value) (path : List Char) : Except SchemaError Unit :=
  match (schema.get "enum".toList).bind Value.asArray with
  | none => .ok ()
  | some vals => if vals.any (fun a => a.beq value) then .ok () else .error (.notInEnum path)

def expectedType (schema : Value) : List Char := (typeName schema).getD "null".toList

def walkRecord (value schema : Value) (path : List Char) : Except SchemaError Unit :=
  (if expectedType schema = "object".toList then
    match value.asObject with
    | none => .error (.typeMismatch path "object".toList (actualType value))
    | some _ =>
        checkRequired value schema path >>= fun _ =>
        (properties schema).attach.forM fun entry =>
          match value.get entry.val.1 with
          | none => .ok ()
          | some v => walkRecord v entry.val.2 (childPath path entry.val.1)
  else if expectedType schema = "array".toList then
    match value.asArray with
    | none => .error (.typeMismatch path "array".toList (actualType value))
    | some arr => checkItems arr schema path
  else if typeMatches value (expectedType schema) then .ok ()
  else .error (.typeMismatch path (expectedType schema) (actualType value))) >>= fun _ =>
  checkEnum value schema path
termination_by sizeOf schema
decreasing_by exact sizeOf_lt_of_property entry.property

/-- The first violation that the walk meets, if any. -/
def validateRecord (record schema : Value) : Except SchemaError Unit :=
  walkRecord record schema "$".toList

/-! ## Accepted schemas -/

variable {schema v sub child : Value} {path : List Char} {k : Kind}

theorem typeName_eq (here : kind schema = some k) : typeName schema = some k.name := by
  rcases Option.bind_eq_some_iff.mp here with ⟨name, found, named⟩
  rw [Kind.ofName_eq_some named] at found
  exact found

theorem expectedType_eq (here : kind schema = some k) : expectedType schema = k.name := by
  rw [expectedType, typeName_eq here]
  rfl

theorem object_name : Kind.object.name = "object".toList := rfl

theorem array_name : Kind.array.name = "array".toList := rfl

theorem typeMatches_name (k : Kind) (v : Value) : typeMatches v k.name = k.holds v := by
  cases k <;> cases v
  case integer.number n =>
    cases n with
    | posInt n => exact Bool.or_true (Value.isI64 (.number (.posInt n)))
    | negInt i negative fits => rfl
    | float d => rfl
  all_goals rfl

/-- A schema that the walk accepts, wherever it stands. -/
def Accepted (schema : Value) : Prop := ∃ path, walkSchema schema path = .ok ()

theorem Accepted.exists_kind (accepted : Accepted schema) : ∃ k, kind schema = some k := by
  rcases accepted with ⟨path, walked⟩
  rw [walkSchema] at walked
  cases named : typeName schema with
  | none =>
      rw [named] at walked
      cases walked
  | some ty =>
      rw [named] at walked
      have known := (then_eq_ok_iff.mp walked).1
      have ofName : ∃ k, Kind.ofName ty = some k := by
        by_cases object : ty = "object".toList
        · exact ⟨.object, by rw [object]; rfl⟩
        by_cases array : ty = "array".toList
        · exact ⟨.array, by rw [array]; rfl⟩
        rw [if_neg object, if_neg array] at known
        by_cases simple : isSimple ty = true
        · simp only [isSimple, Bool.or_eq_true, decide_eq_true_iff] at simple
          rcases simple with (((rfl | rfl) | rfl) | rfl) | rfl
          · exact ⟨.string, rfl⟩
          · exact ⟨.number, rfl⟩
          · exact ⟨.integer, rfl⟩
          · exact ⟨.boolean, rfl⟩
          · exact ⟨.null, rfl⟩
        · rw [if_neg simple] at known
          cases known
      rcases ofName with ⟨k, found⟩
      exact ⟨k, Option.bind_eq_some_iff.mpr ⟨ty, named, found⟩⟩

theorem Accepted.property (accepted : Accepted schema) (object : kind schema = some .object)
    {entry : Key × Value} (member : entry ∈ properties schema) : Accepted entry.2 := by
  rcases accepted with ⟨path, walked⟩
  rw [walkSchema, typeName_eq object] at walked
  have each := (then_eq_ok_iff.mp walked).1
  rw [if_pos object_name, forM_eq_ok_iff] at each
  exact ⟨_, each ⟨entry, member⟩ (List.mem_attach _ _)⟩

theorem Accepted.items (accepted : Accepted schema) (array : kind schema = some .array)
    {items : Value} (declared : schema.get "items".toList = some items) : Accepted items := by
  rcases accepted with ⟨path, walked⟩
  rw [walkSchema, typeName_eq array] at walked
  have each := (then_eq_ok_iff.mp walked).1
  rw [if_neg (by decide), if_pos array_name, forM_eq_ok_iff] at each
  exact ⟨_, each ⟨items, Option.mem_toList.mpr declared⟩ (List.mem_attach _ _)⟩

/-! ## One level of a record -/

theorem hasKind_iff (here : kind schema = some k) : HasKind schema v ↔ k.holds v = true := by
  constructor
  · intro has
    rcases has with ⟨k', there, holds⟩
    rw [here] at there
    cases there
    exact holds
  · intro holds
    exact ⟨k, here, holds⟩

theorem get_array {key : Key} {vals : List Value} :
    (schema.get key).bind Value.asArray = some vals ↔ schema.get key = some (.array vals) := by
  rw [Option.bind_eq_some_iff]
  constructor
  · intro found
    rcases found with ⟨a, get, array⟩
    rw [asArray_eq_some.mp array] at get
    exact get
  · intro get
    exact ⟨.array vals, get, rfl⟩

theorem checkEnum_ok : checkEnum v schema path = .ok () ↔
    ∀ allowed, schema.get "enum".toList = some (.array allowed) →
      ∃ a ∈ allowed, a.beq v = true := by
  rw [checkEnum]
  cases found : (schema.get "enum".toList).bind Value.asArray with
  | none =>
      refine iff_of_true rfl ?_
      intro allowed get
      rw [get_array.mpr get] at found
      cases found
  | some vals =>
      have get := get_array.mp found
      simp only [get, Option.some.injEq, Value.array.injEq]
      by_cases contained : vals.any (fun a => a.beq v) = true
      · rw [if_pos contained]
        refine iff_of_true rfl ?_
        intro allowed same
        rw [← same]
        exact List.any_eq_true.mp contained
      · rw [if_neg contained]
        refine iff_of_false (by intro ok; cases ok) ?_
        intro all
        exact contained (List.any_eq_true.mpr (all vals rfl))

theorem mem_filterMap_asStr {names : List Value} {name : List Char} :
    name ∈ names.filterMap Value.asStr ↔ .string name ∈ names := by
  rw [List.mem_filterMap]
  constructor
  · intro found
    rcases found with ⟨a, member, string⟩
    rw [asStr_eq_some.mp string] at member
    exact member
  · intro member
    exact ⟨.string name, member, rfl⟩

theorem checkRequired_ok : checkRequired v schema path = .ok () ↔
    ∀ names, schema.get "required".toList = some (.array names) →
      ∀ name, .string name ∈ names → ∃ child, v.get name = some child := by
  rw [checkRequired]
  cases found : (schema.get "required".toList).bind Value.asArray with
  | none =>
      refine iff_of_true rfl ?_
      intro names get
      rw [get_array.mpr get] at found
      cases found
  | some required =>
      have get := get_array.mp found
      simp only [get, Option.some.injEq, Value.array.injEq, forM_eq_ok_iff, mem_filterMap_asStr]
      constructor
      · intro each names same name member
        rw [← same] at member
        have present := each name member
        by_cases here : (v.get name).isSome = true
        · exact Option.isSome_iff_exists.mp here
        · rw [if_neg here] at present
          cases present
      · intro all name member
        exact if_pos (Option.isSome_iff_exists.mpr (all required rfl name member))

theorem checkItemsFrom_ok {expected : List Char} {idx : Nat} {arr : List Value} :
    checkItemsFrom expected path idx arr = .ok () ↔
      ∀ item ∈ arr, typeMatches item expected = true := by
  induction arr generalizing idx with
  | nil => exact iff_of_true rfl fun item inside => absurd inside List.not_mem_nil
  | cons item rest ih =>
      rw [checkItemsFrom, List.forall_mem_cons]
      by_cases matched : typeMatches item expected = true
      · rw [if_pos matched, ih]
        exact (and_iff_right matched).symm
      · rw [if_neg matched]
        refine iff_of_false (by intro ok; cases ok) ?_
        intro both
        exact matched both.1

/-- The item that is blamed is of another type. -/
theorem checkItemsFrom_error {expected : List Char} {idx : Nat} {arr : List Value} {e : SchemaError}
    (failed : checkItemsFrom expected path idx arr = .error e) :
    ∃ i item, e = .itemsTypeMismatch path (idx + i) ∧ arr[i]? = some item ∧
      typeMatches item expected = false := by
  induction arr generalizing idx with
  | nil => cases failed
  | cons item rest ih =>
      rw [checkItemsFrom] at failed
      by_cases matched : typeMatches item expected = true
      · rw [if_pos matched] at failed
        rcases ih failed with ⟨i, item', blamed, there, other⟩
        refine ⟨i + 1, item', ?_, there, other⟩
        rw [blamed, Nat.add_right_comm, Nat.add_assoc]
      · rw [if_neg matched] at failed
        cases failed
        exact ⟨0, item, rfl, rfl, Bool.eq_false_iff.mpr matched⟩

/-- All that the walk asks of a value without looking below its members: of the items of an array,
only the type. -/
def Plain (schema v : Value) : Prop :=
  Local schema v ∧ ∀ i sub child, Child schema v (.index i) sub child → HasKind sub child

theorem checkItems_ok (accepted : Accepted schema) (array : kind schema = some .array)
    {arr : List Value} : checkItems arr schema path = .ok () ↔
      ∀ i sub child, Child schema (.array arr) (.index i) sub child → HasKind sub child := by
  rw [checkItems]
  cases declared : schema.get "items".toList with
  | none =>
      refine iff_of_true rfl ?_
      intro i sub child next
      cases next with
      | item declared' whole here =>
          rw [declared] at declared'
          cases declared'
  | some items =>
      rcases (accepted.items array declared).exists_kind with ⟨k, there⟩
      rw [Option.bind_some, typeName_eq there]
      rw [checkItemsFrom_ok]
      simp only [typeMatches_name]
      constructor
      · intro all i sub child next
        cases next with
        | item declared' whole here =>
            rw [declared] at declared'
            cases declared'
            cases whole
            exact (hasKind_iff there).mpr (all child (List.mem_of_getElem? here))
      · intro all item inside
        rcases List.mem_iff_getElem?.mp inside with ⟨i, here⟩
        exact (hasKind_iff there).mp (all i items item (.item declared rfl here))

theorem walkRecord_object (object : kind schema = some .object) {members : List (Key × Value)} :
    walkRecord (.object members) schema path = .ok () ↔
      (checkRequired (.object members) schema path = .ok () ∧
        ∀ key sub child, Child schema (.object members) (.key key) sub child →
          walkRecord child sub (childPath path key) = .ok ()) ∧
      checkEnum (.object members) schema path = .ok () := by
  rw [walkRecord, then_eq_ok_iff, expectedType_eq object, if_pos object_name]
  refine and_congr_left fun _ => ?_
  rw [Value.asObject, then_eq_ok_iff, forM_eq_ok_iff]
  refine and_congr_right fun _ => ?_
  constructor
  · intro each key sub child next
    cases next with
    | property declared member here =>
        rw [← properties_of_get declared] at member
        have walked := each ⟨(key, sub), member⟩ (List.mem_attach _ _)
        rw [here] at walked
        exact walked
  · intro all entry _
    cases here : Value.get (.object members) entry.val.1 with
    | none => rfl
    | some child =>
        rcases get_properties entry.property with ⟨props, declared, member⟩
        exact all _ _ _ (.property declared member here)

theorem walkRecord_array (array : kind schema = some .array) (arr : List Value) :
    walkRecord (.array arr) schema path =
      checkItems arr schema path >>= fun _ => checkEnum (.array arr) schema path := by
  rw [walkRecord, expectedType_eq array, if_neg (by decide), if_pos array_name]
  rfl

theorem walkRecord_simple (here : kind schema = some k) (holds : k.holds v = true)
    (object : k ≠ .object) (array : k ≠ .array) :
    walkRecord v schema path = checkEnum v schema path := by
  have notObject : k.name ≠ "object".toList := by
    cases k
    case object => exact absurd rfl object
    all_goals decide
  have notArray : k.name ≠ "array".toList := by
    cases k
    case array => exact absurd rfl array
    all_goals decide
  rw [walkRecord, expectedType_eq here, if_neg notObject, if_neg notArray, typeMatches_name,
    if_pos holds]
  rfl

theorem walkRecord_other (here : kind schema = some k) (other : ¬ k.holds v = true) :
    walkRecord v schema path = .error (.typeMismatch path k.name (actualType v)) := by
  rw [walkRecord, expectedType_eq here]
  by_cases object : k.name = "object".toList
  · have noObject : v.asObject = none := by
      cases k
      case object =>
        cases v
        case object => exact absurd rfl other
        all_goals rfl
      all_goals exact absurd object (by decide)
    rw [if_pos object, noObject, object]
    rfl
  by_cases array : k.name = "array".toList
  · have noArray : v.asArray = none := by
      cases k
      case array =>
        cases v
        case array => exact absurd rfl other
        all_goals rfl
      all_goals exact absurd array (by decide)
    rw [if_neg object, if_pos array, noArray, array]
    rfl
  rw [if_neg object, if_neg array, typeMatches_name, if_neg other]
  rfl

/-- What holds of a kind other than that of objects and that of arrays has no parts. -/
theorem no_child_of_simple (holds : k.holds v = true) (object : k ≠ .object) (array : k ≠ .array)
    {s : Step} : ¬ Child schema v s sub child := by
  intro next
  cases next with
  | property declared member here =>
      cases v
      case object => cases k <;> first | exact object rfl | cases holds
      all_goals cases here
  | item declared whole here =>
      subst whole
      cases k <;> first | exact array rfl | cases holds

/-- What a record needs to pass, level by level. -/
def Passes (schema v : Value) (path : List Char) : Prop :=
  Plain schema v ∧ ∀ key sub child, Child schema v (.key key) sub child →
    walkRecord child sub (childPath path key) = .ok ()

theorem passes_object (here : kind schema = some .object) {members : List (Key × Value)} :
    walkRecord (.object members) schema path = .ok () ↔ Passes schema (.object members) path := by
  rw [walkRecord_object here, checkRequired_ok, checkEnum_ok]
  constructor
  · intro passed
    have noItem : ∀ i sub child, Child schema (.object members) (.index i) sub child →
        HasKind sub child := by
      intro i sub child next
      cases next with
      | item declared whole there => cases whole
    refine ⟨⟨⟨(hasKind_iff here).mpr rfl, ?_, passed.2⟩, noItem⟩, passed.1.2⟩
    intro names get name member members' whole
    exact passed.1.1 names get name member
  · intro both
    refine ⟨⟨?_, both.2⟩, both.1.1.enum⟩
    intro names get name member
    exact both.1.1.required names get name member members rfl

theorem passes_array (accepted : Accepted schema) (here : kind schema = some .array)
    {arr : List Value} :
    walkRecord (.array arr) schema path = .ok () ↔ Passes schema (.array arr) path := by
  rw [walkRecord_array here, then_eq_ok_iff, checkItems_ok accepted here, checkEnum_ok]
  constructor
  · intro passed
    refine ⟨⟨⟨(hasKind_iff here).mpr rfl, ?_, passed.2⟩, passed.1⟩, ?_⟩
    · intro names get name member members whole
      cases whole
    · intro key sub child next
      cases next with
      | property declared member there => cases there
  · intro both
    exact ⟨both.1.2, both.1.1.enum⟩

theorem passes_simple (here : kind schema = some k) (holds : k.holds v = true)
    (object : k ≠ .object) (array : k ≠ .array) :
    walkRecord v schema path = .ok () ↔ Passes schema v path := by
  rw [walkRecord_simple here holds object array, checkEnum_ok]
  constructor
  · intro passed
    refine ⟨⟨⟨(hasKind_iff here).mpr holds, ?_, passed⟩, ?_⟩, ?_⟩
    · intro names get name member members whole
      subst whole
      cases k <;> first | exact absurd rfl object | cases holds
    · intro i sub child next
      exact absurd next (no_child_of_simple holds object array)
    · intro key sub child next
      exact absurd next (no_child_of_simple holds object array)
  · intro both
    exact both.1.1.enum

/-- A value passes when it is plain and its members pass. -/
theorem walkRecord_ok (accepted : Accepted schema) :
    walkRecord v schema path = .ok () ↔ Passes schema v path := by
  rcases accepted.exists_kind with ⟨k, here⟩
  by_cases holds : k.holds v = true
  · by_cases object : k = .object
    · subst object
      cases v
      case object members => exact passes_object here
      all_goals cases holds
    by_cases array : k = .array
    · subst array
      cases v
      case array arr => exact passes_array accepted here
      all_goals cases holds
    exact passes_simple here holds object array
  · rw [walkRecord_other here holds]
    refine iff_of_false (by intro ok; cases ok) ?_
    intro both
    exact holds ((hasKind_iff here).mp both.1.1.kind)

/-! ## The place of an error -/

def SchemaError.path? : SchemaError → Option (List Char)
  | .typeMismatch path _ _ => some path
  | .missingRequired path _ => some path
  | .notInEnum path => some path
  | .itemsTypeMismatch path _ => some path
  | .invalidSchema _ => none

/-- The error is about this value, and about one of its items when it says so. -/
structure Blames (e : SchemaError) (path : List Char) (schema v : Value) : Prop where
  path : e.path? = some path
  flawed : ¬ Plain schema v
  item : ∀ p idx, e = .itemsTypeMismatch p idx →
    ∃ sub child, Child schema v (.index idx) sub child ∧ ¬ HasKind sub child

theorem checkEnum_error {e : SchemaError} (failed : checkEnum v schema path = .error e) :
    e = .notInEnum path := by
  rw [checkEnum] at failed
  split at failed
  · cases failed
  · split_ifs at failed
    cases failed
    rfl

theorem checkRequired_error {e : SchemaError} (failed : checkRequired v schema path = .error e) :
    ∃ field, e = .missingRequired path field := by
  rw [checkRequired] at failed
  split at failed
  · cases failed
  · rcases exists_of_forM_eq_error failed with ⟨name, member, blamed⟩
    split_ifs at blamed
    cases blamed
    exact ⟨name, rfl⟩

theorem checkItems_error (accepted : Accepted schema) (array : kind schema = some .array)
    {arr : List Value} {e : SchemaError} (failed : checkItems arr schema path = .error e) :
    ∃ idx sub child, e = .itemsTypeMismatch path idx ∧
      Child schema (.array arr) (.index idx) sub child ∧ ¬ HasKind sub child := by
  rw [checkItems] at failed
  cases declared : schema.get "items".toList with
  | none =>
      rw [declared] at failed
      cases failed
  | some items =>
      rcases (accepted.items array declared).exists_kind with ⟨k, there⟩
      rw [declared, Option.bind_some, typeName_eq there] at failed
      rcases checkItemsFrom_error failed with ⟨i, item, blamed, found, other⟩
      rw [Nat.zero_add] at blamed
      refine ⟨i, items, item, blamed, .item declared rfl found, ?_⟩
      rw [hasKind_iff there, ← typeMatches_name, other]
      exact Bool.false_ne_true

theorem walkRecord_object_error (accepted : Accepted schema) (object : kind schema = some .object)
    {members : List (Key × Value)} {e : SchemaError}
    (failed : walkRecord (.object members) schema path = .error e) :
    checkRequired (.object members) schema path = .error e ∨
      (∃ key sub child, Child schema (.object members) (.key key) sub child ∧ Accepted sub ∧
        walkRecord child sub (childPath path key) = .error e) ∨
      checkEnum (.object members) schema path = .error e := by
  rw [walkRecord, expectedType_eq object, if_pos object_name] at failed
  rcases eq_error_of_then failed with type | enum
  · rcases eq_error_of_then type with required | property
    · exact .inl required
    · rcases exists_of_forM_eq_error property with ⟨entry, _, there⟩
      cases here : Value.get (.object members) entry.val.1 with
      | none =>
          rw [here] at there
          cases there
      | some child =>
          rw [here] at there
          rcases get_properties entry.property with ⟨props, declared, member⟩
          have below := accepted.property object entry.property
          exact .inr (.inl ⟨_, _, child, .property declared member here, below, there⟩)
  · exact .inr (.inr enum)

theorem blames_of_type {expected actual : List Char} (flawed : ¬ Plain schema v) :
    Blames (.typeMismatch path expected actual) path schema v := by
  refine ⟨rfl, flawed, ?_⟩
  intro p idx items
  cases items

theorem blames_of_enum {e : SchemaError} (failed : checkEnum v schema path = .error e) :
    Blames e path schema v := by
  have notInEnum := checkEnum_error failed
  refine ⟨by rw [notInEnum]; rfl, ?_, ?_⟩
  · intro plain
    rw [checkEnum_ok.mpr plain.1.enum] at failed
    cases failed
  · intro p idx items
    rw [notInEnum] at items
    cases items

theorem blames_of_required {members : List (Key × Value)} {e : SchemaError}
    (failed : checkRequired (.object members) schema path = .error e) :
    Blames e path schema (.object members) := by
  rcases checkRequired_error failed with ⟨field, missing⟩
  refine ⟨by rw [missing]; rfl, ?_, ?_⟩
  · intro plain
    have required : checkRequired (.object members) schema path = .ok () := by
      rw [checkRequired_ok]
      intro names get name member
      exact plain.1.required names get name member members rfl
    rw [required] at failed
    cases failed
  · intro p idx items
    rw [missing] at items
    cases items

theorem blames_of_items (accepted : Accepted schema) (array : kind schema = some .array)
    {arr : List Value} {e : SchemaError} (failed : checkItems arr schema path = .error e) :
    Blames e path schema (.array arr) := by
  rcases checkItems_error accepted array failed with ⟨idx, sub, child, items, next, other⟩
  refine ⟨by rw [items]; rfl, ?_, ?_⟩
  · intro plain
    exact other (plain.2 idx sub child next)
  · intro p idx' items'
    rw [items] at items'
    cases items'
    exact ⟨sub, child, next, other⟩

/-- An error is about the value itself or comes from one of its members. -/
theorem walkRecord_error (accepted : Accepted schema) {e : SchemaError}
    (failed : walkRecord v schema path = .error e) : Blames e path schema v ∨
      ∃ key sub child, Child schema v (.key key) sub child ∧ Accepted sub ∧
        walkRecord child sub (childPath path key) = .error e := by
  rcases accepted.exists_kind with ⟨k, here⟩
  by_cases holds : k.holds v = true
  · by_cases object : k = .object
    · subst object
      cases v
      case object members =>
        rcases walkRecord_object_error accepted here failed with required | property | enum
        · exact .inl (blames_of_required required)
        · exact .inr property
        · exact .inl (blames_of_enum enum)
      all_goals cases holds
    by_cases array : k = .array
    · subst array
      cases v
      case array arr =>
        rw [walkRecord_array here] at failed
        rcases eq_error_of_then failed with items | enum
        · exact .inl (blames_of_items accepted here items)
        · exact .inl (blames_of_enum enum)
      all_goals cases holds
    rw [walkRecord_simple here holds object array] at failed
    exact .inl (blames_of_enum failed)
  · rw [walkRecord_other here holds] at failed
    cases failed
    refine .inl (blames_of_type ?_)
    intro plain
    exact holds ((hasKind_iff here).mp plain.1.kind)

/-! ## Whole records -/

/-- A part of the record that is reached through properties alone is not plain. -/
def Flawed (schema record : Value) : Prop :=
  ∃ keys sub child, Place schema record (List.map Step.key keys) sub child ∧ ¬ Plain sub child

theorem Accepted.member (accepted : Accepted schema) {key : Key} (has : HasKind schema v)
    (next : Child schema v (.key key) sub child) : Accepted sub := by
  rcases has with ⟨k, here, holds⟩
  cases next with
  | property declared member there =>
      rw [← properties_of_get declared] at member
      cases v
      case object members =>
        cases k
        case object => exact accepted.property here member
        all_goals cases holds
      all_goals cases there

theorem flawed_iff : Flawed schema v ↔
    ¬ Plain schema v ∨ ∃ key sub child, Child schema v (.key key) sub child ∧ Flawed sub child := by
  constructor
  · intro flawed
    rcases flawed with ⟨keys, sub, child, place, flaw⟩
    cases keys with
    | nil =>
        cases place
        exact .inl flaw
    | cons key keys =>
        cases place with
        | further first later => exact .inr ⟨key, _, _, first, keys, sub, child, later, flaw⟩
  · intro either
    rcases either with here | ⟨key, sub, child, first, keys, sub', child', later, flaw⟩
    · exact ⟨[], schema, v, .here schema v, here⟩
    · exact ⟨key :: keys, sub', child', .further first later, flaw⟩

/-- A record passes unless one of the parts that are walked is flawed. -/
theorem walkRecord_ok_iff (accepted : Accepted schema) :
    walkRecord v schema path = .ok () ↔ ¬ Flawed schema v := by
  induction schema, v using schema_induction generalizing path with
  | step schema v ih =>
      rw [walkRecord_ok accepted, Passes, flawed_iff, not_or, not_not]
      refine and_congr_right fun plain => ?_
      constructor
      · intro walked flawed
        rcases flawed with ⟨key, sub, child, next, flaw⟩
        have below := accepted.member plain.1.kind next
        exact (ih _ sub child next below).mp (walked key sub child next) flaw
      · intro none key sub child next
        have below := accepted.member plain.1.kind next
        rw [ih _ sub child next below]
        intro flaw
        exact none ⟨key, sub, child, next, flaw⟩

/-- A step as it stands in a path. -/
def stepText : Step → List Char
  | .key key => '.' :: key
  | .index i => '[' :: Json.ofNat i ++ "]".toList

def pathFrom (path : List Char) (steps : List Step) : List Char := path ++ steps.flatMap stepText

/-- An error is about a part that is reached through the properties on its path. -/
theorem exists_place_of_error (accepted : Accepted schema) {e : SchemaError}
    (failed : walkRecord v schema path = .error e) :
    ∃ keys sub child, Place schema v (List.map Step.key keys) sub child ∧
      Blames e (pathFrom path (keys.map Step.key)) sub child := by
  induction schema, v using schema_induction generalizing path with
  | step schema v ih =>
      rcases walkRecord_error accepted failed with here | ⟨key, sub, child, next, below, there⟩
      · refine ⟨[], schema, v, .here schema v, ?_⟩
        rw [pathFrom, List.map_nil, List.flatMap_nil, List.append_nil]
        exact here
      · rcases ih _ sub child next below there with ⟨keys, sub', child', later, blames⟩
        refine ⟨key :: keys, sub', child', .further next later, ?_⟩
        have longer : pathFrom (childPath path key) (keys.map Step.key) =
            pathFrom path ((key :: keys).map Step.key) := by
          rw [pathFrom, pathFrom, childPath, List.map_cons, List.flatMap_cons, List.append_assoc]
          rfl
        rw [← longer]
        exact blames

/-! ## What the validator decides -/

/-- The error leads to a part of the record that violates the schema at its place. -/
def Leads (schema record : Value) (steps : List Step) (path : List Char) : Prop :=
  path = pathFrom "$".toList steps ∧
    ∃ sub child, Place schema record steps sub child ∧ ¬ Satisfies sub child

structure Decides (schema record : Value) : Prop where
  ok_iff : validateRecord record schema = .ok () ↔ Satisfies schema record
  path : ∀ e, validateRecord record schema = .error e →
    ∃ path, e.path? = some path ∧ ∃ steps, Leads schema record steps path
  item : ∀ path idx, validateRecord record schema = .error (.itemsTypeMismatch path idx) →
    ∃ steps, Leads schema record (steps ++ [.index idx]) (path ++ stepText (.index idx))

theorem not_satisfies_of_not_hasKind (other : ¬ HasKind schema v) : ¬ Satisfies schema v :=
  fun satisfies => other (satisfies_iff.mp satisfies).1.kind

theorem plain_of_satisfies (satisfies : Satisfies schema v) : Plain schema v := by
  rcases satisfies_iff.mp satisfies with ⟨here, below⟩
  refine ⟨here, ?_⟩
  intro i sub child next
  exact (satisfies_iff.mp (below _ sub child next)).1.kind

theorem not_satisfies_of_flawed (flawed : Flawed schema v) : ¬ Satisfies schema v := by
  rcases flawed with ⟨keys, sub, child, place, flaw⟩
  exact not_satisfies_of_place place fun satisfies => flaw (plain_of_satisfies satisfies)

theorem leads_of_error {record : Value} (accepted : Accepted schema) {e : SchemaError}
    (failed : validateRecord record schema = .error e) :
    ∃ path, e.path? = some path ∧ ∃ steps, Leads schema record steps path := by
  rcases exists_place_of_error accepted failed with ⟨keys, sub, child, place, blames⟩
  refine ⟨_, blames.path, keys.map Step.key, rfl, sub, child, place, ?_⟩
  exact fun satisfies => blames.flawed (plain_of_satisfies satisfies)

theorem leads_of_item {record : Value} {idx : Nat} (accepted : Accepted schema)
    (failed : validateRecord record schema = .error (.itemsTypeMismatch path idx)) :
    ∃ steps, Leads schema record (steps ++ [.index idx]) (path ++ stepText (.index idx)) := by
  rcases exists_place_of_error accepted failed with ⟨keys, sub, child, place, blames⟩
  rcases blames.item path idx rfl with ⟨sub', child', next, other⟩
  refine ⟨keys.map Step.key, ?_, sub', child', place.snoc next, not_satisfies_of_not_hasKind other⟩
  cases blames.path
  rw [pathFrom, pathFrom, List.flatMap_append, List.flatMap_singleton, List.append_assoc]

/-- The validator decides whether a record satisfies its schema just when a violation inside the
items of an array never stands alone. -/
theorem decides_iff {record : Value} (accepted : validateSchema schema = .ok ()) :
    Decides schema record ↔
      ((∃ steps sub child, Place schema record steps sub child ∧ ¬ Local sub child) →
        Flawed schema record) := by
  have walked : Accepted schema := ⟨_, accepted⟩
  have ok_iff : validateRecord record schema = .ok () ↔ ¬ Flawed schema record :=
    walkRecord_ok_iff walked
  constructor
  · intro decides violated
    rcases violated with ⟨steps, sub, child, place, violation⟩
    by_contra shown
    have passes := decides.ok_iff.mp (ok_iff.mpr shown)
    refine not_satisfies_of_place place ?_ passes
    exact fun satisfies => violation (satisfies_iff.mp satisfies).1
  · intro shows
    refine ⟨?_, fun e => leads_of_error walked, fun path idx => leads_of_item walked⟩
    rw [ok_iff, satisfies_iff_places]
    constructor
    · intro none steps sub child place
      by_contra violation
      exact none (shows ⟨steps, sub, child, place, violation⟩)
    · intro sound flawed
      exact not_satisfies_of_flawed flawed (satisfies_iff_places.mpr sound)

/-- Objects with a name. -/
def namedSchema : Value :=
  .object [("required".toList, .array [.string "name".toList]),
    ("type".toList, .string "object".toList)]

/-- A list of objects with names. -/
def namedListSchema : Value :=
  .object [("items".toList, namedSchema), ("type".toList, .string "array".toList)]

theorem namedListSchema_accepted : validateSchema namedListSchema = .ok () := by
  rw [validateSchema, walkSchema]
  refine then_eq_ok_iff.mpr ⟨?_, rfl⟩
  rw [if_neg (by decide), if_pos rfl, forM_eq_ok_iff]
  intro items _
  have declared : some namedSchema = some items.val := Option.mem_toList.mp items.property
  rw [← Option.some.inj declared, walkSchema]
  rfl

theorem kind_namedSchema : kind namedSchema = some .object := rfl

/-- An item of the wrong type is found. -/
theorem decides_null_item : Decides namedListSchema (.array [.null]) := by
  refine (decides_iff namedListSchema_accepted).mpr ?_
  intro _
  refine ⟨[], _, _, .here _ _, ?_⟩
  intro plain
  have has := plain.2 0 namedSchema .null (.item rfl rfl rfl)
  rw [hasKind_iff kind_namedSchema] at has
  cases has

/-- An item without a name is let through. -/
theorem nameless_item_passes :
    validateSchema namedListSchema = .ok () ∧
      validateRecord (.array [.object []]) namedListSchema = .ok () ∧
      ¬ Decides namedListSchema (.array [.object []]) := by
  have accepted : Accepted namedListSchema := ⟨_, namedListSchema_accepted⟩
  have passes : validateRecord (.array [.object []]) namedListSchema = .ok () := by
    rw [validateRecord, walkRecord_array rfl]
    rfl
  refine ⟨namedListSchema_accepted, passes, ?_⟩
  intro decides
  have satisfies := (satisfies_iff.mp (decides.ok_iff.mp passes)).2 (.index 0) namedSchema
    (.object []) (.item rfl rfl rfl)
  rcases (satisfies_iff.mp satisfies).1.required _ rfl "name".toList List.mem_cons_self [] rfl with
    ⟨child, found⟩
  cases found

end Webfang.SchemaValidation
