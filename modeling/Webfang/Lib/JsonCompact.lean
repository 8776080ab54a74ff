import Webfang.Lib.JsonTree
import Webfang.Lib.JsonText

/-!
# Compact text of JSON values

Two values have the same compact text only when they are the same.  Nothing is read back for this:
the first character of a text tells what kind of value it is of, and a text is never continued by
what stands behind it, so that texts can be compared part by part.
-/

namespace JsonTree

open Json

/-- What is known of the texts of finite doubles: they are different, made of the characters of
numbers, and have a point or an exponent. -/
structure FloatLaws (floatText : Double → List Char) : Prop where
  injective : ∀ a b, floatText a = floatText b → a = b
  numeric : ∀ d, ∀ c ∈ floatText d, isNumberChar c = true
  marked : ∀ d, ∃ c ∈ floatText d, c = '.' ∨ c = 'e'

variable (floatText : Double → List Char)

def Number.text : Number → List Char
  | .posInt n => ofNat n.toNat
  | .negInt i _ _ => '-' :: ofNat i.natAbs
  | .float d => floatText d

mutual

/-- The value on one line, without spaces. -/
def Value.text : Value → List Char
  | .null => "null".toList
  | .bool true => "true".toList
  | .bool false => "false".toList
  | .number n => n.text floatText
  | .string text => quote text
  | .array elements => '[' :: elementsText [] elements
  | .object members => '{' :: membersText [] members

/-- Elements, with this in front of the first and a comma in front of each other. -/
def elementsText (front : List Char) : List Value → List Char
  | [] => [']']
  | v :: rest => front ++ (v.text ++ elementsText [','] rest)

def membersText (front : List Char) : List (Key × Value) → List Char
  | [] => ['}']
  | (k, v) :: rest => front ++ (quote k ++ ':' :: (v.text ++ membersText [','] rest))

end

/-! ## Numbers -/

variable {floatText : Double → List Char} {r r' : List Char}

theorem isNumberChar_of_mem_ofNat {n : Nat} {c : Char} (member : c ∈ ofNat n) :
    isNumberChar c = true := by
  rw [isNumberChar, isDigit_of_mem_ofNat member]
  rfl

theorem Number.text_numeric (laws : FloatLaws floatText) (n : Number) :
    ∀ c ∈ n.text floatText, isNumberChar c = true := by
  cases n with
  | posInt n => exact fun c member => isNumberChar_of_mem_ofNat member
  | negInt i negative fits =>
      intro c member
      rcases List.mem_cons.mp member with sign | digit
      · rw [sign]
        rfl
      · exact isNumberChar_of_mem_ofNat digit
  | float d => exact laws.numeric d

theorem Number.text_ne_nil (laws : FloatLaws floatText) (n : Number) : n.text floatText ≠ [] := by
  cases n with
  | posInt n => exact Nat.toDigits_ne_nil
  | negInt i negative fits => exact List.cons_ne_nil _ _
  | float d =>
      rcases laws.marked d with ⟨c, member, -⟩
      exact List.ne_nil_of_mem member

theorem ofNat_injective {n m : Nat} (same : ofNat n = ofNat m) : n = m := by
  have read := nat?_ofNat n
  rw [same, nat?_ofNat m] at read
  exact (Option.some.inj read).symm

/-- An integer is written without a point and an exponent. -/
theorem float_ne_ofNat (laws : FloatLaws floatText) (d : Double) (n : Nat) :
    floatText d ≠ ofNat n := by
  intro same
  rcases laws.marked d with ⟨c, member, mark⟩
  rw [same] at member
  have digit := isDigit_of_mem_ofNat member
  rcases mark with rfl | rfl
  · cases digit
  · cases digit

theorem float_ne_minus (laws : FloatLaws floatText) (d : Double) (n : Nat) :
    floatText d ≠ '-' :: ofNat n := by
  intro same
  rcases laws.marked d with ⟨c, member, mark⟩
  rw [same] at member
  rcases List.mem_cons.mp member with sign | inside
  · rcases mark with rfl | rfl
    · exact absurd sign (by decide)
    · exact absurd sign (by decide)
  · have digit := isDigit_of_mem_ofNat inside
    rcases mark with rfl | rfl
    · cases digit
    · cases digit

theorem ofNat_ne_minus (n m : Nat) : ofNat n ≠ '-' :: ofNat m := by
  intro same
  have digit : ('-').isDigit = true := by
    apply isDigit_of_mem_ofNat (n := n)
    rw [same]
    exact List.mem_cons_self
  cases digit

theorem Number.text_injective (laws : FloatLaws floatText) {n m : Number}
    (same : n.text floatText = m.text floatText) : n = m := by
  cases n with
  | posInt n =>
      cases m with
      | posInt m => rw [UInt64.toNat_inj.mp (ofNat_injective same)]
      | negInt j negative fits => exact absurd same (ofNat_ne_minus _ _)
      | float d => exact absurd same.symm (float_ne_ofNat laws d _)
  | negInt i negative fits =>
      cases m with
      | posInt m => exact absurd same.symm (ofNat_ne_minus _ _)
      | negInt j negative' fits' =>
          have sizes := ofNat_injective (List.cons.inj same).2
          have equal : i = j := by omega
          subst equal
          rfl
      | float d => exact absurd same.symm (float_ne_minus laws d _)
  | float d =>
      cases m with
      | posInt m => exact absurd same (float_ne_ofNat laws d _)
      | negInt j negative fits => exact absurd same (float_ne_minus laws d _)
      | float d' => rw [laws.injective d d' same]

/-- A number ends where its characters do. -/
theorem takeWhile_number {text : List Char} (numeric : ∀ c ∈ text, isNumberChar c = true)
    (ends : EndsNumber r) : (text ++ r).takeWhile isNumberChar = text := by
  rw [List.takeWhile_append_of_pos numeric]
  cases r with
  | nil => rw [List.takeWhile_nil, List.append_nil]
  | cons c rest =>
      have other : ¬ isNumberChar c = true := by
        rw [ends c rfl]
        exact Bool.false_ne_true
      rw [List.takeWhile_cons_of_neg other, List.append_nil]

theorem number_append_inj (laws : FloatLaws floatText) {n m : Number} (ends : EndsNumber r)
    (ends' : EndsNumber r') (same : n.text floatText ++ r = m.text floatText ++ r') :
    n = m ∧ r = r' := by
  have texts : n.text floatText = m.text floatText := by
    rw [← takeWhile_number (n.text_numeric laws) ends, same,
      takeWhile_number (m.text_numeric laws) ends']
  refine ⟨Number.text_injective laws texts, ?_⟩
  rw [texts] at same
  exact List.append_cancel_left same

theorem quote_append_inj {text text' : List Char} (same : quote text ++ r = quote text' ++ r') :
    text = text' ∧ r = r' := by
  rw [quote_append, quote_append] at same
  have read := string_escape text r
  rw [(List.cons.inj same).2, string_escape] at read
  cases read
  exact ⟨rfl, rfl⟩

/-! ## Values -/

/-- What the first character of a text tells. -/
def leadOf (c : Char) : Nat := if isNumberChar c then 0 else c.toNat

def Value.lead : Value → Nat
  | .null => 'n'.toNat
  | .bool true => 't'.toNat
  | .bool false => 'f'.toNat
  | .number _ => 0
  | .string _ => '"'.toNat
  | .array _ => '['.toNat
  | .object _ => '{'.toNat

theorem exists_lead (laws : FloatLaws floatText) (v : Value) :
    ∃ c rest, v.text floatText = c :: rest ∧ leadOf c = v.lead := by
  cases v with
  | null => exact ⟨_, _, rfl, rfl⟩
  | bool b => cases b <;> exact ⟨_, _, rfl, rfl⟩
  | number n =>
      rcases List.exists_cons_of_ne_nil (n.text_ne_nil laws) with ⟨c, rest, written⟩
      refine ⟨c, rest, written, if_pos (n.text_numeric laws c ?_)⟩
      rw [written]
      exact List.mem_cons_self
  | string text => exact ⟨_, _, rfl, rfl⟩
  | array elements => exact ⟨_, _, rfl, rfl⟩
  | object members => exact ⟨_, _, rfl, rfl⟩

theorem lead_eq (laws : FloatLaws floatText) {a b : Value}
    (same : a.text floatText ++ r = b.text floatText ++ r') : a.lead = b.lead := by
  rcases exists_lead laws a with ⟨c, rest, written, lead⟩
  rcases exists_lead laws b with ⟨c', rest', written', lead'⟩
  rw [written, written'] at same
  rw [← lead, ← lead', (List.cons.inj same).1]

theorem endsNumber_elementsText (elements : List Value) (r : List Char) :
    EndsNumber (elementsText floatText [','] elements ++ r) := by
  intro c head
  cases elements <;>
  · cases head
    rfl

theorem endsNumber_membersText (members : List (Key × Value)) (r : List Char) :
    EndsNumber (membersText floatText [','] members ++ r) := by
  intro c head
  cases members <;>
  · cases head
    rfl

/-- No element begins like the end of an array. -/
theorem elementsText_ne_close (laws : FloatLaws floatText) {front : List Char}
    (separates : front = [] ∨ front = [',']) (v : Value) (rest : List Value) :
    elementsText floatText front (v :: rest) ++ r ≠ ']' :: r' := by
  intro same
  rw [elementsText] at same
  rcases separates with rfl | rfl
  · rcases exists_lead laws v with ⟨c, more, written, lead⟩
    rw [written] at same
    rw [(List.cons.inj same).1] at lead
    cases v <;> try cases lead
    case bool b => cases b <;> cases lead
  · cases same

theorem membersText_ne_close {front : List Char} (separates : front = [] ∨ front = [','])
    (entry : Key × Value) (rest : List (Key × Value)) :
    membersText floatText front (entry :: rest) ++ r ≠ '}' :: r' := by
  intro same
  rcases separates with rfl | rfl
  · cases same
  · cases same

mutual

/-- A text at the front of another tells its value and what stands behind it. -/
theorem text_append_inj (laws : FloatLaws floatText) : ∀ (a b : Value) (r r' : List Char),
    EndsNumber r → EndsNumber r' → a.text floatText ++ r = b.text floatText ++ r' →
      a = b ∧ r = r'
  | .null, b, r, r', _, _, same => by
      have lead := lead_eq laws same
      cases b with
      | null => exact ⟨rfl, List.append_cancel_left same⟩
      | bool b => cases b <;> cases lead
      | _ => cases lead
  | .bool a, b, r, r', _, _, same => by
      have lead := lead_eq laws same
      cases b with
      | bool b =>
          cases a <;> cases b <;> try cases lead
          all_goals exact ⟨rfl, List.append_cancel_left same⟩
      | _ => cases a <;> cases lead
  | .number n, b, r, r', ends, ends', same => by
      have lead := lead_eq laws same
      cases b with
      | number m =>
          rcases number_append_inj laws ends ends' same with ⟨rfl, rest⟩
          exact ⟨rfl, rest⟩
      | bool b => cases b <;> cases lead
      | _ => cases lead
  | .string text, b, r, r', _, _, same => by
      have lead := lead_eq laws same
      cases b with
      | string text' =>
          rcases quote_append_inj same with ⟨rfl, rest⟩
          exact ⟨rfl, rest⟩
      | bool b => cases b <;> cases lead
      | _ => cases lead
  | .array as, b, r, r', _, _, same => by
      have lead := lead_eq laws same
      cases b with
      | array bs =>
          rcases elements_append_inj laws [] (.inl rfl) as bs r r' (List.cons.inj same).2 with
            ⟨rfl, rest⟩
          exact ⟨rfl, rest⟩
      | bool b => cases b <;> cases lead
      | _ => cases lead
  | .object as, b, r, r', _, _, same => by
      have lead := lead_eq laws same
      cases b with
      | object bs =>
          rcases members_append_inj laws [] (.inl rfl) as bs r r' (List.cons.inj same).2 with
            ⟨rfl, rest⟩
          exact ⟨rfl, rest⟩
      | bool b => cases b <;> cases lead
      | _ => cases lead

theorem elements_append_inj (laws : FloatLaws floatText) (front : List Char)
    (separates : front = [] ∨ front = [',']) : ∀ (as bs : List Value) (r r' : List Char),
    elementsText floatText front as ++ r = elementsText floatText front bs ++ r' →
      as = bs ∧ r = r'
  | [], [], r, r', same => ⟨rfl, (List.cons.inj same).2⟩
  | [], b :: bs, r, r', same => absurd same.symm (elementsText_ne_close laws separates b bs)
  | a :: as, [], r, r', same => absurd same (elementsText_ne_close laws separates a as)
  | a :: as, b :: bs, r, r', same => by
      rw [elementsText, elementsText, List.append_assoc, List.append_assoc, List.append_assoc,
        List.append_assoc] at same
      rcases text_append_inj laws a b _ _ (endsNumber_elementsText as r)
        (endsNumber_elementsText bs r') (List.append_cancel_left same) with ⟨rfl, later⟩
      rcases elements_append_inj laws [','] (.inr rfl) as bs r r' later with ⟨rfl, rest⟩
      exact ⟨rfl, rest⟩

theorem members_append_inj (laws : FloatLaws floatText) (front : List Char)
    (separates : front = [] ∨ front = [',']) : ∀ (as bs : List (Key × Value)) (r r' : List Char),
    membersText floatText front as ++ r = membersText floatText front bs ++ r' →
      as = bs ∧ r = r'
  | [], [], r, r', same => ⟨rfl, (List.cons.inj same).2⟩
  | [], b :: bs, r, r', same => absurd same.symm (membersText_ne_close separates b bs)
  | a :: as, [], r, r', same => absurd same (membersText_ne_close separates a as)
  | (k, a) :: as, (l, b) :: bs, r, r', same => by
      rw [membersText, membersText, List.append_assoc, List.append_assoc, List.append_assoc,
        List.append_assoc] at same
      rcases quote_append_inj (List.append_cancel_left same) with ⟨rfl, colon⟩
      rw [List.cons_append, List.cons_append, List.append_assoc, List.append_assoc] at colon
      rcases text_append_inj laws a b _ _ (endsNumber_membersText as r)
        (endsNumber_membersText bs r') (List.cons.inj colon).2 with ⟨rfl, later⟩
      rcases members_append_inj laws [','] (.inr rfl) as bs r r' later with ⟨rfl, rest⟩
      exact ⟨rfl, rest⟩

end

/-- Values with the same text are the same. -/
theorem text_injective (laws : FloatLaws floatText) {a b : Value}
    (same : a.text floatText = b.text floatText) : a = b := by
  have nothing : EndsNumber [] := by
    intro c head
    cases head
  exact (text_append_inj laws a b [] [] nothing nothing (congrArg (· ++ []) same)).1

end JsonTree
