import Mathlib.Data.List.Basic
import Mathlib.Logic.Function.Iterate

/-!
# The elements of a document

A document is read as a forest of elements with their attributes, as they are written.  A handler
removes an element, with all inside it, or changes its attributes; and whoever reads the value of
an attribute as a URL decodes its character references first, and strips it.
-/

namespace Webfang.Markup

structure Attribute where
  name : String
  /-- as it is written, character references and all -/
  value : List Char
  deriving DecidableEq, Repr

structure Element where
  name : String
  attributes : List Attribute
  deriving DecidableEq, Repr

/-- A forest: an element, the elements inside it and the ones behind it. -/
inductive Html where
  | empty
  | element (e : Element) (inner behind : Html)
  deriving DecidableEq, Repr

/-! ## Attributes -/

/-- The values that are written for a name; the first one counts. -/
def values (attributes : List Attribute) (name : String) : List (List Char) :=
  (attributes.filter fun a => a.name = name).map Attribute.value

def getAttribute (attributes : List Attribute) (name : String) : Option (List Char) :=
  (attributes.find? fun a => a.name = name).map Attribute.value

def removeAttribute (attributes : List Attribute) (name : String) : List Attribute :=
  attributes.eraseP fun a => a.name = name

theorem getAttribute_eq_head? (attributes : List Attribute) (name : String) :
    getAttribute attributes name = (values attributes name).head? := by
  unfold getAttribute values
  rw [List.head?_map, List.head?_filter]

theorem values_removeAttribute_self (attributes : List Attribute) (name : String) :
    values (removeAttribute attributes name) name = (values attributes name).tail := by
  unfold values removeAttribute
  induction attributes with
  | nil => rfl
  | cons a attributes ih =>
      by_cases here : a.name = name
      · simp [here]
      · simp only [List.eraseP_cons, here, decide_false, Bool.cond_false, List.filter_cons,
          Bool.false_eq_true, if_false]
        exact ih

/-- The values of the other names stay. -/
theorem values_removeAttribute_of_ne {name other : String} (ne : other ≠ name)
    (attributes : List Attribute) :
    values (removeAttribute attributes other) name = values attributes name := by
  unfold values removeAttribute
  induction attributes with
  | nil => rfl
  | cons a attributes ih =>
      by_cases here : a.name = other
      · have apart : a.name ≠ name := here ▸ ne
        simp [here, ne]
      · simp only [List.eraseP_cons, here, decide_false, Bool.cond_false, List.filter_cons]
        split
        · rw [List.map_cons, ih, List.map_cons]
        · exact ih

/-- A name is written just when it has values. -/
theorem values_eq_nil {attributes : List Attribute} {name : String} :
    values attributes name = [] ↔ ∀ a ∈ attributes, a.name ≠ name := by
  simp [values, List.filter_eq_nil_iff]

theorem length_values (attributes : List Attribute) (name : String) :
    (values attributes name).length = (attributes.map Attribute.name).count name := by
  rw [values, List.length_map, List.count, List.countP_map, List.countP_eq_length_filter]
  congr 1

/-- What is done to the head of a list as often as it is long, is done to all of its start. -/
theorem iterate_eq_dropWhile {α : Type} (p : α → Bool) {step : List α → List α}
    (empty : step [] = [])
    (head : ∀ x xs, step (x :: xs) = if p x then xs else x :: xs) :
    ∀ (n : Nat) (xs : List α), xs.length ≤ n → step^[n] xs = xs.dropWhile p
  | 0, [], _ => rfl
  | n + 1, [], _ => by
      rw [Function.iterate_succ_apply, empty]
      exact iterate_eq_dropWhile p empty head n [] (Nat.zero_le n)
  | n + 1, x :: xs, long => by
      rw [Function.iterate_succ_apply, head, List.dropWhile_cons]
      have fits : xs.length ≤ n := Nat.le_of_succ_le_succ long
      cases drops : p x with
      | true => exact iterate_eq_dropWhile p empty head n xs fits
      | false =>
          have stays : step (x :: xs) = x :: xs := by
            rw [head, drops]
            rfl
          exact Function.iterate_fixed stays n

/-! ## Documents -/

namespace Html

/-- Each element is handled, and one that is removed goes with what is inside it. -/
def rewrite (handle : Element → Option Element) : Html → Html
  | .empty => .empty
  | .element e inner behind =>
      match handle e with
      | none => behind.rewrite handle
      | some e' => .element e' (inner.rewrite handle) (behind.rewrite handle)

def map (f : Element → Element) : Html → Html
  | .empty => .empty
  | .element e inner behind => .element (f e) (inner.map f) (behind.map f)

def All (p : Element → Prop) : Html → Prop
  | .empty => True
  | .element e inner behind => p e ∧ inner.All p ∧ behind.All p

instance decidableAll (p : Element → Prop) [DecidablePred p] : (h : Html) → Decidable (h.All p)
  | .empty => .isTrue trivial
  | .element e inner behind =>
      have := decidableAll p inner
      have := decidableAll p behind
      inferInstanceAs (Decidable (p e ∧ inner.All p ∧ behind.All p))

/-- The elements that are not removed, neither they nor one around them. -/
def AllKept (removed : Element → Bool) (p : Element → Prop) : Html → Prop
  | .empty => True
  | .element e inner behind =>
      (removed e = false → p e ∧ inner.AllKept removed p) ∧ behind.AllKept removed p

instance decidableAllKept (removed : Element → Bool) (p : Element → Prop) [DecidablePred p] :
    (h : Html) → Decidable (h.AllKept removed p)
  | .empty => .isTrue trivial
  | .element e inner behind =>
      have := decidableAllKept removed p inner
      have := decidableAllKept removed p behind
      inferInstanceAs (Decidable
        ((removed e = false → p e ∧ inner.AllKept removed p) ∧ behind.AllKept removed p))

@[simp] theorem all_map (f : Element → Element) (p : Element → Prop) (h : Html) :
    (h.map f).All p ↔ h.All (p ∘ f) := by
  induction h with
  | empty => rfl
  | element e inner behind ihInner ihBehind => simp only [map, All, ihInner, ihBehind,
      Function.comp_apply]

/-- What holds behind the handlers, of the elements before them. -/
theorem all_rewrite_iff {handle : Element → Option Element} {removed : Element → Bool}
    {f : Element → Element} (handles : ∀ e, handle e = if removed e then none else some (f e))
    (p : Element → Prop) (h : Html) :
    (h.rewrite handle).All p ↔ h.AllKept removed (p ∘ f) := by
  induction h with
  | empty => rfl
  | element e inner behind ihInner ihBehind =>
      rw [rewrite, AllKept, handles]
      cases removed e with
      | true => simp [ihBehind]
      | false => simp [All, ihInner, ihBehind, and_assoc]

theorem allKept_congr {removed : Element → Bool} {p q : Element → Prop}
    (agree : ∀ e, removed e = false → (p e ↔ q e)) (h : Html) :
    h.AllKept removed p ↔ h.AllKept removed q := by
  induction h with
  | empty => rfl
  | element e inner behind ihInner ihBehind =>
      rw [AllKept, AllKept, ihInner, ihBehind]
      refine and_congr_left fun _ => imp_congr_right fun kept => ?_
      rw [agree e kept]

end Html

/-! ## The values of attributes -/

/-- The character that a numeric reference stands for. -/
def numericReference (n : Nat) : Char :=
  if n = 0 ∨ 0x10FFFF < n ∨ (0xD800 ≤ n ∧ n ≤ 0xDFFF) then '\uFFFD'
  else
    match n with
    | 0x80 => '\u20AC' | 0x82 => '\u201A' | 0x83 => '\u0192' | 0x84 => '\u201E'
    | 0x85 => '\u2026' | 0x86 => '\u2020' | 0x87 => '\u2021' | 0x88 => '\u02C6'
    | 0x89 => '\u2030' | 0x8A => '\u0160' | 0x8B => '\u2039' | 0x8C => '\u0152'
    | 0x8E => '\u017D' | 0x91 => '\u2018' | 0x92 => '\u2019' | 0x93 => '\u201C'
    | 0x94 => '\u201D' | 0x95 => '\u2022' | 0x96 => '\u2013' | 0x97 => '\u2014'
    | 0x98 => '\u02DC' | 0x99 => '\u2122' | 0x9A => '\u0161' | 0x9B => '\u203A'
    | 0x9C => '\u0153' | 0x9E => '\u017E' | 0x9F => '\u0178'
    | n => Char.ofNat n

/-- The value of a digit of base sixteen. -/
def hexDigit (c : Char) : Option Nat :=
  if '0' ≤ c ∧ c ≤ '9' then some (c.toNat - '0'.toNat)
  else if 'a' ≤ c ∧ c ≤ 'f' then some (c.toNat - 'a'.toNat + 10)
  else if 'A' ≤ c ∧ c ≤ 'F' then some (c.toNat - 'A'.toNat + 10)
  else none

/-- The number that the leading digits write, how many they are, and a semicolon behind them. -/
def number (base : Nat) (text : List Char) : Option (Nat × Nat) :=
  let digits := (text.takeWhile fun c => (hexDigit c).any (· < base)).filterMap hexDigit
  if digits.isEmpty then none
  else
    let semicolon := if (text.drop digits.length).head? = some ';' then 1 else 0
    some (digits.foldl (fun n d => base * n + d) 0, digits.length + semicolon)

/-- The reference behind an ampersand: what it stands for, and how many characters write it. -/
def reference (named : List Char → Option (List Char × Nat)) (text : List Char) :
    Option (List Char × Nat) :=
  match text with
  | '#' :: 'x' :: digits | '#' :: 'X' :: digits =>
      (number 16 digits).map fun n => ([numericReference n.1], n.2 + 2)
  | '#' :: digits => (number 10 digits).map fun n => ([numericReference n.1], n.2 + 1)
  | _ => named text

/-- The decoded text, from where this many characters have been passed by. -/
def decodeFrom (named : List Char → Option (List Char × Nat)) : Nat → List Char → List Char
  | _, [] => []
  | skip + 1, _ :: rest => decodeFrom named skip rest
  | 0, c :: rest =>
      if c = '&' then
        match reference named rest with
        | some (text, width) => text ++ decodeFrom named width rest
        | none => c :: decodeFrom named 0 rest
      else c :: decodeFrom named 0 rest

/-- The value of an attribute, its character references decoded. -/
def decode (named : List Char → Option (List Char × Nat)) (value : List Char) : List Char :=
  decodeFrom named 0 value

/-- A URL as its parser takes it: no C0 controls and spaces at its start, and no tabs and
newlines. -/
def stripUrl (url : List Char) : List Char :=
  (url.dropWhile fun c => c.toNat ≤ 0x20).filter fun c => c ≠ '\t' ∧ c ≠ '\n' ∧ c ≠ '\r'

/-- The value is followed as a `javascript:` URL. -/
def RunsScript (named : List Char → Option (List Char × Nat)) (value : List Char) : Prop :=
  "javascript:".toList <+: (stripUrl (decode named value)).map Char.toLower

instance (named : List Char → Option (List Char × Nat)) (value : List Char) :
    Decidable (RunsScript named value) :=
  inferInstanceAs (Decidable (_ <+: _))

end Webfang.Markup
