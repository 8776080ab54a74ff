import Mathlib.Data.List.Basic

/-!
# Texts with markup

A marked text is a tree of elements with stretches of text between them.  `Outline` is what there is
of text and elements, `Written` has the tags, too, as they are written.  Where elements are removed,
the stretches beside them become one; and where a change of the stretches lengthens none, the text
of an element stays just when each of its stretches does, and nothing is removed from it.
-/

namespace MarkedText

variable {ε κ : Type*}

/-! ## Outlines -/

/-- A tree of text: a last stretch, or one before a piece of markup.  Markup without an element, a
comment say, has no text inside. -/
inductive Outline (ε : Type*)
  | text (stretch : List Char)
  | node (before : List Char) (element : Option ε) (inner behind : Outline ε)
  deriving DecidableEq

namespace Outline

/-- All text. -/
def content : Outline ε → List Char
  | .text stretch => stretch
  | .node before _ inner behind => before ++ inner.content ++ behind.content

def stretches : Outline ε → List (List Char)
  | .text stretch => [stretch]
  | .node before _ inner behind => before :: inner.stretches ++ behind.stretches

/-- More text before the first stretch. -/
def prepend (before : List Char) : Outline ε → Outline ε
  | .text stretch => .text (before ++ stretch)
  | .node first element inner behind => .node (before ++ first) element inner behind

/-- Elements are removed, each with all inside it. -/
def prune (removed : ε → Bool) : Outline ε → Outline ε
  | .text stretch => .text stretch
  | .node before element inner behind =>
      if element.any removed then (behind.prune removed).prepend before
      else .node before element (inner.prune removed) (behind.prune removed)

/-- Each stretch and each element is changed. -/
def map (f : List Char → List Char) (g : ε → ε) : Outline ε → Outline ε
  | .text stretch => .text (f stretch)
  | .node before element inner behind =>
      .node (f before) (element.map g) (inner.map f g) (behind.map f g)

/-- Each element is handled, and one that is removed goes with all inside it. -/
def rewrite (handle : ε → Option ε) (h : Outline ε) : Outline ε :=
  (h.prune fun e => (handle e).isNone).map id fun e => (handle e).getD e

/-- The texts of the elements that have a name and are not removed, neither they nor one around
them. -/
def chosen (removed : ε → Bool) (name : ε → Option κ) : Outline ε → List (κ × List Char)
  | .text _ => []
  | .node _ element inner behind =>
      (if element.any removed then []
        else (element.bind name).toList.map (·, inner.content) ++ inner.chosen removed name) ++
        behind.chosen removed name

/-- The stretches that lie in no element that has a name. -/
def outside (name : ε → Option κ) : Outline ε → List (List Char)
  | .text stretch => [stretch]
  | .node before element inner behind =>
      before :: (if (element.bind name).isSome then [] else inner.outside name) ++
        behind.outside name

/-- What is inside the elements that have a name and are not removed. -/
def ForChosen (removed : ε → Bool) (name : ε → Option κ) (P : Outline ε → Prop) :
    Outline ε → Prop
  | .text _ => True
  | .node _ element inner behind =>
      (element.any removed = false →
        ((element.bind name).isSome → P inner) ∧ inner.ForChosen removed name P) ∧
        behind.ForChosen removed name P

instance ForChosen.decidable (removed : ε → Bool) (name : ε → Option κ) (P : Outline ε → Prop)
    [DecidablePred P] : (h : Outline ε) → Decidable (h.ForChosen removed name P)
  | .text _ => .isTrue trivial
  | .node _ element inner behind =>
      have := ForChosen.decidable removed name P inner
      have := ForChosen.decidable removed name P behind
      inferInstanceAs (Decidable ((element.any removed = false →
        ((element.bind name).isSome → P inner) ∧ inner.ForChosen removed name P) ∧
        behind.ForChosen removed name P))

variable {removed : ε → Bool} {name : ε → Option κ} {f : List Char → List Char} {g : ε → ε}

/-! ## Text -/

theorem content_eq (h : Outline ε) : h.content = h.stretches.flatten := by
  induction h with
  | text stretch => simp [content, stretches]
  | node before element inner behind ihInner ihBehind =>
      simp [content, stretches, ihInner, ihBehind]

theorem stretches_map (h : Outline ε) : (h.map f g).stretches = h.stretches.map f := by
  induction h with
  | text stretch => rfl
  | node before element inner behind ihInner ihBehind =>
      simp [map, stretches, ihInner, ihBehind]

theorem content_map (h : Outline ε) : (h.map f g).content = (h.stretches.map f).flatten := by
  rw [content_eq, stretches_map]

theorem map_map (f' : List Char → List Char) (g' : ε → ε) (h : Outline ε) :
    (h.map f g).map f' g' = h.map (f' ∘ f) (g' ∘ g) := by
  induction h with
  | text stretch => rfl
  | node before element inner behind ihInner ihBehind =>
      rw [map, map, map, ihInner, ihBehind, Option.map_map]
      rfl

theorem prune_none (h : Outline ε) : h.prune (fun _ => false) = h := by
  induction h with
  | text stretch => rfl
  | node before element inner behind ihInner ihBehind =>
      have stays : element.any (fun _ => false) = false := by cases element <;> rfl
      rw [prune, stays, if_neg Bool.false_ne_true, ihInner, ihBehind]

@[simp] theorem content_prepend (before : List Char) (h : Outline ε) :
    (h.prepend before).content = before ++ h.content := by
  cases h <;> simp [prepend, content]

/-- What is left of the text where elements are removed. -/
theorem content_prune_sublist (removed : ε → Bool) (h : Outline ε) :
    (h.prune removed).content.Sublist h.content := by
  induction h with
  | text stretch => exact .refl _
  | node before element inner behind ihInner ihBehind =>
      rw [prune, content]
      split
      · rw [content_prepend, List.append_assoc]
        exact (ihBehind.trans (List.sublist_append_right _ _)).append_left _
      · exact (ihInner.append_left before).append ihBehind

/-- Where no stretch is lengthened, the text stays as it was just when all stretches do. -/
theorem flatten_map_eq_iff {parts : List (List Char)} {whole : List Char}
    (part : parts.flatten.Sublist whole) (shorter : ∀ s, (f s).length ≤ s.length) :
    (parts.map f).flatten = whole ↔ parts.flatten = whole ∧ ∀ s ∈ parts, f s = s := by
  have less (parts : List (List Char)) : (parts.map f).flatten.length ≤ parts.flatten.length := by
    induction parts with
    | nil => exact Nat.le_refl _
    | cons s parts ih =>
        rw [List.map_cons, List.flatten_cons, List.flatten_cons, List.length_append,
          List.length_append]
        exact Nat.add_le_add (shorter s) ih
  constructor
  · intro same
    have whole_ : parts.flatten = whole := by
      refine part.eq_of_length (Nat.le_antisymm part.length_le ?_)
      rw [← same]
      exact less parts
    refine ⟨whole_, ?_⟩
    rw [← whole_] at same
    clear part whole_
    induction parts with
    | nil => exact fun s absent => absurd absent List.not_mem_nil
    | cons s parts ih =>
        rw [List.map_cons, List.flatten_cons, List.flatten_cons] at same
        have total := congrArg List.length same
        rw [List.length_append, List.length_append] at total
        have here := shorter s
        have later := less parts
        obtain ⟨first, rest⟩ := List.append_inj same (by omega)
        exact List.forall_mem_cons.mpr ⟨first, ih rest⟩
  · intro ⟨same, fixed⟩
    have all : parts.map f = parts := (List.map_congr_left fixed).trans (List.map_id' parts)
    rw [all, same]

/-! ## Elements -/

@[simp] theorem chosen_prepend (before : List Char) (h : Outline ε) :
    (h.prepend before).chosen removed name = h.chosen removed name := by
  cases h <;> rfl

@[simp] theorem map_prepend_chosen (before : List Char) (h : Outline ε) :
    ((h.prepend before).map f g).chosen removed name = (h.map f g).chosen removed name := by
  cases h <;> rfl

theorem bind_map_name (named : ∀ e, name (g e) = name e) (element : Option ε) :
    (element.map g).bind name = element.bind name := by
  cases element with
  | none => rfl
  | some e => exact named e

theorem length_chosen_map_prune (named : ∀ e, name (g e) = name e) (h : Outline ε) :
    (((h.prune removed).map f g).chosen (fun _ => false) name).length =
      (h.chosen removed name).length := by
  induction h with
  | text stretch => rfl
  | node before element inner behind ihInner ihBehind =>
      have same := bind_map_name named element
      have stays : (element.map g).any (fun _ => false) = false := by cases element <;> rfl
      rw [prune, chosen, List.length_append]
      split
      next gone => rw [map_prepend_chosen, ihBehind, List.length_nil, Nat.zero_add]
      next =>
          rw [map, chosen, stays, if_neg Bool.false_ne_true, same, List.length_append,
            List.length_append, List.length_append, ihInner, ihBehind, List.length_map,
            List.length_map]

/-- The texts of the elements that are not removed stay as they were, just where nothing is removed
from them and all their stretches stay. -/
theorem chosen_map_prune_iff (shorter : ∀ s, (f s).length ≤ s.length)
    (named : ∀ e, name (g e) = name e) (h : Outline ε) :
    ((h.prune removed).map f g).chosen (fun _ => false) name = h.chosen removed name ↔
      h.ForChosen removed name fun inner => (inner.prune removed).content = inner.content ∧
        ∀ s ∈ (inner.prune removed).stretches, f s = s := by
  induction h with
  | text stretch => exact iff_of_true rfl True.intro
  | node before element inner behind ihInner ihBehind =>
      have same := bind_map_name named element
      have stays : (element.map g).any (fun _ => false) = false := by cases element <;> rfl
      rw [prune, chosen, ForChosen]
      split
      next gone =>
          rw [map_prepend_chosen, List.nil_append, ihBehind, gone]
          simp
      next kept =>
          have lengths := @length_chosen_map_prune _ _ removed name f g named inner
          have text := flatten_map_eq_iff (f := f)
            ((content_eq _).symm ▸ content_prune_sublist removed inner) shorter
          rw [← content_map (g := g), ← content_eq] at text
          have here : ((element.bind name).toList.map (·, ((inner.prune removed).map f g).content) =
              (element.bind name).toList.map (·, inner.content)) ↔ ((element.bind name).isSome →
                ((inner.prune removed).map f g).content = inner.content) := by
            cases element.bind name with
            | none => simp
            | some k => simp
          rw [map, chosen, stays, if_neg Bool.false_ne_true, same,
            List.append_eq_append_iff_of_size_eq_left (by simp [lengths]),
            List.append_eq_append_iff_of_size_eq_left (by simp), here, text, ihInner, ihBehind,
            Bool.eq_false_iff.mpr kept]
          simp

/-! ## Stretches outside -/

theorem outside_map (named : ∀ e, name (g e) = name e) (h : Outline ε) :
    (h.map f g).outside name = (h.outside name).map f := by
  induction h with
  | text stretch => rfl
  | node before element inner behind ihInner ihBehind =>
      have same := bind_map_name named element
      rw [map, outside, outside, same, ihInner, ihBehind]
      split <;> simp

end Outline

/-! ## Written documents -/

/-- A tag or a comment, as it is written. -/
structure Tag where
  raw : List Char
  opens : raw.head? = some '<'
  closes : raw.getLast? = some '>'
  deriving DecidableEq

/-- A tag with what stands between its angle brackets. -/
theorem Tag.exists_inner (tag : Tag) : ∃ inner, tag.raw = '<' :: (inner ++ ['>']) := by
  obtain ⟨raw, opens, closes⟩ := tag
  cases raw with
  | nil => cases opens
  | cons c rest =>
      cases opens
      have more : rest ≠ [] := by
        rintro rfl
        cases closes
      rw [List.getLast?_cons_of_ne_nil more] at closes
      exact ⟨rest.dropLast, congrArg _ (List.dropLast_append_getLast? _ closes).symm⟩

/-- A document with its tags.  An element without an end tag reaches up to that of an element
around it, or to the end; a void element, a comment or a stray end tag is a mark. -/
inductive Written (ε : Type*)
  | text (stretch : List Char)
  | element (before : List Char) (e : ε) (opening closing : Tag) (inner behind : Written ε)
  | mark (before : List Char) (owner : Option ε) (tag : Tag) (behind : Written ε)
  | unclosed (before : List Char) (e : ε) (opening : Tag) (inner : Written ε)

namespace Written

def write : Written ε → List Char
  | .text stretch => stretch
  | .element before _ opening closing inner behind =>
      before ++ opening.raw ++ (inner.write ++ closing.raw ++ behind.write)
  | .mark before _ tag behind => before ++ tag.raw ++ behind.write
  | .unclosed before _ opening inner => before ++ opening.raw ++ inner.write

def outline : Written ε → Outline ε
  | .text stretch => .text stretch
  | .element before e _ _ inner behind => .node before (some e) inner.outline behind.outline
  | .mark before owner _ behind => .node before owner (.text []) behind.outline
  | .unclosed before e _ inner => .node before (some e) inner.outline (.text [])

def map (f : List Char → List Char) (g : ε → ε) (t : Tag → Tag) : Written ε → Written ε
  | .text stretch => .text (f stretch)
  | .element before e opening closing inner behind =>
      .element (f before) (g e) (t opening) (t closing) (inner.map f g t) (behind.map f g t)
  | .mark before owner tag behind =>
      .mark (f before) (owner.map g) (t tag) (behind.map f g t)
  | .unclosed before e opening inner =>
      .unclosed (f before) (g e) (t opening) (inner.map f g t)

variable {f : List Char → List Char} {g : ε → ε} {t : Tag → Tag}

theorem outline_map (empty : f [] = []) (h : Written ε) :
    (h.map f g t).outline = h.outline.map f g := by
  induction h with
  | text stretch => rfl
  | element before e opening closing inner behind ihInner ihBehind =>
      rw [map, outline, outline, Outline.map, ihInner, ihBehind]
      rfl
  | mark before owner tag behind ih =>
      rw [map, outline, outline, Outline.map, Outline.map, ih, empty]
  | unclosed before e opening inner ih =>
      rw [map, outline, outline, Outline.map, Outline.map, ih, empty]
      rfl

/-- What a change of the whole text does that no tag lets through: it changes each stretch and each
tag. -/
theorem write_map
    (apart : ∀ s (tag : Tag) rest, f (s ++ tag.raw ++ rest) = f s ++ (t tag).raw ++ f rest)
    (h : Written ε) : f h.write = (h.map f g t).write := by
  induction h with
  | text stretch => rfl
  | element before e opening closing inner behind ihInner ihBehind =>
      rw [write, apart, apart, ihInner, ihBehind, map, write]
  | mark before owner tag behind ih => rw [write, apart, ih, map, write]
  | unclosed before e opening inner ih => rw [write, apart, ih, map, write]

theorem eq_text_of_write_eq_nil {h : Written ε} (empty : h.write = []) : h = .text [] := by
  have tagged (before rest : List Char) (tag : Tag) : before ++ tag.raw ++ rest ≠ [] := by
    obtain ⟨inner, raw⟩ := tag.exists_inner
    simp [raw]
  cases h with
  | text stretch => exact congrArg _ empty
  | element before e opening closing inner behind => exact absurd empty (tagged _ _ _)
  | mark before owner tag behind => exact absurd empty (tagged _ _ _)
  | unclosed before e opening inner => exact absurd empty (tagged _ _ _)

end Written

end MarkedText
