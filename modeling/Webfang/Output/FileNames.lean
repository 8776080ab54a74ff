import Webfang.Output.FileSaver

/-!
# What a file name does not tell apart

A file name shows a slash as a dash and all that the whitelist does not keep as an underscore; the
name of a text file also shows `.md` as `.txt`.  Texts that agree but for that are shown the same,
and no others.
-/

namespace Webfang.Output

open Pieces

/-! ## Characters that a name does not tell apart -/

namespace NameTools

variable (tools : NameTools)

/-- The characters that the whitelist lets into a name. -/
def Kept (c : Char) : Prop := tools.isAlphanumeric c ∨ c = '-' ∨ c = '_' ∨ c = '.'

instance (c : Char) : Decidable (tools.Kept c) := inferInstanceAs (Decidable (_ ∨ _))

/-- A slash reads as a dash. -/
def IsDash (c : Char) : Prop := c = '-' ∨ c = '/'

/-- All that is not let into a name reads as an underscore. -/
def IsHidden (c : Char) : Prop := c = '_' ∨ c ≠ '/' ∧ ¬ tools.Kept c

/-- Two characters that a name does not tell apart. -/
def Alike (a b : Char) : Prop := a = b ∨ IsDash a ∧ IsDash b ∨ tools.IsHidden a ∧ tools.IsHidden b

/-- Two texts that a name does not tell apart, letter by letter; the names of text files do not
tell `.md` from `.txt` either. -/
inductive Blurred (format : OutputFormat) : List Char → List Char → Prop
  | nil : Blurred format [] []
  | letter {a b : Char} {s t : List Char} :
    tools.Alike a b → Blurred format s t → Blurred format (a :: s) (b :: t)
  | toText {s t : List Char} :
    format = .text → Blurred format s t →
    Blurred format ('.' :: 'm' :: 'd' :: s) ('.' :: 't' :: 'x' :: 't' :: t)
  | ofText {s t : List Char} :
    format = .text → Blurred format s t →
    Blurred format ('.' :: 't' :: 'x' :: 't' :: s) ('.' :: 'm' :: 'd' :: t)

/-- What a name shows of a character. -/
def shown (c : Char) : Char :=
  if c = '/' then '-' else if tools.Kept c then c else '_'

variable {tools}

theorem kept_of_ascii {c : Char} (ascii : c.toNat < 0x80) (alphanumeric : c.isAlphanum = true) :
    tools.Kept c := by
  refine .inl ?_
  rw [tools.ascii c ascii]
  exact alphanumeric

theorem not_kept_space : ¬ tools.Kept ' ' := by
  have letter := tools.ascii ' ' (by decide)
  unfold Kept
  rw [letter]
  decide

theorem not_kept_slash : ¬ tools.Kept '/' := by
  have letter := tools.ascii '/' (by decide)
  unfold Kept
  rw [letter]
  decide

theorem shown_dash {c : Char} (dash : IsDash c) : tools.shown c = '-' := by
  rcases dash with rfl | rfl
  · rw [shown, if_neg (by decide), if_pos (.inr (.inl rfl))]
  · rw [shown, if_pos rfl]

theorem shown_hidden {c : Char} (hidden : tools.IsHidden c) : tools.shown c = '_' := by
  rcases hidden with rfl | ⟨slash, kept⟩
  · rw [shown, if_neg (by decide), if_pos (.inr (.inr (.inl rfl)))]
  · rw [shown, if_neg slash, if_neg kept]

theorem shown_kept {c : Char} (kept : tools.Kept c) : tools.shown c = c := by
  rw [shown, if_neg fun slash => not_kept_slash (slash ▸ kept), if_pos kept]

/-- A character is read as a dash, as an underscore or as itself. -/
theorem shown_cases (tools : NameTools) (c : Char) :
    IsDash c ∨ tools.IsHidden c ∨ tools.Kept c ∧ c ≠ '-' ∧ c ≠ '_' := by
  by_cases slash : c = '/'
  · exact .inl (.inr slash)
  by_cases kept : tools.Kept c
  · by_cases dash : c = '-'
    · exact .inl (.inl dash)
    by_cases underscore : c = '_'
    · exact .inr (.inl (.inl underscore))
    · exact .inr (.inr ⟨kept, dash, underscore⟩)
  · exact .inr (.inl (.inr ⟨slash, kept⟩))

theorem shown_eq {c d : Char} (dash : d ≠ '-') (underscore : d ≠ '_') (same : tools.shown c = d) :
    c = d := by
  rcases shown_cases tools c with is_dash | hidden | ⟨kept, -, -⟩
  · exact absurd ((shown_dash is_dash).symm.trans same).symm dash
  · exact absurd ((shown_hidden hidden).symm.trans same).symm underscore
  · exact (shown_kept kept).symm.trans same

theorem alike_iff {a b : Char} : tools.Alike a b ↔ tools.shown a = tools.shown b := by
  constructor
  · intro alike
    rcases alike with rfl | ⟨dashA, dashB⟩ | ⟨hiddenA, hiddenB⟩
    · rfl
    · rw [shown_dash dashA, shown_dash dashB]
    · rw [shown_hidden hiddenA, shown_hidden hiddenB]
  · intro same
    rcases shown_cases tools b with dash | hidden | ⟨kept, noDash, noUnderscore⟩
    · rw [shown_dash dash] at same
      rcases shown_cases tools a with dashA | hiddenA | ⟨keptA, noDashA, -⟩
      · exact .inr (.inl ⟨dashA, dash⟩)
      · rw [shown_hidden hiddenA] at same
        exact absurd same (by decide)
      · rw [shown_kept keptA] at same
        exact absurd same noDashA
    · rw [shown_hidden hidden] at same
      rcases shown_cases tools a with dashA | hiddenA | ⟨keptA, -, noUnderscoreA⟩
      · rw [shown_dash dashA] at same
        exact absurd same (by decide)
      · exact .inr (.inr ⟨hiddenA, hidden⟩)
      · rw [shown_kept keptA] at same
        exact absurd same noUnderscoreA
    · rw [shown_kept kept] at same
      exact .inl (shown_eq noDash noUnderscore same)

end NameTools

/-! ## Extensions -/

/-- A path as it is written for text files. -/
def asText (text : List Char) : List Char := substitute ['.', 'm', 'd'] ['.', 't', 'x', 't'] text

theorem asText_md (s : List Char) :
    asText ('.' :: 'm' :: 'd' :: s) = '.' :: 't' :: 'x' :: 't' :: asText s :=
  substitute_pattern (by decide) s

theorem asText_cons {c : Char} {s : List Char} (absent : ¬ ['.', 'm', 'd'] <+: c :: s) :
    asText (c :: s) = c :: asText s :=
  substitute_cons absent

theorem asText_letter {c : Char} (dot : c ≠ '.') (s : List Char) :
    asText (c :: s) = c :: asText s :=
  asText_cons fun here => dot (List.cons_prefix_cons.mp here).1.symm

theorem asText_txt (s : List Char) :
    asText ('.' :: 't' :: 'x' :: 't' :: s) = '.' :: 't' :: 'x' :: 't' :: asText s := by
  rw [asText_cons, asText_letter (by decide), asText_letter (by decide), asText_letter (by decide)]
  intro here
  have second := (List.cons_prefix_cons.mp here).2
  exact absurd (List.cons_prefix_cons.mp second).1 (by decide)

theorem asText_cases (s : List Char) :
    s = [] ∨ (∃ t, s = '.' :: 'm' :: 'd' :: t) ∨ ∃ c t, s = c :: t ∧ asText s = c :: asText t := by
  cases s with
  | nil => exact .inl rfl
  | cons c s =>
      by_cases here : ['.', 'm', 'd'] <+: c :: s
      · obtain ⟨t, same⟩ := here
        exact .inr (.inl ⟨t, same.symm⟩)
      · exact .inr (.inr ⟨c, s, rfl, asText_cons here⟩)

/-- A letter that no extension begins with was there before. -/
theorem asText_eq_cons {c : Char} (dot : c ≠ '.') {s out : List Char} (read : asText s = c :: out) :
    ∃ t, s = c :: t ∧ asText t = out := by
  rcases asText_cases s with rfl | ⟨t, rfl⟩ | ⟨d, t, rfl, step⟩
  · cases read
  · rw [asText_md] at read
    exact absurd (List.cons.inj read).1.symm dot
  · obtain ⟨rfl, rest⟩ := List.cons.inj (step.symm.trans read)
    exact ⟨t, rfl, rest⟩

theorem asText_eq_txt {s out : List Char} (read : asText s = '.' :: 't' :: 'x' :: 't' :: out) :
    ∃ t, (s = '.' :: 'm' :: 'd' :: t ∨ s = '.' :: 't' :: 'x' :: 't' :: t) ∧ asText t = out := by
  rcases asText_cases s with rfl | ⟨t, rfl⟩ | ⟨c, t, rfl, step⟩
  · cases read
  · rw [asText_md] at read
    simp only [List.cons.injEq, true_and] at read
    exact ⟨t, .inl rfl, read⟩
  · obtain ⟨rfl, rest⟩ := List.cons.inj (step.symm.trans read)
    obtain ⟨t₁, rfl, rest₁⟩ := asText_eq_cons (by decide) rest
    obtain ⟨t₂, rfl, rest₂⟩ := asText_eq_cons (by decide) rest₁
    obtain ⟨t₃, rfl, rest₃⟩ := asText_eq_cons (by decide) rest₂
    exact ⟨t₃, .inr rfl, rest₃⟩

/-- Behind a letter, texts are written the same that are written the same without it. -/
theorem asText_cons_congr (c : Char) {s t : List Char} (same : asText s = asText t) :
    asText (c :: s) = asText (c :: t) := by
  have md {s t : List Char} (same : asText s = asText t) (here : ['.', 'm', 'd'] <+: c :: s) :
      asText (c :: s) = asText (c :: t) := by
    obtain ⟨rest, whole⟩ := here
    obtain rfl : '.' = c := (List.cons.inj whole).1
    obtain rfl : 'm' :: 'd' :: rest = s := (List.cons.inj whole).2
    have read := same.symm
    rw [asText_letter (by decide), asText_letter (by decide)] at read
    obtain ⟨t₁, rfl, read₁⟩ := asText_eq_cons (by decide) read
    obtain ⟨t₂, rfl, read₂⟩ := asText_eq_cons (by decide) read₁
    rw [asText_md, asText_md, read₂]
  by_cases first : ['.', 'm', 'd'] <+: c :: s
  · exact md same first
  by_cases second : ['.', 'm', 'd'] <+: c :: t
  · exact (md same.symm second).symm
  · rw [asText_cons first, asText_cons second, same]

/-- A path as it is written for a format. -/
def respell : OutputFormat → List Char → List Char
  | .text => asText
  | .markdown | .json => id

namespace NameTools

variable {tools : NameTools} {format : OutputFormat}

theorem Blurred.symm {s t : List Char} (blurred : tools.Blurred format s t) :
    tools.Blurred format t s := by
  induction blurred with
  | nil => exact .nil
  | letter alike _ ih => exact .letter (alike_iff.mpr (alike_iff.mp alike).symm) ih
  | toText text _ ih => exact .ofText text ih
  | ofText text _ ih => exact .toText text ih

theorem map_shown_eq_append {w s out : List Char} (plain : '-' ∉ w ∧ '_' ∉ w)
    (read : s.map tools.shown = w ++ out) : ∃ t, s = w ++ t ∧ t.map tools.shown = out := by
  obtain ⟨s₁, s₂, rfl, first, rest⟩ := List.map_eq_append_iff.mp read
  refine ⟨s₂, congrArg (· ++ s₂) ?_, rest⟩
  clear read rest
  induction s₁ generalizing w with
  | nil => exact first
  | cons c s₁ ih =>
      cases w with
      | nil => cases first
      | cons d w =>
          obtain ⟨head, tail⟩ := List.cons.inj first
          obtain ⟨dash, dashes⟩ := not_or.mp (List.mem_cons.not.mp plain.1)
          obtain ⟨underscore, underscores⟩ := not_or.mp (List.mem_cons.not.mp plain.2)
          rw [shown_eq (Ne.symm dash) (Ne.symm underscore) head, ih ⟨dashes, underscores⟩ tail]

theorem shown_ascii {c : Char} (ascii : c.toNat < 0x80) (alphanumeric : c.isAlphanum = true) :
    tools.shown c = c :=
  shown_kept (kept_of_ascii ascii alphanumeric)

theorem shown_dot : tools.shown '.' = '.' := shown_kept (.inr (.inr (.inr rfl)))

theorem map_shown_md (s : List Char) :
    ('.' :: 'm' :: 'd' :: s).map tools.shown = '.' :: 'm' :: 'd' :: s.map tools.shown := by
  rw [List.map_cons, List.map_cons, List.map_cons, shown_dot, shown_ascii (by decide) (by decide),
    shown_ascii (by decide) (by decide)]

theorem map_shown_txt (s : List Char) :
    ('.' :: 't' :: 'x' :: 't' :: s).map tools.shown =
      '.' :: 't' :: 'x' :: 't' :: s.map tools.shown := by
  rw [List.map_cons, List.map_cons, List.map_cons, List.map_cons, shown_dot,
    shown_ascii (by decide) (by decide), shown_ascii (by decide) (by decide)]

theorem respell_cons_congr (c : Char) {s t : List Char} (same : respell format s = respell format t) :
    respell format (c :: s) = respell format (c :: t) := by
  cases format with
  | text => exact asText_cons_congr c same
  | markdown | json => exact congrArg (c :: ·) same

/-- What is shown the same, and written the same in text files, is not told apart. -/
theorem blurred_of_asText {s t : List Char}
    (same : asText (s.map tools.shown) = asText (t.map tools.shown)) :
    tools.Blurred .text s t := by
  rcases asText_cases (s.map tools.shown) with none | ⟨r, md⟩ | ⟨c, r, shownS, step⟩
  · -- the empty text
    rw [none] at same
    cases List.map_eq_nil_iff.mp none
    rcases asText_cases (t.map tools.shown) with none | ⟨r, md⟩ | ⟨c, r, -, step⟩
    · cases List.map_eq_nil_iff.mp none
      exact .nil
    · rw [md, asText_md] at same
      cases same
    · rw [step] at same
      cases same
  · -- an extension that is rewritten
    obtain ⟨s, rfl, rfl⟩ := map_shown_eq_append (w := ['.', 'm', 'd']) (by decide) md
    rw [md, asText_md] at same
    obtain ⟨r, written, rest⟩ := asText_eq_txt same.symm
    rcases written with md' | txt
    · obtain ⟨t, rfl, rfl⟩ := map_shown_eq_append (w := ['.', 'm', 'd']) (by decide) md'
      have later := blurred_of_asText rest.symm
      exact .letter (.inl rfl) (.letter (.inl rfl) (.letter (.inl rfl) later))
    · obtain ⟨t, rfl, rfl⟩ := map_shown_eq_append (w := ['.', 't', 'x', 't']) (by decide) txt
      exact .toText rfl (blurred_of_asText rest.symm)
  · obtain ⟨a, s, rfl, rfl, rfl⟩ := List.map_eq_cons_iff.mp shownS
    rw [step] at same
    rcases asText_cases (t.map tools.shown) with none | ⟨r, md⟩ | ⟨d, r, shownT, step'⟩
    · rw [none] at same
      cases same
    · -- what stood there before
      obtain ⟨t, rfl, rfl⟩ := map_shown_eq_append (w := ['.', 'm', 'd']) (by decide) md
      rw [md, asText_md] at same
      obtain ⟨dot, rest⟩ := List.cons.inj same
      obtain ⟨t₁, r₁, rest₁⟩ := asText_eq_cons (by decide) rest
      obtain ⟨t₂, rfl, rest₂⟩ := asText_eq_cons (by decide) rest₁
      obtain ⟨t₃, rfl, rest₃⟩ := asText_eq_cons (by decide) rest₂
      obtain ⟨s₃, whole, rfl⟩ := map_shown_eq_append (s := a :: s) (w := ['.', 't', 'x', 't'])
        (by decide) (by rw [List.map_cons, dot, r₁]; rfl)
      have shorter : s₃.length < (a :: s).length := by
        rw [whole, List.length_append]
        exact Nat.lt_add_of_pos_left (by decide)
      rw [whole]
      exact .ofText rfl (blurred_of_asText rest₃)
    · obtain ⟨b, t, rfl, rfl, rfl⟩ := List.map_eq_cons_iff.mp shownT
      obtain ⟨first, rest⟩ := List.cons.inj (same.trans step')
      exact .letter (alike_iff.mpr first) (blurred_of_asText rest)
termination_by s.length

/-- Texts are not told apart just when they are shown, and written, the same. -/
theorem blurred_iff {s t : List Char} :
    tools.Blurred format s t ↔
      respell format (s.map tools.shown) = respell format (t.map tools.shown) := by
  constructor
  · intro blurred
    induction blurred with
    | nil => rfl
    | letter alike _ ih =>
        rw [List.map_cons, List.map_cons, alike_iff.mp alike]
        exact respell_cons_congr _ ih
    | toText text _ ih =>
        subst text
        rw [respell] at ih ⊢
        rw [map_shown_md, map_shown_txt, asText_md, asText_txt, ih]
    | ofText text _ ih =>
        subst text
        rw [respell] at ih ⊢
        rw [map_shown_md, map_shown_txt, asText_md, asText_txt, ih]
  · intro same
    cases format with
    | text => exact blurred_of_asText same
    | markdown | json =>
        rw [respell, id, id] at same
        induction s generalizing t with
        | nil => cases List.map_eq_nil_iff.mp same.symm; exact .nil
        | cons a s ih =>
            obtain ⟨b, t, rfl, first, rest⟩ := List.map_eq_cons_iff.mp same.symm
            exact .letter (alike_iff.mpr first.symm) (ih rest.symm)

theorem map_shown_eq_self {word : List Char} (kept : ∀ c ∈ word, tools.Kept c) :
    word.map tools.shown = word :=
  (List.map_congr_left fun c member => shown_kept (kept c member)).trans (List.map_id word)

theorem map_shown_ascii {word : List Char}
    (ascii : word.all (fun c => decide (c.toNat < 0x80) && c.isAlphanum || c == '.' || c == '_') = true) :
    word.map tools.shown = word := by
  refine map_shown_eq_self fun c member => ?_
  have here := List.all_eq_true.mp ascii c member
  simp only [Bool.or_eq_true, Bool.and_eq_true, decide_eq_true_eq, beq_iff_eq] at here
  rcases here with (⟨small, letter⟩ | dot) | underscore
  · exact kept_of_ascii small letter
  · exact .inr (.inr (.inr dot))
  · exact .inr (.inr (.inl underscore))

end NameTools

end Webfang.Output
