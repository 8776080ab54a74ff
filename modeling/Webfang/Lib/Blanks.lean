import Webfang.Lib.Segments

/-!
# Words and the blanks between them

A text is cut at its blanks into words and written again with single blanks.  Two texts that differ
in the length of their runs of blanks alone have the same words, and are cut alike at every symbol
that is no blank.
-/

namespace Blanks

variable {α : Type*} (blank : α → Bool)

/-- The words of a text. -/
def words (text : List α) : List (List α) := (text.splitOnP blank).filter fun word => !word.isEmpty

/-- Words with a blank between them. -/
def unwords (sp : α) (words : List (List α)) : List α := [sp].intercalate words

/-- Texts that differ in the length of their runs of blanks alone. -/
inductive Alike : List α → List α → Prop
  | nil : Alike [] []
  | letter {c : α} {s t : List α} : blank c = false → Alike s t → Alike (c :: s) (c :: t)
  | blanks {v w s t : List α} :
    v ≠ [] → w ≠ [] → (∀ c ∈ v, blank c = true) → (∀ c ∈ w, blank c = true) → Alike s t →
    Alike (v ++ s) (w ++ t)

variable {blank} {sp : α} {s t r : List α}

/-! ## Words -/

@[simp] theorem words_nil : words blank [] = [] := rfl

/-- A blank stands between words. -/
theorem words_append_cons {c : α} (isBlank : blank c = true) (s t : List α) :
    words blank (s ++ c :: t) = words blank s ++ words blank t := by
  rw [words, List.splitOnP_append_cons s t isBlank, List.filter_append]
  rfl

theorem words_cons {c : α} (isBlank : blank c = true) (t : List α) :
    words blank (c :: t) = words blank t :=
  words_append_cons isBlank [] t

theorem words_blanks {v : List α} (blanks : ∀ c ∈ v, blank c = true) (t : List α) :
    words blank (v ++ t) = words blank t := by
  induction v with
  | nil => rfl
  | cons c v ih =>
      obtain ⟨here, later⟩ := List.forall_mem_cons.mp blanks
      rw [List.cons_append, words_cons here, ih later]

theorem words_append_blanks {v : List α} (nonempty : v ≠ []) (blanks : ∀ c ∈ v, blank c = true)
    (s t : List α) : words blank (s ++ (v ++ t)) = words blank s ++ words blank t := by
  obtain ⟨c, v, rfl⟩ := List.exists_cons_of_ne_nil nonempty
  obtain ⟨here, later⟩ := List.forall_mem_cons.mp blanks
  rw [List.cons_append, words_append_cons here, words_blanks later]

theorem words_append_right {v : List α} (blanks : ∀ c ∈ v, blank c = true) (s : List α) :
    words blank (s ++ v) = words blank s := by
  cases v with
  | nil => rw [List.append_nil]
  | cons c v =>
      have parts := words_append_blanks (List.cons_ne_nil c v) blanks s []
      rwa [List.append_nil, words_nil, List.append_nil] at parts

/-- A text without blanks is one word. -/
theorem words_letters {x : List α} (nonempty : x ≠ []) (letters : ∀ c ∈ x, blank c = false) :
    words blank x = [x] := by
  rw [words, List.splitOnP_eq_singleton letters, List.filter_cons_of_pos, List.filter_nil]
  simpa using nonempty

/-- The letters of the words are those of the text. -/
theorem flatten_words (t : List α) : (words blank t).flatten = t.filter fun c => !blank c := by
  rw [words, List.flatten_filter_not_isEmpty]
  induction t with
  | nil => rfl
  | cons c t ih =>
      rw [List.splitOnP_cons_eq_if_modifyHead]
      split_ifs with isBlank
      · rw [List.flatten_cons, ih, List.filter_cons_of_neg (by simpa using isBlank), List.nil_append]
      · obtain ⟨first, rest, pieces⟩ := List.exists_cons_of_ne_nil (List.splitOnP_ne_nil blank t)
        rw [pieces] at ih ⊢
        rw [List.modifyHead_cons, List.flatten_cons, List.cons_append, ← List.flatten_cons, ih,
          List.filter_cons_of_pos (by simpa using isBlank)]

theorem mem_words {word : List α} (member : word ∈ words blank t) :
    word ≠ [] ∧ ∀ c ∈ word, blank c = false := by
  obtain ⟨piece, nonempty⟩ := List.mem_filter.mp member
  exact ⟨by simpa using nonempty, (Segments.of_mem_splitOnP piece).1⟩

/-- Blanks at the ends of a text are no part of its words. -/
theorem words_strip (t : List α) :
    words blank ((t.dropWhile blank).rdropWhile blank) = words blank t := by
  have front (t : List α) : words blank (t.dropWhile blank) = words blank t := by
    induction t with
    | nil => rfl
    | cons c t ih =>
        cases isBlank : blank c with
        | false => rw [List.dropWhile_cons_of_neg (by simp [isBlank])]
        | true => rw [List.dropWhile_cons_of_pos isBlank, ih, words_cons isBlank]
  have behind (t : List α) : words blank (t.rdropWhile blank) = words blank t := by
    induction t using List.reverseRecOn with
    | nil => rfl
    | append_singleton t c ih =>
        cases isBlank : blank c with
        | false => rw [List.rdropWhile_concat_neg blank t c (by simp [isBlank])]
        | true =>
            rw [List.rdropWhile_concat_pos blank t c isBlank, ih,
              words_append_right (List.forall_mem_singleton.mpr isBlank)]
  rw [behind, front]

/-! ## Words written again -/

@[simp] theorem unwords_nil : unwords sp [] = [] := rfl

theorem unwords_cons (word : List α) {ws : List (List α)} (nonempty : ws ≠ []) :
    unwords sp (word :: ws) = word ++ sp :: unwords sp ws := by
  obtain ⟨next, ws, rfl⟩ := List.exists_cons_of_ne_nil nonempty
  rw [unwords, List.intercalate_cons_cons, List.append_assoc]
  rfl

theorem words_unwords (isBlank : blank sp = true) {ws : List (List α)}
    (each : ∀ word ∈ ws, word ≠ [] ∧ ∀ c ∈ word, blank c = false) :
    words blank (unwords sp ws) = ws := by
  induction ws with
  | nil => rfl
  | cons word ws ih =>
      obtain ⟨⟨nonempty, letters⟩, later⟩ := List.forall_mem_cons.mp each
      by_cases last : ws = []
      · rw [last, unwords, List.intercalate_singleton, words_letters nonempty letters]
      · rw [unwords_cons word last, words_append_cons isBlank, words_letters nonempty letters,
          ih later]
        rfl

theorem words_unwords_words (isBlank : blank sp = true) (t : List α) :
    words blank (unwords sp (words blank t)) = words blank t :=
  words_unwords isBlank fun _ => mem_words

theorem flatMap_unwords {ws : List (List α)} (nonempty : ws ≠ []) :
    ws.flatMap (· ++ [sp]) = unwords sp ws ++ [sp] := by
  induction ws with
  | nil => exact absurd rfl nonempty
  | cons word ws ih =>
      by_cases last : ws = []
      · rw [last, List.flatMap_singleton, unwords, List.intercalate_singleton]
      · rw [List.flatMap_cons, ih last, unwords_cons word last, List.append_assoc, List.append_assoc]
        rfl

/-- A text whose only blanks are single ones between its words is its words written again. -/
theorem unwords_words (isBlank : blank sp = true) (only : ∀ c ∈ t, blank c = true → c = sp)
    (single : ¬ [sp, sp] <:+: t) (first : ∀ c, t.head? = some c → blank c = false)
    (last : ∀ c, t.getLast? = some c → blank c = false) : unwords sp (words blank t) = t := by
  have general (x : List α) (letters : ∀ c ∈ x, blank c = false)
      (begins : x = [] → ∀ c, t.head? = some c → blank c = false) :
      unwords sp (words blank (x ++ t)) = x ++ t := by
    clear first
    induction t generalizing x with
    | nil =>
        rw [List.append_nil]
        by_cases none : x = []
        · rw [none]
          rfl
        · rw [words_letters none letters, unwords, List.intercalate_singleton]
    | cons c t ih =>
        obtain ⟨here, later⟩ := List.forall_mem_cons.mp only
        have singleLater : ¬ [sp, sp] <:+: t := fun inside =>
          single (inside.trans (List.suffix_cons c t).isInfix)
        have lastLater : ∀ d, t.getLast? = some d → blank d = false := fun d ends =>
          last d (by rw [List.getLast?_cons, ends]; rfl)
        cases letter : blank c with
        | false =>
            have whole : x ++ c :: t = (x ++ [c]) ++ t := by rw [List.append_assoc]; rfl
            rw [whole]
            refine ih later singleLater lastLater (x ++ [c]) ?_ fun none => ?_
            · exact List.forall_mem_append.mpr ⟨letters, List.forall_mem_singleton.mpr letter⟩
            · exact absurd none (List.append_ne_nil_of_right_ne_nil x (List.cons_ne_nil c []))
        | true =>
            obtain rfl := here letter
            have nonempty : x ≠ [] := fun none => by
              have begun := begins none c rfl
              rw [letter] at begun
              cases begun
            have next : ∀ d, t.head? = some d → blank d = false := fun d head => by
              refine Bool.eq_false_iff.mpr fun again => single ?_
              obtain ⟨t, rfl⟩ := List.head?_eq_some_iff.mp head
              obtain rfl := later d List.mem_cons_self again
              exact ⟨[], t, rfl⟩
            have behind := ih later singleLater lastLater [] (fun _ none => absurd none List.not_mem_nil)
              fun _ => next
            rw [List.nil_append] at behind
            have some : words blank t ≠ [] := fun none => by
              rw [none, unwords_nil] at behind
              have ended := last c (by rw [← behind]; rfl)
              rw [letter] at ended
              cases ended
            rw [words_append_cons letter, words_letters nonempty letters, List.singleton_append,
              unwords_cons x some, behind]
  exact general [] (fun _ none => absurd none List.not_mem_nil) fun _ => first

/-! ## Texts that differ in their blanks -/

namespace Alike

theorem refl (t : List α) : Alike blank t t := by
  induction t with
  | nil => exact .nil
  | cons c t ih =>
      cases letter : blank c with
      | false => exact .letter letter ih
      | true =>
          have one : ∀ d ∈ [c], blank d = true := List.forall_mem_singleton.mpr letter
          exact .blanks (List.cons_ne_nil c []) (List.cons_ne_nil c []) one one ih

theorem symm (alike : Alike blank s t) : Alike blank t s := by
  induction alike with
  | nil => exact .nil
  | letter isLetter _ ih => exact .letter isLetter ih
  | blanks someV someW blanksV blanksW _ ih => exact .blanks someW someV blanksW blanksV ih

theorem append {s' t' : List α} (front : Alike blank s t) (behind : Alike blank s' t') :
    Alike blank (s ++ s') (t ++ t') := by
  induction front with
  | nil => exact behind
  | letter isLetter _ ih => exact .letter isLetter ih
  | blanks someV someW blanksV blanksW _ ih =>
      rw [List.append_assoc, List.append_assoc]
      exact .blanks someV someW blanksV blanksW ih

/-- Alike texts have the same words, behind any text. -/
theorem words_append (alike : Alike blank s t) (x : List α) :
    words blank (x ++ s) = words blank (x ++ t) := by
  induction alike generalizing x with
  | nil => rfl
  | @letter c s t _ _ ih =>
      have next := ih (x ++ [c])
      rwa [List.append_assoc, List.append_assoc] at next
  | blanks someV someW blanksV blanksW _ ih =>
      rw [words_append_blanks someV blanksV, words_append_blanks someW blanksW]
      exact congrArg _ (ih [])

theorem words_eq (alike : Alike blank s t) : words blank s = words blank t :=
  alike.words_append []

theorem filter_eq (alike : Alike blank s t) :
    (s.filter fun c => !blank c) = t.filter fun c => !blank c := by
  rw [← flatten_words, ← flatten_words, alike.words_eq]

theorem nil_left (alike : Alike blank [] t) : t = [] := by
  generalize same : ([] : List α) = s at alike
  cases alike with
  | nil => rfl
  | letter => cases same
  | blanks someV => exact absurd (List.append_eq_nil_iff.mp same.symm).1 someV

theorem mem_iff (alike : Alike blank s t) {c : α} (letter : blank c = false) : c ∈ s ↔ c ∈ t := by
  have member (u : List α) : c ∈ u ↔ c ∈ u.filter fun c => !blank c := by
    rw [List.mem_filter, letter]
    exact (and_iff_left rfl).symm
  rw [member s, member t, alike.filter_eq]

theorem blanks_of {w : List α} (alike : Alike blank w t) (nonempty : w ≠ [])
    (blanks : ∀ c ∈ w, blank c = true) : t ≠ [] ∧ ∀ c ∈ t, blank c = true := by
  refine ⟨fun none => nonempty ?_, fun c member => ?_⟩
  · rw [none] at alike
    exact alike.symm.nil_left
  · cases letter : blank c with
    | true => rfl
    | false =>
        have inside := blanks c ((alike.mem_iff letter).mpr member)
        rw [letter] at inside
        cases inside

/-- Alike texts are cut alike at a letter. -/
theorem cut {c : α} {p u : List α} (alike : Alike blank (p ++ c :: u) t)
    (letter : blank c = false) :
    ∃ p' u', t = p' ++ c :: u' ∧ Alike blank p p' ∧ Alike blank u u' := by
  generalize whole : p ++ c :: u = s at alike
  induction alike generalizing p with
  | nil => exact absurd whole (List.append_ne_nil_of_right_ne_nil p (List.cons_ne_nil c u))
  | @letter d s t isLetter behind ih =>
      cases p with
      | nil =>
          obtain ⟨rfl, rfl⟩ := List.cons.inj whole
          exact ⟨[], t, rfl, .nil, behind⟩
      | cons e p =>
          obtain ⟨rfl, rest⟩ := List.cons.inj whole
          obtain ⟨p', u', rfl, front, rear⟩ := ih rest
          exact ⟨e :: p', u', rfl, .letter isLetter front, rear⟩
  | @blanks v w s t someV someW blanksV blanksW behind ih =>
      rcases List.append_eq_append_iff.mp whole with ⟨v', rfl, rest⟩ | ⟨p', rfl, rest⟩
      · -- the letter would be among the blanks
        cases v' with
        | nil =>
            obtain ⟨p', u', rfl, front, rear⟩ := ih (p := []) rest
            refine ⟨w ++ p', u', (List.append_assoc _ _ _).symm, ?_, rear⟩
            have before := Alike.blanks someV someW blanksV blanksW front
            rwa [List.append_nil, List.append_nil] at before
        | cons d v' =>
            obtain ⟨rfl, -⟩ := List.cons.inj rest
            have among := blanksV c (List.mem_append_right p List.mem_cons_self)
            rw [letter] at among
            cases among
      · obtain ⟨p'', u', rfl, front, rear⟩ := ih rest.symm
        exact ⟨w ++ p'', u', (List.append_assoc _ _ _).symm,
          .blanks someV someW blanksV blanksW front, rear⟩

theorem cut_cons {c : α} {u : List α} (alike : Alike blank (c :: u) t) (letter : blank c = false) :
    ∃ u', t = c :: u' ∧ Alike blank u u' := by
  obtain ⟨p, u', rfl, before, behind⟩ := @cut α blank t c [] u alike letter
  obtain rfl := before.nil_left
  exact ⟨u', rfl, behind⟩

/-- A text between blanks is like its words, each with a blank behind it. -/
theorem spaced (isBlank : blank sp = true) (t : List α) :
    (∀ v, v ≠ [] → (∀ c ∈ v, blank c = true) →
      Alike blank (v ++ (t ++ [sp])) (sp :: (words blank t).flatMap (· ++ [sp]))) ∧
    ∀ x, x ≠ [] → (∀ c ∈ x, blank c = false) →
      Alike blank (x ++ (t ++ [sp])) ((words blank (x ++ t)).flatMap (· ++ [sp])) := by
  have one : ∀ c ∈ [sp], blank c = true := List.forall_mem_singleton.mpr isBlank
  have some : [sp] ≠ [] := List.cons_ne_nil sp []
  induction t with
  | nil =>
      refine ⟨fun v nonempty blanks => ?_, fun x nonempty letters => ?_⟩
      · have ends : Alike blank ((v ++ [sp]) ++ []) ([sp] ++ []) :=
          .blanks (List.append_ne_nil_of_left_ne_nil nonempty _) some
            (List.forall_mem_append.mpr ⟨blanks, one⟩) one .nil
        rwa [List.append_nil] at ends
      · rw [List.append_nil, words_letters nonempty letters, List.flatMap_singleton]
        exact refl _
  | cons c t ih =>
      obtain ⟨between, inside⟩ := ih
      cases letter : blank c with
      | false =>
          have oneLetter : ∀ d ∈ [c], blank d = false := List.forall_mem_singleton.mpr letter
          refine ⟨fun v nonempty blanks => ?_, fun x nonempty letters => ?_⟩
          · exact .blanks nonempty some blanks one (inside [c] (List.cons_ne_nil c []) oneLetter)
          · have next := inside (x ++ [c]) (List.append_ne_nil_of_left_ne_nil nonempty _)
              (List.forall_mem_append.mpr ⟨letters, oneLetter⟩)
            rwa [List.append_assoc, List.append_assoc] at next
      | true =>
          have oneBlank : ∀ d ∈ [c], blank d = true := List.forall_mem_singleton.mpr letter
          refine ⟨fun v nonempty blanks => ?_, fun x nonempty letters => ?_⟩
          · have next := between (v ++ [c]) (List.append_ne_nil_of_left_ne_nil nonempty _)
              (List.forall_mem_append.mpr ⟨blanks, oneBlank⟩)
            rw [words_cons letter]
            rwa [List.append_assoc] at next
          · have next := between [c] (List.cons_ne_nil c []) oneBlank
            rw [words_append_cons letter, words_letters nonempty letters, List.flatMap_append,
              List.flatMap_singleton, List.append_assoc]
            exact (refl x).append next

/-- A text between two blanks is like its words written again between two blanks. -/
theorem padded (isBlank : blank sp = true) (t : List α) :
    Alike blank (sp :: (t ++ [sp])) (sp :: (unwords sp (words blank t) ++ [sp])) := by
  have one : ∀ c ∈ [sp], blank c = true := List.forall_mem_singleton.mpr isBlank
  have alike := (spaced isBlank t).1 [sp] (List.cons_ne_nil sp []) one
  by_cases none : words blank t = []
  · have noLetter : (words blank t).flatten = _ := flatten_words t
    rw [none, List.flatten_nil] at noLetter
    have blanks : ∀ c ∈ t, blank c = true := fun c member => by
      simpa using List.filter_eq_nil_iff.mp noLetter.symm c member
    have whole := Alike.blanks (v := sp :: (t ++ [sp])) (w := [sp, sp]) (List.cons_ne_nil _ _)
      (List.cons_ne_nil _ _)
      (List.forall_mem_cons.mpr ⟨isBlank, List.forall_mem_append.mpr ⟨blanks, one⟩⟩)
      (List.forall_mem_cons.mpr ⟨isBlank, one⟩) .nil
    rw [List.append_nil, List.append_nil] at whole
    rwa [none]
  · rwa [flatMap_unwords none] at alike

end Alike

end Blanks
