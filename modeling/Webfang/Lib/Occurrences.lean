import Mathlib.Data.List.MinMax

/-!
# Occurrences of many patterns

A text is searched for several words at once.  The search reports an occurrence as soon as it ends
and goes on behind it, so what is reported does not overlap; of two occurrences that end at the same
place the longer one is reported.  An occurrence is reported just when no reported one ends inside
it; this says which ones are reported, and a word behind another one's is never.
-/

namespace Occurrences

/-- A pattern and the place of its word in a text. -/
structure Match (σ : Type*) where
  pattern : σ
  start : Nat
  stop : Nat
  deriving DecidableEq

section Search

variable {α σ : Type*} [DecidableEq α] (word : σ → List α) (dictionary : List σ)

/-- The longest word that ends a text, which is given backwards. -/
def ending (window : List α) : Option σ :=
  (dictionary.filter fun p => (word p).reverse.isPrefixOf window).argmax fun p => (word p).length

/-- The search at a place of the text, behind a window that was searched without success. -/
def scanFrom (window : List α) (pos : Nat) : List α → List (Match σ)
  | [] => []
  | c :: rest =>
      match ending word dictionary (c :: window) with
      | some p => ⟨p, pos + 1 - (word p).length, pos + 1⟩ :: scanFrom [] (pos + 1) rest
      | none => scanFrom (c :: window) (pos + 1) rest

def findIter (text : List α) : List (Match σ) := scanFrom word dictionary [] 0 text

/-- The word of a pattern stands in the text. -/
structure Occurs (text : List α) (m : Match σ) : Prop where
  known : m.pattern ∈ dictionary
  stands : ∃ before after, text = before ++ word m.pattern ++ after ∧ m.start = before.length ∧
    m.stop = before.length + (word m.pattern).length

end Search

/-- One match ends inside another one, or together with it and is longer. -/
def Match.Cuts {σ : Type*} (r m : Match σ) : Prop :=
  m.start < r.stop ∧ (r.stop < m.stop ∨ r.stop = m.stop ∧ r.start < m.start)

section Reported

variable {α σ : Type*} [DecidableEq α] {word : σ → List α} {dictionary : List σ}

theorem mem_of_ending {window : List α} {p : σ} (found : ending word dictionary window = some p) :
    p ∈ dictionary ∧ (word p).reverse <+: window := by
  have member := List.argmax_mem (Option.mem_def.mpr found)
  exact ⟨List.mem_of_mem_filter member, List.isPrefixOf_iff_prefix.mp (List.mem_filter.mp member).2⟩

/-- What ends a window is no longer than what is found there. -/
theorem ending_of_prefix {window : List α} {q : σ} (known : q ∈ dictionary)
    (ends : (word q).reverse <+: window) :
    ∃ p, ending word dictionary window = some p ∧ (word q).length ≤ (word p).length := by
  have member : q ∈ dictionary.filter fun p => (word p).reverse.isPrefixOf window :=
    List.mem_filter.mpr ⟨known, List.isPrefixOf_iff_prefix.mpr ends⟩
  cases found : ending word dictionary window with
  | none =>
      rw [List.argmax_eq_none.mp found] at member
      exact absurd member List.not_mem_nil
  | some p => exact ⟨p, rfl, List.le_of_mem_argmax (f := fun p => (word p).length) member found⟩

omit [DecidableEq α] in
/-- An occurrence that ends behind the window is a word that ends the window. -/
theorem occurs_here {older window rest : List α} {m : Match σ}
    (stops : m.stop = (window ++ older).length) :
    Occurs word dictionary ((window ++ older).reverse ++ rest) m ∧ older.length ≤ m.start ↔
      m.pattern ∈ dictionary ∧ (word m.pattern).reverse <+: window ∧
        m.start = (window ++ older).length - (word m.pattern).length := by
  constructor
  · rintro ⟨⟨known, before, after, whole, starts, ends⟩, behind⟩
    have same : (window ++ older).reverse = before ++ word m.pattern := by
      refine (List.append_inj whole ?_).1
      rw [List.length_reverse, ← stops, ends, List.length_append]
    have back : window ++ older = (word m.pattern).reverse ++ before.reverse := by
      rw [← List.reverse_append, ← same, List.reverse_reverse]
    refine ⟨known, ?_, by omega⟩
    refine List.prefix_of_prefix_length_le ⟨before.reverse, back.symm⟩ (List.prefix_append _ older) ?_
    rw [List.length_reverse]
    rw [List.length_append] at stops
    omega
  · rintro ⟨known, ⟨between, split⟩, starts⟩
    have size : window.length = (word m.pattern).length + between.length := by
      rw [← split, List.length_append, List.length_reverse]
    rw [List.length_append] at stops starts
    refine ⟨⟨known, older.reverse ++ between.reverse, rest, ?_, ?_, ?_⟩, by omega⟩
    · rw [← split]
      simp
    · rw [List.length_append, List.length_reverse, List.length_reverse]
      omega
    · rw [List.length_append, List.length_reverse, List.length_reverse]
      omega

/-- What the search reports from a place on: the occurrences that end behind it and in which no
reported one ends. -/
theorem mem_scanFrom (nonempty : ∀ p ∈ dictionary, word p ≠ [])
    (distinct : ∀ p ∈ dictionary, ∀ q ∈ dictionary, word p = word q → p = q)
    (rest older window : List α) (m : Match σ) :
    m ∈ scanFrom word dictionary window (window ++ older).length rest ↔
      Occurs word dictionary ((window ++ older).reverse ++ rest) m ∧ older.length ≤ m.start ∧
        (window ++ older).length < m.stop ∧
        ∀ r ∈ scanFrom word dictionary window (window ++ older).length rest, ¬ r.Cuts m := by
  induction rest generalizing older window m with
  | nil =>
      refine iff_of_false List.not_mem_nil ?_
      rintro ⟨⟨known, before, after, whole, starts, ends⟩, -, beyond, -⟩
      have size := congrArg List.length whole
      rw [List.append_nil, List.length_reverse] at size
      rw [size, List.length_append, List.length_append] at beyond
      omega
  | cons c rest ih =>
      have next : (window ++ older).reverse ++ c :: rest =
          (c :: window ++ older).reverse ++ rest := by simp
      have place : (window ++ older).length + 1 = (c :: window ++ older).length := rfl
      rw [next, scanFrom, place]
      cases found : ending word dictionary (c :: window) with
      | none =>
          dsimp only
          rw [ih]
          refine and_congr_right fun occurs => and_congr_right fun behind =>
            and_congr_left fun _ => ⟨fun beyond => by omega, fun beyond => ?_⟩
          by_contra stops
          obtain ⟨known, ends, -⟩ := (occurs_here (by omega)).mp ⟨occurs, behind⟩
          obtain ⟨p, there, -⟩ := ending_of_prefix known ends
          rw [found] at there
          exact absurd there (by simp)
      | some p =>
          dsimp only
          have later := fun m => ih (c :: window ++ older) [] m
          rw [List.nil_append] at later
          obtain ⟨known, ends⟩ := mem_of_ending found
          have reported : Occurs word dictionary ((c :: window ++ older).reverse ++ rest)
              ⟨p, (c :: window ++ older).length - (word p).length, (c :: window ++ older).length⟩ ∧
              older.length ≤ (c :: window ++ older).length - (word p).length :=
            (occurs_here rfl).mpr ⟨known, ends, rfl⟩
          rw [List.mem_cons, later]
          constructor
          · rintro (rfl | ⟨occurs, behind, beyond, uncut⟩)
            · refine ⟨reported.1, reported.2, Nat.lt_succ_self _, List.forall_mem_cons.mpr ⟨?_, ?_⟩⟩
              · rintro ⟨-, before | ⟨-, before⟩⟩ <;> exact absurd before (lt_irrefl _)
              · intro r member cuts
                obtain ⟨-, -, beyond, -⟩ := (later r).mp member
                obtain ⟨-, before | ⟨same, -⟩⟩ := cuts
                · exact absurd before (by dsimp only; omega)
                · exact absurd same (by dsimp only; omega)
            · refine ⟨occurs, ?_, by omega, List.forall_mem_cons.mpr ⟨?_, uncut⟩⟩
              · rw [List.length_append] at behind
                omega
              · exact fun cuts => absurd cuts.1 (Nat.not_lt.mpr behind)
          · rintro ⟨occurs, behind, beyond, uncut⟩
            obtain ⟨first, uncut⟩ := List.forall_mem_cons.mp uncut
            by_cases here : m.stop = (c :: window ++ older).length
            · obtain ⟨member, prefixed, starts⟩ := (occurs_here here).mp ⟨occurs, behind⟩
              obtain ⟨q, again, longest⟩ := ending_of_prefix member prefixed
              obtain rfl := Option.some.inj (found.symm.trans again)
              have some : 0 < (word m.pattern).length :=
                List.length_pos_iff.mpr (nonempty m.pattern member)
              have fits := prefixed.length_le
              have fitsToo := ends.length_le
              rw [List.length_reverse] at fits fitsToo
              have inside : (c :: window).length ≤ (c :: window ++ older).length := by
                rw [List.length_append]
                exact Nat.le_add_right _ _
              have noLonger : (word p).length ≤ (word m.pattern).length := by
                by_contra longer
                exact first ⟨by dsimp only; omega, .inr ⟨here.symm, by dsimp only; omega⟩⟩
              have same : (word m.pattern).reverse = (word p).reverse := by
                refine (List.prefix_of_prefix_length_le prefixed ends ?_).eq_of_length ?_
                · rw [List.length_reverse, List.length_reverse]
                  exact longest
                · rw [List.length_reverse, List.length_reverse]
                  omega
              have is : m.pattern = p :=
                distinct _ member _ known (List.reverse_injective same)
              left
              rw [← is, ← starts, ← here]
            · refine .inr ⟨occurs, ?_, by omega, uncut⟩
              by_contra inside
              exact first ⟨Nat.not_le.mp inside, .inl (by dsimp only; omega)⟩

/-- What is reported of a text: the occurrences in which no reported one ends. -/
theorem mem_findIter (nonempty : ∀ p ∈ dictionary, word p ≠ [])
    (distinct : ∀ p ∈ dictionary, ∀ q ∈ dictionary, word p = word q → p = q)
    (text : List α) (m : Match σ) :
    m ∈ findIter word dictionary text ↔
      Occurs word dictionary text m ∧ ∀ r ∈ findIter word dictionary text, ¬ r.Cuts m := by
  have all := mem_scanFrom nonempty distinct text [] [] m
  rw [findIter]
  rw [List.append_nil, List.length_nil, List.reverse_nil, List.nil_append] at all
  rw [all]
  constructor
  · rintro ⟨occurs, -, -, uncut⟩
    exact ⟨occurs, uncut⟩
  · intro ⟨occurs, uncut⟩
    have ⟨known, before, after, _, _, ends⟩ := occurs
    have some := List.length_pos_iff.mpr (nonempty m.pattern known)
    exact ⟨occurs, Nat.zero_le _, by omega, uncut⟩

/-! ## Which occurrences are seen -/

/-- An occurrence is seen just when no seen one cuts it. -/
def IsScan (word : σ → List α) (dictionary : List σ) (text : List α) (seen : Match σ → Prop) : Prop :=
  ∀ m, seen m ↔ Occurs word dictionary text m ∧ ∀ r, seen r → ¬ r.Cuts m

def Seen (word : σ → List α) (dictionary : List σ) (text : List α) (m : Match σ) : Prop :=
  ∃ seen, IsScan word dictionary text seen ∧ seen m

theorem cuts_wellFounded : WellFounded (Match.Cuts (σ := σ)) := by
  have shorter : Subrelation (Match.Cuts (σ := σ))
      (InvImage (Prod.Lex (· < ·) (· < ·)) fun m : Match σ => (m.stop, m.start)) := by
    rintro r m ⟨-, before | ⟨same, before⟩⟩
    · exact Prod.Lex.left _ _ before
    · exact Prod.lex_iff.mpr (.inr ⟨same, before⟩)
  exact shorter.wf (InvImage.wf _ (WellFounded.prod_lex Nat.lt_wfRel.wf Nat.lt_wfRel.wf))

omit [DecidableEq α] in
theorem IsScan.unique {text : List α} {seen other : Match σ → Prop}
    (scan : IsScan word dictionary text seen) (again : IsScan word dictionary text other)
    (m : Match σ) : seen m ↔ other m := by
  induction m using cuts_wellFounded.induction with
  | _ m ih =>
      rw [scan, again]
      refine and_congr_right fun _ => forall_congr' fun r => ?_
      constructor
      · exact fun uncut there cuts => uncut ((ih r cuts).mpr there) cuts
      · exact fun uncut there cuts => uncut ((ih r cuts).mp there) cuts

/-- The search reports what is seen. -/
theorem mem_findIter_iff_seen (nonempty : ∀ p ∈ dictionary, word p ≠ [])
    (distinct : ∀ p ∈ dictionary, ∀ q ∈ dictionary, word p = word q → p = q)
    (text : List α) (m : Match σ) :
    m ∈ findIter word dictionary text ↔ Seen word dictionary text m := by
  have scan : IsScan word dictionary text (· ∈ findIter word dictionary text) :=
    mem_findIter nonempty distinct text
  constructor
  · exact fun member => ⟨_, scan, member⟩
  · exact fun ⟨seen, other, shown⟩ => (other.unique scan m).mp shown

omit [DecidableEq α] in
/-- Something of a kind is seen just when something of it occurs that only its like cuts. -/
theorem IsScan.exists_iff {text : List α} {seen : Match σ → Prop}
    (scan : IsScan word dictionary text seen) (kind : Match σ → Prop) :
    (∃ m, seen m ∧ kind m) ↔ ∃ m, Occurs word dictionary text m ∧ kind m ∧
      ∀ r, seen r → r.Cuts m → kind r := by
  constructor
  · intro ⟨m, shown, is⟩
    obtain ⟨occurs, uncut⟩ := (scan m).mp shown
    exact ⟨m, occurs, is, fun r there cuts => absurd cuts (uncut r there)⟩
  · intro ⟨m, occurs, is, like⟩
    by_cases uncut : ∀ r, seen r → ¬ r.Cuts m
    · exact ⟨m, (scan m).mpr ⟨occurs, uncut⟩, is⟩
    · push Not at uncut
      obtain ⟨r, there, cuts⟩ := uncut
      exact ⟨r, there, like r there cuts⟩

omit [DecidableEq α] in
/-- A word that another one begins is never seen. -/
theorem IsScan.not_of_longer {text : List α} {seen : Match σ → Prop}
    (scan : IsScan word dictionary text seen) {p q : σ} (known : q ∈ dictionary)
    {behind : List α} (longer : word p = word q ++ behind) (more : behind ≠ [])
    (some : word q ≠ []) {m : Match σ} (is : m.pattern = p) : ¬ seen m := by
  intro shown
  obtain ⟨⟨-, before, after, whole, starts, stops⟩, uncut⟩ := (scan m).mp shown
  have size := List.length_pos_iff.mpr more
  have first := List.length_pos_iff.mpr some
  rw [is, longer] at whole stops
  rw [List.length_append] at stops
  have occurs : Occurs word dictionary text ⟨q, m.start, before.length + (word q).length⟩ := by
    refine ⟨known, before, behind ++ after, ?_, starts, rfl⟩
    rw [whole]
    simp
  have cuts : (⟨q, m.start, before.length + (word q).length⟩ : Match σ).Cuts m :=
    ⟨by dsimp only; omega, .inl (by dsimp only; omega)⟩
  refine uncut _ ((scan _).mpr ⟨occurs, fun r there inside => uncut r there ?_⟩) cuts
  obtain ⟨begun, ends⟩ := inside
  exact ⟨begun, .inl (by dsimp only at ends; omega)⟩

end Reported

end Occurrences
