import Mathlib.Data.List.DropRight
import Mathlib.Tactic.SplitIfs

/-!
# Pieces of a text

A text is cut at a separator into its nonempty pieces, trimmed at its ends, and rewritten where a
pattern occurs.  A pattern that cannot reach across a symbol is rewritten on both sides of it
apart.
-/

namespace Pieces

variable {α : Type*} [DecidableEq α]

/-! ## Nonempty pieces -/

/-- The nonempty pieces of a text between the occurrences of a separator. -/
def pieces (sep : α) (text : List α) : List (List α) := (text.splitOn sep).filter (· ≠ [])

variable {sep : α} {text : List α}

theorem pieces_append_cons (before behind : List α) :
    pieces sep (before ++ sep :: behind) = pieces sep before ++ pieces sep behind := by
  rw [pieces, List.splitOn_append_cons_self, List.filter_append]
  rfl

theorem pieces_nil : pieces sep [] = [] := by
  rw [pieces, List.splitOn_nil]
  rfl

theorem pieces_cons (behind : List α) : pieces sep (sep :: behind) = pieces sep behind := by
  have whole : pieces sep ([] ++ sep :: behind) = _ := pieces_append_cons [] behind
  rwa [pieces_nil, List.nil_append, List.nil_append] at whole

theorem pieces_concat (before : List α) : pieces sep (before ++ [sep]) = pieces sep before := by
  rw [pieces_append_cons, pieces_nil, List.append_nil]

theorem pieces_eq_singleton (whole : sep ∉ text) (nonempty : text ≠ []) : pieces sep text = [text] := by
  rw [pieces, List.splitOn_eq_singleton whole, List.filter_cons_of_pos (by simpa using nonempty)]
  rfl

theorem pieces_dropWhile (text : List α) :
    pieces sep (text.dropWhile (· = sep)) = pieces sep text := by
  induction text with
  | nil => rfl
  | cons c text ih =>
      by_cases same : c = sep
      · rw [List.dropWhile_cons_of_pos (by simpa using same), ih, same, pieces_cons]
      · rw [List.dropWhile_cons_of_neg (by simpa using same)]

theorem pieces_rdropWhile (text : List α) :
    pieces sep (text.rdropWhile (· = sep)) = pieces sep text := by
  induction text using List.reverseRecOn with
  | nil => rfl
  | append_singleton text c ih =>
      by_cases same : c = sep
      · rw [List.rdropWhile_concat_pos _ _ _ (by simpa using same), ih, same, pieces_concat]
      · rw [List.rdropWhile_concat_neg _ _ _ (by simpa using same)]

theorem mem_pieces {text piece : List α} (member : piece ∈ pieces sep text) :
    piece ≠ [] ∧ sep ∉ piece := by
  by_cases cut : sep ∈ text
  · obtain ⟨before, behind, rfl, whole⟩ := List.eq_append_cons_of_mem cut
    rw [pieces_append_cons] at member
    rcases List.mem_append.mp member with first | later
    · by_cases nonempty : before = []
      · rw [nonempty, pieces_nil] at first
        cases first
      · rw [pieces_eq_singleton whole nonempty] at first
        cases List.mem_singleton.mp first
        exact ⟨nonempty, whole⟩
    · exact mem_pieces later
  · by_cases nonempty : text = []
    · rw [nonempty, pieces_nil] at member
      cases member
    · rw [pieces_eq_singleton cut nonempty] at member
      cases List.mem_singleton.mp member
      exact ⟨nonempty, cut⟩
termination_by text.length
decreasing_by
  simp_all only [List.length_append, List.length_cons]
  omega

theorem flatten_pieces (text : List α) : (pieces sep text).flatten = text.filter (· ≠ sep) := by
  by_cases cut : sep ∈ text
  · obtain ⟨before, behind, rfl, whole⟩ := List.eq_append_cons_of_mem cut
    have shorter : behind.length < (before ++ sep :: behind).length := by
      rw [List.length_append, List.length_cons]
      omega
    have kept : before.filter (· ≠ sep) = before :=
      List.filter_eq_self.mpr fun c member => decide_eq_true fun same => whole (same ▸ member)
    rw [pieces_append_cons, List.flatten_append, flatten_pieces behind, List.filter_append,
      List.filter_cons_of_neg (by simp), kept]
    congr 1
    by_cases nonempty : before = []
    · rw [nonempty, pieces_nil]
      rfl
    · rw [pieces_eq_singleton whole nonempty, List.flatten_singleton]
  · have kept : text.filter (· ≠ sep) = text :=
      List.filter_eq_self.mpr fun c member => decide_eq_true fun same => cut (same ▸ member)
    rw [kept]
    by_cases nonempty : text = []
    · rw [nonempty, pieces_nil]
      rfl
    · rw [pieces_eq_singleton cut nonempty, List.flatten_singleton]
termination_by text.length

theorem pieces_ne_nil {c : α} {text : List α} (other : c ≠ sep) : pieces sep (c :: text) ≠ [] := by
  intro none
  have flat : (pieces sep (c :: text)).flatten = _ := flatten_pieces (c :: text)
  rw [none, List.filter_cons_of_pos (by simpa using other)] at flat
  cases flat

omit [DecidableEq α] in
/-- A text behind its last separator. -/
theorem exists_last_piece {text : List α} (cut : sep ∈ text) (opened : text.getLast? ≠ some sep) :
    ∃ before last, text = before ++ sep :: last ∧ sep ∉ last ∧ last ≠ [] := by
  obtain ⟨last, before, same, whole⟩ := List.eq_append_cons_of_mem (List.mem_reverse.mpr cut)
  refine ⟨before.reverse, last.reverse, ?_, by rwa [List.mem_reverse], fun none => opened ?_⟩
  · have turned := congrArg List.reverse same
    rwa [List.reverse_reverse, List.reverse_append, List.reverse_cons, List.append_assoc] at turned
  · rw [List.reverse_eq_nil_iff.mp none] at same
    rw [← List.head?_reverse, same]
    rfl

theorem dropLast_pieces (before : List α) {last : List α} (whole : sep ∉ last) (nonempty : last ≠ []) :
    (pieces sep (before ++ sep :: last)).dropLast = pieces sep before := by
  rw [pieces_append_cons, pieces_eq_singleton whole nonempty, List.dropLast_concat]

theorem before_last_piece (before : List α) {last : List α} (whole : sep ∉ last) :
    ((before ++ sep :: last).rdropWhile (· ≠ sep)).dropLast = before := by
  have behind : (last.reverse ++ sep :: before.reverse).dropWhile (· ≠ sep) =
      sep :: before.reverse := by
    rw [List.dropWhile_append_of_pos fun c member => ?_,
      List.dropWhile_cons_of_neg (by simp)]
    exact decide_eq_true fun same => whole (same ▸ List.mem_reverse.mp member)
  rw [List.rdropWhile, List.reverse_append, List.reverse_cons, List.append_assoc,
    List.singleton_append, behind, List.reverse_cons, List.reverse_reverse, List.dropLast_concat]

/-! ## Words -/

theorem splitOn_injective (sep : α) : Function.Injective (List.splitOn sep) :=
  Function.LeftInverse.injective (g := [sep].intercalate) fun _ => List.intercalate_splitOn sep

omit [DecidableEq α] in
theorem intercalate_cons {part : List α} {parts : List (List α)} (nonempty : parts ≠ []) :
    [sep].intercalate (part :: parts) = part ++ sep :: [sep].intercalate parts := by
  obtain ⟨next, parts, rfl⟩ := List.exists_cons_of_ne_nil nonempty
  rw [List.intercalate_cons_cons, List.append_assoc, List.singleton_append]

/-- A text without its empty words is what a text is left with. -/
theorem intercalate_pieces_sublist (text : List α) :
    ([sep].intercalate (pieces sep text)).Sublist text := by
  by_cases cut : sep ∈ text
  · obtain ⟨before, behind, rfl, whole⟩ := List.eq_append_cons_of_mem cut
    have later : ([sep].intercalate (pieces sep behind)).Sublist behind :=
      intercalate_pieces_sublist behind
    rw [pieces_append_cons]
    by_cases nonempty : before = []
    · rw [nonempty, pieces_nil, List.nil_append, List.nil_append]
      exact later.cons sep
    · rw [pieces_eq_singleton whole nonempty, List.singleton_append]
      by_cases more : pieces sep behind = []
      · rw [more, List.intercalate_singleton]
        exact List.sublist_append_left _ _
      · rw [intercalate_cons more]
        exact (List.Sublist.refl before).append (later.cons_cons sep)
  · by_cases nonempty : text = []
    · rw [nonempty, pieces_nil]
      exact List.nil_sublist _
    · rw [pieces_eq_singleton cut nonempty, List.intercalate_singleton]
termination_by text.length
decreasing_by
  simp_all only [List.length_append, List.length_cons]
  omega

/-- A text that its nonempty words make up has no empty ones. -/
theorem splitOn_eq_pieces (nonempty : text ≠ [])
    (whole : [sep].intercalate (pieces sep text) = text) : text.splitOn sep = pieces sep text := by
  have some : pieces sep text ≠ [] := fun none => by
    rw [none] at whole
    exact nonempty whole.symm
  have back := List.splitOn_intercalate sep (fun piece member => (mem_pieces member).2) some
  rwa [whole] at back

theorem pieces_eq_splitOn (words : ∀ word ∈ text.splitOn sep, word ≠ []) :
    pieces sep text = text.splitOn sep :=
  List.filter_eq_self.mpr fun word member => decide_eq_true (words word member)

theorem intercalate_pieces (words : ∀ word ∈ text.splitOn sep, word ≠ []) :
    [sep].intercalate (pieces sep text) = text := by
  rw [pieces_eq_splitOn words, List.intercalate_splitOn]

/-- A symbol other than the separator stands in a piece. -/
theorem exists_piece {c : α} (member : c ∈ text) (other : c ≠ sep) :
    ∃ piece ∈ pieces sep text, c ∈ piece := by
  have kept : c ∈ text.filter (· ≠ sep) := List.mem_filter.mpr ⟨member, decide_eq_true other⟩
  rwa [← flatten_pieces, List.mem_flatten] at kept

theorem mem_of_mem_pieces {piece : List α} (inside : piece ∈ pieces sep text) {c : α}
    (member : c ∈ piece) : c ∈ text ∧ c ≠ sep := by
  have kept : c ∈ (pieces sep text).flatten := List.mem_flatten.mpr ⟨piece, inside, member⟩
  rw [flatten_pieces, List.mem_filter] at kept
  exact kept.imp_right of_decide_eq_true

/-! ## Replaced patterns -/

/-- What is left of a text behind `skip` symbols, with every occurrence of a pattern replaced. -/
def substituteFrom (pat sub : List α) : Nat → List α → List α
  | _, [] => []
  | skip + 1, _ :: text => substituteFrom pat sub skip text
  | 0, c :: text =>
      if pat.isPrefixOf (c :: text) then sub ++ substituteFrom pat sub (pat.length - 1) text
      else c :: substituteFrom pat sub 0 text

/-- A text with every occurrence of a pattern replaced, from the left and without overlaps. -/
def substitute (pat sub text : List α) : List α := substituteFrom pat sub 0 text

variable {pat sub : List α}

theorem substituteFrom_eq (skip : Nat) (text : List α) :
    substituteFrom pat sub skip text = substitute pat sub (text.drop skip) := by
  induction skip generalizing text with
  | zero => rfl
  | succ skip ih =>
      cases text with
      | nil => rfl
      | cons c text => exact ih text

@[simp] theorem substitute_nil : substitute pat sub [] = [] := rfl

theorem substitute_cons {c : α} {text : List α} (absent : ¬ pat <+: c :: text) :
    substitute pat sub (c :: text) = c :: substitute pat sub text := by
  rw [substitute, substituteFrom, if_neg (by rwa [List.isPrefixOf_iff_prefix])]
  rfl

theorem substitute_pattern (nonempty : pat ≠ []) (text : List α) :
    substitute pat sub (pat ++ text) = sub ++ substitute pat sub text := by
  obtain ⟨c, pat, rfl⟩ := List.exists_cons_of_ne_nil nonempty
  have here : (c :: pat).isPrefixOf (c :: (pat ++ text)) = true :=
    List.isPrefixOf_iff_prefix.mpr ⟨text, rfl⟩
  rw [substitute, List.cons_append, substituteFrom, if_pos here, substituteFrom_eq,
    List.length_cons, Nat.add_sub_cancel, List.drop_left]

theorem mem_substituteFrom {x : α} {skip : Nat} {text : List α}
    (member : x ∈ substituteFrom pat sub skip text) : x ∈ sub ∨ x ∈ text := by
  induction text generalizing skip with
  | nil =>
      rw [substituteFrom.eq_def] at member
      cases member
  | cons c text ih =>
      cases skip with
      | succ skip => exact (ih member).imp id (List.mem_cons_of_mem _)
      | zero =>
          rw [substituteFrom] at member
          split_ifs at member
          · rcases List.mem_append.mp member with written | later
            · exact .inl written
            · exact (ih later).imp id (List.mem_cons_of_mem _)
          · rcases List.mem_cons.mp member with rfl | later
            · exact .inr List.mem_cons_self
            · exact (ih later).imp id (List.mem_cons_of_mem _)

/-- A text without one of the symbols of the pattern. -/
theorem substitute_eq_self {x : α} (needed : x ∈ pat) {text : List α} (absent : x ∉ text) :
    substitute pat sub text = text := by
  induction text with
  | nil => rfl
  | cons c text ih =>
      rw [substitute_cons fun here => absent (here.mem needed),
        ih fun member => absent (List.mem_cons_of_mem _ member)]

omit [DecidableEq α] in
/-- A pattern does not reach across a symbol that it could only begin with. -/
theorem not_across {x : α} (begins : x ∉ pat.tail) {before : List α} (inside : before ≠ [])
    (behind : List α) (across : pat <+: before ++ x :: behind) : pat <+: before := by
  obtain ⟨rest, same⟩ := across
  rcases List.append_eq_append_iff.mp same with ⟨more, whole, -⟩ | ⟨more, whole, left⟩
  · exact ⟨more, whole.symm⟩
  · cases more with
    | nil => exact ⟨[], by rw [whole, List.append_nil, List.append_nil]⟩
    | cons y more =>
        obtain ⟨c, before, rfl⟩ := List.exists_cons_of_ne_nil inside
        cases (List.cons.inj left).1
        refine absurd ?_ begins
        rw [whole, List.cons_append, List.tail_cons]
        exact List.mem_append_right _ List.mem_cons_self

theorem substitute_append (nonempty : pat ≠ []) {x : α} (begins : x ∉ pat.tail)
    (before behind : List α) :
    substitute pat sub (before ++ x :: behind) =
      substitute pat sub before ++ substitute pat sub (x :: behind) := by
  cases before with
  | nil => rfl
  | cons c before =>
      by_cases here : pat <+: c :: before
      · obtain ⟨rest, same⟩ := here
        have shorter : rest.length < before.length + 1 := by
          have lengths := congrArg List.length same
          have pos := List.length_pos_of_ne_nil nonempty
          rw [List.length_append, List.length_cons] at lengths
          omega
        rw [← same, List.append_assoc, substitute_pattern nonempty, substitute_pattern nonempty,
          substitute_append nonempty begins rest behind, List.append_assoc]
      · have absent : ¬ pat <+: c :: (before ++ x :: behind) := fun there =>
          here (not_across begins (List.cons_ne_nil c before) behind there)
        rw [List.cons_append, substitute_cons absent, substitute_cons here,
          substitute_append nonempty begins before behind, List.cons_append]
termination_by before.length

/-! ## Trimmed ends -/

/-- A text without the repetitions of a pattern at its start, at most `fuel` of them. -/
def trimStartFuel (pat : List α) : Nat → List α → List α
  | 0, text => text
  | fuel + 1, text =>
      if pat.isPrefixOf text then trimStartFuel pat fuel (text.drop pat.length) else text

/-- A text without the repetitions of a pattern at its start. -/
def trimStart (pat text : List α) : List α := trimStartFuel pat text.length text

/-- A text without the repetitions of a pattern at its end. -/
def trimEnd (pat text : List α) : List α := (trimStart pat.reverse text.reverse).reverse

theorem trimStartFuel_of_not {text : List α} (absent : ¬ pat <+: text) (fuel : Nat) :
    trimStartFuel pat fuel text = text := by
  cases fuel with
  | zero => rfl
  | succ fuel => rw [trimStartFuel, if_neg (by rwa [List.isPrefixOf_iff_prefix])]

theorem trimStart_of_not {text : List α} (absent : ¬ pat <+: text) : trimStart pat text = text :=
  trimStartFuel_of_not absent _

theorem trimStartFuel_eq (nonempty : pat ≠ []) {fuel : Nat} {text : List α}
    (enough : text.length ≤ fuel) : trimStartFuel pat fuel text = trimStart pat text := by
  rw [trimStart]
  generalize bound : text.length = more
  have enough' : text.length ≤ more := bound.le
  clear bound
  induction fuel generalizing text more with
  | zero =>
      rw [List.eq_nil_of_length_eq_zero (Nat.le_zero.mp enough)]
      exact (trimStartFuel_of_not (fun here => nonempty (List.prefix_nil.mp here)) more).symm
  | succ fuel ih =>
      by_cases here : pat <+: text
      · obtain ⟨rest, rfl⟩ := here
        have pos := List.length_pos_of_ne_nil nonempty
        have whole : pat.isPrefixOf (pat ++ rest) = true :=
          List.isPrefixOf_iff_prefix.mpr (List.prefix_append _ _)
        rw [List.length_append] at enough enough'
        obtain ⟨more, rfl⟩ : ∃ n, more = n + 1 := ⟨more - 1, by omega⟩
        rw [trimStartFuel, trimStartFuel, if_pos whole, if_pos whole, List.drop_left]
        exact ih (by omega) more (by omega)
      · rw [trimStartFuel_of_not here, trimStartFuel_of_not here]

theorem trimStart_pattern (nonempty : pat ≠ []) (text : List α) :
    trimStart pat (pat ++ text) = trimStart pat text := by
  have pos := List.length_pos_of_ne_nil nonempty
  obtain ⟨fuel, enough⟩ : ∃ n, (pat ++ text).length = n + 1 :=
    ⟨(pat ++ text).length - 1, by rw [List.length_append]; omega⟩
  rw [trimStart, enough, trimStartFuel,
    if_pos (List.isPrefixOf_iff_prefix.mpr (List.prefix_append _ _)), List.drop_left]
  refine trimStartFuel_eq nonempty ?_
  rw [List.length_append] at enough
  omega

theorem trimEnd_of_not {text : List α} (absent : ¬ pat <:+ text) : trimEnd pat text = text := by
  rw [trimEnd, trimStart_of_not (by rwa [List.reverse_prefix]), List.reverse_reverse]

theorem trimStartFuel_suffix (pat : List α) (fuel : Nat) (text : List α) :
    trimStartFuel pat fuel text <:+ text := by
  induction fuel generalizing text with
  | zero => exact List.suffix_refl text
  | succ fuel ih =>
      rw [trimStartFuel]
      split_ifs
      · exact (ih _).trans (List.drop_suffix _ _)
      · exact List.suffix_refl text

theorem trimEnd_isPrefix (pat text : List α) : trimEnd pat text <+: text := by
  rw [← List.reverse_suffix, trimEnd, List.reverse_reverse]
  exact trimStartFuel_suffix _ _ _

end Pieces
