import Webfang.Domain.UrlPatterns

/-!
# Patterns with a host and a path

The module documentation of `pattern_matching` promises that `*.example.com/api/*` is matched
against host and path.  The matcher goes by the first characters alone: a slash behind a host stays
in the text that the host is compared with, unless it begins a closing `/*`.
-/

namespace Webfang

namespace UrlPatterns

open Sitemap

section HostPath

variable {υ : Type} (parse : UrlParser υ) (parts : UrlParts υ) (glob : Glob)

/-- `*.D/G` -/
def belowPattern (domain globText : List Char) : List Char :=
  '*' :: '.' :: (domain ++ '/' :: globText)

/-- `D/G` -/
def ownPattern (domain globText : List Char) : List Char := domain ++ '/' :: globText

/-- As documented: a pattern of a host and a path matches the URLs on a host of the kind whose path
the glob matches. -/
def FiltersBoth (pattern : List Char) (kind : List Char → Prop) (isMatch : List Char → Bool) : Prop :=
  ∀ text, matchesPattern parse parts glob text pattern = true ↔
    ∃ url host, parse text = some url ∧ parts.hostStr url = some host ∧ kind host ∧
      isMatch (parts.path url) = true

/-- Whether the glob `/G` matches a path. -/
def pathMatches (glob : Glob) (globText path : List Char) : Bool :=
  (glob ('/' :: globText)).any fun isMatch => isMatch path

/-- Every URL on a host of the kind has a path for which the glob answers so. -/
def AllAnswer (kind : List Char → Prop) (isMatch : List Char → Bool) (answer : Bool) : Prop :=
  ∀ text url host, parse text = some url → parts.hostStr url = some host → kind host →
    isMatch (parts.path url) = answer

variable {parse parts}

/-- A pattern that never matches filters as documented just if it has nothing to match. -/
theorem filtersBoth_of_never {glob : Glob} {pattern : List Char} {kind : List Char → Prop}
    (never : ∀ text, matchesPattern parse parts glob text pattern = false)
    (isMatch : List Char → Bool) :
    FiltersBoth parse parts glob pattern kind isMatch ↔ AllAnswer parse parts kind isMatch false := by
  constructor
  · intro both text url host parsed named on
    rw [← Bool.not_eq_true]
    intro answer
    have matched := (both text).mpr ⟨url, host, parsed, named, on, answer⟩
    rw [never text] at matched
    cases matched
  · intro none text
    rw [never text]
    refine ⟨fun matched => absurd matched Bool.false_ne_true, ?_⟩
    intro given
    rcases given with ⟨url, host, parsed, named, on, answer⟩
    rw [none text url host parsed named on] at answer
    exact answer

/-- A host holds no slash, so a text with one neither is a host nor ends one. -/
theorem not_onHost_slash (slashFree : SlashFree parse parts) {text wanted : List Char}
    (slash : '/' ∈ wanted) : ¬ OnHost parse parts text fun host => wanted <:+ host := by
  intro given
  rcases given with ⟨url, host, parsed, named, suffix⟩
  exact slashFree text url host parsed named (suffix.subset slash)

theorem slash_mem_domainOf {domain globText : List Char} (other : globText ≠ ['*']) :
    '/' ∈ domainOf (domain ++ '/' :: globText) := by
  rw [domainOf]
  split
  · rename_i closed
    obtain ⟨before, whole⟩ := List.isSuffixOf_iff_suffix.mp closed
    replace whole : before ++ ['/', '*'] = domain ++ '/' :: globText := whole
    have cut : (domain ++ '/' :: globText).dropLast.dropLast = before := by
      rw [← whole]
      simp
    rw [cut]
    -- the slash of the pattern is that of the closing `/*` only behind the whole domain
    rcases List.append_eq_append_iff.mp whole with ⟨middle, -, ends⟩ | ⟨middle, rfl, ends⟩
    · rcases middle with _ | ⟨c, _ | ⟨d, middle⟩⟩
      · exact absurd (List.cons.inj ends).2.symm other
      · exact absurd (List.cons.inj (List.cons.inj ends).2).1 (by decide)
      · have short := congrArg List.length ends
        simp at short
    · rcases middle with _ | ⟨c, middle⟩
      · exact absurd (List.cons.inj ends).2 other
      · obtain ⟨rfl, -⟩ := List.cons.inj ends
        exact List.mem_append_right _ List.mem_cons_self
  · exact List.mem_append_right _ List.mem_cons_self

theorem below_never_matches (slashFree : SlashFree parse parts) {domain globText : List Char}
    (other : globText ≠ ['*']) (text : List Char) :
    matchesPattern parse parts glob text (belowPattern domain globText) = false := by
  rw [← Bool.not_eq_true, belowPattern, matchesPattern_below]
  exact not_onHost_slash slashFree (List.mem_cons_of_mem _ (slash_mem_domainOf other))

/-- Behind a plain domain nothing changes the kind of a pattern. -/
theorem ownPattern_plain {domain : List Char} (free : '/' ∉ domain) (plain : IsPlain domain)
    (globText : List Char) : IsPlain (ownPattern domain globText) ∧
      ¬ ['/'] <+: ownPattern domain globText ∧ ¬ ['*', '/'] <+: ownPattern domain globText := by
  obtain ⟨filled, single, notBelow⟩ := plain
  rcases domain with _ | ⟨c, _ | ⟨d, domain⟩⟩
  · exact absurd rfl filled
  · have star : c ≠ '*' := fun same => single (same ▸ rfl)
    have slash : c ≠ '/' := fun same => free (same ▸ List.mem_cons_self)
    refine ⟨⟨List.cons_ne_nil _ _, ?_, ?_⟩, ?_, ?_⟩
    all_goals simp [ownPattern, List.cons_prefix_cons, Ne.symm star, Ne.symm slash]
  · have slash : c ≠ '/' := fun same => free (same ▸ List.mem_cons_self)
    have slash' : d ≠ '/' := fun same => free (same ▸ List.mem_cons_of_mem _ List.mem_cons_self)
    rw [List.cons_prefix_cons, List.cons_prefix_cons] at notBelow
    refine ⟨⟨List.cons_ne_nil _ _, ?_, ?_⟩, ?_, ?_⟩
    · simp [ownPattern]
    · simpa [ownPattern, List.cons_prefix_cons] using notBelow
    · simp [ownPattern, List.cons_prefix_cons, Ne.symm slash]
    · simp [ownPattern, List.cons_prefix_cons, Ne.symm slash']

theorem own_never_matches (slashFree : SlashFree parse parts) {domain globText : List Char}
    (free : '/' ∉ domain) (plain : IsPlain domain) (text : List Char) :
    matchesPattern parse parts glob text (ownPattern domain globText) = false := by
  obtain ⟨plain', slash, starSlash⟩ := ownPattern_plain free plain globText
  rw [← Bool.not_eq_true, matchesPattern_host plain' slash starSlash]
  intro given
  rcases given with ⟨url, host, parsed, named, rfl⟩
  exact slashFree text url _ parsed named (List.mem_append_right _ List.mem_cons_self)

theorem domainOf_star (domain : List Char) : domainOf (domain ++ '/' :: ['*']) = domain :=
  domainOf_slashStar domain

theorem filtersBoth_below_iff (slashFree : SlashFree parse parts) (domain globText : List Char)
    (isMatch : List Char → Bool) :
    FiltersBoth parse parts glob (belowPattern domain globText) (IsBelow domain) isMatch ↔
      AllAnswer parse parts (IsBelow domain) isMatch (globText = ['*']) := by
  by_cases star : globText = ['*']
  · subst star
    rw [decide_eq_true rfl]
    constructor
    · intro both text url host parsed named below
      have matched : matchesPattern parse parts glob text (belowPattern domain ['*']) = true := by
        rw [belowPattern, matchesPattern_below, domainOf_star]
        exact ⟨url, host, parsed, named, (isBelow_iff domain host).mp below⟩
      obtain ⟨url', host', parsed', -, -, answer⟩ := (both text).mp matched
      cases parsed.symm.trans parsed'
      exact answer
    · intro all text
      rw [belowPattern, matchesPattern_below, domainOf_star]
      constructor
      · intro given
        rcases given with ⟨url, host, parsed, named, suffix⟩
        have below := (isBelow_iff domain host).mpr suffix
        exact ⟨url, host, parsed, named, below, all text url host parsed named below⟩
      · intro given
        rcases given with ⟨url, host, parsed, named, below, -⟩
        exact ⟨url, host, parsed, named, (isBelow_iff domain host).mp below⟩
  · rw [decide_eq_false star]
    exact filtersBoth_of_never (below_never_matches glob slashFree star) isMatch

theorem filtersBoth_own_iff (slashFree : SlashFree parse parts) {domain : List Char}
    (written : IsWritten parse parts domain) (plain : IsPlain domain) (globText : List Char)
    (isMatch : List Char → Bool) :
    FiltersBoth parse parts glob (ownPattern domain globText) (· = domain) isMatch ↔
      AllAnswer parse parts (· = domain) isMatch false := by
  obtain ⟨_, _, _, parsed, named, rfl⟩ := written
  exact filtersBoth_of_never
    (own_never_matches glob slashFree (slashFree _ _ _ parsed named) plain) isMatch

/-- What the documentation says of `*.D/G` holds just if `G` is a star and every URL below `D` has a
path that `/G` matches, or none has one; what it says of `D/G`, just if no URL on `D` has one.  Such a
pattern, `*.D/*` apart, excludes nothing. -/
theorem filtersBoth_iff (slashFree : SlashFree parse parts) {domain : List Char}
    (written : IsWritten parse parts domain) (globText : List Char) :
    (FiltersBoth parse parts glob (belowPattern domain globText) (IsBelow domain)
          (pathMatches glob globText) ↔
        AllAnswer parse parts (IsBelow domain) (pathMatches glob globText) (globText = ['*'])) ∧
      (IsPlain domain →
        (FiltersBoth parse parts glob (ownPattern domain globText) (· = domain)
            (pathMatches glob globText) ↔
          AllAnswer parse parts (· = domain) (pathMatches glob globText) false)) ∧
      (globText ≠ ['*'] →
        ∀ text, isExcluded parse parts glob text [belowPattern domain globText] = false) ∧
      (IsPlain domain →
        ∀ text, isExcluded parse parts glob text [ownPattern domain globText] = false) := by
  refine ⟨filtersBoth_below_iff glob slashFree domain globText _,
    fun plain => filtersBoth_own_iff glob slashFree written plain globText _,
    fun other text => ?_, fun plain text => ?_⟩
  · rw [isExcluded, List.any_cons, below_never_matches glob slashFree other text]
    rfl
  · obtain ⟨_, _, _, parsed, named, rfl⟩ := written
    rw [isExcluded, List.any_cons,
      own_never_matches glob slashFree (slashFree _ _ _ parsed named) plain text]
    rfl

end HostPath

theorem sample_filtersBoth :
    FiltersBoth sampleParse sampleParts sampleGlob (belowPattern "example.com".toList ['*'])
      (IsBelow "example.com".toList) (pathMatches sampleGlob ['*']) := by
  refine (filtersBoth_iff sampleGlob sample_slashFree
    ⟨"https://example.com/".toList, _, _, rfl, rfl, rfl⟩ ['*']).1.mpr ?_
  intro text url host parsed _ _
  rw [sampleParse] at parsed
  split_ifs at parsed
  · cases parsed
    rfl
  · cases parsed
    rfl
  · cases parsed
    rfl
  · cases parsed
    rfl

/-- The documentation's own example: what is below the path is not excluded. -/
theorem documented_pattern_excludes_nothing : ¬ ∀ (υ : Type) (parse : UrlParser υ)
    (parts : UrlParts υ) (glob : Glob), SlashFree parse parts → ∀ domain globText,
      IsWritten parse parts domain →
        FiltersBoth parse parts glob (belowPattern domain globText) (IsBelow domain)
          (pathMatches glob globText) := by
  intro all
  have both := all SampleUrl sampleParse sampleParts sampleGlob sample_slashFree
    "example.com".toList "api/*".toList ⟨"https://example.com/".toList, _, _, rfl, rfl, rfl⟩
  have below : IsBelow "example.com".toList "a.example.com".toList :=
    (isBelow_iff _ _).mpr ⟨['a'], rfl⟩
  have matched := (both "https://a.example.com/api/users".toList).mpr
    ⟨_, _, rfl, rfl, below, rfl⟩
  exact absurd matched (by decide)

end UrlPatterns

end Webfang
