import Webfang.Domain.SimpleUrlParser

/-!
# The spellings of a seed

`normalize_seed_host` reads a URL with the parser and cuts every other text by hand, at the first
slash and then at the first colon.  The two readings agree just on the names that are their own
canonical form but for the case of letters, that hold no colon, have no `www.` of their own in front,
and are neither `localhost` nor a scheme that the parser looks for a host behind.
-/

namespace Webfang.Seeds

open Sitemap (ParserTools extractDomain isInternalLink normalizeSeedHost stripPrefix stripWwwPrefix)
open UrlValidation (toAsciiLowercase)
open AsciiCase

/-! ## What is cut from a host -/

section Reading

variable {υ : Type} {tools : ParserTools υ} {host x s name : List Char}

theorem ascii_www : Ascii www := @of_decide_eq_true _ (List.decidableBAll _ _) rfl

theorem stripWww_marked (marked : tools.toLowercase host = www ++ name) (more : name ≠ []) :
    stripWwwPrefix tools host = name := by
  have begins : www.isPrefixOf (www ++ name) = true :=
    List.isPrefixOf_iff_prefix.mpr (List.prefix_append _ _)
  have found : stripPrefix www (tools.toLowercase host) = some name := by
    rw [marked, stripPrefix, if_pos begins, List.drop_left]
  rw [www] at found
  rw [stripWwwPrefix, found]
  cases name with
  | nil => exact absurd rfl more
  | cons c rest => rfl

theorem stripWww_unmarked
    (unmarked : ∀ name, tools.toLowercase host = www ++ name → name = []) :
    stripWwwPrefix tools host = host := by
  rw [stripWwwPrefix]
  cases found : stripPrefix "www.".toList (tools.toLowercase host) with
  | none => rfl
  | some name =>
      rw [stripPrefix] at found
      split_ifs at found with begins
      obtain ⟨rest, whole⟩ := List.isPrefixOf_iff_prefix.mp begins
      cases unmarked rest whole.symm
      rw [← whole, List.append_nil] at found
      cases found
      rfl

/-- Either nothing is cut, or just what is behind `www.` is left. -/
theorem stripWww_cases (tools : ParserTools υ) (host : List Char) :
    stripWwwPrefix tools host = host ∨
      ∃ name, name ≠ [] ∧ tools.toLowercase host = www ++ name ∧
        stripWwwPrefix tools host = name := by
  by_cases marked : ∃ name, name ≠ [] ∧ tools.toLowercase host = www ++ name
  · obtain ⟨name, more, marked⟩ := marked
    exact .inr ⟨name, more, marked, stripWww_marked marked more⟩
  · refine .inl (stripWww_unmarked fun name marks => ?_)
    by_contra more
    exact marked ⟨name, more, marks⟩

theorem normalizeSeedHost_some (named : extractDomain tools s = some name) :
    normalizeSeedHost tools s = stripWwwPrefix tools name := by
  rw [extractDomain] at named
  rw [normalizeSeedHost, named]

theorem normalizeSeedHost_none (nameless : extractDomain tools s = none) :
    normalizeSeedHost tools s =
      stripWwwPrefix tools ((s.takeWhile (· ≠ '/')).takeWhile (· ≠ ':')) := by
  rw [extractDomain] at nameless
  rw [normalizeSeedHost, nameless]

/-- What is cut by hand. -/
theorem cut_bare (slashFree : '/' ∉ host) (colonFree : ':' ∉ host) :
    (host.takeWhile (· ≠ '/')).takeWhile (· ≠ ':') = host := by
  rw [takeWhile_of_notMem slashFree, takeWhile_of_notMem colonFree]

theorem cut_withPort (slashFree : '/' ∉ host) (colonFree : ':' ∉ host) {port : List Char}
    (isPort : IsPort port) :
    ((host ++ ':' :: port).takeWhile (· ≠ '/')).takeWhile (· ≠ ':') = host := by
  have whole : '/' ∉ host ++ ':' :: port := by
    intro present
    rcases List.mem_append.mp present with present | present
    · exact slashFree present
    · rcases List.mem_cons.mp present with same | present
      · exact absurd same (by decide)
      · exact absurd (isPort.digits _ present) (by decide)
  rw [takeWhile_of_notMem whole, takeWhile_append_cons colonFree]

theorem cut_withPath (slashFree : '/' ∉ host) (colonFree : ':' ∉ host) (path : List Char) :
    ((host ++ '/' :: path).takeWhile (· ≠ '/')).takeWhile (· ≠ ':') = host := by
  rw [takeWhile_append_cons slashFree, takeWhile_of_notMem colonFree]

end Reading

/-! ## Plain names -/

section Plain

variable {υ : Type} {tools : ParserTools υ} {host x s u : List Char}

/-- What a plain name has in common with its variants. -/
structure Settled (tools : ParserTools υ) (x : List Char) : Prop where
  isHost : IsHost tools x
  canonical : canonicalHost tools x = some (toAsciiLowercase x)
  colonFree : ':' ∉ x
  noScheme : isSpecial (toAsciiLowercase x) = false
  notLocal : toAsciiLowercase x ≠ localhost

theorem isSpecial_www (name : List Char) : isSpecial (www ++ name) = false := by
  simp [isSpecial, www]

theorem Settled.marked (settled : Settled tools host) (laws : UrlLaws tools) {mark : List Char}
    (reads : toAsciiLowercase mark = www)
    (accepted : (canonicalHost tools (mark ++ host)).isSome) :
    Settled tools (mark ++ host) := by
  have lowered : toAsciiLowercase (mark ++ host) = www ++ toAsciiLowercase host := by
    rw [lower_append, reads]
  have hostText := settled.isHost.marked settled.colonFree reads
  refine ⟨⟨hostText, accepted⟩, ?_, ?_, ?_, ?_⟩
  · obtain ⟨name, named⟩ := Option.isSome_iff_exists.mp accepted
    rw [named, laws.marked mark host _ _ settled.isHost settled.colonFree reads settled.canonical
      named, lowered]
  · intro present
    rcases List.mem_append.mp present with present | present
    · exact (mem_mark reads present).2.2 rfl
    · exact settled.colonFree present
  · rw [lowered, isSpecial_www]
  · intro same
    have head : some 'w' = some 'l' := congrArg List.head? (lowered.symm.trans same)
    exact absurd head (by decide)

theorem Variant.settled (laws : UrlLaws tools) (isHost : IsHost tools host)
    (plain : PlainName tools host) (variant : Variant tools host x) : Settled tools x := by
  have settled : Settled tools host :=
    ⟨isHost, plain.canonical, plain.colonFree, plain.noScheme, plain.notLocal⟩
  cases variant with
  | plain => exact settled
  | marked mark reads accepted => exact settled.marked laws reads accepted

/-- In lower case a variant is the host, or the host behind `www.`. -/
theorem Variant.lower (variant : Variant tools host x) :
    toAsciiLowercase x = toAsciiLowercase host ∨
      toAsciiLowercase x = www ++ toAsciiLowercase host := by
  cases variant with
  | plain => exact .inl rfl
  | marked mark reads accepted => exact .inr (by rw [lower_append, reads])

/-- Every spelling is read as the host it spells, in some case. -/
theorem Spells.reading (laws : UrlLaws tools) (settled : Settled tools x)
    (spells : Spells tools x s) : ∃ y, toAsciiLowercase y = toAsciiLowercase x ∧
      normalizeSeedHost tools s = stripWwwPrefix tools y := by
  have slashFree := settled.isHost.slash_notMem
  cases spells with
  | full url accepted =>
      by_cases special : isSpecial (toAsciiLowercase url.scheme) = true
      · refine ⟨toAsciiLowercase x, lower_idem x, normalizeSeedHost_some ?_⟩
        rw [laws.special x url settled.isHost special accepted, settled.canonical]
      · by_cases file : toAsciiLowercase url.scheme = fileScheme
        · refine ⟨toAsciiLowercase x, lower_idem x, normalizeSeedHost_some ?_⟩
          rw [laws.file x url settled.isHost file accepted, settled.canonical, Option.filter_some,
            if_pos (decide_eq_true settled.notLocal)]
        · exact ⟨x, rfl, normalizeSeedHost_some (laws.foreign x url settled.isHost
            settled.colonFree settled.canonical (Bool.eq_false_iff.mpr special) file accepted)⟩
  | bare =>
      have nameless := laws.schemeless x fun present =>
        settled.colonFree ((List.takeWhile_subset _) present)
      refine ⟨x, rfl, ?_⟩
      rw [normalizeSeedHost_none nameless, cut_bare slashFree settled.colonFree]
  | withPort port isPort =>
      have nameless := laws.ported x port settled.isHost settled.colonFree settled.canonical
        settled.noScheme isPort
      refine ⟨x, rfl, ?_⟩
      rw [normalizeSeedHost_none nameless, cut_withPort slashFree settled.colonFree isPort]
  | withPath path =>
      have nameless := laws.schemeless (x ++ '/' :: path)
        (by rw [takeWhile_append_cons slashFree]; exact settled.colonFree)
      refine ⟨x, rfl, ?_⟩
      rw [normalizeSeedHost_none nameless, cut_withPath slashFree settled.colonFree]

theorem UrlLaws.lowered (laws : UrlLaws tools) {y name : List Char}
    (same : toAsciiLowercase y = name) (ascii : Ascii name) : tools.toLowercase y = name := by
  rw [← same] at ascii
  rw [laws.ascii y ascii.of_map_toLower, same]

/-- Cut, a variant is the host in some case. -/
theorem stripWww_variant (laws : UrlLaws tools) (plain : PlainName tools host)
    (variant : Variant tools host x) {y : List Char}
    (same : toAsciiLowercase y = toAsciiLowercase x) :
    toAsciiLowercase (stripWwwPrefix tools y) = toAsciiLowercase host := by
  obtain ⟨nonempty, ascii, -⟩ := laws.canonical host _ plain.canonical
  rcases variant.lower with bare | marked
  · have lowered := laws.lowered (same.trans bare) ascii
    rw [stripWww_unmarked, same, bare]
    intro name marked
    exact plain.unmarked name (lowered.symm.trans marked)
  · have lowered := laws.lowered (same.trans marked) (ascii_www.append ascii)
    rw [stripWww_marked lowered nonempty, lower_idem]

/-- Every spelling of a plain name is normalized to it, in some case. -/
theorem PlainName.normalized (plain : PlainName tools host) (laws : UrlLaws tools)
    (isHost : IsHost tools host) (variant : Variant tools host x) (spells : Spells tools x s) :
    toAsciiLowercase (normalizeSeedHost tools s) = toAsciiLowercase host ∧
      tools.toLowercase (normalizeSeedHost tools s) = toAsciiLowercase host := by
  obtain ⟨y, same, normalized⟩ := spells.reading laws (variant.settled laws isHost plain)
  have lower : toAsciiLowercase (normalizeSeedHost tools s) = toAsciiLowercase host := by
    rw [normalized, stripWww_variant laws plain variant same]
  exact ⟨lower, laws.lowered lower (laws.canonical host _ plain.canonical).2.1⟩

theorem isInternalLink_congr {t : List Char}
    (same : tools.toLowercase (normalizeSeedHost tools s) =
      tools.toLowercase (normalizeSeedHost tools t)) (u : List Char) :
    isInternalLink tools u s = isInternalLink tools u t := by
  rw [isInternalLink, isInternalLink, same]

/-- A URL on the host itself, or on the host behind `www.`, is internal. -/
theorem isInternalLink_own {name : List Char} (named : extractDomain tools u = some name)
    (same : tools.toLowercase name = tools.toLowercase (normalizeSeedHost tools s) ∨
      tools.toLowercase name = www ++ tools.toLowercase (normalizeSeedHost tools s)) :
    isInternalLink tools u s = true := by
  simp only [isInternalLink, named, Option.any_some]
  rcases same with same | same
  · rw [same, beq_self_eq_true, Bool.true_or, Bool.true_or]
  · have below : ('.' :: tools.toLowercase (normalizeSeedHost tools s)).isSuffixOf
        (tools.toLowercase name) = true := by
      rw [same, List.isSuffixOf_iff_suffix]
      exact ⟨"www".toList, rfl⟩
    rw [below, Bool.or_true, Bool.true_or]

theorem PlainName.spellingsAgree (plain : PlainName tools host) (laws : UrlLaws tools)
    (isHost : IsHost tools host) : SpellingsAgree tools host := by
  constructor
  · intro x y s t variant variant' spells spells'
    obtain ⟨lower, lowered⟩ := plain.normalized laws isHost variant spells
    obtain ⟨lower', lowered'⟩ := plain.normalized laws isHost variant' spells'
    exact ⟨lower.trans lower'.symm, isInternalLink_congr (lowered.trans lowered'.symm)⟩
  · intro x y s u variant variant' spells there
    obtain ⟨-, lowered⟩ := plain.normalized laws isHost variant spells
    have settled := variant'.settled laws isHost plain
    rw [settled.canonical] at there
    obtain ⟨-, ascii, -⟩ := laws.canonical y _ settled.canonical
    refine isInternalLink_own there ?_
    rw [lowered, laws.lowered (lower_idem y) ascii]
    exact variant'.lower

end Plain

/-! ## Names that are not plain -/

section Necessary

variable {υ : Type} {tools : ParserTools υ} {host name : List Char}

/-- The URL that the canonical form is read from is a spelling. -/
theorem spells_https {x : List Char} (named : canonicalHost tools x = some name) :
    Spells tools x ("https://".toList ++ x ++ ['/']) := by
  have whole : (bareUrl "https".toList https_isScheme).text x = "https://".toList ++ x ++ ['/'] :=
    bareUrl_text "https".toList https_isScheme x
  rw [← whole]
  refine .full _ ?_
  rw [whole]
  rw [canonicalHost, extractDomain] at named
  obtain ⟨url, parsed, -⟩ := Option.bind_eq_some_iff.mp named
  rw [parsed]
  rfl

theorem UrlLaws.toLowercase_canonical (laws : UrlLaws tools)
    (named : canonicalHost tools host = some name) : tools.toLowercase name = name := by
  obtain ⟨-, ascii, lower⟩ := laws.canonical host name named
  exact laws.lowered lower ascii

/-- A canonical form has no `www.` of its own in front: one more would be left there. -/
theorem SpellingsAgree.unmarked (agree : SpellingsAgree tools host) (laws : UrlLaws tools)
    (isHost : IsHost tools host) {more : List Char}
    (named : canonicalHost tools host = some (www ++ more)) : more = [] := by
  by_contra further
  have accepted := laws.markedTwice host more isHost further named
  obtain ⟨name, named'⟩ := Option.isSome_iff_exists.mp accepted
  have colonFree : ':' ∉ host := by
    intro colon
    obtain ⟨rest, bracket, -⟩ := laws.bracketKept host _ isHost named colon
    have head : some 'w' = some '[' := congrArg List.head? bracket
    exact absurd head (by decide)
  cases laws.marked www host _ _ isHost colonFree rfl named named'
  have once : normalizeSeedHost tools ("https://".toList ++ host ++ ['/']) = more := by
    rw [normalizeSeedHost_some named, stripWww_marked (laws.toLowercase_canonical named) further]
  have twice : normalizeSeedHost tools ("https://".toList ++ (www ++ host) ++ ['/']) =
      www ++ more := by
    rw [normalizeSeedHost_some named', stripWww_marked (laws.toLowercase_canonical named')]
    exact fun empty => further (List.append_eq_nil_iff.mp empty).2
  have same := (agree.alike _ _ _ _ .plain (.marked www rfl accepted) (spells_https named)
    (spells_https named')).1
  rw [once, twice, lower_append] at same
  have lengths := congrArg List.length same
  rw [List.length_append] at lengths
  exact absurd lengths (Nat.ne_of_lt (Nat.lt_add_of_pos_left (by decide)))

/-- What is read from the URL is the canonical form, and every other spelling is read as that. -/
theorem SpellingsAgree.reads (agree : SpellingsAgree tools host) (laws : UrlLaws tools)
    (isHost : IsHost tools host) (named : canonicalHost tools host = some name) {s : List Char}
    (spells : Spells tools host s) : toAsciiLowercase (normalizeSeedHost tools s) = name := by
  have whole : normalizeSeedHost tools ("https://".toList ++ host ++ ['/']) = name := by
    rw [normalizeSeedHost_some named]
    refine stripWww_unmarked fun more marked => ?_
    rw [laws.toLowercase_canonical named] at marked
    exact agree.unmarked laws isHost (named.trans (congrArg some marked))
  have same := (agree.alike _ _ _ _ .plain .plain spells (spells_https named)).1
  rw [same, whole, (laws.canonical host name named).2.2]

theorem colon_notMem_stripWww (laws : UrlLaws tools) {text : List Char} (free : ':' ∉ text) :
    ':' ∉ stripWwwPrefix tools text := by
  rcases stripWww_cases tools text with same | ⟨rest, -, marked, same⟩
  · rwa [same]
  · rw [same]
    intro present
    refine free (laws.colon text ?_)
    rw [marked]
    exact List.mem_append_right _ present

/-- A bracketed address is cut in the middle where it stands bare. -/
theorem SpellingsAgree.colonFree (agree : SpellingsAgree tools host) (laws : UrlLaws tools)
    (isHost : IsHost tools host) (named : canonicalHost tools host = some name) : ':' ∉ host := by
  intro colon
  rcases isHost.form with ⟨-, free⟩ | ⟨address, whole, -, -⟩
  · exact free colon
  · have nameless : extractDomain tools host = none := by
      rw [whole]
      exact laws.bracketed (address ++ [']'])
    have reads := agree.reads laws isHost named .bare
    rw [normalizeSeedHost_none nameless] at reads
    have free : ':' ∉ (host.takeWhile (· ≠ '/')).takeWhile (· ≠ ':') := fun present =>
      absurd (List.mem_takeWhile_imp present) (by decide)
    obtain ⟨rest, bracket, kept⟩ := laws.bracketKept host name isHost named colon
    have kept : ':' ∈ name := bracket ▸ List.mem_cons_of_mem _ kept
    rw [← reads, colon_mem_lower] at kept
    exact colon_notMem_stripWww laws free kept

/-- Nothing reads a name that stands bare, but for the case of letters it has to be canonical. -/
theorem SpellingsAgree.canonical (agree : SpellingsAgree tools host) (laws : UrlLaws tools)
    (isHost : IsHost tools host) (named : canonicalHost tools host = some name) :
    toAsciiLowercase host = name := by
  have colonFree := agree.colonFree laws isHost named
  have nameless := laws.schemeless host fun present =>
    colonFree ((List.takeWhile_subset _) present)
  have reads := agree.reads laws isHost named .bare
  rw [normalizeSeedHost_none nameless, cut_bare isHost.slash_notMem colonFree] at reads
  rcases stripWww_cases tools host with same | ⟨rest, further, marked, same⟩
  · rwa [same] at reads
  · -- the host behind `www.` would be the whole canonical form, which begins with `www.` too
    rw [same] at reads
    obtain ⟨more, begins⟩ := laws.label host name rest isHost marked named
    cases agree.unmarked laws isHost (named.trans (congrArg some begins))
    rw [List.append_nil] at begins
    have lowered : toAsciiLowercase (tools.toLowercase host) = www ++ www := by
      rw [marked, lower_append, reads, begins]
      rfl
    have twice := laws.letters host name isHost named
      (by rw [lowered]; exact @of_decide_eq_true _ (List.decidableBAll _ _) rfl)
    rw [lowered, begins] at twice
    exact absurd (congrArg List.length twice) (by decide)

theorem isPort_http : IsPort (Nat.toDigits 10 80) where
  nonempty := by decide
  digits := @of_decide_eq_true _ (List.decidableBAll _ _) rfl
  fits := by decide

/-- A special scheme has a letter. -/
theorem letter_of_isSpecial {scheme : List Char} (special : isSpecial scheme = true) :
    ∃ c ∈ scheme, ¬ (c.isDigit ∨ c = '.') := by
  simp only [isSpecial, Bool.or_eq_true, decide_eq_true_eq] at special
  rcases special with (((rfl | rfl) | rfl) | rfl) | rfl
  · exact ⟨'h', by decide, by decide⟩
  · exact ⟨'h', by decide, by decide⟩
  · exact ⟨'w', by decide, by decide⟩
  · exact ⟨'w', by decide, by decide⟩
  · exact ⟨'f', by decide, by decide⟩

/-- Behind a special scheme the port is read as the host. -/
theorem SpellingsAgree.noScheme (agree : SpellingsAgree tools host) (laws : UrlLaws tools)
    (isHost : IsHost tools host) (named : canonicalHost tools host = some name) :
    isSpecial (toAsciiLowercase host) = false := by
  by_contra special
  rw [Bool.not_eq_false] at special
  obtain ⟨number, numbered, digits⟩ := laws.number 80 (by decide)
  have there : extractDomain tools (host ++ ':' :: Nat.toDigits 10 80) = some number := by
    rw [laws.specialPorted host 80 special (by decide), numbered]
  have whole : stripWwwPrefix tools number = number := by
    refine stripWww_unmarked fun rest marked => ?_
    rw [laws.toLowercase_canonical numbered] at marked
    exact absurd (digits 'w' (marked ▸ List.mem_append_left _ (by decide))) (by decide)
  have reads := agree.reads laws isHost named (.withPort _ isPort_http)
  rw [normalizeSeedHost_some there, whole, (laws.canonical _ _ numbered).2.2] at reads
  obtain ⟨c, present, letter⟩ := letter_of_isSpecial special
  rw [agree.canonical laws isHost named, ← reads] at present
  exact letter (digits c present)

theorem cut_file (rest : List Char) :
    ((fileScheme ++ "://".toList ++ rest).takeWhile (· ≠ '/')).takeWhile (· ≠ ':') = fileScheme :=
  rfl

/-- In a `file` URL `localhost` is no host. -/
theorem SpellingsAgree.notLocal (agree : SpellingsAgree tools host) (laws : UrlLaws tools)
    (isHost : IsHost tools host) (named : canonicalHost tools host = some name) :
    toAsciiLowercase host ≠ localhost := by
  intro here
  rw [agree.canonical laws isHost named] at here
  have text := bareUrl_text fileScheme file_isScheme host
  have accepted : (tools.parse ((bareUrl fileScheme file_isScheme).text host)).isSome := by
    rw [text]
    exact laws.fileAccepted host isHost
  have nameless : extractDomain tools ((bareUrl fileScheme file_isScheme).text host) = none := by
    rw [laws.file host _ isHost lower_file accepted, named, here]
    rfl
  have unmarked : stripWwwPrefix tools fileScheme = fileScheme := by
    refine stripWww_unmarked fun rest marked => ?_
    rw [laws.lowered lower_file (@of_decide_eq_true _ (List.decidableBAll _ _) rfl)] at marked
    have head : some 'f' = some 'w' := congrArg List.head? marked
    exact absurd head (by decide)
  have reads := agree.reads laws isHost named (.full _ accepted)
  rw [normalizeSeedHost_none nameless, text, List.append_assoc, cut_file, unmarked, lower_file,
    here] at reads
  exact absurd reads (by decide)

/-- The spellings of a host agree just where it is a plain name. -/
theorem spellings_agree_iff (laws : UrlLaws tools) (isHost : IsHost tools host) :
    SpellingsAgree tools host ↔ PlainName tools host := by
  refine ⟨fun agree => ?_, fun plain => plain.spellingsAgree laws isHost⟩
  obtain ⟨name, named⟩ := Option.isSome_iff_exists.mp isHost.accepted
  have lower := agree.canonical laws isHost named
  refine ⟨named.trans (congrArg some lower.symm), agree.colonFree laws isHost named, ?_,
    agree.noScheme laws isHost named, agree.notLocal laws isHost named⟩
  intro more marked
  exact agree.unmarked laws isHost (named.trans (congrArg some (lower.symm.trans marked)))

/-! ### A name and an address -/

def exampleCom : List Char := "example.com".toList

theorem exampleCom_isHost : IsHost sampleTools exampleCom where
  nonempty := by decide
  undelimited := @of_decide_eq_true _ (List.decidableBAll _ _) rfl
  form := .inl ⟨by decide, by decide⟩
  accepted := rfl

/-- All the spellings of a plain name agree. -/
theorem exampleCom_spellingsAgree : SpellingsAgree sampleTools exampleCom := by
  apply (spellings_agree_iff sample_laws exampleCom_isHost).mpr
  refine ⟨rfl, by decide, ?_, rfl, by decide⟩
  intro name marked
  have head : some 'e' = some 'w' := congrArg List.head? marked
  exact absurd head (by decide)

def loopback : List Char := "[::1]".toList

theorem loopback_isHost : IsHost sampleTools loopback where
  nonempty := by decide
  undelimited := @of_decide_eq_true _ (List.decidableBAll _ _) rfl
  form := .inr ⟨"::1".toList, rfl, by decide, by decide⟩
  accepted := rfl

/-- Bare, an address is cut at its first colon, and no URL on it is internal. -/
theorem loopback_not_internal : ¬ ∀ (υ : Type) (tools : ParserTools υ), UrlLaws tools →
    ∀ host, IsHost tools host → SpellingsAgree tools host := by
  intro all
  have agree := all SampleUrl sampleTools sample_laws loopback loopback_isHost
  have inside :=
    agree.own loopback loopback loopback "https://[::1]/".toList .plain .plain .bare rfl
  exact absurd inside (by decide)

end Necessary

end Webfang.Seeds
