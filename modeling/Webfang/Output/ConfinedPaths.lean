import Mathlib.Algebra.GroupWithZero.Nat
import Mathlib.Algebra.BigOperators.Group.List.Basic
import Mathlib.Data.List.Infix
import Webfang.Output.SavedPages

/-!
# Where a page is written

The path of a page stays below the folder of its domain, in names that the file system takes, just
when the domain, the folders and the decoded name of its URL are such names.  Only the suffix of the
query is cut to a length; the domain is taken as it is, and JSON goes to one file for all pages.
-/

namespace Webfang.Output

open Pieces

/-- The bytes that the file system takes in one name. -/
def nameMax : Nat := 255

/-- The path that `save_results` writes a page to, from the output directory. -/
def writtenPath (tools : NameTools) (format : OutputFormat) (url : ValidUrl) : List Char :=
  match format with
  | .json => "results.json".toList
  | .markdown | .text => pagePath tools format url

theorem saveResults_singleton (tools : NameTools) (page : PageTools) (obsidian : ObsidianOptions)
    {format : OutputFormat} (perPage : format ≠ .json) (item : ScrapedContent) (dir : Directory) :
    ∃ content, saveResults tools page obsidian [item] format dir =
      savePage dir (writtenPath tools format item.url) content := by
  cases format with
  | json => exact absurd rfl perPage
  | markdown => exact ⟨_, bind_pure _⟩
  | text => exact ⟨_, bind_pure _⟩

/-- The components of that path. -/
def components (tools : NameTools) (format : OutputFormat) (url : ValidUrl) : FilePath :=
  (writtenPath tools format url).splitOn '/'

/-- The path of a page lies below the folder of its domain and can be written, behind its
temporary file. -/
structure Confined (tools : NameTools) (format : OutputFormat) (url : ValidUrl) : Prop where
  below : ∃ names, names ≠ [] ∧ components tools format url = domainOf url :: names
  named : ∀ component ∈ components tools format url,
    component ≠ [] ∧ component ≠ ['.'] ∧ component ≠ ['.', '.']
  short : ∀ component ∈ components tools format url, (Utf8.encode component).length ≤ nameMax
  writable : ∀ component ∈ Directory.tmpPath (components tools format url),
    (Utf8.encode component).length ≤ nameMax

section Bytes

variable (tools : NameTools) (format : OutputFormat)

/-- The bytes of a name, where one stands for each character that is not let into it; `.txt` is
longer than `.md`. -/
def nameBytes (name : List Char) : Nat :=
  (name.map fun c => if tools.Kept c then c.utf8Size else 1).sum +
    if format = .text then name.tails.countP ['.', 'm', 'd'].isPrefixOf else 0

/-- The bytes of the extension. -/
def extensionBytes (format : OutputFormat) : Nat := if format = .text then 4 else 3

theorem extensionBytes_le (format : OutputFormat) : extensionBytes format ≤ 4 := by
  rw [extensionBytes]
  split_ifs <;> decide

namespace ValidUrl

/-- The page at the root of its host. -/
def IsIndex (url : ValidUrl) : Prop := ¬ url.IsMarked format ∧ url.path = ['/']

/-- A path that is closed by a slash has a mark in its name. -/
def IsClosed (url : ValidUrl) : Prop :=
  ¬ url.IsMarked format ∧ url.path ≠ ['/'] ∧ url.path.getLast? = some '/'

instance (url : ValidUrl) : Decidable (url.IsClosed format) := inferInstanceAs (Decidable (_ ∧ _))

/-- The decoded name of a page between its outer slashes. -/
def nameBody (url : ValidUrl) : List Char :=
  ((tools.percentDecode (if url.IsMarked format then
    url.trimmedPath ++ UrlPath.querySuffix tools url else url.trimmedPath)).dropWhile
      (· = '/')).rdropWhile (· = '/')

/-- The domain, the folders and the name of a page are names that the file system takes; a
temporary file has five bytes more. -/
structure Fits (url : ValidUrl) : Prop where
  paged : format ≠ .json
  domain : domainOf url ≠ [] ∧ domainOf url ≠ ['.'] ∧ domainOf url ≠ ['.', '.']
  spelt : format = .text → ¬ ['.', 'm', 'd'] <:+: domainOf url
  domain_short : (Utf8.encode (domainOf url)).length ≤ nameMax
  folders_short : ∀ segment ∈ (pieces '/' url.path).dropLast,
    nameBytes tools format segment ≤ nameMax
  name_short : url.IsIndex format ∨
    nameBytes tools format (url.nameBody tools format) +
      (if url.IsClosed format ∧ url.nameBody tools format ≠ [] then 1 else 0) +
        extensionBytes format + 5 ≤ nameMax

end ValidUrl

end Bytes

variable {tools : NameTools} {format : OutputFormat} {url : ValidUrl}

open NameTools UrlPath

/-! ## The bytes of a name -/

theorem length_encode (text : List Char) :
    (Utf8.encode text).length = (text.map Char.utf8Size).sum := by
  induction text with
  | nil => rfl
  | cons c text ih =>
      rw [Utf8.encode_cons, List.length_append, ih, String.length_utf8EncodeChar, List.map_cons,
        List.sum_cons]

theorem utf8Size_shown (c : Char) :
    (tools.shown c).utf8Size = if tools.Kept c then c.utf8Size else 1 := by
  rw [shown]
  split_ifs with slash kept kept
  · exact absurd (slash ▸ kept) not_kept_slash
  all_goals rfl

@[elab_as_elim]
theorem asText_induction {motive : List Char → Prop} (nil : motive [])
    (md : ∀ t, motive t → motive ('.' :: 'm' :: 'd' :: t))
    (letter : ∀ c t, ¬ ['.', 'm', 'd'] <+: c :: t → motive t → motive (c :: t)) (s : List Char) :
    motive s := by
  induction length : s.length using Nat.strong_induction_on generalizing s with
  | _ n ih =>
      subst length
      cases s with
      | nil => exact nil
      | cons c s =>
          by_cases here : ['.', 'm', 'd'] <+: c :: s
          · obtain ⟨t, same⟩ := here
            obtain ⟨rfl, rfl⟩ := List.cons.inj same
            have shorter : t.length < t.length + 3 := by omega
            exact md t (ih t.length shorter t rfl)
          · exact letter c s here (ih s.length (by rw [List.length_cons]; omega) s rfl)

/-- The text of a text file has a byte more for each extension in it. -/
theorem length_encode_asText (s : List Char) : (Utf8.encode (asText s)).length =
    (Utf8.encode s).length + s.tails.countP ['.', 'm', 'd'].isPrefixOf := by
  induction s using asText_induction with
  | nil => rfl
  | md t ih =>
      have first : ['.', 'm', 'd'].isPrefixOf ('.' :: 'm' :: 'd' :: t) = true :=
        List.isPrefixOf_iff_prefix.mpr ⟨t, rfl⟩
      have m : ['.', 'm', 'd'].isPrefixOf ('m' :: 'd' :: t) = false := rfl
      have d : ['.', 'm', 'd'].isPrefixOf ('d' :: t) = false := rfl
      have txt : (Utf8.encode ".txt".toList).length = 4 := rfl
      have md : (Utf8.encode ".md".toList).length = 3 := rfl
      have before : asText ('.' :: 'm' :: 'd' :: t) = ".txt".toList ++ asText t := asText_md t
      have behind : '.' :: 'm' :: 'd' :: t = ".md".toList ++ t := rfl
      rw [List.tails_cons, List.tails_cons, List.tails_cons, List.countP_cons, List.countP_cons,
        List.countP_cons, first, m, d, before, behind, Utf8.encode_append, Utf8.encode_append,
        List.length_append, List.length_append, ih, txt, md]
      simp only [if_true, Bool.false_eq_true, if_false]
      omega
  | letter c t absent ih =>
      have none : ['.', 'm', 'd'].isPrefixOf (c :: t) = false :=
        Bool.eq_false_iff.mpr fun here => absent (List.isPrefixOf_iff_prefix.mp here)
      rw [asText_cons absent, Utf8.encode_cons, Utf8.encode_cons, List.length_append,
        List.length_append, ih, List.tails_cons, List.countP_cons, none, if_neg Bool.false_ne_true,
        Nat.add_zero, Nat.add_assoc]

theorem isPrefixOf_map_shown (s : List Char) :
    ['.', 'm', 'd'].isPrefixOf (s.map tools.shown) = ['.', 'm', 'd'].isPrefixOf s := by
  rw [Bool.eq_iff_iff, List.isPrefixOf_iff_prefix, List.isPrefixOf_iff_prefix]
  constructor
  · intro ⟨rest, here⟩
    obtain ⟨t, rfl, -⟩ := map_shown_eq_append (by decide) here.symm
    exact ⟨t, rfl⟩
  · intro ⟨rest, here⟩
    have kept : ['.', 'm', 'd'].map tools.shown = ['.', 'm', 'd'] := map_shown_ascii (by decide)
    exact ⟨rest.map tools.shown, by rw [← here, List.map_append, kept]⟩

theorem length_encode_respell (name : List Char) :
    (Utf8.encode (respell format (name.map tools.shown))).length = nameBytes tools format name := by
  have shownBytes : (Utf8.encode (name.map tools.shown)).length =
      (name.map fun c => if tools.Kept c then c.utf8Size else 1).sum := by
    rw [length_encode, List.map_map]
    exact congrArg List.sum (List.map_congr_left fun c _ => utf8Size_shown c)
  cases format with
  | text =>
      have marks : (name.map tools.shown).tails.countP ['.', 'm', 'd'].isPrefixOf =
          name.tails.countP ['.', 'm', 'd'].isPrefixOf := by
        rw [List.map_tails, List.countP_map]
        exact List.countP_congr fun t _ => by rw [Function.comp_apply, isPrefixOf_map_shown]
      rw [nameBytes, if_pos rfl, ← shownBytes, ← marks]
      exact length_encode_asText _
  | markdown | json => exact shownBytes

theorem asText_eq_self_iff (s : List Char) : asText s = s ↔ ¬ ['.', 'm', 'd'] <:+: s := by
  induction s using asText_induction with
  | nil => exact iff_of_true rfl (by simp)
  | md t ih =>
      refine iff_of_false (fun same => ?_) fun absent => absent ⟨[], t, rfl⟩
      rw [asText_md] at same
      exact absurd (List.cons.inj (List.cons.inj same).2).1 (by decide)
  | letter c t absent ih =>
      rw [asText_cons absent, List.cons_inj_right, ih, List.infix_cons_iff, not_or]
      exact (and_iff_right absent).symm

/-- A domain is written as it is but for extensions in it. -/
theorem respell_eq_self_iff (s : List Char) :
    respell format s = s ↔ (format = .text → ¬ ['.', 'm', 'd'] <:+: s) := by
  cases format with
  | text => exact (asText_eq_self_iff s).trans (true_imp_iff.symm.trans (by simp))
  | markdown | json => exact iff_of_true rfl fun text => nomatch text

/-! ## The bytes of a page's name -/

theorem nameBytes_append_mark (name mark : List Char) :
    nameBytes tools format (name ++ '_' :: mark) =
      nameBytes tools format name + nameBytes tools format ('_' :: mark) := by
  have underscore : tools.shown '_' = '_' := shown_kept (.inr (.inr (.inl rfl)))
  rw [← length_encode_respell, ← length_encode_respell, ← length_encode_respell, List.map_append,
    List.map_cons, underscore, ← List.length_append, ← Utf8.encode_append]
  cases format with
  | text => exact congrArg (fun s => (Utf8.encode s).length) (asText_append (by decide) _ _)
  | markdown | json => rfl

theorem nameBytes_ascii {name : List Char} (plain : 'm' ∉ name ∧ 't' ∉ name)
    (ascii : name.all (fun c => decide (c.toNat < 0x80)) = true)
    (same : name.map tools.shown = name) : nameBytes tools format name = name.length := by
  rw [← length_encode_respell, same, (respell_eq_iff plain).mpr rfl, Utf8.length_encode_ascii]
  exact fun c member => of_decide_eq_true (List.all_eq_true.mp ascii c member)

theorem nameBytes_le (name : List Char) : nameBytes tools format name ≤ 5 * name.length + 1 := by
  have sizes : (name.map fun c => if tools.Kept c then c.utf8Size else 1).sum ≤ 4 * name.length := by
    induction name with
    | nil => exact Nat.le_refl 0
    | cons c name ih =>
        have size : (if tools.Kept c then c.utf8Size else 1) ≤ 4 := by
          split_ifs
          · exact c.utf8Size_le_four
          · decide
        rw [List.map_cons, List.sum_cons, List.length_cons]
        omega
  have marks : name.tails.countP ['.', 'm', 'd'].isPrefixOf ≤ name.length + 1 :=
    List.countP_le_length.trans (List.length_tails name).le
  rw [nameBytes]
  split_ifs <;> omega

/-- A reserved name is short. -/
theorem nameBytes_reserved {name : List Char} (reserved : isReserved (name.map tools.shown) = true) :
    nameBytes tools format name ≤ 21 := by
  have short : ∀ word ∈ windowsReserved, word.length ≤ 4 := by decide
  have length := short _ (List.contains_iff_mem.mp reserved)
  rw [List.length_map, List.length_map] at length
  have bytes : nameBytes tools format name ≤ 5 * name.length + 1 := nameBytes_le name
  omega

theorem nameLetters_short_iff {decoded body : List Char}
    (trimmed : (decoded.dropWhile (· = '/')).rdropWhile (· = '/') = body) (closed : Bool) :
    nameBytes tools format (nameLetters tools decoded closed) + extensionBytes format + 5 ≤ nameMax ↔
      nameBytes tools format body + (if closed = true ∧ body ≠ [] then 1 else 0) +
        extensionBytes format + 5 ≤ nameMax := by
  have extension := extensionBytes_le format
  have underscore : nameBytes tools format ['_'] = 1 :=
    nameBytes_ascii (by decide) (by decide) (map_shown_ascii (by decide))
  have safe : nameBytes tools format "_safe".toList = 5 :=
    nameBytes_ascii (by decide) (by decide) (map_shown_ascii (by decide))
  have mark (name : List Char) : nameBytes tools format (name ++ ['_']) =
      nameBytes tools format name + 1 := by
    rw [nameBytes_append_mark, underscore]
  rw [nameLetters, trimmed, nameMax]
  by_cases reserved : isReserved (body.map tools.shown) = true
  · -- a reserved name fits with any mark
    have bytes : nameBytes tools format body ≤ 21 := nameBytes_reserved reserved
    have safeBytes : nameBytes tools format (body ++ "_safe".toList) =
      nameBytes tools format body + 5 := (nameBytes_append_mark body _).trans (by rw [← safe]; rfl)
    rw [if_pos reserved]
    refine iff_of_true ?_ ?_
    · split_ifs
      · rw [mark, safeBytes]
        omega
      · rw [safeBytes]
        omega
    · split_ifs <;> omega
  · rw [if_neg reserved]
    split_ifs with marked
    · rw [mark]
    · exact Iff.rfl

theorem letters_short_iff (other : ¬ url.IsIndex format) :
    nameBytes tools format (url.letters tools format) + extensionBytes format + 5 ≤ nameMax ↔
      nameBytes tools format (url.nameBody tools format) +
        (if url.IsClosed format ∧ url.nameBody tools format ≠ [] then 1 else 0) +
          extensionBytes format + 5 ≤ nameMax := by
  rw [ValidUrl.letters]
  by_cases marked : url.IsMarked format
  · have opened : ¬ (url.IsClosed format ∧ url.nameBody tools format ≠ []) :=
      fun closed => closed.1.1 marked
    have trimmed := ValidUrl.nameBody.eq_1 tools format url
    rw [if_pos marked] at trimmed ⊢
    rw [nameLetters_short_iff trimmed.symm, if_neg opened,
      if_neg fun both => Bool.false_ne_true both.1]
  · have root : url.path ≠ ['/'] := fun root => other ⟨marked, root⟩
    have trimmed := ValidUrl.nameBody.eq_1 tools format url
    rw [if_neg marked] at trimmed ⊢
    rw [if_neg root, nameLetters_short_iff trimmed.symm]
    simp only [ValidUrl.IsClosed, marked, root, ne_eq, not_false_eq_true, true_and,
      decide_eq_true_eq]

/-! ## The components of a path -/

theorem splitOn_dirText {names : List (List Char)} (each : ∀ name ∈ names, '/' ∉ name)
    {file : List Char} (last : '/' ∉ file) : (dirText names ++ file).splitOn '/' = names ++ [file] := by
  induction names with
  | nil => exact List.splitOn_eq_singleton last
  | cons name names ih =>
      obtain ⟨here, later⟩ := List.forall_mem_cons.mp each
      rw [dirText_cons, List.append_assoc, List.cons_append,
        List.splitOn_append_cons_self_of_not_mem here, ih later]
      rfl

theorem isName_folders (other : domainOf url ≠ ['.']) :
    ∀ name ∈ url.folders, IsName (name.map tools.shown) := by
  intro name member
  rw [ValidUrl.folders, if_neg fun dot => other dot.1] at member
  obtain ⟨segment, inside, rfl⟩ := List.mem_map.mp member
  exact isName_folder (mem_pieces ((List.dropLast_sublist _).subset inside)).1

/-- Behind a domain that is no mere dot the path has the components of the page's target. -/
theorem components_eq (paged : format ≠ .json) (other : domainOf url ≠ ['.']) :
    components tools format url = target tools format url := by
  have names : (pieces '/' url.path).dropLast.map (folderName tools) =
      url.folders.map (List.map tools.shown) := by
    rw [ValidUrl.folders, if_neg fun dot => other dot.1, List.map_map]
    exact List.map_congr_left fun name member =>
      folderName_eq (mem_pieces ((List.dropLast_sublist _).subset member)).2
  have each : ∀ name ∈ url.folders.map (List.map tools.shown), IsName name :=
    List.forall_mem_map.mpr (isName_folders other)
  have written : writtenPath tools format url = pagePath tools format url := by
    cases format with
    | json => exact absurd rfl paged
    | markdown | text => rfl
  have whole := slash_not_mem_domainOf url
  have file : IsName ((url.letters tools format).map tools.shown ++ ".md".toList) := isName_file _
  have spelt {name : List Char} (absent : '/' ∉ name) : '/' ∉ respell format name := by
    cases format with
    | text => exact fun member => (mem_substituteFrom member).elim (by decide) absent
    | markdown | json => exact absent
  rw [components, written, pagePath_eq, toFullPath_pageOutput, names,
    trimStart_output whole each file, if_neg fun dot => other dot.1, respell_dirText,
    splitOn_dirText _ (spelt file.2.1), target, if_neg other, List.map_cons, List.map_map]
  · rfl
  · intro name member
    obtain ⟨before, inside, rfl⟩ := List.mem_map.mp member
    rcases List.mem_cons.mp inside with rfl | folder
    · exact spelt whole
    · exact spelt (each before folder).2.1

theorem length_encode_file : (Utf8.encode (respell format
    ((url.letters tools format).map tools.shown ++ ".md".toList))).length =
      nameBytes tools format (url.letters tools format) + extensionBytes format := by
  have extension : (Utf8.encode (respell format ".md".toList)).length = extensionBytes format := by
    cases format <;> rfl
  rw [respell_md, Utf8.encode_append, List.length_append, length_encode_respell, extension]

theorem index_short (index : url.IsIndex format) :
    nameBytes tools format (url.letters tools format) + extensionBytes format + 5 ≤ nameMax := by
  have extension := extensionBytes_le format
  have bytes : nameBytes tools format "index".toList = 5 :=
    nameBytes_ascii (by decide) (by decide) (map_shown_ascii (by decide))
  rw [ValidUrl.letters, if_neg index.1, if_pos index.2, bytes, nameMax]
  omega

/-- The names of the folders are as short as the segments they are made of. -/
theorem folders_short_iff (other : domainOf url ≠ ['.']) :
    (∀ folder ∈ url.folders.map fun name => respell format (name.map tools.shown),
      (Utf8.encode folder).length ≤ nameMax) ↔
        ∀ segment ∈ (pieces '/' url.path).dropLast, nameBytes tools format segment ≤ nameMax := by
  have dots {dots : List Char} (few : dots.length ≤ 2) : nameBytes tools format dots ≤ nameMax :=
    (nameBytes_le dots).trans (by rw [nameMax]; omega)
  have undottedBytes (segment : List Char) : nameBytes tools format (undotted segment) ≤ nameMax ↔
      nameBytes tools format segment ≤ nameMax := by
    rw [undotted]
    split_ifs with dotted
    · refine iff_of_true (dots (by decide)) (dots ?_)
      rcases dotted with rfl | rfl <;> decide
    · exact Iff.rfl
  rw [ValidUrl.folders, if_neg fun dot => other dot.1, List.map_map, List.forall_mem_map]
  refine forall₂_congr fun segment _ => ?_
  rw [Function.comp_apply, length_encode_respell, undottedBytes]

theorem components_json : components tools .json url = ["results.json".toList] :=
  List.splitOn_eq_singleton (show '/' ∉ "results.json".toList by decide)

/-- A page is written below the folder of its domain, in names that the file system takes, just when
its domain, its folders and its decoded name are such names. -/
theorem confined_iff (tools : NameTools) (format : OutputFormat) (url : ValidUrl) :
    Confined tools format url ↔ url.Fits tools format := by
  have whole (paged : format ≠ .json) (other : domainOf url ≠ ['.']) :
      components tools format url = respell format (domainOf url) ::
        (url.folders.map (fun name => respell format (name.map tools.shown)) ++
          [respell format ((url.letters tools format).map tools.shown ++ ".md".toList)]) := by
    rw [components_eq paged other, target, if_neg other]
    rfl
  have tmp (before : FilePath) (file : List Char) : Directory.tmpPath (before ++ [file]) =
      before ++ ['.' :: (file ++ ".tmp".toList)] := by
    rw [Directory.tmpPath, List.dropLast_concat, List.getLast?_concat]
    rfl
  have tmpBytes (file : List Char) : (Utf8.encode ('.' :: (file ++ ".tmp".toList))).length =
      (Utf8.encode file).length + 5 := by
    have dot : (Utf8.encode ['.']).length = 1 := rfl
    have extension : (Utf8.encode ".tmp".toList).length = 4 := rfl
    rw [← List.singleton_append, Utf8.encode_append, Utf8.encode_append, List.length_append,
      List.length_append, dot, extension]
    omega
  constructor
  · intro confined
    obtain ⟨names, nonempty, below⟩ := confined.below
    have paged : format ≠ .json := by
      rintro rfl
      rw [components_json] at below
      exact nonempty (List.cons.inj below).2.symm
    have inside : domainOf url ∈ components tools format url := below ▸ List.mem_cons_self
    have named := confined.named _ inside
    have path := whole paged named.2.1
    have short := confined.short
    have writable := confined.writable
    have spelt : respell format (domainOf url) = domainOf url :=
      (List.cons.inj (path.symm.trans below)).1
    rw [path] at short writable
    rw [← List.cons_append, tmp] at writable
    have file := writable _ (List.mem_append_right _ (List.mem_singleton_self _))
    rw [tmpBytes, length_encode_file] at file
    exact {
      paged := paged
      domain := named
      spelt := (respell_eq_self_iff _).mp spelt
      domain_short := confined.short _ inside
      folders_short := (folders_short_iff named.2.1).mp fun folder member =>
        short folder (List.mem_cons_of_mem _ (List.mem_append_left _ member))
      name_short := or_iff_not_imp_left.mpr fun other => (letters_short_iff other).mp file }
  · intro fits
    have path := whole fits.paged fits.domain.2.1
    rw [(respell_eq_self_iff _).mpr fits.spelt] at path
    have folders := (folders_short_iff fits.domain.2.1).mpr fits.folders_short
    have file : (Utf8.encode (respell format
        ((url.letters tools format).map tools.shown ++ ".md".toList))).length + 5 ≤ nameMax := by
      rw [length_encode_file]
      by_cases index : url.IsIndex format
      · exact index_short index
      · exact (letters_short_iff index).mpr (fits.name_short.resolve_left index)
    refine ⟨⟨_, List.append_ne_nil_of_right_ne_nil _ (List.cons_ne_nil _ _), path⟩, ?_, ?_, ?_⟩
    · rw [path, List.forall_mem_cons, List.forall_mem_append, List.forall_mem_map,
        List.forall_mem_singleton]
      refine ⟨fits.domain, fun name member => ?_, ?_⟩
      · have isName : IsName (respell format (name.map tools.shown)) :=
          (isName_folders fits.domain.2.1 name member).respell
        exact ⟨isName.1, isName.2.2⟩
      · have isName : IsName (respell format
            ((url.letters tools format).map tools.shown ++ ".md".toList)) := (isName_file _).respell
        exact ⟨isName.1, isName.2.2⟩
    · rw [path, List.forall_mem_cons, List.forall_mem_append, List.forall_mem_singleton]
      exact ⟨fits.domain_short, folders, by omega⟩
    · rw [path, ← List.cons_append, tmp, List.forall_mem_append, List.forall_mem_cons,
        List.forall_mem_singleton, tmpBytes]
      exact ⟨⟨fits.domain_short, folders⟩, file⟩

/-- A page at the root of a host. -/
def rootOf (host : String) (named : host.toList ≠ [] ∧ '/' ∉ host.toList) : ValidUrl where
  scheme := .https
  host := host.toList
  port := none
  path := ['/']
  query := none
  fragment := none
  host_named := named
  path_rooted := rfl
  path_plain := by decide

theorem siteTest_named : "site.test".toList ≠ [] ∧ '/' ∉ "site.test".toList := by decide

theorem longSegment_plain :
    '?' ∉ '/' :: List.replicate 300 'a' ∧ '#' ∉ '/' :: List.replicate 300 'a' := by decide

/-- A page whose path is one long segment. -/
def longPath : ValidUrl where
  scheme := .https
  host := "site.test".toList
  port := none
  path := '/' :: List.replicate 300 'a'
  query := none
  fragment := none
  host_named := siteTest_named
  path_rooted := rfl
  path_plain := longSegment_plain

/-- The page at the root of `www.` leaves the output directory, and a long segment is a name that
the file system does not take. -/
theorem paths_escape : ¬ Confined asciiTools .markdown (rootOf "www." (by decide)) ∧
    ¬ Confined asciiTools .markdown longPath := by
  constructor
  · intro confined
    obtain ⟨names, -, below⟩ := confined.below
    have inside : domainOf (rootOf "www." (by decide)) ∈ components asciiTools .markdown _ :=
      below ▸ List.mem_cons_self
    exact (confined.named _ inside).1 rfl
  · intro confined
    have path : components asciiTools .markdown longPath = target asciiTools .markdown longPath :=
      components_eq (by decide) (by decide)
    have short := confined.short
    rw [path] at short
    have file := short _ (List.mem_append_right _ (List.mem_singleton_self _))
    rw [length_encode_file] at file
    have long : 300 ≤ nameBytes asciiTools .markdown (longPath.letters asciiTools .markdown) := by
      decide +kernel
    rw [nameMax] at file
    omega

end Webfang.Output
