import Mathlib.Data.List.Perm.Subperm
import Webfang.Lib.KeyedRows
import Webfang.Output.PagePaths

/-!
# One file for each page

What is saved at a path is the last page with that path: a save leaves one file for each of its
pages just when no two of them are confused and their domain has a folder below the output
directory.
-/

namespace Webfang.Output

open KeyedRows

section Saving

variable {tools : NameTools} {page : PageTools} {obsidian : ObsidianOptions}
  {format : OutputFormat}

/-- The file of a page in a format. -/
def render (tools : NameTools) (page : PageTools) (obsidian : ObsidianOptions) :
    OutputFormat → ScrapedContent → List Char
  | .text => renderText
  | .markdown | .json => renderMarkdown tools page obsidian

/-- The one step of a save in one of the page formats. -/
def saveStep (tools : NameTools) (page : PageTools) (obsidian : ObsidianOptions)
    (format : OutputFormat) (dir : Directory) (item : ScrapedContent) : Option Directory :=
  savePage dir (pagePath tools format item.url) (render tools page obsidian format item)

theorem saveResults_eq (perPage : format ≠ .json) (items : List ScrapedContent) (dir : Directory) :
    saveResults tools page obsidian items format dir =
      items.foldlM (saveStep tools page obsidian format) dir := by
  cases format with
  | markdown | text => rfl
  | json => exact absurd rfl perPage

/-! ## One page -/

/-- A file that is written shows at its path, and the temporary file is gone. -/
theorem files_writeAtomic {dir dir' : Directory} {path : FilePath} {bytes : List Char}
    (written : dir.writeAtomic path bytes = some dir') :
    dir'.files =
      Function.update (Function.update dir.files (Directory.tmpPath path) none) path (some bytes) := by
  rw [Directory.writeAtomic] at written
  split_ifs at written
  cases written
  rfl

theorem files_createDirAll {dir dir' : Directory} {path : FilePath}
    (made : dir.createDirAll path = some dir') : dir'.files = dir.files := by
  rw [Directory.createDirAll] at made
  split_ifs at made
  cases made
  rfl

theorem files_savePage {dir dir' : Directory} {relative content : List Char} {path : FilePath}
    (located : locate relative = some path) (saved : savePage dir relative content = some dir') :
    dir'.files =
      Function.update (Function.update dir.files (Directory.tmpPath path) none) path
        (some content) := by
  rw [savePage, located] at saved
  obtain ⟨made, folders, written⟩ := Option.bind_eq_some_iff.mp saved
  rw [files_writeAtomic written, files_createDirAll folders]

/-- No page is saved where another is written before it is renamed. -/
theorem target_ne_tmpPath (u v : ValidUrl) :
    target tools format u ≠ Directory.tmpPath (target tools format v) := by
  intro same
  have lasts := congrArg List.getLast? same
  rw [target, Directory.tmpPath, List.getLast?_concat, List.getLast?_concat, respell_md,
    Option.some.injEq] at lasts
  have letters := congrArg List.getLast? lasts
  have tmp (name : List Char) : ('.' :: (name ++ ".tmp".toList)).getLast? = some 'p' := by
    rw [← List.cons_append, List.getLast?_append]
    rfl
  rw [tmp, List.getLast?_append] at letters
  have last : (respell format ".md".toList).getLast? = some 'd' ∨
      (respell format ".md".toList).getLast? = some 't' := by
    cases format <;> decide
  rcases last with d | t
  · rw [d, Option.some_or] at letters
    exact absurd letters (by decide)
  · rw [t, Option.some_or] at letters
    exact absurd letters (by decide)

/-! ## A whole save -/

/-- The files of a save: at each path the last page that has it. -/
def HoldsPages (tools : NameTools) (page : PageTools) (obsidian : ObsidianOptions)
    (format : OutputFormat) (items : List ScrapedContent) (dir : Directory) : Prop :=
  ∀ path, dir.files path =
    (rowAt (fun item : ScrapedContent => target tools format item.url) items.reverse path).map
      (render tools page obsidian format)

theorem HoldsPages.saveStep {items : List ScrapedContent} {dir dir' : Directory}
    (holds : HoldsPages tools page obsidian format items dir) {item : ScrapedContent}
    (inside : ¬ LeavesOutput (domainOf item.url))
    (saved : saveStep tools page obsidian format dir item = some dir') :
    HoldsPages tools page obsidian format (items ++ [item]) dir' := by
  have located : locate (pagePath tools format item.url) = some (target tools format item.url) := by
    rw [locate_pagePath, if_neg inside]
  intro path
  rw [files_savePage located saved, List.reverse_append, List.reverse_singleton,
    List.singleton_append, rowAt]
  by_cases here : path = target tools format item.url
  · rw [here, Function.update_self, List.find?_cons_of_pos (by simp)]
    rfl
  · have other : ¬ target tools format item.url = path := fun same => here same.symm
    rw [Function.update_of_ne here, List.find?_cons_of_neg (by simpa using other), ← rowAt]
    by_cases tmp : path = Directory.tmpPath (target tools format item.url)
    · have absent : rowAt (fun item : ScrapedContent => target tools format item.url) items.reverse
          path = none := by
        rw [rowAt_eq_none, tmp, List.mem_map]
        intro occurs
        obtain ⟨other, -, same⟩ := occurs
        exact target_ne_tmpPath other.url item.url same
      rw [tmp, Function.update_self, ← tmp, absent]
      rfl
    · rw [Function.update_of_ne tmp, holds path]

theorem HoldsPages.saveAll {items : List ScrapedContent}
    (inside : ∀ item ∈ items, ¬ LeavesOutput (domainOf item.url)) {earlier : List ScrapedContent}
    {dir dir' : Directory} (holds : HoldsPages tools page obsidian format earlier dir)
    (saved : items.foldlM (Output.saveStep tools page obsidian format) dir = some dir') :
    HoldsPages tools page obsidian format (earlier ++ items) dir' := by
  induction items generalizing earlier dir with
  | nil =>
      cases saved
      rwa [List.append_nil]
  | cons item items ih =>
      obtain ⟨here, later⟩ := List.forall_mem_cons.mp inside
      rw [List.foldlM_cons] at saved
      obtain ⟨next, step, rest⟩ := Option.bind_eq_some_iff.mp saved
      have whole := ih later (holds.saveStep here step) rest
      rwa [List.append_assoc, List.singleton_append] at whole

/-- Pages of a domain without a folder change nothing in the output directory. -/
theorem saveAll_elsewhere {items : List ScrapedContent}
    (elsewhere : ∀ item ∈ items, LeavesOutput (domainOf item.url)) (dir : Directory) :
    items.foldlM (saveStep tools page obsidian format) dir = some dir := by
  induction items with
  | nil => rfl
  | cons item items ih =>
      obtain ⟨here, later⟩ := List.forall_mem_cons.mp elsewhere
      have step : saveStep tools page obsidian format dir item = some dir := by
        rw [saveStep, savePage, locate_pagePath, if_pos here]
      rw [List.foldlM_cons, step]
      exact ih later

/-! ## One file for each page -/

/-- One file for each page, which holds the page, and no other files. -/
def OneFilePerItem (content : ScrapedContent → List Char) (items : List ScrapedContent)
    (dir : Directory) : Prop :=
  ∃ paths : List FilePath, paths.Nodup ∧
    List.Forall₂ (fun item path => dir.files path = some (content item)) items paths ∧
    ∀ path, dir.files path ≠ none → path ∈ paths

theorem HoldsPages.oneFilePerItem_iff {items : List ScrapedContent} {dir : Directory}
    (holds : HoldsPages tools page obsidian format items dir) :
    OneFilePerItem (render tools page obsidian format) items dir ↔
      (items.map fun item => target tools format item.url).Nodup := by
  have reversed (path : FilePath) :
      path ∈ items.reverse.map (fun item => target tools format item.url) ↔
        path ∈ items.map fun item => target tools format item.url := by
    rw [List.map_reverse, List.mem_reverse]
  constructor
  · intro ⟨paths, distinct, each, only⟩
    have filled : ∀ path ∈ paths, dir.files path ≠ none := by
      clear distinct only holds reversed
      induction each with
      | nil => exact fun path none => nomatch none
      | cons here _ ih =>
          refine List.forall_mem_cons.mpr ⟨fun none => ?_, ih⟩
          rw [here] at none
          cases none
    -- as many paths as pages, all of them paths of pages
    have targets : paths ⊆ items.map fun item => target tools format item.url := by
      intro path member
      rw [← reversed]
      by_contra absent
      refine filled path member ?_
      rw [holds path, rowAt_eq_none.mpr absent]
      rfl
    have whole := (List.subperm_of_subset distinct targets).perm_of_length_le
      ((List.length_map _).trans each.length_eq).le
    exact whole.nodup_iff.mp distinct
  · intro distinct
    have reverseDistinct : (items.reverse.map fun item => target tools format item.url).Nodup := by
      rwa [List.map_reverse, List.nodup_reverse]
    refine ⟨items.map fun item => target tools format item.url, distinct, ?_, fun path some => ?_⟩
    · rw [List.forall₂_map_right_iff, List.forall₂_same]
      intro item member
      rw [holds, (rowAt_eq_some reverseDistinct).mpr ⟨List.mem_reverse.mpr member, rfl⟩]
      rfl
    · rw [← reversed]
      by_contra absent
      rw [holds path, rowAt_eq_none.mpr absent] at some
      exact some rfl

/-- A save below the output directory leaves one file for each page just when no two share their
path. -/
theorem oneFilePerItem_saved_iff (perPage : format ≠ .json) {items : List ScrapedContent}
    (inside : ∀ item ∈ items, ¬ LeavesOutput (domainOf item.url)) {dir : Directory}
    (saved : saveResults tools page obsidian items format .empty = some dir) :
    OneFilePerItem (render tools page obsidian format) items dir ↔
      (items.map fun item => target tools format item.url).Nodup := by
  rw [saveResults_eq perPage] at saved
  have start : HoldsPages tools page obsidian format [] .empty := fun path => rfl
  have holds := start.saveAll inside saved
  rw [List.nil_append] at holds
  exact holds.oneFilePerItem_iff

/-- A save leaves one file for each of its pages just when its domain has a folder and no two of
the pages are confused. -/
theorem one_file_per_item_iff (perPage : format ≠ .json) {host : List Char}
    {items : List ScrapedContent} (oneHost : ∀ item ∈ items, item.url.host = host)
    {dir : Directory} (saved : saveResults tools page obsidian items format .empty = some dir) :
    OneFilePerItem (render tools page obsidian format) items dir ↔
      (∀ item ∈ items, ¬ LeavesOutput (domainOf item.url)) ∧
        items.Pairwise fun a b => ¬ a.url.Confused tools format b.url := by
  have sameHost {a b : ScrapedContent} (inA : a ∈ items) (inB : b ∈ items) :
      a.url.host = b.url.host := (oneHost a inA).trans (oneHost b inB).symm
  by_cases inside : ∀ item ∈ items, ¬ LeavesOutput (domainOf item.url)
  · rw [oneFilePerItem_saved_iff perPage inside saved, and_iff_right inside, List.Nodup,
      List.pairwise_map]
    refine List.Pairwise.iff_of_mem fun inA inB => ?_
    exact not_congr (target_eq_iff (sameHost inA inB))
  · refine iff_of_false (fun one => ?_) fun both => inside both.1
    -- no page of the host has a folder below the output directory
    have elsewhere : ∀ item ∈ items, LeavesOutput (domainOf item.url) := by
      intro item member
      by_contra stays
      refine inside fun other inOther leaves => stays ?_
      rw [domainOf, sameHost member inOther]
      exact leaves
    obtain ⟨paths, -, each, -⟩ := one
    rw [saveResults_eq perPage] at saved
    cases (saveAll_elsewhere elsewhere .empty).symm.trans saved
    cases each with
    | nil => exact inside fun item none => absurd none List.not_mem_nil
    | cons here _ => cases here

end Saving

/-! ## Two pages that differ in a slash -/

/-- The tools on ASCII texts without escapes. -/
def asciiTools : NameTools where
  isAlphanumeric := Char.isAlphanum
  percentDecode text := text
  defaultHash _ := 0
  ascii _ _ := rfl

/-- Pages whose Markdown is their text. -/
def plainPages : PageTools where
  convertHtmlToMarkdown html := html
  highlightCodeBlocks markdown := markdown
  convertWikiLinks markdown _ := markdown
  relativeAssets markdown _ _ := markdown
  frontmatter item := "title: ".toList ++ item.title
  parseJson _ := none
  toStringPretty _ := []

def sitePage (title path : String) (rooted : path.toList.head? = some '/')
    (plain : '?' ∉ path.toList ∧ '#' ∉ path.toList) : ScrapedContent where
  title := title.toList
  content := "Text of ".toList ++ title.toList
  url :=
    { scheme := .https
      host := "site.test".toList
      port := none
      path := path.toList
      query := none
      fragment := none
      host_named := by decide
      path_rooted := rooted
      path_plain := plain }

def slashless : ScrapedContent := sitePage "Post" "/blog/post" (by decide) (by decide)

def slashed : ScrapedContent := sitePage "Posts" "/blog/post/" (by decide) (by decide)

def underscored : ScrapedContent := sitePage "Draft" "/blog/post_" (by decide) (by decide)

/-- A page with a closing slash beside the one without it. -/
theorem one_file_per_item_of_slash :
    ∃ dir, saveResults asciiTools plainPages ⟨false, false⟩ [slashless, slashed] .markdown .empty =
        some dir ∧
      OneFilePerItem (render asciiTools plainPages ⟨false, false⟩ .markdown) [slashless, slashed]
        dir := by
  have saves : (saveResults asciiTools plainPages ⟨false, false⟩ [slashless, slashed] .markdown
      .empty).isSome = true := by decide +kernel
  obtain ⟨dir, saved⟩ := Option.isSome_iff_exists.mp saves
  have oneHost : ∀ item ∈ [slashless, slashed], item.url.host = "site.test".toList := by decide
  refine ⟨dir, saved, (one_file_per_item_iff (by decide) oneHost saved).mpr ⟨by decide, ?_⟩⟩
  refine List.pairwise_pair.mpr fun confused => ?_
  have sameHost : slashless.url.host = slashed.url.host := rfl
  have apart : target asciiTools .markdown slashless.url ≠
      target asciiTools .markdown slashed.url := by decide +kernel
  exact apart ((target_eq_iff sameHost).mpr confused)

/-- A page with a closing slash and the page whose name ends in the underscore that stands for it:
the second is written over the first, in both formats. -/
theorem underscored_page_overwrites_slashed :
    (∃ dir, saveResults asciiTools plainPages ⟨false, false⟩ [slashed, underscored] .markdown
        .empty = some dir ∧
      ¬ OneFilePerItem (render asciiTools plainPages ⟨false, false⟩ .markdown)
        [slashed, underscored] dir) ∧
    ∃ dir, saveResults asciiTools plainPages ⟨false, false⟩ [slashed, underscored] .text
        .empty = some dir ∧
      ¬ OneFilePerItem (render asciiTools plainPages ⟨false, false⟩ .text)
        [slashed, underscored] dir := by
  have both (format : OutputFormat) (perPage : format ≠ .json)
      (saves : (saveResults asciiTools plainPages ⟨false, false⟩ [slashed, underscored] format
        .empty).isSome = true)
      (same : target asciiTools format slashed.url = target asciiTools format underscored.url) :
      ∃ dir, saveResults asciiTools plainPages ⟨false, false⟩ [slashed, underscored] format
        .empty = some dir ∧
      ¬ OneFilePerItem (render asciiTools plainPages ⟨false, false⟩ format)
        [slashed, underscored] dir := by
    obtain ⟨dir, saved⟩ := Option.isSome_iff_exists.mp saves
    refine ⟨dir, saved, fun one => ?_⟩
    have distinct := (oneFilePerItem_saved_iff perPage (by decide) saved).mp one
    rw [List.map_cons, List.map_singleton, same] at distinct
    exact absurd distinct (by simp)
  exact ⟨both .markdown (by decide) (by decide +kernel) (by decide +kernel),
    both .text (by decide) (by decide +kernel) (by decide +kernel)⟩

end Webfang.Output
