import Webfang.Output.FileNames

/-!
# Which pages share a path

A path tells of a page the folders of its URL and the letters of its name, each up to the
characters that a file name does not tell apart.  Two pages are confused when they agree in both;
the pages of one host share their path just then.
-/

namespace Webfang.Output

open Pieces

/-! ## What a path tells of a page -/

/-- A folder that would lead elsewhere is not named after its segment. -/
def undotted (name : List Char) : List Char :=
  if name = ['.'] ∨ name = ['.', '.'] then ['_'] else name

section Letters

variable (tools : NameTools) (format : OutputFormat)

/-- The letters of a name: what stands between the outer slashes, and a mark behind a name that
is reserved and behind one that was closed by a slash. -/
def nameLetters (decoded : List Char) (closed : Bool) : List Char :=
  let body := (decoded.dropWhile (· = '/')).rdropWhile (· = '/')
  let named := if UrlPath.isReserved (body.map tools.shown) then body ++ "_safe".toList else body
  if closed ∧ named ≠ [] then named ++ ['_'] else named

namespace ValidUrl

/-- Whether the name tells of a query or a fragment. -/
def IsMarked (url : ValidUrl) : Prop :=
  format ≠ .text ∧ ¬ (url.query.getD [] = [] ∧ url.fragment.getD [] = [])

instance (url : ValidUrl) : Decidable (url.IsMarked format) := inferInstanceAs (Decidable (_ ∧ _))

/-- The path of a page without its closing slashes. -/
def trimmedPath (url : ValidUrl) : List Char :=
  if url.path = ['/'] then ['/'] else url.path.rdropWhile (· = '/')

/-- The letters of the name of a page. -/
def letters (url : ValidUrl) : List Char :=
  if url.IsMarked format then
    nameLetters tools (tools.percentDecode (url.trimmedPath ++ UrlPath.querySuffix tools url)) false
  else if url.path = ['/'] then "index".toList
  else nameLetters tools (tools.percentDecode url.trimmedPath) (url.path.getLast? = some '/')

/-- The folders of a page: the segments of its path but the last.  Behind a host that is a mere
dot the folder `output` is taken for the prefix of all paths. -/
def folders (url : ValidUrl) : List (List Char) :=
  let above := (pieces '/' url.path).dropLast.map undotted
  if domainOf url = ['.'] ∧ above.head? = some "output".toList then above.tail else above

/-- Two pages whose folders and whose names are not told apart. -/
def Confused (u v : ValidUrl) : Prop :=
  List.Forall₂ (tools.Blurred format) u.folders v.folders ∧
    tools.Blurred format (u.letters tools format) (v.letters tools format)

end ValidUrl

end Letters

section Paths

variable {tools : NameTools} {format : OutputFormat} {url : ValidUrl}

open NameTools UrlPath

/-! ### Names -/

theorem sanitized_eq (body : List Char) :
    sanitizePathSegment tools ((body.map fun c => if c = '/' then '-' else c).map
      fun c => if c = ' ' then '_' else c) = body.map tools.shown := by
  rw [sanitizePathSegment, List.map_map, List.map_map]
  refine List.map_congr_left fun c _ => ?_
  rw [Function.comp_apply, Function.comp_apply]
  by_cases slash : c = '/'
  · rw [shown_dash (.inr slash), slash]
    simp
  by_cases space : c = ' '
  · rw [shown_hidden (.inr ⟨slash, space ▸ not_kept_space⟩), space]
    simp
  · rw [shown, if_neg slash, if_neg slash, if_neg space]
    rfl

theorem stem_eq_map_nameLetters (raw : List Char) (closed : Bool) :
    stem tools ⟨raw, false, closed⟩ =
      (nameLetters tools (tools.percentDecode raw) closed).map tools.shown := by
  have safe : "_safe".toList.map tools.shown = "_safe".toList := map_shown_ascii (by decide)
  have mark : ['_'].map tools.shown = ['_'] := map_shown_ascii (by decide)
  rw [stem, if_neg Bool.false_ne_true, nameLetters]
  dsimp only
  rw [sanitized_eq]
  generalize ((tools.percentDecode raw).dropWhile (· = '/')).rdropWhile (· = '/') = body
  have shownName : (if isReserved (body.map tools.shown) then
        body.map tools.shown ++ "_safe".toList else body.map tools.shown) =
      (if isReserved (body.map tools.shown) then body ++ "_safe".toList else body).map
        tools.shown := by
    rw [apply_ite (List.map tools.shown), List.map_append, safe]
  rw [shownName]
  generalize (if isReserved (body.map tools.shown) then body ++ "_safe".toList else body) = named
  rw [apply_ite (List.map tools.shown), List.map_append, mark]
  simp only [ne_eq, List.map_eq_nil_iff]

theorem rdropWhile_of_open {text : List Char} (opened : text.getLast? ≠ some '/') :
    text.rdropWhile (· = '/') = text := by
  refine List.rdropWhile_eq_self_iff.mpr fun nonempty closed => opened ?_
  rw [List.getLast?_eq_some_getLast nonempty, of_decide_eq_true closed]

theorem takeWhile_ne {c : Char} {text : List Char} (absent : c ∉ text) :
    text.takeWhile (· ≠ c) = text :=
  List.takeWhile_eq_self_iff.mpr fun _ member =>
    decide_eq_true fun same => absent (same ▸ member)

theorem fromUrlPath_eq (url : ValidUrl) :
    fromUrlPath url.path =
      { raw := url.trimmedPath
        isRoot := url.path = ['/']
        endsWithSlash := url.path.getLast? = some '/' ∧ ¬ url.path = ['/'] } := by
  have query := takeWhile_ne url.path_plain.1
  have fragment := takeWhile_ne url.path_plain.2
  unfold fromUrlPath ValidUrl.trimmedPath
  rw [query, fragment]
  dsimp only
  rw [if_pos url.path_rooted]
  by_cases root : url.path = ['/']
  · simp [root]
  · by_cases closed : url.path.getLast? = some '/'
    · simp [root, closed]
    · simp [root, closed, rdropWhile_of_open closed]

/-! ### Marks of the query and the fragment -/

theorem mem_cutAtBytes {budget : Nat} {s : List Char} {c : Char} (member : c ∈ cutAtBytes budget s) :
    c ∈ s := by
  induction s generalizing budget with
  | nil => cases member
  | cons d s ih =>
      rw [cutAtBytes] at member
      split_ifs at member
      · rcases List.mem_cons.mp member with rfl | later
        · exact List.mem_cons_self
        · exact List.mem_cons_of_mem _ (ih later)
      · cases member

theorem digitChar_ne_slash : ∀ digit : Fin 16, Nat.digitChar digit ≠ '/' := by decide

theorem slash_not_mem_truncateWithHash {s : List Char} (whole : '/' ∉ s) (maxBytes : Nat) :
    '/' ∉ truncateWithHash tools s maxBytes := by
  rw [truncateWithHash]
  split_ifs
  · exact whole
  · intro member
    rcases List.mem_append.mp member with cut | hash
    · exact whole (mem_cutAtBytes cut)
    · rcases List.mem_cons.mp hash with underscore | digit
      · exact absurd underscore (by decide)
      · obtain ⟨i, -, same⟩ := List.mem_map.mp digit
        exact digitChar_ne_slash ⟨_, Nat.mod_lt _ (by decide)⟩ same

theorem slash_not_mem_sanitizeQueryPart (s : List Char) : '/' ∉ sanitizeQueryPart s := by
  intro member
  obtain ⟨c, -, same⟩ := List.mem_map.mp member
  split_ifs at same with special
  · exact absurd same (by decide)
  · exact special (same ▸ by simp)

theorem slash_not_mem_querySuffix (url : ValidUrl) : '/' ∉ querySuffix tools url := by
  refine slash_not_mem_truncateWithHash (fun member => ?_) maxFilenameBodyBytes
  have part (s : List Char) : '/' ∉ (if s = [] then [] else '_' :: sanitizeQueryPart s) := by
    split_ifs
    · exact List.not_mem_nil
    · intro inside
      rcases List.mem_cons.mp inside with underscore | inside
      · exact absurd underscore (by decide)
      · exact slash_not_mem_sanitizeQueryPart s inside
  rcases List.mem_append.mp member with query | fragment
  · exact part _ query
  · exact part _ fragment

theorem querySuffix_ne_nil (marked : ¬ (url.query.getD [] = [] ∧ url.fragment.getD [] = [])) :
    querySuffix tools url ≠ [] := by
  unfold querySuffix
  dsimp only
  split_ifs with query fragment fragment
  · exact absurd ⟨query, fragment⟩ marked
  all_goals
    rw [truncateWithHash]
    split_ifs <;> simp

/-! ### Folders -/

/-- The names of folders as they stand in a path. -/
def dirText (names : List (List Char)) : List Char := names.flatMap (· ++ ['/'])

@[simp] theorem dirText_nil : dirText [] = [] := rfl

theorem dirText_cons (name : List Char) (names : List (List Char)) :
    dirText (name :: names) = name ++ '/' :: dirText names := by
  rw [dirText, List.flatMap_cons, List.append_assoc]
  rfl

theorem dirText_eq_intercalate {names : List (List Char)} (nonempty : names ≠ []) :
    dirText names = ['/'].intercalate names ++ ['/'] := by
  induction names with
  | nil => exact absurd rfl nonempty
  | cons name names ih =>
      cases names with
      | nil => rw [List.intercalate_singleton, dirText_cons, dirText_nil]
      | cons next names =>
          rw [dirText_cons, ih (List.cons_ne_nil _ _), List.intercalate_cons_cons]
          simp only [List.append_assoc, List.cons_append, List.nil_append]

/-- The name of a folder. -/
def folderName (tools : NameTools) (name : List Char) : List Char :=
  if name = ['.'] ∨ name = ['.', '.'] then ['_'] else sanitizePathSegment tools name

theorem toDirectory_eq {raw : List Char} (opened : raw.getLast? ≠ some '/') (closed : Bool) :
    toDirectory tools ⟨raw, false, closed⟩ =
      dirText ((pieces '/' raw).dropLast.map (folderName tools)) := by
  rw [toDirectory, if_neg Bool.false_ne_true]
  dsimp only
  rw [← pieces_dropWhile raw]
  have opened' : (raw.dropWhile (· = '/')).getLast? ≠ some '/' := fun closed => by
    obtain ⟨front, same⟩ := List.dropWhile_suffix (l := raw) (· = '/')
    exact opened (by rw [← same, List.getLast?_append, closed]; rfl)
  have first : (raw.dropWhile (· = '/')).head? ≠ some '/' := fun slash => by
    have kept := List.head?_dropWhile_not (· = '/') raw
    rw [slash] at kept
    exact absurd kept (by decide)
  generalize raw.dropWhile (· = '/') = text at opened' first ⊢
  split_ifs with slash
  · obtain ⟨before, last, rfl, whole, nonempty⟩ := exists_last_piece slash opened'
    rw [before_last_piece before whole, dropLast_pieces before whole nonempty]
    refine (dirText_eq_intercalate fun none => ?_).symm
    cases before with
    | nil => exact first rfl
    | cons c before =>
        refine pieces_ne_nil (fun slash => first ?_) (List.map_eq_nil_iff.mp none)
        rw [slash]
        rfl
  · by_cases none : text = []
    · rw [none, pieces_nil]
      rfl
    · rw [pieces_eq_singleton slash none]
      rfl

theorem opened_trimmedPath (other : url.path ≠ ['/']) : url.trimmedPath.getLast? ≠ some '/' := by
  rw [ValidUrl.trimmedPath, if_neg other]
  intro closed
  have nonempty : url.path.rdropWhile (· = '/') ≠ [] := fun none => by
    rw [none] at closed
    cases closed
  rw [List.getLast?_eq_some_getLast nonempty] at closed
  exact List.rdropWhile_last_not _ _ nonempty (decide_eq_true (Option.some.inj closed))

theorem pieces_trimmedPath (url : ValidUrl) : pieces '/' url.trimmedPath = pieces '/' url.path := by
  rw [ValidUrl.trimmedPath]
  split_ifs with root
  · rw [root]
  · exact pieces_rdropWhile url.path

/-- A mark without a slash does not change the folders. -/
theorem dropLast_pieces_marked {mark : List Char} (whole : '/' ∉ mark) (nonempty : mark ≠ []) :
    (pieces '/' (url.trimmedPath ++ mark)).dropLast = (pieces '/' url.path).dropLast := by
  rw [← pieces_trimmedPath]
  by_cases root : url.path = ['/']
  · rw [ValidUrl.trimmedPath, if_pos root, List.singleton_append, pieces_cons, pieces_cons,
      pieces_eq_singleton whole nonempty, pieces_nil]
    rfl
  by_cases slash : '/' ∈ url.trimmedPath
  · obtain ⟨before, last, same, wholeLast, someLast⟩ :=
      exists_last_piece slash (opened_trimmedPath root)
    have wholeMarked : '/' ∉ last ++ mark := fun member =>
      (List.mem_append.mp member).elim wholeLast whole
    rw [same, List.append_assoc, List.cons_append, dropLast_pieces before wholeLast someLast,
      dropLast_pieces before wholeMarked (List.append_ne_nil_of_left_ne_nil someLast _)]
  · have wholeMarked : '/' ∉ url.trimmedPath ++ mark := fun member =>
      (List.mem_append.mp member).elim slash whole
    rw [pieces_eq_singleton wholeMarked (List.append_ne_nil_of_right_ne_nil _ nonempty)]
    by_cases none : url.trimmedPath = []
    · rw [none, pieces_nil]
      rfl
    · rw [pieces_eq_singleton slash none]
      rfl

/-! ### The path of a page -/

/-- The path that a format uses of a URL. -/
def pageOutput (tools : NameTools) (format : OutputFormat) (url : ValidUrl) : OutputPath :=
  if format = .text then OutputPath.fromUrl url else OutputPath.fromUrlWithQuery tools url

theorem path_pageOutput (url : ValidUrl) :
    (pageOutput tools format url).path =
      if url.IsMarked format then ⟨url.trimmedPath ++ querySuffix tools url, false, false⟩
      else
        { raw := url.trimmedPath
          isRoot := url.path = ['/']
          endsWithSlash := url.path.getLast? = some '/' ∧ ¬ url.path = ['/'] } := by
  rw [← fromUrlPath_eq url, pageOutput]
  by_cases text : format = .text
  · rw [if_pos text, if_neg fun marked => marked.1 text]
    rfl
  rw [if_neg text, OutputPath.fromUrlWithQuery, fromUrlWithQuery]
  dsimp only
  split_ifs with plain marked marked
  · exact absurd plain marked.2
  · rfl
  · rw [fromUrlPath_eq]
  · exact absurd ⟨text, plain⟩ marked

theorem stem_pageOutput (url : ValidUrl) :
    stem tools (pageOutput tools format url).path = (url.letters tools format).map tools.shown := by
  rw [path_pageOutput, ValidUrl.letters]
  split_ifs with marked root
  · exact stem_eq_map_nameLetters _ false
  · have index : "index".toList.map tools.shown = "index".toList := map_shown_ascii (by decide)
    rw [index, stem, if_pos (decide_eq_true root)]
  · simp only [root, not_false_eq_true, and_true, decide_false]
    exact stem_eq_map_nameLetters _ _

theorem toDirectory_pageOutput (url : ValidUrl) :
    toDirectory tools (pageOutput tools format url).path =
      dirText ((pieces '/' url.path).dropLast.map (folderName tools)) := by
  rw [path_pageOutput]
  split_ifs with marked
  · have nonempty : querySuffix tools url ≠ [] := querySuffix_ne_nil marked.2
    have whole : '/' ∉ querySuffix tools url := slash_not_mem_querySuffix url
    have opened : (url.trimmedPath ++ querySuffix tools url).getLast? ≠ some '/' := fun closed => by
      rw [List.getLast?_append_of_ne_nil _ nonempty] at closed
      exact whole (List.mem_of_getLast? closed)
    rw [toDirectory_eq opened, dropLast_pieces_marked whole nonempty]
  · by_cases root : url.path = ['/']
    · rw [toDirectory, if_pos (decide_eq_true root), root, pieces_cons, pieces_nil]
      rfl
    · simp only [root, not_false_eq_true, and_true, decide_false]
      rw [toDirectory_eq (opened_trimmedPath root), pieces_trimmedPath]

/-! ### Names below the output directory -/

/-- A name that stands for itself in a path. -/
def IsName (name : List Char) : Prop :=
  name ≠ [] ∧ '/' ∉ name ∧ name ≠ ['.'] ∧ name ≠ ['.', '.']

theorem pieces_dirText {names : List (List Char)} (each : ∀ name ∈ names, name ≠ [] ∧ '/' ∉ name)
    {file : List Char} (last : IsName file) : pieces '/' (dirText names ++ file) = names ++ [file] := by
  induction names with
  | nil => exact pieces_eq_singleton last.2.1 last.1
  | cons name names ih =>
      obtain ⟨here, later⟩ := List.forall_mem_cons.mp each
      rw [dirText_cons, List.append_assoc, List.cons_append, pieces_append_cons,
        pieces_eq_singleton here.2 here.1, ih later]
      rfl

theorem head?_ne_slash {name : List Char} (nonempty : name ≠ []) (whole : '/' ∉ name)
    (behind : List Char) : (name ++ behind).head? ≠ some '/' := by
  obtain ⟨c, name, rfl⟩ := List.exists_cons_of_ne_nil nonempty
  intro slash
  exact whole (Option.some.inj slash ▸ List.mem_cons_self)

theorem slash_not_mem_shown (text : List Char) : '/' ∉ text.map tools.shown := by
  intro member
  obtain ⟨c, -, same⟩ := List.mem_map.mp member
  have slash : c = '/' := shown_eq (by decide) (by decide) same
  rw [slash, shown_dash (.inr rfl)] at same
  exact absurd same (by decide)

theorem isName_file (text : List Char) : IsName (text.map tools.shown ++ ".md".toList) := by
  refine ⟨List.append_ne_nil_of_right_ne_nil _ (by decide), fun member => ?_, fun short => ?_,
    fun short => ?_⟩
  · exact (List.mem_append.mp member).elim (slash_not_mem_shown text) (by decide)
  · have lengths := congrArg List.length short
    rw [List.length_append] at lengths
    exact absurd lengths (by simp)
  · have lengths := congrArg List.length short
    rw [List.length_append] at lengths
    exact absurd lengths (by simp)

theorem folderName_eq {name : List Char} (whole : '/' ∉ name) :
    folderName tools name = (undotted name).map tools.shown := by
  rw [folderName, undotted]
  split_ifs
  · exact (map_shown_ascii (by decide)).symm
  · rw [sanitizePathSegment]
    refine List.map_congr_left fun c member => ?_
    have other : c ≠ '/' := fun slash => whole (slash ▸ member)
    rw [shown, if_neg other]
    rfl

theorem map_shown_eq {text word : List Char} (plain : '-' ∉ word ∧ '_' ∉ word)
    (same : text.map tools.shown = word) : text = word := by
  obtain ⟨rest, rfl, none⟩ := map_shown_eq_append plain (same.trans (List.append_nil word).symm)
  rw [List.map_eq_nil_iff.mp none, List.append_nil]

theorem isName_folder {name : List Char} (nonempty : name ≠ []) :
    IsName ((undotted name).map tools.shown) := by
  have kept : undotted name ≠ [] ∧ undotted name ≠ ['.'] ∧ undotted name ≠ ['.', '.'] := by
    rw [undotted]
    split_ifs with dots
    · decide
    · exact ⟨nonempty, fun dot => dots (.inl dot), fun twice => dots (.inr twice)⟩
  refine ⟨fun none => kept.1 (List.map_eq_nil_iff.mp none), slash_not_mem_shown _,
    fun dot => kept.2.1 (map_shown_eq (by decide) dot),
    fun twice => kept.2.2 (map_shown_eq (by decide) twice)⟩

/-! ### Paths of a format -/

theorem asText_eq_self {word : List Char} (plain : 'm' ∉ word) : asText word = word :=
  substitute_eq_self (by decide) plain

theorem asText_append {x : Char} (begins : x ≠ 'm' ∧ x ≠ 'd') (before behind : List Char) :
    asText (before ++ x :: behind) = asText before ++ asText (x :: behind) :=
  substitute_append (by decide) (by simp [begins]) before behind

/-- A text that shows no `t` was not rewritten. -/
theorem asText_eq_of_not_mem {s word : List Char} (plain : 't' ∉ word) (same : asText s = word) :
    s = word := by
  induction s generalizing word with
  | nil => exact same
  | cons c s ih =>
      rcases asText_cases (c :: s) with none | ⟨t, md⟩ | ⟨d, t, whole, step⟩
      · cases none
      · rw [md, asText_md] at same
        exact absurd (same ▸ by simp) plain
      · obtain ⟨rfl, rfl⟩ := List.cons.inj whole
        rw [step] at same
        subst same
        rw [← ih (fun member => plain (List.mem_cons_of_mem _ member)) rfl]

/-- Short names are written in every format as they are. -/
theorem respell_eq_iff {s w : List Char} (plain : 'm' ∉ w ∧ 't' ∉ w) :
    respell format s = w ↔ s = w := by
  cases format with
  | text =>
      refine ⟨asText_eq_of_not_mem plain.2, fun same => ?_⟩
      rw [same]
      exact asText_eq_self plain.1
  | markdown | json => exact Iff.rfl

theorem respell_slash (before behind : List Char) :
    respell format (before ++ '/' :: behind) =
      respell format before ++ '/' :: respell format behind := by
  cases format with
  | text =>
      exact (asText_append (by decide) before behind).trans
        (congrArg (asText before ++ ·) (asText_letter (by decide) behind))
  | markdown | json => rfl

theorem respell_dirText (names : List (List Char)) (file : List Char) :
    respell format (dirText names ++ file) =
      dirText (names.map (respell format)) ++ respell format file := by
  induction names with
  | nil => rfl
  | cons name names ih =>
      rw [dirText_cons, List.append_assoc, List.cons_append, respell_slash, ih, List.map_cons,
        dirText_cons, List.append_assoc, List.cons_append]

theorem IsName.respell {name : List Char} (isName : IsName name) :
    IsName (respell format name) := by
  obtain ⟨nonempty, whole, dot, twice⟩ := isName
  refine ⟨fun none => nonempty ((respell_eq_iff (by decide)).mp none), fun member => ?_,
    fun same => dot ((respell_eq_iff (by decide)).mp same),
    fun same => twice ((respell_eq_iff (by decide)).mp same)⟩
  cases format with
  | text => exact (mem_substituteFrom member).elim (by decide) whole
  | markdown | json => exact whole member

/-! ### Where a page is saved -/

/-- A path behind no domain. -/
theorem locate_of_names {names : List (List Char)} (each : ∀ name ∈ names, IsName name)
    {file : List Char} (last : IsName file) :
    locate (dirText names ++ file) = some (names ++ [file]) := by
  have all : ∀ name ∈ names ++ [file], IsName name := fun name member =>
    (List.mem_append.mp member).elim (each name) fun isFile => List.mem_singleton.mp isFile ▸ last
  have inside : (dirText names ++ file).head? ≠ some '/' := by
    cases names with
    | nil =>
        have first := head?_ne_slash last.1 last.2.1 []
        rwa [List.append_nil] at first
    | cons name names =>
        obtain ⟨nonempty, whole, -⟩ := each name List.mem_cons_self
        rw [dirText_cons, List.append_assoc]
        exact head?_ne_slash nonempty whole _
  have kept : (names ++ [file]).filter (· ≠ ['.']) = names ++ [file] :=
    List.filter_eq_self.mpr fun name member => decide_eq_true (all name member).2.2.1
  rw [locate, pieces_dirText (fun name member => ⟨(each name member).1, (each name member).2.1⟩) last]
  rw [kept, if_neg]
  intro leaves
  exact leaves.elim inside fun twice => (all _ twice).2.2.2 rfl

/-- A path behind a domain; one that has no name for its folder leads elsewhere. -/
theorem locate_of_domain {domain : List Char} (whole : '/' ∉ domain) {names : List (List Char)}
    (each : ∀ name ∈ names, IsName name) {file : List Char} (last : IsName file) :
    locate (dirText (domain :: names) ++ file) =
      if domain = [] ∨ domain = ['.', '.'] then none
      else some ((if domain = ['.'] then [] else [domain]) ++ names ++ [file]) := by
  by_cases none : domain = []
  · rw [none, if_pos (.inl rfl), locate, if_pos (.inl rfl)]
  by_cases dot : domain = ['.']
  · -- the folder of the output directory itself
    have front : (dirText (domain :: names) ++ file).head? ≠ some '/' := by
      rw [dirText_cons, List.append_assoc]
      exact head?_ne_slash none whole _
    have same : (pieces '/' (dirText (domain :: names) ++ file)).filter (· ≠ ['.']) =
        (pieces '/' (dirText names ++ file)).filter (· ≠ ['.']) := by
      rw [dirText_cons, List.append_assoc, List.cons_append, pieces_append_cons,
        pieces_eq_singleton whole none, dot]
      rfl
    have behind := locate_of_names each last
    rw [locate] at behind ⊢
    rw [same]
    split_ifs at behind with leaves
    rw [if_neg fun up => up.elim front fun twice => leaves (.inr twice), if_neg, if_pos dot]
    · exact behind
    · rw [dot]
      decide
  by_cases up : domain = ['.', '.']
  · have found : ['.', '.'] ∈ (pieces '/' (dirText (domain :: names) ++ file)).filter
        (· ≠ ['.']) := by
      rw [dirText_cons, List.append_assoc, List.cons_append, pieces_append_cons,
        pieces_eq_singleton whole none, up]
      exact List.mem_cons_self
    rw [locate, if_pos (.inr found), if_pos (.inr up)]
  · have isName : ∀ name ∈ domain :: names, IsName name :=
      List.forall_mem_cons.mpr ⟨⟨none, whole, dot, up⟩, each⟩
    rw [locate_of_names isName last, if_neg (not_or.mpr ⟨none, up⟩), if_neg dot]
    rfl

/-! ### The path of a page from the output directory -/

/-- A segment in front of a slash is compared whole. -/
theorem isPrefixOf_cons_slash {a b : List Char} (wholeA : '/' ∉ a) (wholeB : '/' ∉ b)
    {s t : List Char} : a ++ '/' :: s <+: b ++ '/' :: t ↔ a = b ∧ s <+: t := by
  constructor
  · intro ⟨rest, same⟩
    rw [List.append_assoc, List.cons_append] at same
    have cut := congrArg (List.splitOn '/') same
    rw [List.splitOn_append_cons_self_of_not_mem wholeA,
      List.splitOn_append_cons_self_of_not_mem wholeB] at cut
    have first := (List.cons.inj cut).1
    rw [first] at same
    exact ⟨first, rest, (List.cons.inj (List.append_cancel_left same)).2⟩
  · intro ⟨same, rest, behind⟩
    rw [same, ← behind]
    exact ⟨rest, by rw [List.append_assoc]; rfl⟩

/-- A text without a slash has no segment in front of one. -/
theorem not_startsWith_slash {a t : List Char} (whole : '/' ∉ t) (s : List Char) :
    ¬ a ++ '/' :: s <+: t :=
  fun here => whole (here.mem (List.mem_append_right _ List.mem_cons_self))

/-- The prefix of all paths is cut off once, or twice behind a mere dot. -/
theorem trimStart_output {domain : List Char} (whole : '/' ∉ domain) {names : List (List Char)}
    (each : ∀ name ∈ names, IsName name) {file : List Char} (last : IsName file) :
    trimStart "./output/".toList ("./output/".toList ++ (dirText (domain :: names) ++ file)) =
      if domain = ['.'] ∧ names.head? = some "output".toList then dirText names.tail ++ file
      else dirText (domain :: names) ++ file := by
  have prefix_cut : "./output/".toList = ['.'] ++ '/' :: ("output".toList ++ ['/']) := rfl
  rw [trimStart_pattern (by decide), prefix_cut]
  split_ifs with twice
  · obtain ⟨rfl, first⟩ := twice
    obtain ⟨more, rfl⟩ : ∃ more, names = "output".toList :: more :=
      ⟨names.tail, (List.cons_head?_tail first).symm⟩
    have again : dirText (['.'] :: "output".toList :: more) ++ file =
        (['.'] ++ '/' :: ("output".toList ++ ['/'])) ++ (dirText more ++ file) := by
      rw [dirText_cons, dirText_cons]
      simp only [List.append_assoc, List.cons_append, List.nil_append]
    rw [again, trimStart_pattern (by simp), List.tail_cons]
    refine trimStart_of_not fun third => ?_
    cases more with
    | nil => exact not_startsWith_slash last.2.1 _ third
    | cons name more =>
        have isName := each name (List.mem_cons_of_mem _ List.mem_cons_self)
        rw [dirText_cons, List.append_assoc, List.cons_append] at third
        exact isName.2.2.1 ((isPrefixOf_cons_slash (a := ['.']) (by decide) isName.2.1).mp third).1.symm
  · refine trimStart_of_not fun here => twice ?_
    rw [dirText_cons, List.append_assoc, List.cons_append] at here
    obtain ⟨dot, behind⟩ : ['.'] = domain ∧ "output".toList ++ ['/'] <+: dirText names ++ file :=
      (isPrefixOf_cons_slash (a := ['.']) (by decide) whole).mp here
    refine ⟨dot.symm, ?_⟩
    cases names with
    | nil => exact absurd behind (not_startsWith_slash last.2.1 _)
    | cons name names =>
        rw [dirText_cons, List.append_assoc, List.cons_append] at behind
        have second := (isPrefixOf_cons_slash (by decide) (each name List.mem_cons_self).2.1).mp behind
        rw [← second.1]
        rfl

/-- The path of a page from the output directory, as it is written. -/
def pagePath (tools : NameTools) : OutputFormat → ValidUrl → List Char
  | .text => textPath tools
  | .markdown | .json => markdownPath tools

theorem pagePath_eq (url : ValidUrl) :
    pagePath tools format url = respell format
      (trimStart "./output/".toList ((pageOutput tools format url).toFullPath tools)) := by
  have md : ".md".toList = ['.', 'm', 'd'] := rfl
  have txt : ".txt".toList = ['.', 't', 'x', 't'] := rfl
  cases format with
  | text => rw [pagePath, textPath, pageOutput, if_pos rfl, md, txt]; rfl
  | markdown | json => rw [pagePath, markdownPath, pageOutput, if_neg (by decide)]; rfl

/-- The folders and the file of a page below the output directory. -/
def target (tools : NameTools) (format : OutputFormat) (url : ValidUrl) : FilePath :=
  (if domainOf url = ['.'] then [] else [respell format (domainOf url)]) ++
    url.folders.map (fun name => respell format (name.map tools.shown)) ++
    [respell format ((url.letters tools format).map tools.shown ++ ".md".toList)]

/-- Whether a domain has no name for its folder, so that its pages are saved elsewhere. -/
def LeavesOutput (domain : List Char) : Prop := domain = [] ∨ domain = ['.', '.']

instance (domain : List Char) : Decidable (LeavesOutput domain) :=
  inferInstanceAs (Decidable (_ ∨ _))

theorem slash_not_mem_domainOf (url : ValidUrl) : '/' ∉ domainOf url := by
  rw [domainOf]
  split_ifs
  · exact fun member => url.host_named.2 (List.mem_of_mem_drop member)
  · exact url.host_named.2

theorem toFullPath_pageOutput (url : ValidUrl) :
    (pageOutput tools format url).toFullPath tools = "./output/".toList ++
      (dirText (domainOf url :: (pieces '/' url.path).dropLast.map (folderName tools)) ++
        ((url.letters tools format).map tools.shown ++ ".md".toList)) := by
  have domain : (pageOutput tools format url).domain = domainOf url := by
    rw [pageOutput]
    split_ifs <;> rfl
  have extension : ".md".toList = '.' :: "md".toList := rfl
  have file : (pageOutput tools format url).path.toSafeFilenameWithFormat tools none =
      (url.letters tools format).map tools.shown ++ ".md".toList := by
    rw [toSafeFilenameWithFormat, stem_pageOutput, extension]
  unfold OutputPath.toFullPath OutputPath.toFullPathWithFormat OutputPath.toFolderPath
  generalize "./output/".toList = output
  rw [file, toDirectory_pageOutput, domain, dirText_cons, List.append_assoc, List.append_assoc,
    List.append_assoc, List.cons_append]

theorem locate_pagePath (url : ValidUrl) :
    locate (pagePath tools format url) =
      if LeavesOutput (domainOf url) then none else some (target tools format url) := by
  have whole := slash_not_mem_domainOf url
  have segments : ∀ name ∈ (pieces '/' url.path).dropLast, name ≠ [] ∧ '/' ∉ name :=
    fun name member => mem_pieces ((List.dropLast_sublist _).subset member)
  have named : (pieces '/' url.path).dropLast.map (folderName tools) =
      ((pieces '/' url.path).dropLast.map undotted).map (List.map tools.shown) := by
    rw [List.map_map]
    exact List.map_congr_left fun name member => folderName_eq (segments name member).2
  have each : ∀ name ∈ ((pieces '/' url.path).dropLast.map undotted).map (List.map tools.shown),
      IsName name := by
    intro name member
    obtain ⟨shownName, above, rfl⟩ := List.mem_map.mp member
    obtain ⟨segment, inside, rfl⟩ := List.mem_map.mp above
    exact isName_folder (segments segment inside).1
  have full : (pageOutput tools format url).toFullPath tools = _ := toFullPath_pageOutput url
  rw [named] at full
  rw [pagePath_eq, full, trimStart_output whole each (isName_file _), target, ValidUrl.folders]
  clear full named segments
  generalize (pieces '/' url.path).dropLast.map undotted = above at each ⊢
  have first : (above.map (List.map tools.shown)).head? = some "output".toList ↔
      above.head? = some "output".toList := by
    rw [List.head?_map, Option.map_eq_some_iff]
    constructor
    · intro ⟨name, head, same⟩
      rw [head, map_shown_eq (by decide) same]
    · exact fun head => ⟨_, head, map_shown_ascii (by decide)⟩
  have spelling (names : List (List Char)) : names.map
      (fun name => respell format (name.map tools.shown)) =
        (names.map (List.map tools.shown)).map (respell format) := List.map_map.symm
  have eachSpelt {names : List (List Char)} (each : ∀ name ∈ names, IsName name) :
      ∀ name ∈ names.map (respell format), IsName name := by
    intro name member
    obtain ⟨before, inside, rfl⟩ := List.mem_map.mp member
    exact (each before inside).respell
  have file : IsName (respell format ((url.letters tools format).map tools.shown ++ ".md".toList)) :=
    (isName_file _).respell
  rw [spelling]
  by_cases twice : domainOf url = ['.'] ∧ above.head? = some "output".toList
  · have inside : ¬ LeavesOutput (domainOf url) := by
      rw [twice.1]
      decide
    have eachTail : ∀ name ∈ (above.map (List.map tools.shown)).tail, IsName name :=
      fun name member => each name (List.mem_of_mem_tail member)
    rw [if_pos (twice.imp id first.mpr), if_pos twice, if_neg inside, if_pos twice.1, respell_dirText,
      locate_of_names (eachSpelt eachTail) file, List.nil_append, List.map_tail, List.map_tail,
      List.map_tail]
  · have wholeSpelt : '/' ∉ respell format (domainOf url) := by
      cases format with
      | text => exact fun member => (mem_substituteFrom member).elim (by decide) whole
      | markdown | json => exact whole
    rw [if_neg fun both => twice (both.imp id first.mp), if_neg twice, respell_dirText, List.map_cons,
      locate_of_domain wholeSpelt (eachSpelt each) file]
    simp only [respell_eq_iff (w := []) (by decide), respell_eq_iff (w := ['.']) (by decide),
      respell_eq_iff (w := ['.', '.']) (by decide)]
    rfl

theorem respell_md (name : List Char) :
    respell format (name ++ ".md".toList) = respell format name ++ respell format ".md".toList := by
  cases format with
  | text => exact asText_append (by decide) name ['m', 'd']
  | markdown | json => rfl

/-- The pages of one host share their path just when they are confused. -/
theorem target_eq_iff {u v : ValidUrl} (sameHost : u.host = v.host) :
    target tools format u = target tools format v ↔ u.Confused tools format v := by
  have sameDomain : domainOf u = domainOf v := by
    rw [domainOf, domainOf, sameHost]
  rw [target, target, sameDomain, List.append_assoc, List.append_assoc, List.append_right_inj,
    ValidUrl.Confused]
  rw [respell_md, respell_md, ← List.concat_eq_append, ← List.concat_eq_append, List.concat_inj,
    List.append_left_inj, blurred_iff]
  refine and_congr_left fun _ => ?_
  rw [← List.forall₂_eq_eq_eq, List.forall₂_map_left_iff, List.forall₂_map_right_iff]
  constructor
  · exact List.Forall₂.imp fun a b same => blurred_iff.mpr same
  · exact List.Forall₂.imp fun a b alike => blurred_iff.mp alike

end Paths

end Webfang.Output
