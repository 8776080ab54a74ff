import Webfang.Domain.Record
import Webfang.Lib.Percent
import Mathlib.Data.List.DropRight
import Mathlib.Logic.Function.Iterate

/-!
# Notes opened in Obsidian

`infrastructure/obsidian/uri.rs`: the URI of a note names the vault by its folder and the note by
its path in the vault, without the extension.  Paths are those of Unix.
-/

namespace Webfang.Obsidian

/-! ## The URI -/

/-- The unreserved characters, and the slash. -/
def isPlain (c : Char) : Bool :=
  ('A' ≤ c ∧ c ≤ 'Z') || ('a' ≤ c ∧ c ≤ 'z') || ('0' ≤ c ∧ c ≤ '9') || c == '-' || c == '_' ||
    c == '.' || c == '~' || c == '/'

def encodeObsidianParam (input : List Char) : List Char :=
  input.flatMap fun ch =>
    if isPlain ch then [ch]
    else if ch.toNat < 0x80 then Percent.escape ch.toNat
    else (String.utf8EncodeChar ch).flatMap fun byte => Percent.escape byte.toNat

def buildObsidianUri (vaultName filePath : List Char) : List Char :=
  "obsidian://open?vault=".toList ++ encodeObsidianParam vaultName ++ "&file=".toList ++
    encodeObsidianParam filePath

/-- `char::is_ascii_control`. -/
def isAsciiControl (c : Char) : Bool := c.toNat < 0x20 || c.toNat == 0x7F

def validateObsidianInput (vaultName filePath : List Char) : Except (List Char) Unit :=
  let refuse (label : String) : Except (List Char) Unit :=
    .error (label.toList ++ " contiene caracteres de control no permitidos".toList)
  if vaultName.any isAsciiControl then refuse "vault_name"
  else if filePath.any isAsciiControl then refuse "file_path"
  else .ok ()

/-! ## Paths -/

/-- A segment that is no component. -/
def isNoise (segment : List Char) : Bool := segment.isEmpty || segment = ['.']

def isAbsolute (path : List Char) : Bool := path.head? == some '/'

/-- The components of a path behind its root. -/
def components (path : List Char) : List (List Char) :=
  (path.splitOn '/').filter fun segment => !isNoise segment

/-- `Path::file_name`. -/
def fileName (path : List Char) : Option (List Char) :=
  (components path).getLast?.filter (· ≠ ['.', '.'])

/-- The segments behind some components. -/
def dropComponents : Nat → List (List Char) → List (List Char)
  | _, [] => []
  | 0, segments => segments
  | n + 1, segment :: segments =>
      if isNoise segment then dropComponents (n + 1) segments else dropComponents n segments

/-- `Path::strip_prefix`, of absolute paths. -/
def stripPrefix (path base : List Char) : Option (List Char) :=
  if isAbsolute base && (components base).isPrefixOf (components path) then
    let behind := dropComponents (components base).length (path.splitOn '/')
    some (['/'].intercalate ((behind.dropWhile isNoise).rdropWhile isNoise))
  else none

def extractVaultName (vaultPath : List Char) : List Char := (fileName vaultPath).getD "Unknown".toList

/-! ## Opening a note -/

/-- `replace('\\', "/")`. -/
def replaceBackslashes (path : List Char) : List Char :=
  path.map fun c => if c = '\\' then '/' else c

def trimEndOnce (pat text : List Char) : List Char :=
  if pat.isSuffixOf text then text.take (text.length - pat.length) else text

/-- `trim_end_matches`: the pattern is cut off as long as it is there. -/
def trimEndMatches (pat text : List Char) : List Char := (trimEndOnce pat)^[text.length] text

/-- `open_note`: what is handed to the system. -/
def openNote (vaultPath filePath : List Char) : Except (List Char) (List Char) := do
  let vaultName := extractVaultName vaultPath
  let relative :=
    if isAbsolute filePath then (stripPrefix filePath vaultPath).getD filePath else filePath
  let fileStr := trimEndMatches ".md".toList (replaceBackslashes relative)
  validateObsidianInput vaultName fileStr
  return buildObsidianUri vaultName fileStr

/-! ## What is promised -/

/-- The vault and the note that a URI names. -/
def decodeUri (uri : List Char) : Option (List Char × List Char) :=
  if "obsidian://open?".toList.isPrefixOf uri then
    match (uri.drop 16).splitOn '&' with
    | [vault, file] =>
        if "vault=".toList.isPrefixOf vault && "file=".toList.isPrefixOf file then do
          let name ← Utf8.decode (Percent.decode (vault.drop 6))
          let path ← Utf8.decode (Percent.decode (file.drop 5))
          return (name, path)
        else none
    | _ => none
  else none

/-- Besides its fixed parts the URI has plain characters and percent signs alone. -/
def WellFormed (uri : List Char) : Prop :=
  ∃ vault file, uri = "obsidian://open?vault=".toList ++ vault ++ "&file=".toList ++ file ∧
    ∀ c ∈ vault ++ file, isPlain c = true ∨ c = '%'

/-- A note by its path in a vault, with one extension and without control characters. -/
structure Note where
  vault : List Char
  name : List Char
  stem : List Char
  named : fileName vault = some name
  relative : isAbsolute (stem ++ ".md".toList) = false
  visible : ∀ c ∈ name ++ stem, isAsciiControl c = false
  once : ¬ ".md".toList <:+ stem

def Note.path (n : Note) : List Char := n.stem ++ ".md".toList

/-- The URI names the vault and the note, with slashes between its folders, and no other. -/
structure Identifies (n : Note) (uri : List Char) : Prop where
  wellFormed : WellFormed uri
  decoded : decodeUri uri = some (n.name, replaceBackslashes n.stem)
  only : ∀ m : Note, openNote m.vault m.path = .ok uri →
    m.name = n.name ∧ replaceBackslashes m.stem = replaceBackslashes n.stem

/-! ## Parameters -/

/-- The three branches write what the library writes. -/
theorem encodeObsidianParam_eq (input : List Char) :
    encodeObsidianParam input = Percent.encode isPlain input := by
  unfold encodeObsidianParam Percent.encode
  refine List.flatMap_congr fun ch _ => ?_
  by_cases plain : isPlain ch = true
  · rw [if_pos plain, if_pos plain]
  · rw [if_neg plain, if_neg plain]
    by_cases ascii : ch.toNat < 0x80
    · rw [if_pos ascii, Utf8.encodeChar_ascii ascii, List.flatMap_singleton]
      have fits : ch.toNat < 256 := by omega
      rw [UInt8.toNat_ofNat_of_lt' fits]
    · rw [if_neg ascii]

theorem decode_param (input : List Char) :
    Utf8.decode (Percent.decode (encodeObsidianParam input)) = some input := by
  rw [encodeObsidianParam_eq, Percent.decode_encode (by decide), Utf8.decode_encode]

theorem mem_param {input : List Char} {c : Char} (member : c ∈ encodeObsidianParam input) :
    isPlain c = true ∨ c = '%' := by
  rw [encodeObsidianParam_eq] at member
  rcases Percent.mem_encode member with plain | sign | digit
  · exact .inl plain
  · exact .inr sign
  · have digits : "0123456789ABCDEF".toList.all isPlain = true := by decide
    exact .inl (List.all_eq_true.mp digits c digit)

theorem ampersand_not_mem (input : List Char) : '&' ∉ encodeObsidianParam input := fun member =>
  (mem_param member).elim (by decide) (by decide)

/-- The two parameters of a URI are read back. -/
theorem decodeUri_build (vaultName filePath : List Char) :
    decodeUri (buildObsidianUri vaultName filePath) = some (vaultName, filePath) := by
  have whole : buildObsidianUri vaultName filePath = "obsidian://open?".toList ++
      (("vault=".toList ++ encodeObsidianParam vaultName) ++ '&' ::
        ("file=".toList ++ encodeObsidianParam filePath)) := by
    unfold buildObsidianUri
    simp
  have first : '&' ∉ "vault=".toList ++ encodeObsidianParam vaultName := by
    rw [List.mem_append, not_or]
    exact ⟨by decide, ampersand_not_mem vaultName⟩
  have second : '&' ∉ "file=".toList ++ encodeObsidianParam filePath := by
    rw [List.mem_append, not_or]
    exact ⟨by decide, ampersand_not_mem filePath⟩
  have dropped : (buildObsidianUri vaultName filePath).drop 16 =
      ("vault=".toList ++ encodeObsidianParam vaultName) ++ '&' ::
        ("file=".toList ++ encodeObsidianParam filePath) := by
    rw [whole]
    exact List.drop_left' rfl
  have opened : "obsidian://open?".toList.isPrefixOf (buildObsidianUri vaultName filePath) = true :=
    List.isPrefixOf_iff_prefix.mpr ⟨_, whole.symm⟩
  have split : ((buildObsidianUri vaultName filePath).drop 16).splitOn '&' =
      ["vault=".toList ++ encodeObsidianParam vaultName,
        "file=".toList ++ encodeObsidianParam filePath] := by
    rw [dropped, List.splitOn_append_cons_self, List.splitOn_eq_singleton first,
      List.splitOn_eq_singleton second, List.singleton_append]
  have vaultKey : "vault=".toList.isPrefixOf ("vault=".toList ++ encodeObsidianParam vaultName) = true :=
    List.isPrefixOf_iff_prefix.mpr (List.prefix_append _ _)
  have fileKey : "file=".toList.isPrefixOf ("file=".toList ++ encodeObsidianParam filePath) = true :=
    List.isPrefixOf_iff_prefix.mpr (List.prefix_append _ _)
  have vaultValue : ("vault=".toList ++ encodeObsidianParam vaultName).drop 6 =
      encodeObsidianParam vaultName := List.drop_left' rfl
  have fileValue : ("file=".toList ++ encodeObsidianParam filePath).drop 5 =
      encodeObsidianParam filePath := List.drop_left' rfl
  unfold decodeUri
  rw [if_pos opened, split]
  dsimp only
  rw [vaultKey, fileKey, vaultValue, fileValue, decode_param, decode_param]
  rfl

theorem wellFormed_build (vaultName filePath : List Char) :
    WellFormed (buildObsidianUri vaultName filePath) :=
  ⟨_, _, rfl, List.forall_mem_append.mpr ⟨fun _ => mem_param, fun _ => mem_param⟩⟩

/-! ## The extension -/

theorem trimEndMatches_append {pat text : List Char} (nonempty : pat ≠ []) (bare : ¬ pat <:+ text) :
    trimEndMatches pat (text ++ pat) = text := by
  have stays : trimEndOnce pat text = text :=
    if_neg fun here => bare (List.isSuffixOf_iff_suffix.mp here)
  have cut : trimEndOnce pat (text ++ pat) = text := by
    rw [trimEndOnce, if_pos (List.isSuffixOf_iff_suffix.mpr (List.suffix_append text pat)),
      List.length_append, Nat.add_sub_cancel, List.take_left]
  obtain ⟨more, long⟩ : ∃ more, (text ++ pat).length = more + 1 :=
    ⟨_, (Nat.succ_pred_eq_of_pos (List.length_pos_iff.mpr
      (List.append_ne_nil_of_right_ne_nil text nonempty))).symm⟩
  rw [trimEndMatches, long, Function.iterate_succ_apply, cut]
  exact Function.iterate_fixed stays more

theorem replaceBackslashes_append (front behind : List Char) :
    replaceBackslashes (front ++ behind) = replaceBackslashes front ++ replaceBackslashes behind :=
  List.map_append

/-- A separator is no part of an extension. -/
theorem suffix_of_replaceBackslashes {pat text : List Char} (plain : '/' ∉ pat)
    (suffix : pat <:+ replaceBackslashes text) : pat <:+ text := by
  obtain ⟨front, whole⟩ := suffix
  obtain ⟨before, behind, rfl, -, last⟩ := List.map_eq_append_iff.mp whole.symm
  have same : behind = pat := by
    rw [← last]
    refine ((List.map_congr_left fun c member => ?_).trans (List.map_id behind)).symm
    refine if_neg fun isBackslash => plain ?_
    rw [← last]
    exact List.mem_map.mpr ⟨c, member, if_pos isBackslash⟩
  rw [same]
  exact List.suffix_append before pat

theorem isAsciiControl_replaceBackslashes {text : List Char}
    (visible : ∀ c ∈ text, isAsciiControl c = false) :
    (replaceBackslashes text).any isAsciiControl = false := by
  rw [List.any_eq_false]
  intro c member
  obtain ⟨d, inside, rfl⟩ := List.mem_map.mp member
  split
  · decide
  · rw [visible d inside]
    exact Bool.false_ne_true

theorem openNote_note (n : Note) :
    openNote n.vault n.path = .ok (buildObsidianUri n.name (replaceBackslashes n.stem)) := by
  obtain ⟨visibleName, visibleStem⟩ := List.forall_mem_append.mp n.visible
  have name : extractVaultName n.vault = n.name := by
    rw [extractVaultName, n.named, Option.getD_some]
  have stem : trimEndMatches ".md".toList (replaceBackslashes n.path) = replaceBackslashes n.stem := by
    have extension : replaceBackslashes ".md".toList = ".md".toList := by decide
    rw [Note.path, replaceBackslashes_append, extension]
    exact trimEndMatches_append (by decide) fun suffix =>
      n.once (suffix_of_replaceBackslashes (by decide) suffix)
  have clean : n.name.any isAsciiControl = false := by
    rw [List.any_eq_false]
    intro c member
    rw [visibleName c member]
    exact Bool.false_ne_true
  have valid : validateObsidianInput n.name (replaceBackslashes n.stem) = .ok () := by
    unfold validateObsidianInput
    rw [if_neg (Bool.eq_false_iff.mp clean),
      if_neg (Bool.eq_false_iff.mp (isAsciiControl_replaceBackslashes visibleStem))]
  have relative : isAbsolute n.path = false := n.relative
  unfold openNote
  rw [name, relative, if_neg Bool.false_ne_true]
  dsimp only
  rw [stem, valid]
  rfl

/-- The URI that is handed to the system names the vault and the note. -/
theorem openNote_identifies (n : Note) :
    ∃ uri, openNote n.vault n.path = .ok uri ∧ Identifies n uri := by
  refine ⟨_, openNote_note n, wellFormed_build _ _, decodeUri_build _ _, fun m same => ?_⟩
  rw [openNote_note m] at same
  have read := decodeUri_build m.name (replaceBackslashes m.stem)
  rw [Except.ok.inj same, decodeUri_build] at read
  obtain ⟨name, stem⟩ := Prod.mk.inj (Option.some.inj read)
  exact ⟨name.symm, stem.symm⟩

/-- A note with a backslash in its name is opened as another one in a folder. -/
theorem backslash_is_folder :
    ∃ uri, openNote "Vault".toList "a\\b.md".toList = .ok uri ∧
      openNote "Vault".toList "a/b.md".toList = .ok uri ∧
        decodeUri uri ≠ some ("Vault".toList, "a\\b".toList) :=
  ⟨_, rfl, rfl, by decide +kernel⟩

end Webfang.Obsidian
