import Webfang.Mcp.ExportRoots

/-!
# Where exports lead

The roots against the folders that the paths lead to, walked from the root of the file system; the
file that a tool writes stands in the folder that was asked for, and the path that the tool reports
is its path unless the name was changed on the way.
-/

namespace Webfang.Mcp

open LexicalPath LexicalPath.Component Scrape
open Assets (isControl maxFilenameLen sanitizeFilenameComponent)

/-! ## The roots -/

variable {roots : List (List Char)} {dir : List Char}

/-- The folder that an absolute path leads to. -/
def placeOf (path : List Char) : List (List Char) := walk [] (components path)

theorem placeOf_absolute {path : List Char} (absolute : isAbsolute path = true) :
    placeOf path = walk [] (inner path) := by
  rw [placeOf, components_absolute absolute, walk_rootDir]

/-- A root opens a folder that it leads above, and every folder when nothing is left of it. -/
def Opens (root dir : List Char) : Prop :=
  if isAbsolute root = true then placeOf root <+: placeOf dir else placeOf root = []

theorem isPrefixOf_iff_opens {root : List Char} (absolute : isAbsolute dir = true) :
    (normalize (components root)).isPrefixOf (normalize (components dir)) = true ↔
      Opens root dir := by
  rw [List.isPrefixOf_iff_prefix, components_absolute absolute, Opens, placeOf_absolute absolute]
  by_cases rooted : isAbsolute root = true
  · rw [if_pos rooted, components_absolute rooted, placeOf_absolute rooted]
    exact normalize_prefix_iff (rootless_inner root) (rootless_inner dir)
  · rw [if_neg rooted]
    exact normalize_relative_prefix_iff (rootless_relative (Bool.eq_false_iff.mpr rooted))
      (rootless_inner dir)

/-- A folder is accepted when its path is relative, or when one of the roots opens it.  A relative
root opens no folder, but for one that leads back to where it starts, as `.` does: that opens all. -/
theorem validateExportDir_iff (roots : List (List Char)) (dir : List Char) :
    validateExportDir roots dir = .ok () ↔
      isAbsolute dir = false ∨ ∃ root ∈ roots, Opens root dir := by
  rw [validateExportDir]
  cases absolute : isAbsolute dir with
  | false => exact iff_of_true rfl (.inl rfl)
  | true =>
      rw [if_neg (by simp)]
      have opened : absolutePathWithinRoots dir roots = true ↔ ∃ root ∈ roots, Opens root dir := by
        rw [absolutePathWithinRoots, List.any_eq_true]
        exact exists_congr fun root => and_congr_right fun _ => isPrefixOf_iff_opens absolute
      rw [← opened, or_iff_right (by simp)]
      split
      next none_ =>
          subst none_
          exact iff_of_false (by simp) (by simp [absolutePathWithinRoots])
      next =>
          split
          next inside => exact iff_of_true rfl inside
          next outside => exact iff_of_false (by simp) outside

/-! ## The names -/

theorem not_mem_slash {name : List Char} (flat : name.any isSeparator = false) : '/' ∉ name := by
  intro member
  rw [List.any_eq_false] at flat
  exact flat '/' member rfl

/-- A flat text is one component: a dot, two dots, or its own name. -/
theorem components_flat {value : List Char} (nonempty : value ≠ []) (flat : '/' ∉ value) :
    components value = [if value = ['.'] then curDir else ofSegment value] := by
  have relative : isAbsolute value = false := by
    cases value with
    | nil => rfl
    | cons c rest =>
        have other : c ≠ '/' := fun slash => flat (by rw [slash]; exact List.mem_cons_self ..)
        simp [isAbsolute, other]
  rw [components, relative, if_neg Bool.false_ne_true, List.splitOn_eq_singleton flat]
  by_cases dot : value = ['.']
  · subst dot
    rfl
  · rw [if_neg (by simpa using dot), if_neg dot, List.filter_cons_of_pos (by simp [isNoise, nonempty, dot])]
    rfl

/-- What is let through is one flat name. -/
theorem requireSafeFilename_iff {field : String} {value : List Char} :
    (requireSafeFilename field value).isOk = true ↔
      value ≠ [] ∧ value ≠ ['.'] ∧ value ≠ ['.', '.'] ∧ value.any isSeparator = false ∧
        (Utf8.encode value).length ≤ maxPathLen := by
  rw [requireSafeFilename]
  by_cases empty : value = []
  · rw [if_pos empty]
    exact iff_of_false (by simp [Except.isOk, Except.toBool]) fun all => all.1 empty
  by_cases long : maxPathLen < (Utf8.encode value).length
  · rw [if_neg empty, if_pos long]
    exact iff_of_false (by simp [Except.isOk, Except.toBool]) fun all => by omega
  by_cases separated : value.any isSeparator = true
  · rw [if_neg empty, if_neg long, if_pos separated]
    exact iff_of_false (by simp [Except.isOk, Except.toBool]) fun all => by
      rw [separated] at all
      cases all.2.2.2.1
  have flat := Bool.eq_false_iff.mpr separated
  rw [if_neg empty, if_neg long, if_neg separated, components_flat empty (not_mem_slash flat)]
  by_cases dot : value = ['.']
  · rw [if_pos dot]
    exact iff_of_false (by simp [Except.isOk, Except.toBool]) fun all => all.2.1 dot
  by_cases dots : value = ['.', '.']
  · rw [if_neg dot, ofSegment, if_pos dots]
    exact iff_of_false (by simp [Except.isOk, Except.toBool]) fun all => all.2.2.1 dots
  · rw [if_neg dot, ofSegment, if_neg dots]
    refine iff_of_true ?_ ⟨empty, dot, dots, flat, Nat.le_of_not_lt long⟩
    simp [Except.isOk, Except.toBool]

variable {names : Output.NameTools} {exists_ : List Char → Bool} {name : SanitizedFilename}
  {format : ExportFormat} {request : ExportRequest}

/-- Apart from control characters and its length, an accepted name is a safe component. -/
theorem SanitizedFilename.component_iff (name : SanitizedFilename) :
    Component name.text ↔
      (∀ c ∈ name.text, isControl c = false) ∧ (Utf8.encode name.text).length ≤ maxFilenameLen := by
  obtain ⟨nonempty, dot, dots, flat, -⟩ := requireSafeFilename_iff.mp name.accepted
  constructor
  · exact fun safe => ⟨fun c member => (safe.plain c member).2, safe.short⟩
  · intro ⟨visible, short⟩
    refine ⟨nonempty, dot, dots, fun c member => ⟨?_, visible c member⟩, short⟩
    exact Bool.eq_false_iff.mpr (List.any_eq_false.mp flat c member)

theorem component_export : Component "export".toList := by
  refine ⟨by decide, by decide, by decide, ?_, by decide⟩
  have plain : "export".toList.all (fun c => !isSeparator c && !isControl c) = true := rfl
  intro c member
  have both := List.all_eq_true.mp plain c member
  simpa using both

theorem component_confined (names : Output.NameTools) (filename : List Char) :
    Component (confined names filename) := by
  rw [confined, confineFilenameComponent]
  cases sanitized : sanitizeFilenameComponent names filename with
  | none => exact component_export
  | some safe => exact component_of_sanitize sanitized

/-- A safe component with an extension is the name of a file. -/
theorem isName_extended {stem : List Char} (flat : '/' ∉ stem) (nonempty : stem ≠ [])
    (format : ExportFormat) : IsName (stem ++ '.' :: format.extension) := by
  have length : 1 ≤ stem.length := List.length_pos_iff.mpr nonempty
  have ends : '/' ∉ format.extension ∧ 4 ≤ format.extension.length := by
    cases format <;> decide
  have long : 6 ≤ (stem ++ '.' :: format.extension).length := by
    rw [List.length_append, List.length_cons]
    omega
  have apart {short : List Char} (few : short.length < 6) : stem ++ '.' :: format.extension ≠ short := by
    intro same
    rw [same] at long
    omega
  refine ⟨apart (by decide), apart (by decide), apart (by decide), fun member => ?_⟩
  rcases List.mem_append.mp member with front | behind
  · exact flat front
  · rcases List.mem_cons.mp behind with dot | extension
    · cases dot
    · exact ends.1 extension

/-! ## The files -/

theorem slash_not_mem {stem : List Char} (safe : Component stem) : '/' ∉ stem :=
  fun member => by
    have flat := (safe.plain '/' member).1
    cases flat

/-- The format that is written, by the files that there are. -/
def chosen (exists_ : List Char → Bool) (dir stem : List Char) : ExportFormat → ExportFormat
  | .auto =>
      if exists_ (join dir (stem ++ ".jsonl".toList)) then .jsonl
      else if exists_ (join dir (stem ++ ".json".toList)) then .vector
      else .jsonl
  | concrete => concrete

/-- A tool writes a file named after what is left of the name. -/
theorem exporter_outputPath (names : Output.NameTools) (exists_ : List Char → Bool)
    (request : ExportRequest) (dir : List Char) (name : SanitizedFilename) (format : ExportFormat) :
    (request.exporter names exists_ dir name format).outputPath names =
      join dir (confined names name.text ++
        '.' :: (chosen exists_ dir (confined names name.text) format).extension) := by
  have again (filename : List Char) :
      confined names (confined names filename) = confined names filename :=
    confine_of_component (component_confined names filename) _
  have created (filename : List Char) (same : confined names filename = confined names name.text) :
      (createExporter names exists_ dir filename format).outputPath names =
        join dir (confined names name.text ++
          '.' :: (chosen exists_ dir (confined names name.text) format).extension) := by
    cases format with
    | jsonl => simp only [createExporter, ExporterConfig.new, ExporterConfig.outputPath, again, same,
        chosen]
    | vector => simp only [createExporter, ExporterConfig.new, ExporterConfig.outputPath, again, same,
        chosen]
    | auto =>
        simp only [createExporter, chosen, same]
        split
        · simp only [ExporterConfig.new, ExporterConfig.outputPath, again]
        · split <;> simp only [ExporterConfig.new, ExporterConfig.outputPath, again]
  cases request with
  | file => exact created name.text rfl
  | results => exact created (confined names name.text) (again name.text)

theorem destination_eq_ok {roots : List (List Char)} (request : ExportRequest)
    (accepted : request.destination roots = .ok (dir, name)) :
    dir = request.outputDir ∧ validateExportDir roots dir = .ok () ∧ request.validate = .ok () := by
  rw [ExportRequest.destination] at accepted
  cases valid : request.validate with
  | error e =>
      rw [valid] at accepted
      cases accepted
  | ok _ =>
      cases gate : validateExportDir roots request.outputDir with
      | error e =>
          rw [valid, gate] at accepted
          cases accepted
      | ok _ =>
          cases tried : SanitizedFilename.tryFrom request.filename with
          | error e =>
              rw [valid, gate, tried] at accepted
              cases accepted
          | ok found =>
              rw [valid, gate, tried] at accepted
              cases accepted
              exact ⟨rfl, gate, rfl⟩

/-- No accepted folder leads upwards. -/
theorem not_mem_parentDir (valid : request.validate = .ok ()) :
    parentDir ∉ components request.outputDir := by
  have checked {field : String} {value : List Char}
      (accepted : requireSafePathAllowAbsolute field value = .ok ()) :
      parentDir ∉ components value := by
    intro member
    rw [requireSafePathAllowAbsolute] at accepted
    split at accepted
    · cases accepted
    · split at accepted
      · cases accepted
      · rw [if_pos (List.any_eq_true.mpr ⟨_, member, by simp⟩)] at accepted
        cases accepted
  cases request with
  | file dir filename =>
      cases first : requireSafePathAllowAbsolute "output_dir" dir with
      | ok _ => exact checked first
      | error e =>
          simp only [ExportRequest.validate, first] at valid
          cases valid
  | results dir filename =>
      cases dir with
      | none =>
          have plain : components "./output".toList = [curDir, normal "output".toList] := rfl
          change parentDir ∉ components "./output".toList
          rw [plain]
          simp
      | some dir =>
          cases first : requireSafePathAllowAbsolute "output_dir" dir with
          | ok _ => exact checked first
          | error e =>
              simp only [ExportRequest.validate, first] at valid
              cases valid

/-- Behind absolute roots, whatever is asked for: the file that is written stands in the folder asked
for, and that folder is in the one the server runs in or in one of the roots. -/
theorem confined_of_destination (rooted : ∀ root ∈ roots, isAbsolute root = true)
    (accepted : request.destination roots = .ok (dir, name)) (cwd : List (List Char)) :
    ∃ file, walk cwd (components ((request.exporter names exists_ dir name format).outputPath names)) =
        walk cwd (components dir) ++ [file] ∧
      (cwd <+: walk cwd (components dir) ∨
        ∃ root ∈ roots, placeOf root <+: walk cwd (components dir)) := by
  obtain ⟨rfl, gate, valid⟩ := destination_eq_ok request accepted
  have safe := component_confined names name.text
  have isName := isName_extended (slash_not_mem safe) safe.nonempty
    (chosen exists_ request.outputDir (confined names name.text) format)
  refine ⟨confined names name.text ++ '.' ::
    (chosen exists_ request.outputDir (confined names name.text) format).extension, ?_, ?_⟩
  · rw [exporter_outputPath, components_join _ isName, walk_append]
    rfl
  · cases absolute : isAbsolute request.outputDir with
    | false => exact .inl (prefix_walk ⟨rootless_relative absolute, not_mem_parentDir valid⟩)
    | true =>
        obtain relative | ⟨root, member, opens⟩ :=
          (validateExportDir_iff roots request.outputDir).mp gate
        · rw [absolute] at relative
          cases relative
        · rw [Opens, if_pos (rooted root member), placeOf_absolute absolute] at opens
          refine .inr ⟨root, member, ?_⟩
          rwa [components_absolute absolute, walk_rootDir]

/-- The name where none is asked for. -/
def exportName : SanitizedFilename := ⟨"export".toList, rfl⟩

/-- A folder below a root. -/
theorem confined_of_destination_export :
    ∃ file, walk [] (components ((ExportRequest.exporter Output.asciiTools (fun _ => false)
        (.results (some "/srv/exports/a".toList) none) "/srv/exports/a".toList exportName
        .jsonl).outputPath Output.asciiTools)) =
        walk [] (components "/srv/exports/a".toList) ++ [file] ∧
      ([] <+: walk [] (components "/srv/exports/a".toList) ∨
        ∃ root ∈ ["/srv/exports".toList],
          placeOf root <+: walk [] (components "/srv/exports/a".toList)) :=
  confined_of_destination (fun root member => by rw [List.mem_singleton.mp member]; rfl)
    (show ExportRequest.destination ["/srv/exports".toList]
      (.results (some "/srv/exports/a".toList) none) =
        .ok ("/srv/exports/a".toList, exportName) from rfl) []

/-! ## The path that is reported -/

theorem eq_of_extended {stem other : List Char} {extension extension' : ExportFormat}
    (written : extension ≠ .auto) (written' : extension' ≠ .auto)
    (same : stem ++ '.' :: extension.extension = other ++ '.' :: extension'.extension) :
    stem = other := by
  have last := congrArg List.getLast? same
  rw [List.getLast?_append, List.getLast?_append] at last
  cases extension with
  | auto => exact absurd rfl written
  | jsonl =>
      cases extension' with
      | auto => exact absurd rfl written'
      | jsonl => exact List.append_cancel_right same
      | vector => cases last
  | vector =>
      cases extension' with
      | auto => exact absurd rfl written'
      | jsonl => cases last
      | vector => exact List.append_cancel_right same

theorem chosen_ne_auto (exists_ : List Char → Bool) (dir stem : List Char) (format : ExportFormat) :
    chosen exists_ dir stem format ≠ .auto := by
  cases format with
  | jsonl => exact ExportFormat.noConfusion
  | vector => exact ExportFormat.noConfusion
  | auto =>
      rw [chosen]
      split
      · exact ExportFormat.noConfusion
      · split <;> exact ExportFormat.noConfusion

/-- The path reported has the name as it was asked for, with one of the two extensions. -/
theorem resolveExportPath_eq (exists_ : List Char → Bool) (dir : List Char) (name : SanitizedFilename)
    (format : ExportFormat) : ∃ concrete : ExportFormat, concrete ≠ .auto ∧
      resolveExportPath exists_ dir name format = join dir (name.text ++ '.' :: concrete.extension) := by
  cases format with
  | jsonl => exact ⟨.jsonl, ExportFormat.noConfusion, rfl⟩
  | vector => exact ⟨.vector, ExportFormat.noConfusion, rfl⟩
  | auto =>
      rw [resolveExportPath]
      split
      · exact ⟨.jsonl, ExportFormat.noConfusion, rfl⟩
      · exact ⟨.vector, ExportFormat.noConfusion, rfl⟩

/-- Behind the write a tool looks for the file it wrote, under the name as it is. -/
theorem resolveExportPath_of_same {dir : List Char} (isName : ∀ concrete : ExportFormat,
    IsName (name.text ++ '.' :: concrete.extension)) (exists_ : List Char → Bool)
    (format : ExportFormat) :
    resolveExportPath (fun path => exists_ path || decide (path =
        join dir (name.text ++ '.' :: (chosen exists_ dir name.text format).extension))) dir name format =
      join dir (name.text ++ '.' :: (chosen exists_ dir name.text format).extension) := by
  cases format with
  | jsonl => rfl
  | vector => rfl
  | auto =>
      have jsonl : ".jsonl".toList = '.' :: ExportFormat.jsonl.extension := rfl
      have json : ".json".toList = '.' :: ExportFormat.vector.extension := rfl
      rw [resolveExportPath, jsonl, json, chosen, jsonl, json]
      by_cases here : exists_ (join dir (name.text ++ '.' :: ExportFormat.jsonl.extension)) = true
      · rw [if_pos here, here, Bool.true_or, if_pos rfl]
      · rw [if_neg here, Bool.eq_false_iff.mpr here, Bool.false_or]
        split
        next other =>
            have apart : join dir (name.text ++ '.' :: ExportFormat.jsonl.extension) ≠
                join dir (name.text ++ '.' :: ExportFormat.vector.extension) := by
              intro same
              have names := join_injective (isName .jsonl) (isName .vector) same
              have extensions := List.append_cancel_left names
              cases extensions
            rw [if_neg (by simp [apart])]
        next => rw [if_pos (by simp)]

/-- The path that a tool reports is the one it wrote to just when the name has no control character
and at most 255 bytes; names of up to 1024 bytes are accepted, and control characters in them. -/
theorem reported_iff (names : Output.NameTools) (exists_ : List Char → Bool)
    (request : ExportRequest) (dir : List Char) (name : SanitizedFilename) (format : ExportFormat) :
    resolveExportPath (fun path => exists_ path || decide (path =
        (request.exporter names exists_ dir name format).outputPath names)) dir name format =
        (request.exporter names exists_ dir name format).outputPath names ↔
      (∀ c ∈ name.text, isControl c = false) ∧
        (Utf8.encode name.text).length ≤ maxFilenameLen := by
  rw [← name.component_iff, exporter_outputPath]
  obtain ⟨nonempty, -, -, flat, -⟩ := requireSafeFilename_iff.mp name.accepted
  have safe := component_confined names name.text
  constructor
  · intro same
    obtain ⟨concrete, written, reported⟩ := resolveExportPath_eq _ dir name format
    rw [reported] at same
    have paths := join_injective (isName_extended (not_mem_slash flat) nonempty _)
      (isName_extended (slash_not_mem safe) safe.nonempty _) same
    rw [eq_of_extended written (chosen_ne_auto exists_ dir _ format) paths]
    exact safe
  · intro whole
    have same : confined names name.text = name.text := confine_of_component whole _
    rw [same]
    exact resolveExportPath_of_same
      (fun concrete => isName_extended (not_mem_slash flat) nonempty concrete) exists_ format

end Webfang.Mcp
