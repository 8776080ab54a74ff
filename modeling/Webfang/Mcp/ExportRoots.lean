import Webfang.Downloader.DownloadNames
import Webfang.Lib.LexicalPath

/-!
# Exports of the MCP server

`webfang_mcp/src/mcp_server/state.rs`, `validation.rs` and `handlers/export.rs`: where the export
tools may write, where they write, and the path that they report.  Paths are those of Unix.
-/

namespace Webfang.Mcp

open LexicalPath Output Scrape

/-! ## The parameters -/

/-- `McpError::invalid_params`, with the field that is to blame. -/
structure McpError where
  message : String
  field : String
  deriving DecidableEq, Repr

def maxPathLen : Nat := 1024

def requireSafePathAllowAbsolute (field : String) (value : List Char) : Except McpError Unit :=
  if value = [] then .error ⟨"must not be empty", field⟩
  else if maxPathLen < (Utf8.encode value).length then
    .error ⟨"exceeds maximum length of 1024 bytes", field⟩
  else if (components value).any (· = .parentDir) then
    .error ⟨"must not contain '..' traversal components", field⟩
  else .ok ()

def requireSafeFilename (field : String) (value : List Char) : Except McpError Unit :=
  if value = [] then .error ⟨"must not be empty", field⟩
  else if maxPathLen < (Utf8.encode value).length then
    .error ⟨"exceeds maximum length of 1024 bytes", field⟩
  else if value.any isSeparator then
    .error ⟨"must be a single flat filename (no '/' or '\\' separators)", field⟩
  else
    match components value with
    | [] => .error ⟨"must be a single filename component", field⟩
    | [.normal name] =>
        if name ≠ value then
          .error ⟨"must be a single flat filename (no embedded separators)", field⟩
        else .ok ()
    | [_] => .error ⟨"must be a single flat filename (no '.', '..', '/', or drive prefix)", field⟩
    | _ :: _ :: _ =>
        .error ⟨"must not contain path separators or directory components", field⟩

/-- A name that the check has let through. -/
structure SanitizedFilename where
  text : List Char
  accepted : (requireSafeFilename "filename" text).isOk = true

/-- `try_from`, with the error that the handlers put in the place of its own. -/
def SanitizedFilename.tryFrom (value : List Char) : Except McpError SanitizedFilename :=
  if accepted : (requireSafeFilename "filename" value).isOk = true then .ok ⟨value, accepted⟩
  else .error ⟨"nombre de archivo inválido", "filename"⟩

/-! ## The roots -/

def absolutePathWithinRoots (path : List Char) (roots : List (List Char)) : Bool :=
  roots.any fun root => (normalize (components root)).isPrefixOf (normalize (components path))

def validateExportDir (roots : List (List Char)) (dir : List Char) : Except McpError Unit :=
  if isAbsolute dir = false then .ok ()
  else if roots = [] then
    .error ⟨"absolute output_dir requires server-configured export roots (none configured); set --export-roots or use a relative path", "output_dir"⟩
  else if absolutePathWithinRoots dir roots then .ok ()
  else
    .error ⟨"output_dir '" ++ String.ofList dir ++ "' is outside allowed export roots", "output_dir"⟩

/-! ## The tools -/

/-- The parameters of a tool that have to do with its file. -/
inductive ExportRequest
  /-- `export_file` -/
  | file (outputDir filename : List Char)
  /-- `export_jsonl` and `export_vector` -/
  | results (outputDir filename : Option (List Char))
  deriving DecidableEq, Repr

namespace ExportRequest

def validate : ExportRequest → Except McpError Unit
  | file outputDir filename => do
      requireSafePathAllowAbsolute "output_dir" outputDir
      requireSafeFilename "filename" filename
  | results outputDir filename => do
      match outputDir with
      | some dir => requireSafePathAllowAbsolute "output_dir" dir
      | none => pure ()
      match filename with
      | some name => requireSafeFilename "filename" name
      | none => pure ()

def outputDir : ExportRequest → List Char
  | file dir _ => dir
  | results dir _ => dir.getD "./output".toList

def filename : ExportRequest → List Char
  | file _ name => name
  | results _ name => name.getD "export".toList

/-- The folder and the name that a tool goes on with. -/
def destination (roots : List (List Char)) (request : ExportRequest) :
    Except McpError (List Char × SanitizedFilename) := do
  request.validate
  validateExportDir roots request.outputDir
  let name ← SanitizedFilename.tryFrom request.filename
  return (request.outputDir, name)

end ExportRequest

/-! ## The files -/

inductive ExportFormat
  | jsonl
  | vector
  | auto
  deriving DecidableEq, Repr

def ExportFormat.extension : ExportFormat → List Char
  | jsonl => "jsonl".toList
  | vector => "json".toList
  | auto => "auto".toList

structure ExporterConfig where
  outputDir : List Char
  format : ExportFormat
  filename : List Char
  deriving DecidableEq, Repr

section Files

variable (names : NameTools)

def confined (filename : List Char) : List Char :=
  confineFilenameComponent names filename "export".toList

def ExporterConfig.new (outputDir : List Char) (format : ExportFormat) (filename : List Char) :
    ExporterConfig :=
  ⟨outputDir, format, confined names filename⟩

def ExporterConfig.outputPath (config : ExporterConfig) : List Char :=
  join config.outputDir (confined names config.filename ++ '.' :: config.format.extension)

/-- `create_exporter`, with the files that there are; the exporter writes to its output path. -/
def createExporter (exists_ : List Char → Bool) (outputDir filename : List Char) :
    ExportFormat → ExporterConfig
  | .jsonl => .new names outputDir .jsonl filename
  | .vector => .new names outputDir .vector filename
  | .auto =>
      let filename := confined names filename
      if exists_ (join outputDir (filename ++ ".jsonl".toList)) then
        .new names outputDir .jsonl filename
      else if exists_ (join outputDir (filename ++ ".json".toList)) then
        .new names outputDir .vector filename
      else .new names outputDir .jsonl filename

end Files

section Files

variable (names : NameTools) (exists_ : List Char → Bool)

/-- `process_results` confines the name before it creates the exporter. -/
def ExportRequest.exporter (request : ExportRequest) (outputDir : List Char)
    (name : SanitizedFilename) (format : ExportFormat) : ExporterConfig :=
  match request with
  | .file .. => createExporter names exists_ outputDir name.text format
  | .results .. => createExporter names exists_ outputDir (confined names name.text) format

end Files

/-- The path that the tool reports. -/
def resolveExportPath (exists_ : List Char → Bool) (outputDir : List Char) (name : SanitizedFilename) :
    ExportFormat → List Char
  | .auto =>
      let jsonl := join outputDir (name.text ++ ".jsonl".toList)
      if exists_ jsonl then jsonl else join outputDir (name.text ++ ".json".toList)
  | concrete => join outputDir (name.text ++ '.' :: concrete.extension)

end Webfang.Mcp
