import Webfang.Domain.SchemaValidation
import Webfang.Domain.SsrfGuard
import Webfang.Lib.JsonCompact
import Webfang.Lib.JsonOrder
import Webfang.Lib.Utf8

/-!
# Extraction with a language model (`application/llm_extraction.rs`)

`extract` passes its gates, fetches, cleans and cuts a page, asks the provider once for each piece,
and merges the records of the answers.  A run tells the requests that were sent besides the result.
-/

namespace Webfang.Llm

open JsonTree SchemaValidation

/-- The errors of the service.  `σ` are those of the semantic cleaner and the chunker, `ε` are
others that a port gives. -/
inductive ScraperError (σ ε : Type)
  | config (message : List Char)
  | validation (message : List Char)
  | wafBlocked (url provider : List Char)
  | http (status : UInt16) (url : List Char)
  | extraction (message : List Char)
  | semantic (e : σ)
  | other (e : ε)

/-- What is read of a parsed URL. -/
structure Url where
  text : List Char
  scheme : List Char
  hostStr : Option (List Char)

structure ChatMessage where
  role : List Char
  content : List Char

structure LlmRequest where
  messages : List ChatMessage
  model : List Char
  maxTokens : UInt64

structure LlmResponse where
  content : List Char
  inputTokens : UInt32
  outputTokens : UInt32

structure HttpResponse where
  status : UInt16
  body : List Char

structure DocumentChunk where
  content : List Char

structure LlmConfig where
  baseUrl : Url
  maxTokens : UInt64

/-- The envelope of a run. -/
structure LlmExtraction where
  url : List Char
  model : List Char
  records : List Value
  chunks : Nat
  inputTokens : UInt32
  outputTokens : UInt32

/-- The ports of the service.  The provider is what it answers to its calls, in their order. -/
structure LlmExtractionService (η σ ε : Type) where
  get : List Char → Except η HttpResponse
  scraperErrorFromHttp : η → List Char → ScraperError σ ε
  clean : List Char → List Char → Except σ (List DocumentChunk)
  chunkText : List Char → Except σ (List (List Char))
  robots : Option (List Char → List Char → Bool)
  llmPort : Option (Nat → Except (ScraperError σ ε) LlmResponse)

/-- The environment and the libraries of the process: whether `WEBFANG_DISABLE_SSRF` is set, whether
arithmetic is checked, the text of doubles, and the reader of JSON. -/
structure Process where
  disableSsrf : Bool
  checked : Bool
  floatText : Double → List Char
  fromStr : List Char → Except (List Char) Tree

variable {η σ ε : Type}

/-! ## Gates -/

/-- `ssrf_gate`; `none` when reading the host panics. -/
def ssrfGate (process : Process) (url : Url) : Option (Except (ScraperError σ ε) Unit) :=
  if process.disableSsrf then some (.ok ())
  else if url.scheme ≠ "http".toList ∧ url.scheme ≠ "https".toList then
    some (.error (.config ("esquema '".toList ++ url.scheme ++
      "' no permitido para el LLM (solo http/https)".toList)))
  else
    match url.hostStr with
    | none => some (.error (.config "el URL del LLM no tiene host".toList))
    | some host => (Ssrf.isForbiddenLiteralHost process.checked host).map fun forbidden =>
        if forbidden then .error (.config ("URL del LLM bloqueada por SSRF: el host '".toList ++
          host ++ "' pertenece a una red interna (#703)".toList))
        else .ok ()

def enforceRobotsPolicy (url : Url) (robots : Option (List Char → List Char → Bool))
    (ignoreRobots : Bool) : Except (ScraperError σ ε) Unit :=
  if ignoreRobots then .ok ()
  else
    match robots with
    | none => .ok ()
    | some isAllowed =>
        if isAllowed url.text (url.hostStr.getD "unknown".toList) then .ok ()
        else .error (.wafBlocked url.text "robots.txt".toList)

def fetchPage (service : LlmExtractionService η σ ε) (url : Url) :
    Except (ScraperError σ ε) (List Char) :=
  match service.get url.text with
  | .error e => .error (service.scraperErrorFromHttp e url.text)
  | .ok response =>
      if 200 ≤ response.status ∧ response.status < 300 then .ok response.body
      else .error (.http response.status url.text)

/-! ## Pieces of the page -/

/-- `max_tokens.saturating_mul(CHARS_PER_TOKEN)` -/
def charBudget (config : LlmConfig) : Nat :=
  min (config.maxTokens.toNat * 8) 18446744073709551615

def withinBudget (budget : Nat) (subChunk : List Char) : Bool :=
  (Utf8.encode subChunk).length ≤ budget

def checkBudget (index budget : Nat) (subChunks : List (List Char)) :
    Except (ScraperError σ ε) Unit :=
  if subChunks.all (withinBudget budget) then .ok ()
  else .error (.validation ("el fragmento ".toList ++ Json.ofNat index ++
    " supera el presupuesto (".toList ++ Json.ofNat budget ++ " caracteres)".toList))

def semantic {α : Type} : Except σ α → Except (ScraperError σ ε) α
  | .error e => .error (.semantic e)
  | .ok a => .ok a

/-- `build_sub_chunks`, from the chunk with this index on. -/
def buildSubChunks (service : LlmExtractionService η σ ε) (budget : Nat) :
    Nat → List DocumentChunk → Except (ScraperError σ ε) (List (List Char))
  | _, [] => .ok []
  | index, chunk :: rest =>
      semantic (service.chunkText chunk.content) >>= fun subChunks =>
      checkBudget index budget subChunks >>= fun _ =>
      buildSubChunks service budget (index + 1) rest >>= fun later => .ok (subChunks ++ later)

/-- What `extract` does before its first call, `none` when it panics. -/
def prepare (process : Process) (service : LlmExtractionService η σ ε) (url : Url) (schema : Value)
    (config : LlmConfig) : Option (Except (ScraperError σ ε) (List (List Char))) :=
  match validateSchema schema with
  | .error e => some (.error (.validation ("esquema inválido: ".toList ++ e.text)))
  | .ok _ =>
      (ssrfGate process config.baseUrl).map fun gate =>
        gate >>= fun _ =>
        enforceRobotsPolicy url service.robots false >>= fun _ =>
        fetchPage service url >>= fun html =>
        semantic (service.clean url.text html) >>= fun chunks =>
        buildSubChunks service (charBudget config) 0 chunks

/-! ## Calls -/

def buildRequest (process : Process) (schema : Value) (model : List Char) (config : LlmConfig)
    (subChunk : List Char) : LlmRequest where
  messages :=
    [⟨"system".toList,
        "You are a data extraction engine. Extract every record that validates ".toList ++
        "this JSON schema: ".toList ++ schema.text process.floatText ++
        ". Respond ONLY with JSON — an object, or an ".toList ++
        "array of objects conforming to the schema.".toList⟩,
      ⟨"user".toList, subChunk⟩]
  model := model
  maxTokens := config.maxTokens

/-- What has been merged so far: the records, the texts of all records seen, and the tokens. -/
structure Merged where
  records : List Value
  seen : List (List Char)
  inputTokens : UInt32
  outputTokens : UInt32

def Merged.empty : Merged := ⟨[], [], 0, 0⟩

/-- `u32::saturating_add` -/
def saturatingAdd (a b : UInt32) : UInt32 :=
  if a.toNat + b.toNat < 4294967296 then a + b else 4294967295

/-- The records of a response, unless it is neither an object nor an array. -/
def recordsOf : Value → Option (List Value)
  | .array items => some items
  | .object members => some [.object members]
  | _ => none

def mergeBatch (process : Process) : List Value → List (List Char) → List Value →
    List Value × List (List Char)
  | records, seen, [] => (records, seen)
  | records, seen, record :: rest =>
      let text := record.text process.floatText
      if seen.any (fun t => decide (t = text)) then mergeBatch process records seen rest
      else mergeBatch process (records ++ [record]) (text :: seen) rest

/-- `merge_records`: the records and the texts seen, with those of the response. -/
def mergeRecords (process : Process) (records : List Value) (seen : List (List Char))
    (response : LlmResponse) : Except (ScraperError σ ε) (List Value × List (List Char)) :=
  match process.fromStr response.content with
  | .error e => .error (.extraction ("la respuesta del LLM no es JSON válido: ".toList ++ e))
  | .ok parsed =>
      match recordsOf parsed.value with
      | none => .error (.extraction
          ("la respuesta del LLM no es un objeto ni un array JSON: ".toList ++
            parsed.value.text process.floatText))
      | some batch => .ok (mergeBatch process records seen batch)

/-- The tokens of a response are added and its records merged. -/
def Merged.absorb (process : Process) (merged : Merged) (response : LlmResponse) :
    Except (ScraperError σ ε) Merged :=
  (mergeRecords process merged.records merged.seen response).map fun both =>
    { records := both.1
      seen := both.2
      inputTokens := saturatingAdd merged.inputTokens response.inputTokens
      outputTokens := saturatingAdd merged.outputTokens response.outputTokens }

/-- One call for each sub-chunk, in order, until one fails: the requests sent and what came of
them.  `i` counts the calls. -/
def completeAll (process : Process) (port : Nat → Except (ScraperError σ ε) LlmResponse)
    (request : List Char → LlmRequest) (i : Nat) (merged : Merged) :
    List (List Char) → List LlmRequest × Except (ScraperError σ ε) Merged
  | [] => ([], .ok merged)
  | subChunk :: rest =>
      match port i >>= merged.absorb process with
      | .error e => ([request subChunk], .error e)
      | .ok merged =>
          let later := completeAll process port request (i + 1) merged rest
          (request subChunk :: later.1, later.2)

/-! ## Extraction -/

def validateAll (schema : Value) (records : List Value) : Except (ScraperError σ ε) Unit :=
  records.forM fun record => (validateRecord record schema).mapError fun e =>
    .validation ("la salida del LLM no cumple el esquema: ".toList ++ e.text)

inductive Outcome (σ ε : Type)
  | returned (result : Except (ScraperError σ ε) LlmExtraction)
  | panicked

structure Run (σ ε : Type) where
  sent : List LlmRequest
  outcome : Outcome σ ε

def Merged.enclose (url : Url) (model : List Char) (chunks : Nat) (merged : Merged) :
    LlmExtraction where
  url := url.text
  model := model
  records := merged.records
  chunks := chunks
  inputTokens := merged.inputTokens
  outputTokens := merged.outputTokens

/-- The result, once all calls are made. -/
def envelope (url : Url) (schema : Value) (model : List Char) (chunks : Nat) (merged : Merged) :
    Except (ScraperError σ ε) LlmExtraction :=
  validateAll schema merged.records >>= fun _ => .ok (merged.enclose url model chunks)

def extract (process : Process) (service : LlmExtractionService η σ ε) (url : Url) (schema : Value)
    (model : List Char) (config : LlmConfig) : Run σ ε :=
  match service.llmPort with
  | none => ⟨[], .returned (.error (.config "no hay proveedor LLM configurado".toList))⟩
  | some port =>
      match prepare process service url schema config with
      | none => ⟨[], .panicked⟩
      | some (.error e) => ⟨[], .returned (.error e)⟩
      | some (.ok subChunks) =>
          let asked := completeAll process port (buildRequest process schema model config) 0 .empty
            subChunks
          ⟨asked.1, .returned (asked.2 >>= envelope url schema model subChunks.length)⟩

end Webfang.Llm
