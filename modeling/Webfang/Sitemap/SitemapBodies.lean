import Mathlib.Data.List.Chain

/-!
# Sitemap bodies

`CompressionHandler` of `infrastructure/crawler/compression_handler.rs` and the part of
`SitemapParser::parse_with_depth` that reads the body of a response: the chunks up to the size that
is allowed, then at most two layers of compression.  What the decoders of `async_compression` read
of a content is a parameter.
-/

namespace Webfang.Sitemap

/-- `CompressionType` of `domain/mod.rs`. -/
inductive CompressionType
  | none
  | gzip
  | deflate
  | brotli
  | zstd
  deriving DecidableEq

inductive CompressionError
  | decompressionFailed (message : List Char)
  | sizeLimitExceeded (bytes : Nat)
  deriving DecidableEq

/-- What is read to the end of a decoder over a content, of which `take` passes on the first
`limit` bytes. -/
abbrev Decoder := (limit : Nat) → (content : List UInt8) → Except (List Char) (List UInt8)

/-- The size that a decompressed text must stay below, and the decoders. -/
structure CompressionHandler where
  maxDecompressedSize : Nat
  gzipDecoder : Decoder
  deflateDecoder : Decoder
  brotliDecoder : Decoder
  zstdDecoder : Decoder

/-! ## Detection -/

def gzipMagic : List UInt8 := [0x1f, 0x8b]

def zstdMagic : List UInt8 := [0x28, 0xb5, 0x2f, 0xfd]

/-- That of a dictionary. -/
def zstdDictionaryMagic : List UInt8 := [0x37, 0xa4, 0x30, 0xec]

/-- The formats that the first bytes tell. -/
def sniffed (content : List UInt8) : List CompressionType :=
  (if gzipMagic.isPrefixOf content then [.gzip] else []) ++
    if zstdMagic.isPrefixOf content || zstdDictionaryMagic.isPrefixOf content then [.zstd] else []

/-- Whether the URL ends in `.br`, in letters of either case. -/
def hintsBrotli (url : List Char) : Bool := ".br".toList.isSuffixOf (url.map Char.toLower)

def detectCompression (content : List UInt8) (url : List Char) : List CompressionType :=
  let formats := sniffed content
  if formats.isEmpty && hintsBrotli url then [.brotli] else formats

/-! ## Decompression -/

namespace CompressionHandler

variable (handler : CompressionHandler)

/-- The body of `decompress_gzip`, `decompress_deflate`, `decompress_brotli` and `decompress_zstd`,
which differ in the decoder. -/
def decompressWith (decoder : Decoder) (content : List UInt8) :
    Except CompressionError (List UInt8) :=
  match decoder handler.maxDecompressedSize content with
  | .error e => .error (.decompressionFailed e)
  | .ok decompressed =>
      if handler.maxDecompressedSize ≤ decompressed.length then
        .error (.sizeLimitExceeded handler.maxDecompressedSize)
      else .ok decompressed

def decompressGzip (content : List UInt8) : Except CompressionError (List UInt8) :=
  handler.decompressWith handler.gzipDecoder content

def decompressDeflate (content : List UInt8) : Except CompressionError (List UInt8) :=
  handler.decompressWith handler.deflateDecoder content

def decompressBrotli (content : List UInt8) : Except CompressionError (List UInt8) :=
  handler.decompressWith handler.brotliDecoder content

def decompressZstd (content : List UInt8) : Except CompressionError (List UInt8) :=
  handler.decompressWith handler.zstdDecoder content

/-- The first format decides; the content itself when there is none. -/
def decompressFormats (content : List UInt8) :
    List CompressionType → Except CompressionError (List UInt8)
  | [] => .ok content
  | .gzip :: _ => handler.decompressGzip content
  | .deflate :: _ => handler.decompressDeflate content
  | .brotli :: _ => handler.decompressBrotli content
  | .zstd :: _ => handler.decompressZstd content
  | .none :: formats => decompressFormats content formats

def detectAndDecompress (content : List UInt8) (url : List Char) :
    Except CompressionError (List UInt8) :=
  let formats := detectCompression content url
  if formats.isEmpty then .ok content
  else
    match handler.decompressFormats content formats with
    | .error e => .error e
    | .ok decompressed =>
        -- a second layer is looked for once, under the same URL
        let nestedFormats := detectCompression decompressed url
        if nestedFormats.isEmpty then .ok decompressed
        else handler.decompressFormats decompressed nestedFormats

end CompressionHandler

/-! ## The body of a response -/

/-- Why no body is had. -/
inductive BodyError
  /-- `HttpError` of the stream -/
  | stream (message : List Char)
  | responseTooLarge (maxResponseSize : Nat)
  | decompression (error : CompressionError)
  deriving DecidableEq

/-- The chunks of `bytes_stream`, behind the bytes that have been read. -/
def readChunks (maxResponseSize : Nat) :
    List UInt8 → List (Except (List Char) (List UInt8)) → Except BodyError (List UInt8)
  | rawBytes, [] => .ok rawBytes
  | _, .error e :: _ => .error (.stream e)
  | rawBytes, .ok chunk :: chunks =>
      if maxResponseSize < rawBytes.length + chunk.length then
        .error (.responseTooLarge maxResponseSize)
      else readChunks maxResponseSize (rawBytes ++ chunk) chunks

/-- What the inspection and the XML parser are given. -/
def receivedBody (handler : CompressionHandler) (maxResponseSize : Nat) (url : List Char)
    (chunks : List (Except (List Char) (List UInt8))) : Except BodyError (List UInt8) :=
  match readChunks maxResponseSize [] chunks with
  | .error e => .error e
  | .ok rawBytes =>
      match handler.detectAndDecompress rawBytes url with
      | .error e => .error (.decompression e)
      | .ok decompressed => .ok decompressed

/-! ## Chunks -/

theorem readChunks_eq {maxResponseSize : Nat} (sent : List (List UInt8)) :
    ∀ {rawBytes : List UInt8}, rawBytes.length ≤ maxResponseSize →
      readChunks maxResponseSize rawBytes (sent.map .ok) =
        if (rawBytes ++ sent.flatten).length ≤ maxResponseSize then .ok (rawBytes ++ sent.flatten)
        else .error (.responseTooLarge maxResponseSize) := by
  induction sent with
  | nil =>
      intro rawBytes fits
      rw [List.flatten_nil, List.append_nil, if_pos fits]
      rfl
  | cons chunk sent ih =>
      intro rawBytes _
      rw [List.map_cons, readChunks, List.flatten_cons, ← List.append_assoc]
      by_cases fits : (rawBytes ++ chunk).length ≤ maxResponseSize
      · rw [if_neg (by rw [List.length_append] at fits; omega), ih fits]
      · have exceeds : ¬ (rawBytes ++ chunk ++ sent.flatten).length ≤ maxResponseSize := by
          rw [List.length_append]
          omega
        rw [if_pos (by rw [List.length_append] at fits; omega), if_neg exceeds]

/-- However a content is cut into chunks, it is read when it is not too large. -/
theorem receivedBody_eq_ok_iff {handler : CompressionHandler} {maxResponseSize : Nat}
    {url : List Char} {sent : List (List UInt8)} {body : List UInt8} :
    receivedBody handler maxResponseSize url (sent.map .ok) = .ok body ↔
      sent.flatten.length ≤ maxResponseSize ∧
        handler.detectAndDecompress sent.flatten url = .ok body := by
  rw [receivedBody, readChunks_eq sent (Nat.zero_le _), List.nil_append]
  by_cases fits : sent.flatten.length ≤ maxResponseSize
  · rw [if_pos fits, and_iff_right fits]
    dsimp only
    cases handler.detectAndDecompress sent.flatten url with
    | error e => exact iff_of_false (by simp) (by simp)
    | ok decompressed => rw [Except.ok.injEq, Except.ok.injEq]
  · rw [if_neg fits]
    exact iff_of_false (by simp) fun both => fits both.1

theorem length_readChunks_le {maxResponseSize : Nat}
    (chunks : List (Except (List Char) (List UInt8))) :
    ∀ {rawBytes bytes : List UInt8}, rawBytes.length ≤ maxResponseSize →
      readChunks maxResponseSize rawBytes chunks = .ok bytes →
        bytes.length ≤ maxResponseSize := by
  induction chunks with
  | nil =>
      intro rawBytes bytes fits read
      rwa [← Except.ok.inj read]
  | cons chunk chunks ih =>
      intro rawBytes bytes fits read
      cases chunk with
      | error e => cases read
      | ok chunk =>
          rw [readChunks] at read
          split at read
          · cases read
          · refine ih ?_ read
            rw [List.length_append]
            omega

/-! ## Layers -/

/-- The decoder reads the text back, up to any limit. -/
def Decodes (decoder : Decoder) (encoded text : List UInt8) : Prop :=
  ∀ limit, decoder limit encoded = .ok (text.take limit)

section Layers

variable {handler : CompressionHandler} {encoded text body : List UInt8} {url : List Char}

theorem decompressWith_eq {decoder : Decoder} (decodes : Decodes decoder encoded text) :
    handler.decompressWith decoder encoded =
      if text.length < handler.maxDecompressedSize then .ok text
      else .error (.sizeLimitExceeded handler.maxDecompressedSize) := by
  rw [CompressionHandler.decompressWith, decodes]
  dsimp only
  rw [List.length_take]
  by_cases small : text.length < handler.maxDecompressedSize
  · rw [if_pos small, if_neg (by omega), List.take_of_length_le (by omega)]
  · rw [if_neg small, if_pos (by omega)]

theorem decompressWith_eq_ok_iff {decoder : Decoder} :
    handler.decompressWith decoder encoded = .ok text ↔
      decoder handler.maxDecompressedSize encoded = .ok text ∧
        text.length < handler.maxDecompressedSize := by
  unfold CompressionHandler.decompressWith
  cases decoder handler.maxDecompressedSize encoded with
  | error e => exact iff_of_false (by simp) (by simp)
  | ok decompressed =>
      dsimp only
      rw [Except.ok.injEq]
      by_cases large : handler.maxDecompressedSize ≤ decompressed.length
      · rw [if_pos large]
        refine iff_of_false (by simp) fun both => ?_
        rw [both.1] at large
        omega
      · rw [if_neg large, Except.ok.injEq]
        refine ⟨fun same => ⟨same, ?_⟩, fun both => both.1⟩
        rw [← same]
        omega

/-- Whatever the decoders do, what comes out is the content itself or below the limit. -/
theorem small_of_decompressFormats {formats : List CompressionType}
    (decompressed : handler.decompressFormats encoded formats = .ok text) :
    text = encoded ∨ text.length < handler.maxDecompressedSize := by
  induction formats with
  | nil => exact .inl (Except.ok.inj decompressed).symm
  | cons format formats ih =>
      cases format with
      | none => exact ih decompressed
      | gzip | deflate | brotli | zstd =>
          exact .inr (decompressWith_eq_ok_iff.mp decompressed).2

theorem small_of_detectAndDecompress
    (decompressed : handler.detectAndDecompress encoded url = .ok text) :
    text = encoded ∨ text.length < handler.maxDecompressedSize := by
  rw [CompressionHandler.detectAndDecompress] at decompressed
  dsimp only at decompressed
  split at decompressed
  · exact .inl (Except.ok.inj decompressed).symm
  · split at decompressed
    next => cases decompressed
    next first once =>
        have inner := small_of_decompressFormats once
        split at decompressed
        · rwa [← Except.ok.inj decompressed]
        · rcases small_of_decompressFormats decompressed with same | small
          · rwa [same]
          · exact .inr small

/-- A text behind one layer of a format that the first bytes tell. -/
inductive CompressionHandler.Encodes (handler : CompressionHandler) :
    List UInt8 → List UInt8 → Prop
  | gzip {encoded text : List UInt8} (magic : gzipMagic <+: encoded)
      (decodes : Decodes handler.gzipDecoder encoded text) : Encodes handler encoded text
  | zstd {encoded text : List UInt8} (magic : zstdMagic <+: encoded)
      (decodes : Decodes handler.zstdDecoder encoded text) : Encodes handler encoded text

theorem sniffed_gzip (magic : gzipMagic <+: encoded) : sniffed encoded = [.gzip] := by
  obtain ⟨rest, rfl⟩ := magic
  simp [sniffed, gzipMagic, zstdMagic, zstdDictionaryMagic]

theorem sniffed_zstd (magic : zstdMagic <+: encoded) : sniffed encoded = [.zstd] := by
  obtain ⟨rest, rfl⟩ := magic
  simp [sniffed, gzipMagic, zstdMagic, zstdDictionaryMagic]

theorem detectCompression_of_sniffed (told : sniffed encoded ≠ []) :
    detectCompression encoded url = sniffed encoded := by
  rw [detectCompression, if_neg (by simp [told])]

theorem detectCompression_eq_nil_iff :
    detectCompression encoded url = [] ↔ sniffed encoded = [] ∧ hintsBrotli url = false := by
  unfold detectCompression
  cases sniffed encoded <;> cases hintsBrotli url <;> simp

/-- Of the formats that are detected, the decoder takes one layer off. -/
def CompressionHandler.Peels (handler : CompressionHandler) (url : List Char)
    (encoded text : List UInt8) : Prop :=
  detectCompression encoded url ≠ [] ∧
    handler.decompressFormats encoded (detectCompression encoded url) =
      if text.length < handler.maxDecompressedSize then .ok text
      else .error (.sizeLimitExceeded handler.maxDecompressedSize)

theorem CompressionHandler.Encodes.sniffed_ne (encodes : handler.Encodes encoded text) :
    sniffed encoded ≠ [] := by
  cases encodes with
  | gzip magic _ => simp [sniffed_gzip magic]
  | zstd magic _ => simp [sniffed_zstd magic]

theorem CompressionHandler.Encodes.peels (encodes : handler.Encodes encoded text) :
    handler.Peels url encoded text := by
  rw [CompressionHandler.Peels, detectCompression_of_sniffed encodes.sniffed_ne]
  refine ⟨encodes.sniffed_ne, ?_⟩
  cases encodes with
  | gzip magic decodes =>
      rw [sniffed_gzip magic]
      exact decompressWith_eq decodes
  | zstd magic decodes =>
      rw [sniffed_zstd magic]
      exact decompressWith_eq decodes

theorem CompressionHandler.Peels.detectAndDecompress (peels : handler.Peels url encoded text) :
    handler.detectAndDecompress encoded url =
      if text.length < handler.maxDecompressedSize then
        if (detectCompression text url).isEmpty then .ok text
        else handler.decompressFormats text (detectCompression text url)
      else .error (.sizeLimitExceeded handler.maxDecompressedSize) := by
  obtain ⟨told, decompressed⟩ := peels
  rw [CompressionHandler.detectAndDecompress]
  dsimp only
  rw [if_neg (by simpa using told), decompressed]
  by_cases small : text.length < handler.maxDecompressedSize
  · rw [if_pos small, if_pos small]
  · rw [if_neg small, if_neg small]

theorem detectAndDecompress_plain (plain : detectCompression body url = []) :
    handler.detectAndDecompress body url = .ok body := by
  rw [CompressionHandler.detectAndDecompress]
  dsimp only
  rw [plain]
  rfl

/-- One layer over a text that shows no other. -/
theorem CompressionHandler.Peels.once_iff (peels : handler.Peels url encoded body)
    (plain : detectCompression body url = []) :
    handler.detectAndDecompress encoded url = .ok body ↔
      body.length < handler.maxDecompressedSize := by
  rw [peels.detectAndDecompress, plain]
  by_cases small : body.length < handler.maxDecompressedSize
  · rw [if_pos small]
    exact iff_of_true rfl small
  · rw [if_neg small]
    exact iff_of_false (by simp) small

/-- Two layers, whatever the text under them shows. -/
theorem CompressionHandler.Peels.twice {under : List UInt8} (peels : handler.Peels url encoded text)
    (again : handler.Peels url text under) :
    handler.detectAndDecompress encoded url = .ok body ↔
      text.length < handler.maxDecompressedSize ∧ under.length < handler.maxDecompressedSize ∧
        under = body := by
  obtain ⟨told, decompressed⟩ := again
  rw [peels.detectAndDecompress, decompressed]
  by_cases small : text.length < handler.maxDecompressedSize
  · rw [if_pos small, if_neg (by simpa using told), and_iff_right small]
    by_cases below : under.length < handler.maxDecompressedSize
    · rw [if_pos below, and_iff_right below, Except.ok.injEq]
    · rw [if_neg below]
      exact iff_of_false (by simp) fun both => below both.1
  · rw [if_neg small]
    exact iff_of_false (by simp) fun both => small both.1

end Layers

/-! ## Documents -/

section Documents

variable {handler : CompressionHandler} {maxResponseSize : Nat} {url : List Char}
  {texts sent : List (List UInt8)} {body : List UInt8}

/-- No response makes more of a body than one of the two limits allows, with any decoders. -/
theorem small_of_receivedBody {chunks : List (Except (List Char) (List UInt8))}
    (received : receivedBody handler maxResponseSize url chunks = .ok body) :
    body.length ≤ maxResponseSize ∨ body.length < handler.maxDecompressedSize := by
  rw [receivedBody] at received
  split at received
  next => cases received
  next rawBytes read =>
      split at received
      next => cases received
      next decompressed out =>
          rw [← Except.ok.inj received]
          rcases small_of_detectAndDecompress out with same | small
          · rw [same]
            exact .inl (length_readChunks_le chunks (Nat.zero_le _) read)
          · exact .inr small

theorem sniffed_ne_of_isChain {encoded : List UInt8}
    (layered : (encoded :: texts).IsChain handler.Encodes) (more : texts ≠ []) :
    sniffed encoded ≠ [] := by
  cases texts with
  | nil => exact absurd rfl more
  | cons text texts => exact (List.isChain_cons_cons.mp layered).1.sniffed_ne

/-- A document arrives, in whatever layers and chunks it is sent, when the response is not too
large, there are at most two layers and each text under one is small enough. -/
theorem receivedBody_iff (plain : detectCompression body url = [])
    (layered : (texts ++ [body]).IsChain handler.Encodes)
    (outermost : (texts ++ [body]).head? = some sent.flatten) :
    receivedBody handler maxResponseSize url (sent.map .ok) = .ok body ↔
      sent.flatten.length ≤ maxResponseSize ∧ texts.length ≤ 2 ∧
        ∀ text ∈ (texts ++ [body]).tail, text.length < handler.maxDecompressedSize := by
  rw [receivedBody_eq_ok_iff, and_congr_right_iff]
  intro _
  rcases texts with _ | ⟨encoded, _ | ⟨text, _ | ⟨under, texts⟩⟩⟩ <;>
    rw [← Option.some.inj outermost]
  · exact iff_of_true (detectAndDecompress_plain plain) (by simp)
  · have encodes : handler.Encodes encoded body := by simpa using layered
    rw [encodes.peels.once_iff plain]
    simp
  · have encodes : handler.Encodes encoded text ∧ handler.Encodes text body := by
      simpa using layered
    rw [encodes.1.peels.twice encodes.2.peels]
    simp
  · simp only [List.cons_append, List.isChain_cons_cons] at layered
    obtain ⟨encodes, again, layered⟩ := layered
    have differs : under ≠ body := by
      rintro rfl
      exact sniffed_ne_of_isChain layered (by simp) (detectCompression_eq_nil_iff.mp plain).1
    rw [encodes.peels.twice again.peels]
    exact iff_of_false (fun both => differs both.2.2) fun both => absurd both.1 (by simp)

/-- An empty sitemap. -/
def urlset : List UInt8 := [0x3c, 0x75, 0x72, 0x6c, 0x73, 0x65, 0x74, 0x2f, 0x3e]

def urlsetGzip : List UInt8 :=
  [0x1f, 0x8b, 0x08, 0x00, 0x00, 0x00, 0x00, 0x00, 0x02, 0xff, 0xb3, 0x29, 0x2d, 0xca, 0x29,
    0x4e, 0x2d, 0xd1, 0xb7, 0x03, 0x00, 0xdb, 0xce, 0x72, 0xfc, 0x09, 0x00, 0x00, 0x00]

/-- The gzip text in one raw block of a Zstandard frame. -/
def urlsetGzipZstd : List UInt8 := zstdMagic ++ [0x20, 0x1d, 0xe9, 0x00, 0x00] ++ urlsetGzip

/-- The sitemap in one uncompressed block of Brotli. -/
def urlsetBrotli : List UInt8 := [0x80, 0x00, 0x10] ++ urlset ++ [0x03]

/-- A decoder that knows one text and refuses every other. -/
def decoderOf (encoded text : List UInt8) (failure : String) : Decoder := fun limit content =>
  if content = encoded then .ok (text.take limit) else .error failure.toList

theorem decoderOf_decodes (encoded text : List UInt8) (failure : String) :
    Decodes (decoderOf encoded text failure) encoded text :=
  fun _ => if_pos rfl

theorem eq_of_decoderOf {encoded text content out : List UInt8} {failure : String} {limit : Nat}
    (read : decoderOf encoded text failure limit content = .ok out) : content = encoded := by
  unfold decoderOf at read
  split at read
  next same => exact same
  next => cases read

def sampleHandler : CompressionHandler where
  maxDecompressedSize := 40
  gzipDecoder := decoderOf urlsetGzip urlset "Invalid gzip header"
  deflateDecoder _ _ := .error "corrupt deflate stream".toList
  brotliDecoder := decoderOf urlsetBrotli urlset "brotli error"
  zstdDecoder := decoderOf urlsetGzipZstd urlsetGzip "Unknown frame descriptor"

theorem urlset_layered :
    ([urlsetGzipZstd, urlsetGzip] ++ [urlset]).IsChain sampleHandler.Encodes := by
  have inner : sampleHandler.Encodes urlsetGzip urlset :=
    .gzip (List.prefix_append _ _) (decoderOf_decodes _ _ _)
  have outer : sampleHandler.Encodes urlsetGzipZstd urlsetGzip :=
    .zstd (List.prefix_append _ _) (decoderOf_decodes _ _ _)
  exact .cons_cons outer (.cons_cons inner (.singleton _))

theorem receivedBody_of_urlset :
    receivedBody sampleHandler 50 "https://a.com/sitemap.xml.gz".toList
      ([urlsetGzipZstd.take 7, urlsetGzipZstd.drop 7].map .ok) = .ok urlset :=
  (receivedBody_iff (by decide) urlset_layered rfl).mpr
    ⟨by decide, by decide, by simp [urlset, urlsetGzip, sampleHandler]⟩

/-- A text behind one layer: of Brotli when the first bytes tell no format. -/
inductive CompressionHandler.EncodesHinted (handler : CompressionHandler) :
    List UInt8 → List UInt8 → Prop
  | told {encoded text : List UInt8} (encodes : handler.Encodes encoded text) :
      EncodesHinted handler encoded text
  | brotli {encoded text : List UInt8} (bare : sniffed encoded = [])
      (decodes : Decodes handler.brotliDecoder encoded text) : EncodesHinted handler encoded text

theorem detectCompression_hinted (hinted : hintsBrotli url = true) (bare : sniffed body = []) :
    detectCompression body url = [.brotli] := by
  simp [detectCompression, bare, hinted]

theorem CompressionHandler.EncodesHinted.peels {encoded text : List UInt8}
    (encodes : handler.EncodesHinted encoded text) (hinted : hintsBrotli url = true) :
    handler.Peels url encoded text := by
  cases encodes with
  | told encodes => exact encodes.peels
  | brotli bare decodes =>
      rw [CompressionHandler.Peels, detectCompression_hinted hinted bare]
      exact ⟨by simp, decompressWith_eq decodes⟩

/-- Under a URL that ends in `.br` the second layer is always looked for, also in the document that
has come out from under its only one: it arrives when it is a Brotli text of itself. -/
theorem receivedBody_hinted_iff (hinted : hintsBrotli url = true) (bare : sniffed body = [])
    (layered : (texts ++ [body]).IsChain handler.EncodesHinted)
    (layers : texts.length = 1 ∨ texts.length = 2)
    (outermost : (texts ++ [body]).head? = some sent.flatten) :
    receivedBody handler maxResponseSize url (sent.map .ok) = .ok body ↔
      sent.flatten.length ≤ maxResponseSize ∧
        (∀ text ∈ (texts ++ [body]).tail, text.length < handler.maxDecompressedSize) ∧
          (texts.length = 1 →
            handler.brotliDecoder handler.maxDecompressedSize body = .ok body) := by
  rw [receivedBody_eq_ok_iff, and_congr_right_iff]
  intro _
  rcases layers with one | two
  · obtain ⟨encoded, rfl⟩ := List.length_eq_one_iff.mp one
    rw [← Option.some.inj outermost]
    have encodes : handler.EncodesHinted encoded body := by simpa using layered
    rw [(encodes.peels hinted).detectAndDecompress, detectCompression_hinted hinted bare]
    by_cases small : body.length < handler.maxDecompressedSize
    · rw [if_pos small, if_neg (by simp)]
      have again : handler.decompressBrotli body = .ok body ↔
          handler.brotliDecoder handler.maxDecompressedSize body = .ok body :=
        decompressWith_eq_ok_iff.trans (and_iff_left small)
      exact again.trans (by simp [small])
    · rw [if_neg small]
      exact iff_of_false (by simp) fun both => small (both.1 body (by simp))
  · obtain ⟨encoded, text, rfl⟩ := List.length_eq_two.mp two
    rw [← Option.some.inj outermost]
    have encodes : handler.EncodesHinted encoded text ∧ handler.EncodesHinted text body := by
      simpa using layered
    rw [(encodes.1.peels hinted).twice (encodes.2.peels hinted)]
    simp

theorem urlset_layered_hinted :
    ([urlsetBrotli] ++ [urlset]).IsChain sampleHandler.EncodesHinted :=
  .cons_cons (.brotli (by decide) (decoderOf_decodes _ _ _)) (.singleton _)

theorem urlset_under_br_lost :
    receivedBody sampleHandler 50 "https://a.com/sitemap.xml.br".toList ([urlsetBrotli].map .ok) ≠
      .ok urlset := by
  intro received
  have itself : decoderOf urlsetBrotli urlset "brotli error" 40 urlset = .ok urlset :=
    ((receivedBody_hinted_iff (by decide) (by decide) urlset_layered_hinted (.inl rfl)
      rfl).mp received).2.2 rfl
  exact absurd (eq_of_decoderOf itself) (by decide)

end Documents

end Webfang.Sitemap
