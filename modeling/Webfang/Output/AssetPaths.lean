import Webfang.Output.WikiLinks

/-!
# Images that point at downloaded assets

`infrastructure/converter/obsidian.rs`: the Markdown of a page is written anew with the images whose
assets were downloaded pointing at the files.  The texts and the code, the images and their alt
texts are kept just where no link stands, no image inside another one and no code inside an image.
-/

namespace Webfang.Output

/-! ## The paths of the assets -/

/-- The fields of `DownloadedAsset` that are read here. -/
structure DownloadedAsset where
  url : List Char
  localPath : List Char

/-- `asset_map`, in the order of insertion. -/
abbrev AssetMap := List (List Char × List Char)

namespace AssetMap

/-- `HashMap::get`; the last insertion counts. -/
def get (assets : AssetMap) (url : List Char) : Option (List Char) :=
  (assets.reverse.find? fun row => row.1 = url).map Prod.snd

/-- The destination that is written for a URL. -/
def rewritten (assets : AssetMap) (url : List Char) : List Char := (assets.get url).getD url

end AssetMap

/-! ## The transformation -/

/-- The variables of `transform_images_and_serialize`. -/
structure ImageState where
  result : List Char
  inImage : Bool
  imageUrl : List Char
  altText : List Char

namespace ImageState

def new : ImageState := ⟨[], false, [], []⟩

def pushText (s : ImageState) (event : MarkdownEvent) : ImageState :=
  { s with result := s.result ++ eventText event }

def step (assets : AssetMap) (s : ImageState) (event : MarkdownEvent) : ImageState :=
  match event with
  | .start (.image destUrl) =>
      { inImage := true, imageUrl := destUrl, altText := [], result := s.result ++ "![".toList }
  | .stop .image =>
      if s.inImage then
        { inImage := false
          imageUrl := []
          altText := []
          result := s.result ++ s.altText ++ "](".toList ++
            (match assets.get s.imageUrl with
            | some relPath => relPath
            | none => s.imageUrl) ++ ")".toList }
      else s.pushText event
  | .text text =>
      if s.inImage then { s with altText := s.altText ++ text }
      else { s with result := s.result ++ text }
  | event => if s.inImage then s else s.pushText event

end ImageState

/-- `transform_images_and_serialize`. -/
def transformImagesAndSerialize (assets : AssetMap) (events : List MarkdownEvent) : List Char :=
  (events.foldl (ImageState.step assets) .new).result

/-- `resolve_asset_paths`, where `relative` is `diff_paths` from the folder of the page and `parse`
the parser. -/
def resolveAssetPaths (relative : List Char → Option (List Char))
    (parse : List Char → List MarkdownEvent) (content : List Char) (assets : List DownloadedAsset) :
    List Char :=
  let assetMap : AssetMap := assets.filterMap fun asset =>
    (relative asset.localPath).map fun rel =>
      (asset.url, rel.map fun c => if c = '\\' then '/' else c)
  if assets.isEmpty ∨ assetMap.isEmpty then content
  else transformImagesAndSerialize assetMap (parse content)

/-! ## What is promised -/

/-- The kinds of words in a document. -/
inductive WordKind
  | text
  | code

def WordKind.event : WordKind → List Char → MarkdownEvent
  | .text, s => .text s
  | .code, s => .code s

/-- What is given is written, between texts that do not depend on it. -/
def Carries (write : List Char → List Char) : Prop :=
  ∃ before behind, ∀ s, write s = before ++ s ++ behind

/-- The images that are opened here are closed. -/
inductive Balanced : List MarkdownEvent → Prop
  | nil : Balanced []
  | other {event : MarkdownEvent} {rest : List MarkdownEvent} :
    (∀ url, event ≠ .start (.image url)) → event ≠ .stop .image → Balanced rest →
    Balanced (event :: rest)
  | image {url : List Char} {inner rest : List MarkdownEvent} :
    Balanced inner → Balanced rest →
    Balanced (.start (.image url) :: (inner ++ .stop .image :: rest))

/-- Links keep their destinations, images get those of their assets, texts and code are written in
order, and those of an image between its brackets: whatever they say. -/
structure Survives (assets : AssetMap) (events : List MarkdownEvent) : Prop where
  links : ∀ front url behind, events = front ++ .start (.link url) :: behind →
    Carries fun url => transformImagesAndSerialize assets (front ++ .start (.link url) :: behind)
  images : ∀ front url behind, events = front ++ .start (.image url) :: behind →
    ∃ before after, ∀ url,
      transformImagesAndSerialize assets (front ++ .start (.image url) :: behind) =
        before ++ assets.rewritten url ++ after
  words : ∀ front (kind : WordKind) s behind, events = front ++ kind.event s :: behind →
    Carries fun s => transformImagesAndSerialize assets (front ++ kind.event s :: behind)
  in_order : ∀ front (kind : WordKind) s middle (kind' : WordKind) t behind,
    events = front ++ kind.event s :: (middle ++ kind'.event t :: behind) →
    ∃ before between after, ∀ s t,
      transformImagesAndSerialize assets
        (front ++ kind.event s :: (middle ++ kind'.event t :: behind)) =
          before ++ s ++ between ++ t ++ after
  alts : ∀ front url inner (kind : WordKind) s inner' behind,
    events = front ++ .start (.image url) ::
      (inner ++ kind.event s :: (inner' ++ .stop .image :: behind)) →
    Balanced (inner ++ kind.event s :: inner') →
    ∃ before alt alt' after, ∀ url s,
      transformImagesAndSerialize assets (front ++ .start (.image url) ::
        (inner ++ kind.event s :: (inner' ++ .stop .image :: behind))) =
          before ++ "![".toList ++ alt ++ s ++ alt' ++ "](".toList ++ assets.rewritten url ++
            ")".toList ++ after

/-- No link, no image inside an image and no code inside one, and every image is closed; the flag
tells whether the events begin inside an image. -/
def IsPlain : Bool → List MarkdownEvent → Prop
  | inside, [] => inside = false
  | inside, .start (.image _) :: rest => inside = false ∧ IsPlain true rest
  | _, .stop .image :: rest => IsPlain false rest
  | _, .start (.link _) :: _ => False
  | inside, .code _ :: rest => inside = false ∧ IsPlain inside rest
  | inside, _ :: rest => IsPlain inside rest

/-! ## What a run adds to the text -/

section Runs

variable {assets : AssetMap} {front behind events rest : List MarkdownEvent} {s : ImageState}
  {url alt : List Char}

/-- What the rest of a run writes from a state. -/
def written (assets : AssetMap) (s : ImageState) (events : List MarkdownEvent) : List Char :=
  (events.foldl (ImageState.step assets) s).result

theorem transform_append (front events : List MarkdownEvent) :
    transformImagesAndSerialize assets (front ++ events) =
      written assets (front.foldl (ImageState.step assets) .new) events := by
  rw [transformImagesAndSerialize, List.foldl_append, written]

theorem written_append (s : ImageState) (front events : List MarkdownEvent) :
    written assets s (front ++ events) =
      written assets (front.foldl (ImageState.step assets) s) events := by
  rw [written, List.foldl_append, written]

theorem written_cons (s : ImageState) (event : MarkdownEvent) (events : List MarkdownEvent) :
    written assets s (event :: events) = written assets (s.step assets event) events := rfl

/-- The text behind a state. -/
def ImageState.after (before : List Char) (s : ImageState) : ImageState :=
  { s with result := before ++ s.result }

/-- The events that the transformation tells apart. -/
inductive View : MarkdownEvent → Prop
  | openImage (url : List Char) : View (.start (.image url))
  | closeImage : View (.stop .image)
  | link (url : List Char) : View (.start (.link url))
  | text (s : List Char) : View (.text s)
  | code (s : List Char) : View (.code s)
  | other {event : MarkdownEvent} :
    (∀ assets s, ImageState.step assets s event = if s.inImage then s else s.pushText event) →
    (∀ inside rest, IsPlain inside (event :: rest) ↔ IsPlain inside rest) → View event

theorem view (event : MarkdownEvent) : View event := by
  cases event with
  | start tag =>
      cases tag with
      | image url => exact .openImage url
      | link url => exact .link url
      | _ => exact .other (fun _ _ => rfl) fun _ _ => Iff.rfl
  | stop tag =>
      cases tag with
      | image => exact .closeImage
      | _ => exact .other (fun _ _ => rfl) fun _ _ => Iff.rfl
  | text s => exact .text s
  | code s => exact .code s
  | _ => exact .other (fun _ _ => rfl) fun _ _ => Iff.rfl

theorem step_after (before : List Char) (s : ImageState) (event : MarkdownEvent) :
    (s.after before).step assets event = (s.step assets event).after before := by
  obtain ⟨result, inImage, imageUrl, altText⟩ := s
  cases view event with
  | openImage url => simp only [ImageState.step, ImageState.after, List.append_assoc]
  | closeImage =>
      cases inImage <;>
        simp [ImageState.step, ImageState.after, ImageState.pushText, List.append_assoc]
  | link url =>
      cases inImage <;>
        simp [ImageState.step, ImageState.after, ImageState.pushText, List.append_assoc]
  | text t => cases inImage <;> simp [ImageState.step, ImageState.after, List.append_assoc]
  | code t =>
      cases inImage <;>
        simp [ImageState.step, ImageState.after, ImageState.pushText, List.append_assoc]
  | other step _ =>
      rw [step, step]
      cases inImage <;> simp [ImageState.after, ImageState.pushText, List.append_assoc]

/-- What is written before is kept, and is not read again. -/
theorem written_after (before : List Char) (s : ImageState) (events : List MarkdownEvent) :
    written assets (s.after before) events = before ++ written assets s events := by
  induction events generalizing s with
  | nil => rfl
  | cons event events ih => rw [written_cons, written_cons, step_after, ih]

theorem written_result (s : ImageState) (events : List MarkdownEvent) :
    written assets s events = s.result ++ written assets { s with result := [] } events := by
  rw [← written_after, ImageState.after, List.append_nil]

theorem step_link (s : ImageState) (url : List Char) : s.step assets (.start (.link url)) =
    if s.inImage then s else s.pushText (.start (.link url)) := rfl

theorem step_code (s : ImageState) (t : List Char) :
    s.step assets (.code t) = if s.inImage then s else s.pushText (.code t) := rfl

theorem step_closeImage (before : List Char) :
    ImageState.step assets ⟨before, true, url, alt⟩ (.stop .image) =
      ⟨before ++ alt ++ "](".toList ++ assets.rewritten url ++ ")".toList, false, [], []⟩ := by
  rw [ImageState.step, AssetMap.rewritten, if_pos rfl]
  cases assets.get url <;> rfl

/-- The alt text that stands already and the destination are written around what is still read of
an image. -/
theorem written_image (assets : AssetMap) (plain : IsPlain true events) :
    ∃ alt after, ∀ url before, written assets ⟨[], true, url, before⟩ events =
      before ++ alt ++ "](".toList ++ assets.rewritten url ++ ")".toList ++ after := by
  induction events with
  | nil => exact absurd plain (by simp [IsPlain])
  | cons event events ih =>
      cases view event with
      | openImage url => exact absurd plain.1 (by decide)
      | closeImage =>
          refine ⟨[], written assets ⟨[], false, [], []⟩ events, fun url before => ?_⟩
          rw [written_cons, step_closeImage, written_result, List.nil_append, List.append_nil]
      | link url => exact plain.elim
      | text t =>
          obtain ⟨alt, after, each⟩ := ih plain
          refine ⟨t ++ alt, after, fun url before => ?_⟩
          rw [written_cons, ImageState.step, if_pos rfl, each]
          simp only [List.append_assoc]
      | code t => exact absurd plain.1 (by decide)
      | other step same =>
          obtain ⟨alt, after, each⟩ := ih ((same _ _).mp plain)
          refine ⟨alt, after, fun url before => ?_⟩
          rw [written_cons, step, if_pos rfl, each]

/-! ## Plain documents -/

theorem inImage_closeImage (s : ImageState) : (s.step assets (.stop .image)).inImage = false := by
  rw [ImageState.step]
  split_ifs with inside
  · rfl
  · exact Bool.eq_false_iff.mpr inside

theorem inImage_text (s : ImageState) (t : List Char) :
    (s.step assets (.text t)).inImage = s.inImage := by
  rw [ImageState.step]
  split_ifs <;> rfl

theorem inImage_of_pushed {s : ImageState} {event : MarkdownEvent}
    (step : s.step assets event = if s.inImage then s else s.pushText event) :
    (s.step assets event).inImage = s.inImage := by
  rw [step]
  split_ifs <;> rfl

theorem plain_step {event : MarkdownEvent} (plain : IsPlain s.inImage (event :: rest)) :
    IsPlain (s.step assets event).inImage rest := by
  cases view event with
  | openImage url => exact plain.2
  | closeImage =>
      rw [inImage_closeImage]
      exact plain
  | link url => exact plain.elim
  | text t =>
      rw [inImage_text]
      exact plain
  | code t =>
      rw [inImage_of_pushed (step_code s t)]
      exact plain.2
  | other step same =>
      rw [inImage_of_pushed (step assets s)]
      exact (same _ _).mp plain

theorem plain_behind (assets : AssetMap) (plain : IsPlain s.inImage (front ++ rest)) :
    IsPlain (front.foldl (ImageState.step assets) s).inImage rest := by
  induction front generalizing s with
  | nil => exact plain
  | cons event front ih => exact ih (plain_step plain)

theorem plain_word_iff {inside : Bool} {kind : WordKind} {t : List Char} :
    IsPlain inside (kind.event t :: rest) ↔
      (kind = .code → inside = false) ∧ IsPlain inside rest := by
  cases kind with
  | text => exact ⟨fun plain => ⟨nofun, plain⟩, And.right⟩
  | code => exact ⟨fun plain => ⟨fun _ => plain.1, plain.2⟩, fun plain => ⟨plain.1 rfl, plain.2⟩⟩

theorem plain_congr {rest' : List MarkdownEvent}
    (same : ∀ inside, IsPlain inside rest → IsPlain inside rest') {inside : Bool}
    (plain : IsPlain inside (front ++ rest)) : IsPlain inside (front ++ rest') := by
  induction front generalizing inside with
  | nil => exact same inside plain
  | cons event front ih =>
      rw [List.cons_append] at plain ⊢
      cases view event with
      | openImage url => exact ⟨plain.1, ih plain.2⟩
      | closeImage => exact @ih false plain
      | link url => exact plain.elim
      | text t => exact @ih inside plain
      | code t => exact ⟨plain.1, ih plain.2⟩
      | other _ plainIff => exact (plainIff _ _).mpr (ih ((plainIff _ _).mp plain))

/-- A word is written, and what is behind it does not depend on it. -/
theorem written_word (assets : AssetMap) {kind : WordKind} (allowed : kind = .code → s.inImage = false) :
    ∃ before s', s'.inImage = s.inImage ∧ ∀ rest, IsPlain s.inImage rest → ∀ t,
      written assets s (kind.event t :: rest) = before ++ t ++ written assets s' rest := by
  obtain ⟨result, inImage, url, alt⟩ := s
  cases inImage with
  | true =>
      cases kind with
      | code => exact Bool.noConfusion (allowed rfl)
      | text =>
          refine ⟨result ++ alt, ⟨[], true, url, []⟩, rfl, fun rest plain t => ?_⟩
          obtain ⟨more, after, each⟩ := written_image assets plain
          rw [WordKind.event, written_cons, ImageState.step, if_pos rfl, written_result, each, each]
          simp only [List.append_assoc, List.nil_append]
  | false =>
      cases kind with
      | text =>
          refine ⟨result, ⟨[], false, url, alt⟩, rfl, fun rest _ t => ?_⟩
          rw [WordKind.event, written_cons, ImageState.step, if_neg Bool.false_ne_true,
            written_result]
      | code =>
          refine ⟨result ++ ['\x60'], ⟨['\x60'], false, url, alt⟩, rfl, fun rest _ t => ?_⟩
          rw [WordKind.event, written_cons, step_code, if_neg Bool.false_ne_true,
            ImageState.pushText, eventText, written_result, written_result ⟨['\x60'], _, _, _⟩]
          simp only [List.append_assoc, List.cons_append, List.nil_append]

/-- Inside an image the events add to the alt text. -/
theorem foldl_inner (assets : AssetMap) {inner : List MarkdownEvent}
    (noImage : ∀ event ∈ inner, (∀ url, event ≠ .start (.image url)) ∧ event ≠ .stop .image) :
    ∃ more, ∀ before url alt,
      inner.foldl (ImageState.step assets) ⟨before, true, url, alt⟩ =
        ⟨before, true, url, alt ++ more⟩ := by
  induction inner with
  | nil => exact ⟨[], fun before url alt => by rw [List.append_nil, List.foldl_nil]⟩
  | cons event inner ih =>
      obtain ⟨⟨unopened, unclosed⟩, later⟩ := List.forall_mem_cons.mp noImage
      obtain ⟨more, each⟩ := ih later
      cases view event with
      | openImage url => exact absurd rfl (unopened url)
      | closeImage => exact absurd rfl unclosed
      | link url => exact ⟨more, fun before url alt => each before url alt⟩
      | text t =>
          refine ⟨t ++ more, fun before url alt => ?_⟩
          rw [← List.append_assoc, ← each]
          rfl
      | code t => exact ⟨more, fun before url alt => each before url alt⟩
      | other step _ =>
          refine ⟨more, fun before url alt => ?_⟩
          rw [List.foldl_cons, step, if_pos rfl, each]

theorem noImage_of_balanced {inner : List MarkdownEvent} (balanced : Balanced inner)
    (plain : IsPlain true (inner ++ rest)) :
    ∀ event ∈ inner, (∀ url, event ≠ .start (.image url)) ∧ event ≠ .stop .image := by
  induction balanced with
  | nil => exact fun _ none => absurd none List.not_mem_nil
  | @other event inner unopened unclosed _ ih =>
      refine List.forall_mem_cons.mpr ⟨⟨unopened, unclosed⟩, ih ?_⟩
      rw [List.cons_append] at plain
      cases view event with
      | openImage url => exact absurd rfl (unopened url)
      | closeImage => exact absurd rfl unclosed
      | link url => exact plain.elim
      | text t => exact plain
      | code t => exact plain.2
      | other _ plainIff => exact (plainIff _ _).mp plain
  | image => exact Bool.noConfusion plain.1

/-- In a plain document everything is kept. -/
theorem survives_of_plain (plain : IsPlain false events) : Survives assets events where
  links := by
    rintro front url behind rfl
    exact (plain_behind assets (s := .new) plain).elim
  images := by
    rintro front url behind rfl
    obtain ⟨-, inside⟩ := plain_behind assets (s := .new) plain
    obtain ⟨alt, after, each⟩ := written_image assets inside
    refine ⟨(front.foldl (ImageState.step assets) .new).result ++ "![".toList ++ alt ++
      "](".toList, ")".toList ++ after, fun url => ?_⟩
    rw [transform_append, written_cons, ImageState.step, written_result, each]
    simp only [List.append_assoc, List.nil_append]
  words := by
    rintro front kind s behind rfl
    obtain ⟨allowed, later⟩ :=
      plain_word_iff.mp (plain_behind assets (s := .new) plain)
    obtain ⟨before, s', -, each⟩ := written_word assets allowed
    exact ⟨_, _, fun s => (transform_append _ _).trans (each _ later s)⟩
  in_order := by
    rintro front kind s middle kind' t behind rfl
    obtain ⟨allowed, later⟩ :=
      plain_word_iff.mp (plain_behind assets (s := .new) plain)
    obtain ⟨before, s', same, each⟩ := written_word assets allowed
    have any (t : List Char) : IsPlain _ (middle ++ kind'.event t :: behind) :=
      plain_congr (fun _ word => plain_word_iff.mpr (plain_word_iff.mp word)) later
    rw [← same] at later
    obtain ⟨allowed', last⟩ := plain_word_iff.mp (plain_behind assets later)
    obtain ⟨between, s'', -, each'⟩ := written_word assets allowed'
    refine ⟨before, between, written assets s'' behind, fun s t => ?_⟩
    rw [transform_append, each _ (any t), written_append, each' _ last]
    simp only [List.append_assoc]
  alts := by
    rintro front url inner kind s inner' behind rfl balanced
    obtain ⟨-, inside⟩ := plain_behind assets (s := .new) plain
    have whole : IsPlain true ((inner ++ kind.event s :: inner') ++ .stop .image :: behind) := by
      rwa [List.append_assoc, List.cons_append]
    have noImage := noImage_of_balanced balanced whole
    rw [List.forall_mem_append, List.forall_mem_cons] at noImage
    obtain ⟨alt, eachAlt⟩ := foldl_inner assets noImage.1
    obtain ⟨alt', eachAlt'⟩ := foldl_inner assets noImage.2.2
    have word := plain_behind assets (s := ⟨[], true, [], []⟩) inside
    rw [eachAlt] at word
    cases kind with
    | code => exact Bool.noConfusion ((plain_word_iff.mp word).1 rfl)
    | text =>
        refine ⟨(front.foldl (ImageState.step assets) .new).result, alt, alt',
          written assets ⟨[], false, [], []⟩ behind, fun url s => ?_⟩
        rw [transform_append, written_cons, ImageState.step, written_append, eachAlt, written_cons,
          WordKind.event, ImageState.step, if_pos rfl, written_append, eachAlt', written_cons,
          step_closeImage, written_result]
        simp only [List.append_assoc, List.nil_append]

/-! ## What is lost -/

theorem not_carries_of_const {write : List Char → List Char} {text : List Char}
    (const : ∀ s, write s = text) : ¬ Carries write := by
  rintro ⟨before, behind, each⟩
  have lengths := congrArg List.length ((const (' ' :: text)).symm.trans (each (' ' :: text)))
  rw [List.length_append, List.length_append, List.length_cons] at lengths
  omega

theorem get_eq_none (absent : ∀ row ∈ assets, row.1 ≠ url) : assets.get url = none := by
  have nothing : assets.reverse.find? (fun row => decide (row.1 = url)) = none :=
    List.find?_eq_none.mpr fun row member =>
      fun same => absent row (List.mem_reverse.mp member) (of_decide_eq_true same)
  rw [AssetMap.get, nothing, Option.map_none]

/-- Long URLs have no asset. -/
theorem exists_rewritten_self (assets : AssetMap) (n : Nat) :
    ∃ url, n < url.length ∧ assets.rewritten url = url := by
  have bounded : ∃ bound, ∀ row ∈ assets, row.1.length ≤ bound := by
    induction assets with
    | nil => exact ⟨0, fun _ none => absurd none List.not_mem_nil⟩
    | cons row assets ih =>
        obtain ⟨bound, each⟩ := ih
        refine ⟨max row.1.length bound, List.forall_mem_cons.mpr ⟨by omega, fun later member => ?_⟩⟩
        exact (each later member).trans (by omega)
  obtain ⟨bound, each⟩ := bounded
  refine ⟨List.replicate (n + bound + 1) ' ', by rw [List.length_replicate]; omega, ?_⟩
  rw [AssetMap.rewritten, get_eq_none, Option.getD_none]
  intro row member same
  have short := each row member
  rw [same, List.length_replicate] at short
  omega

theorem not_rewritten_of_const {write : List Char → List Char} {text : List Char}
    (const : ∀ url, write url = text) :
    ¬ ∃ before after, ∀ url, write url = before ++ assets.rewritten url ++ after := by
  rintro ⟨before, after, each⟩
  obtain ⟨url, long, same⟩ := exists_rewritten_self assets text.length
  have lengths := congrArg List.length ((const url).symm.trans (each url))
  rw [same, List.length_append, List.length_append] at lengths
  omega

/-- Inside an image the state depends on the image's URL in one field only. -/
theorem exists_open_image (inside : (front.foldl (ImageState.step assets) .new).inImage = true) :
    ∃ front' url inner before alt, front = front' ++ .start (.image url) :: inner ∧
      ∀ url, (front' ++ .start (.image url) :: inner).foldl (ImageState.step assets) .new =
        ⟨before, true, url, alt⟩ := by
  induction front using List.reverseRecOn with
  | nil => exact Bool.noConfusion inside
  | append_singleton front event ih =>
      rw [List.foldl_append, List.foldl_cons, List.foldl_nil] at inside
      have extend {more : List Char}
          (kept : (front.foldl (ImageState.step assets) .new).inImage = true)
          (grows : ∀ before url alt, ImageState.step assets ⟨before, true, url, alt⟩ event =
            ⟨before, true, url, alt ++ more⟩) :
          ∃ front' url inner before alt, front ++ [event] = front' ++ .start (.image url) :: inner ∧
            ∀ url, (front' ++ .start (.image url) :: inner).foldl (ImageState.step assets) .new =
              ⟨before, true, url, alt⟩ := by
        obtain ⟨front', url, inner, before, alt, rfl, each⟩ := ih kept
        refine ⟨front', url, inner ++ [event], before, alt ++ more, ?_, fun url => ?_⟩
        · rw [List.append_assoc, List.cons_append]
        · rw [← List.cons_append, ← List.append_assoc, List.foldl_append, each, List.foldl_cons,
            grows, List.foldl_nil]
      have pushed (step : ∀ s : ImageState, s.step assets event =
            if s.inImage then s else s.pushText event) := @extend []
          (by rwa [inImage_of_pushed (step _)] at inside)
          fun before url alt => by rw [step, if_pos rfl, List.append_nil]
      cases view event with
      | openImage url =>
          refine ⟨front, url, [], (front.foldl (ImageState.step assets) .new).result ++ "![".toList,
            [], rfl, fun url => ?_⟩
          rw [List.foldl_append, List.foldl_cons, List.foldl_nil, ImageState.step]
      | closeImage =>
          rw [inImage_closeImage] at inside
          exact Bool.noConfusion inside
      | link url => exact pushed fun s => step_link s url
      | text t =>
          rw [inImage_text] at inside
          refine @extend t inside fun before url alt => ?_
          rw [ImageState.step, if_pos rfl]
      | code t => exact pushed fun s => step_code s t
      | other step _ => exact pushed (step assets)

/-- Where everything is kept the rest of a document is plain. -/
theorem plain_of_survives (survives : Survives assets (front ++ rest)) :
    IsPlain (front.foldl (ImageState.step assets) .new).inImage rest := by
  induction rest generalizing front with
  | nil =>
      refine Bool.eq_false_iff.mpr fun inside => ?_
      obtain ⟨front', url, inner, before, alt, rfl, each⟩ := exists_open_image inside
      have const (url : List Char) : transformImagesAndSerialize assets
          (front' ++ .start (.image url) :: inner) = before := congrArg ImageState.result (each url)
      exact not_rewritten_of_const const (survives.images front' url inner (List.append_nil _))
  | cons event rest ih =>
      have later : IsPlain ((front.foldl (ImageState.step assets) .new).step assets event).inImage
          rest := by
        have whole : Survives assets ((front ++ [event]) ++ rest) := by
          rwa [List.append_assoc, List.singleton_append]
        have behind := ih whole
        rwa [List.foldl_append, List.foldl_cons, List.foldl_nil] at behind
      cases view event with
      | openImage url =>
          refine ⟨Bool.eq_false_iff.mpr fun inside => ?_, later⟩
          obtain ⟨front', url', inner, before, alt, rfl, each⟩ := exists_open_image inside
          have whole : (front' ++ .start (.image url') :: inner) ++ .start (.image url) :: rest =
              front' ++ .start (.image url') :: (inner ++ .start (.image url) :: rest) := by
            rw [List.append_assoc, List.cons_append]
          -- the inner image takes the place of the outer one
          have const (url' : List Char) : transformImagesAndSerialize assets
              (front' ++ .start (.image url') :: (inner ++ .start (.image url) :: rest)) =
                written assets ⟨before ++ "![".toList, true, url, []⟩ rest := by
            rw [← List.cons_append, ← List.append_assoc, transform_append, each, written_cons,
              ImageState.step]
          exact not_rewritten_of_const const (survives.images front' url' _ whole)
      | closeImage =>
          rw [inImage_closeImage] at later
          exact later
      | link url =>
          have const (url' : List Char) : transformImagesAndSerialize assets
              (front ++ .start (.link url') :: rest) = transformImagesAndSerialize assets
                (front ++ .start (.link []) :: rest) := by
            rw [transform_append, transform_append]
            rfl
          exact (not_carries_of_const const (survives.links front url rest rfl)).elim
      | text t =>
          rw [inImage_text] at later
          exact later
      | code t =>
          rw [inImage_of_pushed (step_code _ t)] at later
          refine ⟨Bool.eq_false_iff.mpr fun inside => ?_, later⟩
          have const (t' : List Char) : transformImagesAndSerialize assets
              (front ++ WordKind.code.event t' :: rest) =
                written assets (front.foldl (ImageState.step assets) .new) rest := by
            rw [transform_append, WordKind.event, written_cons, step_code, if_pos inside]
          exact not_carries_of_const const (survives.words front .code t rest rfl)
      | other step same =>
          rw [inImage_of_pushed (step assets _)] at later
          exact (same _ _).mpr later

end Runs

/-- A document that is a link. -/
def linkedHome : List MarkdownEvent :=
  [.start (.link "https://site.test/".toList), .text "Home".toList, .stop .link]

end Webfang.Output
