import Webfang.Output.LinkedNotes

/-!
# Documents that are written alike

The events of the parser say more than `push_event_text` writes: the level of a heading, the number
of a list, the language of a code block are not read, and lists, their items and inline HTML leave
nothing behind.  So no document is told apart from all others by the text it is written as.
-/

namespace Webfang.Output.Cmark

/-! ## Events with all they say -/

inductive HeadingLevel
  | h1 | h2 | h3 | h4 | h5 | h6
  deriving DecidableEq

inductive BlockQuoteKind
  | note | tip | important | warning | caution
  deriving DecidableEq

inductive Alignment
  | none | left | center | right
  deriving DecidableEq

/-- `Tag`, with the fields that the patterns of the serializer leave out. -/
inductive Tag where
  | paragraph
  | heading (level : HeadingLevel)
  | blockQuote (kind : Option BlockQuoteKind)
  /-- fenced with a language, or indented -/
  | codeBlock (language : Option (List Char))
  | htmlBlock
  | list (firstNumber : Option Nat)
  | item
  | footnoteDefinition (label : List Char)
  | definitionList
  | definitionListTitle
  | definitionListDefinition
  | table (alignments : List Alignment)
  | tableHead
  | tableRow
  | tableCell
  | emphasis
  | strong
  | strikethrough
  | superscript
  | subscript
  | link (destUrl title : List Char)
  | image (destUrl title : List Char)
  | metadataBlock
  deriving DecidableEq

/-- `Event`; the end of an element names the tag it closes. -/
inductive Event where
  | start (tag : Tag)
  | stop (tag : Tag)
  | text (s : List Char)
  | code (s : List Char)
  | inlineMath (s : List Char)
  | displayMath (s : List Char)
  | html (s : List Char)
  | inlineHtml (s : List Char)
  | footnoteReference (s : List Char)
  | softBreak
  | hardBreak
  | rule
  | taskListMarker (checked : Bool)
  deriving DecidableEq

/-- What the patterns of the serializer read of a tag. -/
def Tag.read : Tag → Output.Tag
  | .paragraph => .paragraph
  | .heading _ => .heading
  | .blockQuote _ => .blockQuote
  | .codeBlock _ => .codeBlock
  | .list _ => .list
  | .item => .item
  | .footnoteDefinition label => .footnoteDefinition label
  | .table _ => .table
  | .tableRow => .tableRow
  | .tableCell => .tableCell
  | .emphasis => .emphasis
  | .strong => .strong
  | .strikethrough => .strikethrough
  | .link destUrl _ => .link destUrl
  | .image destUrl _ => .image destUrl
  | .metadataBlock => .metadataBlock
  | .htmlBlock | .definitionList | .definitionListTitle | .definitionListDefinition | .tableHead
  | .superscript | .subscript => .unmarked

/-- What they read of the end of an element. -/
def Tag.readEnd : Tag → Output.TagEnd
  | .paragraph => .paragraph
  | .heading _ => .heading
  | .blockQuote _ => .blockQuote
  | .codeBlock _ => .codeBlock
  | .list _ => .list
  | .item => .item
  | .footnoteDefinition _ => .footnoteDefinition
  | .table _ => .table
  | .tableRow => .tableRow
  | .tableCell => .tableCell
  | .emphasis => .emphasis
  | .strong => .strong
  | .strikethrough => .strikethrough
  | .link _ _ => .link
  | .image _ _ => .image
  | .metadataBlock => .metadataBlock
  | .htmlBlock | .definitionList | .definitionListTitle | .definitionListDefinition | .tableHead
  | .superscript | .subscript => .unmarked

def Event.read : Event → MarkdownEvent
  | .start tag => .start tag.read
  | .stop tag => .stop tag.readEnd
  | .text s => .text s
  | .code s => .code s
  | .inlineMath s => .inlineMath s
  | .displayMath s => .displayMath s
  | .html s => .html s
  | .inlineHtml s => .inlineHtml s
  | .footnoteReference s => .footnoteReference s
  | .softBreak => .softBreak
  | .hardBreak => .hardBreak
  | .rule => .rule
  | .taskListMarker checked => .taskListMarker checked

/-- The elements of a document are closed behind what they contain. -/
inductive WellNested : List Event → Prop
  | nil : WellNested []
  | leaf {event : Event} {rest : List Event} :
    (∀ tag, event ≠ .start tag) → (∀ tag, event ≠ .stop tag) → WellNested rest →
    WellNested (event :: rest)
  | element (tag : Tag) {inner rest : List Event} :
    WellNested inner → WellNested rest → WellNested (.start tag :: (inner ++ .stop tag :: rest))

section Fidelity

variable (tools : LinkTools) (baseDomain : List Char)

/-- `transform_and_serialize` of the events. -/
def serialize (events : List Event) : List Char :=
  transformAndSerialize tools (events.map Event.read) baseDomain

/-! ## What is promised -/

/-- No link of a document leads to a page of the same host. -/
def Foreign (events : List Event) : Prop :=
  ∀ destUrl title, .start (.link destUrl title) ∈ events →
    shouldConvertWikilink tools destUrl baseDomain = none

/-- A letter of a text, or any other construct. -/
inductive Sign where
  | letter (c : Char)
  | construct (event : Event)
  deriving DecidableEq

/-- What a document says, up to white space. -/
def signs (events : List Event) : List Sign :=
  events.flatMap fun
    | .text s => (s.filter fun c => !isWhitespace c).map .letter
    | .softBreak | .hardBreak => []
    | event => [.construct event]

/-- The texts of a document. -/
def texts (events : List Event) : List (List Char) :=
  events.filterMap fun
    | .text s | .code s | .html s => some s
    | _ => none

/-- Where its links and images lead, in the order in which they are closed. -/
def destinations (events : List Event) : List (List Char) :=
  events.filterMap fun
    | .stop (.link destUrl _) | .stop (.image destUrl _) => some destUrl
    | _ => none

/-- The parts occur in a text one behind the other. -/
def InOrder : List (List Char) → List Char → Prop
  | [], _ => True
  | part :: parts, text =>
      ∃ before behind, text = before ++ part ++ behind ∧ InOrder parts behind

/-- A document is written unlike all that say something else, with its texts and its destinations
in order. -/
structure Faithful (events : List Event) : Prop where
  told_apart : ∀ other, WellNested other → Foreign tools baseDomain other →
    signs events ≠ signs other → serialize tools baseDomain events ≠ serialize tools baseDomain other
  texts_kept : InOrder (texts events) (serialize tools baseDomain events)
  destinations_kept : InOrder (destinations events) (serialize tools baseDomain events)

end Fidelity

/-! ## Sequences -/

variable {tools : LinkTools} {baseDomain : List Char} {events rest : List Event}

theorem WellNested.append (nested : WellNested events) (behind : WellNested rest) :
    WellNested (events ++ rest) := by
  induction nested with
  | nil => exact behind
  | leaf unopened unclosed _ ih => exact .leaf unopened unclosed ih
  | element tag inner _ _ ih =>
      rw [List.cons_append, List.append_assoc, List.cons_append]
      exact .element tag inner ih

theorem Foreign.append (front : Foreign tools baseDomain events)
    (behind : Foreign tools baseDomain rest) : Foreign tools baseDomain (events ++ rest) :=
  fun destUrl title member =>
    (List.mem_append.mp member).elim (front destUrl title) (behind destUrl title)

/-! ## Constructs that leave nothing behind -/

/-- An event that neither opens nor closes a link or an image. -/
def IsOrdinary : MarkdownEvent → Prop
  | .start (.link _) | .start (.image _) | .stop .link | .stop .image => False
  | _ => True

theorem route_depth (s : Transform) (event : MarkdownEvent) (depth : Int) :
    ({ s with depth := depth } : Transform).route event = { s.route event with depth := depth } := by
  obtain ⟨result, inLink, link, image, before⟩ := s
  cases link with
  | some state => rfl
  | none => cases image <;> rfl

theorem step_start_ordinary {tag : Output.Tag} (ordinary : IsOrdinary (.start tag)) (s : Transform) :
    Transform.step tools baseDomain s (.start tag) =
      if (s.route (.start tag)).link.isSome then
        { s.route (.start tag) with depth := (s.route (.start tag)).depth + 1 }
      else s.route (.start tag) := by
  cases tag with
  | link url | image url => exact ordinary.elim
  | _ => rfl

theorem step_stop_ordinary {tag : TagEnd} (ordinary : IsOrdinary (.stop tag)) (s : Transform) :
    Transform.step tools baseDomain s (.stop tag) =
      (if s.link.isSome ∧ 1 < s.depth then { s with depth := s.depth - 1 } else s).route
        (.stop tag) := by
  cases tag with
  | link | image => exact ordinary.elim
  | _ => rfl

/-- An ordinary event is routed, whatever the depth is afterwards. -/
theorem step_ordinary {event : MarkdownEvent} (ordinary : IsOrdinary event) (s : Transform) :
    ∃ depth, Transform.step tools baseDomain s event = { s.route event with depth := depth } := by
  cases event with
  | start tag =>
      rw [step_start_ordinary ordinary]
      split_ifs
      · exact ⟨_, rfl⟩
      · exact ⟨(s.route (.start tag)).depth, rfl⟩
  | stop tag =>
      rw [step_stop_ordinary ordinary]
      split_ifs
      · exact ⟨s.depth - 1, route_depth s _ _⟩
      · exact ⟨(s.route (.stop tag)).depth, rfl⟩
  | _ => exact ⟨_, rfl⟩

/-- An event without a text does not show where it is routed to. -/
theorem finish_route {event : MarkdownEvent} (silent : eventText event = []) (s : Transform)
    (depth : Int) : ({ s.route event with depth := depth } : Transform).finish = s.finish := by
  obtain ⟨result, inLink, link, image, before⟩ := s
  cases link with
  | some state =>
      simp only [Transform.route, Transform.finish, LinkState.push, List.flatMap_append,
        List.flatMap_singleton, silent, List.append_nil]
  | none =>
      cases image with
      | some image => simp only [Transform.route, Transform.finish, silent, List.append_nil]
      | none =>
          simp only [Transform.route, Transform.pushText, Transform.finish, silent, List.append_nil]

theorem finish_step {event : MarkdownEvent} (ordinary : IsOrdinary event)
    (silent : eventText event = []) (s : Transform) :
    (Transform.step tools baseDomain s event).finish = s.finish := by
  obtain ⟨depth, step⟩ := step_ordinary ordinary s
  rw [step, finish_route silent]

/-- Behind a document such events are not seen. -/
theorem serialize_append_silent {silent : List Event}
    (each : ∀ event ∈ silent, IsOrdinary event.read ∧ eventText event.read = []) :
    serialize tools baseDomain (events ++ silent) = serialize tools baseDomain events := by
  rw [serialize, serialize, transformAndSerialize, transformAndSerialize, List.map_append,
    List.foldl_append]
  generalize (events.map Event.read).foldl (Transform.step tools baseDomain) .new = s
  induction silent generalizing s with
  | nil => rfl
  | cons event silent ih =>
      obtain ⟨here, later⟩ := List.forall_mem_cons.mp each
      rw [List.map_cons, List.foldl_cons, ih later, finish_step here.1 here.2]

/-- A list with one item and nothing in it. -/
def emptyItem : List Event :=
  [.start (.list none), .start .item, .stop .item, .stop (.list none)]

theorem wellNested_emptyItem : WellNested emptyItem :=
  have item : WellNested [.start .item, .stop .item] := .element .item .nil .nil
  .element (.list none) item .nil

/-- A document that is a heading. -/
def titled (level : HeadingLevel) : List Event :=
  [.start (.heading level), .text "Title".toList, .stop (.heading level)]

theorem wellNested_titled (level : HeadingLevel) : WellNested (titled level) :=
  have title : WellNested [.text "Title".toList] :=
    .leaf (fun _ => Event.noConfusion) (fun _ => Event.noConfusion) .nil
  .element (.heading level) title .nil

theorem foreign_titled (level : HeadingLevel) :
    Foreign siteLinks "site.test".toList (titled level) := by
  intro destUrl title member
  simp [titled] at member

end Webfang.Output.Cmark
