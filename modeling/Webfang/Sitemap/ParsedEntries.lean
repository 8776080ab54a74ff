import Webfang.Sitemap.SitemapParser

/-!
# The entries of a sitemap

What a sitemap document says, element by element, and what the parser makes of the events that the
reader reports for it.  A text with references or CDATA sections in it is reported in pieces, and
each piece replaces what was read of the ones before; the parser recovers the entries exactly where
the last piece that is understood stands for the whole (`parseSitemapCore_recovers_iff`).
-/

namespace Webfang

namespace Sitemap

/-! ## Documents -/

/-- A piece of the text of an element. -/
inductive Piece
  | text (chars : List Char)
  /-- an entity or character reference, and what it stands for -/
  | reference (name value : List Char)
  | cdata (chars : List Char)

/-- The text that a piece stands for. -/
def Piece.value : Piece → List Char
  | .text chars => chars
  | .reference _ value => value
  | .cdata chars => chars

def Piece.event : Piece → Event
  | .text chars => .text (.ok chars)
  | .reference name _ => .generalRef name
  | .cdata chars => .cdata chars

/-- An element with text in it. -/
inductive Content
  | written (pieces : List Piece)
  | selfClosing

def Content.pieces : Content → List Piece
  | .written pieces => pieces
  | .selfClosing => []

/-- The complete unescaped text. -/
def Content.whole (content : Content) : List Char := content.pieces.flatMap Piece.value

def Content.events (name : Tag) : Content → List Event
  | .written pieces => .start name :: pieces.map Piece.event ++ [.finish name]
  | .selfClosing => [.empty name]

/-- Events that open and close no element. -/
def Event.IsBare : Event → Prop
  | .start _ | .finish _ => False
  | .empty _ | .text _ | .cdata _ | .generalRef _ | .other => True

/-- Events of elements that are not those of a sitemap, and of the text around elements. -/
def Event.IsForeign : Event → Prop
  | .start (.other _) | .finish (.other _) => True
  | event => event.IsBare

/-- A part of a `url` element. -/
inductive Item
  | loc (content : Content)
  | lastmod (content : Content)
  | priority (content : Content)
  | changefreq (content : Content)
  | foreign (event : {e : Event // e.IsForeign})

def Item.events : Item → List Event
  | .loc content => content.events .loc
  | .lastmod content => content.events .lastmod
  | .priority content => content.events .priority
  | .changefreq content => content.events .changefreq
  | .foreign event => [event.val]

def Item.loc? : Item → Option Content
  | .loc content => some content
  | _ => none

def Item.lastmod? : Item → Option Content
  | .lastmod content => some content
  | _ => none

def Item.priority? : Item → Option Content
  | .priority content => some content
  | _ => none

def Item.changefreq? : Item → Option Content
  | .changefreq content => some content
  | _ => none

/-- A `url` element: one `loc` and at most one of each other element, in any order. -/
structure Entry where
  items : List Item
  loc : Content
  lastmod : Option Content
  priority : Option Content
  changefreq : Option Content
  loc_eq : items.filterMap Item.loc? = [loc]
  lastmod_eq : items.filterMap Item.lastmod? = lastmod.toList
  priority_eq : items.filterMap Item.priority? = priority.toList
  changefreq_eq : items.filterMap Item.changefreq? = changefreq.toList

def Entry.events (e : Entry) : List Event :=
  .start .url :: e.items.flatMap Item.events ++ [.finish .url]

/-- A part of a `urlset` element. -/
inductive Node
  | entry (e : Entry)
  | foreign (event : {e : Event // e.IsForeign})

def Node.events : Node → List Event
  | .entry e => e.events
  | .foreign event => [event.val]

def Node.asEntry : Node → Option Entry
  | .entry e => some e
  | .foreign _ => none

/-- A sitemap document: what comes before the root element, its parts, and what comes behind. -/
structure SitemapDocument where
  prolog : List {e : Event // e.IsBare}
  /-- whether the root is an element without parts that closes itself -/
  selfClosing : Bool
  nodes : List Node
  epilog : List {e : Event // e.IsBare}
  nodes_eq : selfClosing → nodes = []

def SitemapDocument.entries (document : SitemapDocument) : List Entry :=
  document.nodes.filterMap Node.asEntry

def SitemapDocument.root (document : SitemapDocument) : List Event :=
  if document.selfClosing then [.empty .urlset]
  else .start .urlset :: document.nodes.flatMap Node.events ++ [.finish .urlset]

def SitemapDocument.events (document : SitemapDocument) : List Event :=
  document.prolog.map (·.val) ++ document.root ++ document.epilog.map (·.val)

/-- The document down to its first parts. -/
def SitemapDocument.take (document : SitemapDocument) (n : Nat) : SitemapDocument :=
  { document with
    nodes := document.nodes.take n
    nodes_eq := fun closing => by rw [document.nodes_eq closing, List.take_nil] }

/-! ## What an entry says, and what is read of it -/

/-- What is read of the whole text of an element; nothing of one without text. -/
def Content.readWhole {β : Type} (read : List Char → Option β) (content : Content) : Option β :=
  match content.pieces with
  | [] => none
  | _ :: _ => read content.whole

/-- What is read of the last piece that can be read. -/
def Content.readLast {β : Type} (chars? : Piece → Option (List Char))
    (read : List Char → Option β) (content : Content) : Option β :=
  (content.pieces.filterMap fun piece => (chars? piece).bind read).getLast?

/-- The pieces that are looked at in `loc`. -/
def Piece.chars? : Piece → Option (List Char)
  | .text chars | .cdata chars => some chars
  | .reference _ _ => none

/-- The pieces that are looked at in the other elements. -/
def Piece.text? : Piece → Option (List Char)
  | .text chars => some chars
  | .reference _ _ | .cdata _ => none

section Entries

variable {υ : Type} (tools : ParserTools υ) (base : υ) (validator : Validator υ)

/-- The URL of a text that resolves and is valid. -/
def locOf (text : List Char) : Option υ := readLoc tools base validator text none

def trimmed (text : List Char) : Option (List Char) := some (Http.Response.trim text)

/-- The entry that an element stands for, by its complete texts. -/
def Entry.stated (e : Entry) : Option (SitemapUrl υ (List Char)) :=
  (e.loc.readWhole (locOf tools base validator)).map fun url =>
    { url
      lastmod := e.lastmod.bind (Content.readWhole trimmed)
      priority := e.priority.bind (Content.readWhole (readPriority tools))
      changefreq := e.changefreq.bind (Content.readWhole trimmed) }

/-- The entry that is read of an element, by the last of their pieces. -/
def Entry.read (e : Entry) : Option (SitemapUrl υ (List Char)) :=
  (e.loc.readLast Piece.chars? (locOf tools base validator)).map fun url =>
    { url
      lastmod := e.lastmod.bind (Content.readLast Piece.text? trimmed)
      priority := e.priority.bind (Content.readLast Piece.text? (readPriority tools))
      changefreq := e.changefreq.bind (Content.readLast Piece.text? trimmed) }

/-- The last pieces that can be read stand for the whole texts. -/
structure Entry.LastStandsForWhole (e : Entry) : Prop where
  loc : e.loc.readLast Piece.chars? (locOf tools base validator) =
    e.loc.readWhole (locOf tools base validator)
  -- the other elements count where there is a URL
  lastmod : (e.loc.readWhole (locOf tools base validator)).isSome → ∀ content ∈ e.lastmod,
    content.readLast Piece.text? trimmed = content.readWhole trimmed
  priority : (e.loc.readWhole (locOf tools base validator)).isSome → ∀ content ∈ e.priority,
    content.readLast Piece.text? (readPriority tools) = content.readWhole (readPriority tools)
  changefreq : (e.loc.readWhole (locOf tools base validator)).isSome → ∀ content ∈ e.changefreq,
    content.readLast Piece.text? trimmed = content.readWhole trimmed

/-- An element without text, or with its text in one piece. -/
def Content.IsPlain (content : Content) : Prop :=
  content.pieces = [] ∨ ∃ chars, content.pieces = [.text chars]

/-- A text in one piece is read as a whole. -/
theorem Content.IsPlain.readLast_eq {β : Type} {content : Content} (plain : content.IsPlain)
    {chars? : Piece → Option (List Char)} (looked : ∀ chars, chars? (.text chars) = some chars)
    (read : List Char → Option β) : content.readLast chars? read = content.readWhole read := by
  rw [readLast, readWhole, whole]
  rcases plain with none | ⟨chars, one⟩
  · rw [none]
    rfl
  · rw [one, List.filterMap_cons, looked, Option.bind_some]
    have single : [Piece.text chars].flatMap Piece.value = chars := List.append_nil _
    rw [single]
    cases read chars <;> rfl

/-- Elements whose texts come in one piece. -/
theorem Entry.lastStandsForWhole_of_plain {e : Entry} (loc : e.loc.IsPlain)
    (lastmod : ∀ content ∈ e.lastmod, content.IsPlain)
    (priority : ∀ content ∈ e.priority, content.IsPlain)
    (changefreq : ∀ content ∈ e.changefreq, content.IsPlain) :
    e.LastStandsForWhole tools base validator where
  loc := loc.readLast_eq (fun _ => rfl) _
  lastmod := fun _ content mem => (lastmod content mem).readLast_eq (fun _ => rfl) _
  priority := fun _ content mem => (priority content mem).readLast_eq (fun _ => rfl) _
  changefreq := fun _ content mem => (changefreq content mem).readLast_eq (fun _ => rfl) _

variable {tools base validator}

theorem bind_eq_bind_iff {β : Type} {o : Option Content} {f g : Content → Option β} :
    o.bind f = o.bind g ↔ ∀ content ∈ o, f content = g content := by
  cases o with
  | none => exact iff_of_true rfl fun content mem => nomatch mem
  | some content =>
      constructor
      · intro same other mem
        rw [← Option.mem_some.mp mem]
        exact same
      · intro same
        exact same content rfl

/-- What is read of an element is what it states exactly where the last pieces stand for the
whole. -/
theorem Entry.read_eq_stated_iff (e : Entry) :
    e.read tools base validator = e.stated tools base validator ↔
      e.LastStandsForWhole tools base validator := by
  rw [read, stated]
  constructor
  · intro same
    have urls := congrArg (Option.map SitemapUrl.url) same
    rw [Option.map_map, Option.map_map] at urls
    have loc : e.loc.readLast Piece.chars? (locOf tools base validator) =
        e.loc.readWhole (locOf tools base validator) := by
      simpa [Function.comp_def] using urls
    rw [loc] at same
    cases stated : e.loc.readWhole (locOf tools base validator) with
    | none =>
        exact {
          loc := loc
          lastmod := fun some => by rw [stated] at some; cases some
          priority := fun some => by rw [stated] at some; cases some
          changefreq := fun some => by rw [stated] at some; cases some }
    | some url =>
        rw [stated, Option.map_some, Option.map_some, Option.some.injEq,
          SitemapUrl.mk.injEq] at same
        exact {
          loc := loc
          lastmod := fun _ => bind_eq_bind_iff.mp same.2.1
          priority := fun _ => bind_eq_bind_iff.mp same.2.2.1
          changefreq := fun _ => bind_eq_bind_iff.mp same.2.2.2 }
  · intro whole
    rw [whole.loc]
    cases stated : e.loc.readWhole (locOf tools base validator) with
    | none => rfl
    | some url =>
        have some : (e.loc.readWhole (locOf tools base validator)).isSome := by rw [stated]; rfl
        rw [Option.map_some, Option.map_some, bind_eq_bind_iff.mpr (whole.lastmod some),
          bind_eq_bind_iff.mpr (whole.priority some), bind_eq_bind_iff.mpr (whole.changefreq some)]

end Entries

/-! ## Reading the events -/

section Reading

variable {υ : Type} (tools : ParserTools υ) (base : υ) (handleSitemapIndex : Bool)
  (validator : Validator υ)

/-- The parser gets from a state to another by well-formed events. -/
def Reads (s : ParserState υ) (events : List Event) (t : ParserState υ) : Prop :=
  readEvents tools base handleSitemapIndex validator s (events.map .ok) = .ok t

/-- A state in a `urlset` element. -/
def within (urls : List (SitemapUrl υ (List Char))) (flags : Flags) (current : Current υ) :
    ParserState υ where
  urls := urls
  rootTag := if handleSitemapIndex then some .urlset else none
  isIndex := false
  sawElement := true
  flags := flags
  current := current

/-- In a `url` element, between its parts. -/
def Flags.url : Flags := { Flags.none with inUrl := true }

variable {tools base handleSitemapIndex validator}

theorem Reads.nil (s : ParserState υ) : Reads tools base handleSitemapIndex validator s [] s := rfl

theorem Reads.append {s t u : ParserState υ} {events events' : List Event}
    (first : Reads tools base handleSitemapIndex validator s events t)
    (second : Reads tools base handleSitemapIndex validator t events' u) :
    Reads tools base handleSitemapIndex validator s (events ++ events') u := by
  induction events generalizing s with
  | nil =>
      have same : s = t := Except.ok.inj first
      rw [same]
      exact second
  | cons event events ih =>
      unfold Reads at first ⊢
      rw [List.map_cons, readEvents] at first
      rw [List.cons_append, List.map_cons, readEvents]
      cases step : onEvent tools base handleSitemapIndex validator s event with
      | error e =>
          rw [step] at first
          cases first
      | ok next =>
          rw [step] at first
          exact ih first

theorem Reads.single {s t : ParserState υ} {event : Event}
    (step : onEvent tools base handleSitemapIndex validator s event = .ok t) :
    Reads tools base handleSitemapIndex validator s [event] t := by
  unfold Reads
  rw [List.map_singleton, readEvents, step]
  rfl

variable {urls : List (SitemapUrl υ (List Char))} {flags : Flags} {current : Current υ}

/-- The root element is classified once. -/
theorem onEvent_start (name : Tag) :
    onEvent tools base handleSitemapIndex validator
        (within handleSitemapIndex urls flags current) (.start name) =
      .ok (onStart handleSitemapIndex name (within handleSitemapIndex urls flags current)) := by
  cases handleSitemapIndex <;> rfl

theorem onText_none (decoded : Except (List Char) (List Char)) :
    onText tools base validator decoded (within handleSitemapIndex urls .none current) =
      .ok (within handleSitemapIndex urls .none current) := by
  cases decoded <;> rfl

theorem onText_url (decoded : Except (List Char) (List Char)) :
    onText tools base validator decoded (within handleSitemapIndex urls .url current) =
      .ok (within handleSitemapIndex urls .url current) := by
  cases decoded <;> rfl

/-- Foreign events are skipped around the entries and in them. -/
theorem reads_foreign {event : Event} (foreign : event.IsForeign)
    (outside : flags = .none ∨ flags = .url) :
    Reads tools base handleSitemapIndex validator (within handleSitemapIndex urls flags current)
      [event] (within handleSitemapIndex urls flags current) := by
  apply Reads.single
  cases event with
  | start name =>
      cases name with
      | other name => exact onEvent_start _
      | _ => exact foreign.elim
  | finish name =>
      cases name with
      | other name => rfl
      | _ => exact foreign.elim
  | text decoded =>
      cases outside with
      | inl none => rw [none]; exact onText_none decoded
      | inr url => rw [url]; exact onText_url decoded
  | cdata lossy =>
      cases outside with
      | inl none => rw [none]; rfl
      | inr url => rw [url]; rfl
  | empty name => rfl
  | generalRef name => rfl
  | other => rfl

theorem readLoc_eq (text : List Char) (currentUrl : Option υ) :
    readLoc tools base validator text currentUrl =
      (locOf tools base validator text).or currentUrl := by
  rw [locOf, readLoc, readLoc]
  cases resolveUrl tools base (Http.Response.trim text) with
  | none => rfl
  | some url =>
      cases validator with
      | none => rfl
      | some filterInvalidPatterns =>
          simp only [applyUrlValidation]
          cases filterInvalidPatterns url <;> rfl

/-- Of values that replace one another the last is left. -/
theorem getLast?_filterMap_cons {α β : Type} (read : α → Option β) (a : α) (l : List α)
    (b : Option β) :
    ((a :: l).filterMap read).getLast?.or b = (l.filterMap read).getLast?.or ((read a).or b) := by
  rw [List.filterMap_cons]
  cases read a with
  | none => rfl
  | some value =>
      rw [List.getLast?_cons]
      cases (l.filterMap read).getLast? <;> rfl

theorem getLast?_filterMap_toList {α β : Type} (read : α → Option β) (o : Option α) :
    (o.toList.filterMap read).getLast? = o.bind read := by
  cases o with
  | none => rfl
  | some a =>
      rw [Option.toList_some, List.filterMap_cons, Option.bind_some]
      cases read a <;> rfl

/-- Pieces that replace one another: the last one that is read is left. -/
theorem foldl_write {β : Type} {get : Current υ → Option β}
    {set : Current υ → Option β → Current υ} (set_get : ∀ current, set current (get current) = current)
    (get_set : ∀ current a, get (set current a) = a)
    (set_set : ∀ current a b, set (set current a) b = set current b)
    (read : Piece → Option β) (pieces : List Piece) (current : Current υ) :
    pieces.foldl (fun current piece => set current ((read piece).or (get current))) current =
      set current ((pieces.filterMap read).getLast?.or (get current)) := by
  induction pieces generalizing current with
  | nil => exact (set_get current).symm
  | cons piece pieces ih =>
      rw [List.foldl_cons, ih, get_set, set_set, getLast?_filterMap_cons]

/-- An element is opened, its pieces are read one by one, and it is closed. -/
theorem reads_element {β : Type} (get : Current υ → Option β)
    (set : Current υ → Option β → Current υ) (set_get : ∀ current, set current (get current) = current)
    (get_set : ∀ current a, get (set current a) = a)
    (set_set : ∀ current a b, set (set current a) b = set current b)
    {name : Tag} (inside : Flags) {read : Piece → Option β}
    (opens : ∀ current, onStart handleSitemapIndex name
      (within handleSitemapIndex urls .url current) = within handleSitemapIndex urls inside current)
    (reads : ∀ current piece, onEvent tools base handleSitemapIndex validator
      (within handleSitemapIndex urls inside current) (Piece.event piece) =
        .ok (within handleSitemapIndex urls inside
          (set current ((read piece).or (get current)))))
    (closes : ∀ current, onEnd handleSitemapIndex name
      (within handleSitemapIndex urls inside current) = within handleSitemapIndex urls .url current)
    (content : Content) (current : Current υ) :
    Reads tools base handleSitemapIndex validator (within handleSitemapIndex urls .url current)
      (content.events name)
      (within handleSitemapIndex urls .url
        (set current ((content.pieces.filterMap read).getLast?.or (get current)))) := by
  rw [← foldl_write set_get get_set set_set]
  cases content with
  | selfClosing => exact Reads.single rfl
  | written pieces =>
      have start : onEvent tools base handleSitemapIndex validator
          (within handleSitemapIndex urls .url current) (.start name) =
          .ok (within handleSitemapIndex urls inside current) := by
        rw [onEvent_start, opens]
      have between : ∀ current, Reads tools base handleSitemapIndex validator
          (within handleSitemapIndex urls inside current) (pieces.map Piece.event)
          (within handleSitemapIndex urls inside
            (pieces.foldl (fun current piece => set current ((read piece).or (get current)))
              current)) := by
        induction pieces with
        | nil => exact fun current => Reads.nil _
        | cons piece pieces ih =>
            intro current
            exact (Reads.single (reads current piece)).append (ih _)
      exact (Reads.single start).append
        ((between current).append (Reads.single (congrArg Except.ok (closes _))))

/-- What the parser keeps of a part of an entry. -/
def Item.write (tools : ParserTools υ) (base : υ) (validator : Validator υ) (current : Current υ) :
    Item → Current υ
  | .loc content =>
      { current with
        url := (content.readLast Piece.chars? (locOf tools base validator)).or current.url }
  | .lastmod content =>
      { current with lastmod := (content.readLast Piece.text? trimmed).or current.lastmod }
  | .priority content =>
      { current with
        priority := (content.readLast Piece.text? (readPriority tools)).or current.priority }
  | .changefreq content =>
      { current with changefreq := (content.readLast Piece.text? trimmed).or current.changefreq }
  | .foreign _ => current

theorem reads_item (item : Item) (current : Current υ) :
    Reads tools base handleSitemapIndex validator (within handleSitemapIndex urls .url current)
      item.events
      (within handleSitemapIndex urls .url (item.write tools base validator current)) := by
  cases item with
  | loc content =>
      refine reads_element Current.url (fun current url => { current with url }) (fun _ => rfl)
        (fun _ _ => rfl) (fun _ _ _ => rfl) { Flags.url with inLoc := true } (fun _ => rfl) ?_
        (fun _ => rfl) content current
      intro current piece
      cases piece with
      | text chars => rw [Piece.chars?, Option.bind_some, ← readLoc_eq]; rfl
      | reference name value => rfl
      | cdata chars => rw [Piece.chars?, Option.bind_some, ← readLoc_eq]; rfl
  | lastmod content =>
      refine reads_element Current.lastmod (fun current lastmod => { current with lastmod })
        (fun _ => rfl) (fun _ _ => rfl) (fun _ _ _ => rfl) { Flags.url with inLastmod := true }
        (fun _ => rfl) ?_ (fun _ => rfl) content current
      intro current piece
      cases piece <;> rfl
  | priority content =>
      refine reads_element Current.priority (fun current priority => { current with priority })
        (fun _ => rfl) (fun _ _ => rfl) (fun _ _ _ => rfl) { Flags.url with inPriority := true }
        (fun _ => rfl) ?_ (fun _ => rfl) content current
      intro current piece
      cases piece <;> rfl
  | changefreq content =>
      refine reads_element Current.changefreq (fun current changefreq => { current with changefreq })
        (fun _ => rfl) (fun _ _ => rfl) (fun _ _ _ => rfl) { Flags.url with inChangefreq := true }
        (fun _ => rfl) ?_ (fun _ => rfl) content current
      intro current piece
      cases piece <;> rfl
  | foreign event => exact reads_foreign event.property (.inr rfl)

theorem reads_items (items : List Item) (current : Current υ) :
    Reads tools base handleSitemapIndex validator (within handleSitemapIndex urls .url current)
      (items.flatMap Item.events)
      (within handleSitemapIndex urls .url
        (items.foldl (Item.write tools base validator) current)) := by
  induction items generalizing current with
  | nil => exact Reads.nil _
  | cons item items ih => exact (reads_item item current).append (ih _)

/-- What is kept of one kind of part. -/
theorem foldl_write_field {β : Type} {get : Current υ → Option β} {select : Item → Option Content}
    {read : Content → Option β}
    (step : ∀ current item, get (Item.write tools base validator current item) =
      ((select item).bind read).or (get current)) {items : List Item} {content : Option Content}
    (one : items.filterMap select = content.toList) (current : Current υ) :
    get (items.foldl (Item.write tools base validator) current) =
      (content.bind read).or (get current) := by
  have fold : ∀ current, get (items.foldl (Item.write tools base validator) current) =
      (items.filterMap fun item => (select item).bind read).getLast?.or (get current) := by
    clear one
    induction items with
    | nil => exact fun _ => rfl
    | cons item items ih =>
        intro current
        rw [List.foldl_cons, getLast?_filterMap_cons, ← step]
        exact ih _
  rw [fold, ← List.filterMap_filterMap, one, getLast?_filterMap_toList]

/-- At the end of a `url` element stands what is read of the last pieces. -/
theorem Entry.read_eq (e : Entry) :
    (e.items.foldl (Item.write tools base validator) .empty).asEntry =
      e.read tools base validator := by
  have url : (e.items.foldl (Item.write tools base validator) .empty).url =
      ((some e.loc).bind (Content.readLast Piece.chars? (locOf tools base validator))).or none :=
    foldl_write_field (fun current item => by cases item <;> rfl) e.loc_eq .empty
  have lastmod : (e.items.foldl (Item.write tools base validator) .empty).lastmod =
      (e.lastmod.bind (Content.readLast Piece.text? trimmed)).or none :=
    foldl_write_field (fun current item => by cases item <;> rfl) e.lastmod_eq .empty
  have priority : (e.items.foldl (Item.write tools base validator) .empty).priority =
      (e.priority.bind (Content.readLast Piece.text? (readPriority tools))).or none :=
    foldl_write_field (fun current item => by cases item <;> rfl) e.priority_eq .empty
  have changefreq : (e.items.foldl (Item.write tools base validator) .empty).changefreq =
      (e.changefreq.bind (Content.readLast Piece.text? trimmed)).or none :=
    foldl_write_field (fun current item => by cases item <;> rfl) e.changefreq_eq .empty
  rw [Current.asEntry, url, lastmod, priority, changefreq, Option.or_none, Option.or_none,
    Option.or_none, Option.or_none]
  rfl

theorem reads_entry (e : Entry) (urls : List (SitemapUrl υ (List Char))) (current : Current υ) :
    ∃ current', Reads tools base handleSitemapIndex validator
      (within handleSitemapIndex urls .none current) e.events
      (within handleSitemapIndex (urls ++ (e.read tools base validator).toList) .none current') := by
  refine ⟨e.items.foldl (Item.write tools base validator) .empty, ?_⟩
  rw [← Entry.read_eq]
  have start : onEvent tools base handleSitemapIndex validator
      (within handleSitemapIndex urls .none current) (.start .url) =
      .ok (within handleSitemapIndex urls .url .empty) := by
    rw [onEvent_start]
    rfl
  exact (Reads.single start).append ((reads_items e.items .empty).append (Reads.single rfl))

/-- The entries are read one after the other. -/
theorem reads_nodes (nodes : List Node) (urls : List (SitemapUrl υ (List Char)))
    (current : Current υ) :
    ∃ current', Reads tools base handleSitemapIndex validator
      (within handleSitemapIndex urls .none current) (nodes.flatMap Node.events)
      (within handleSitemapIndex
        (urls ++ (nodes.filterMap Node.asEntry).filterMap (Entry.read tools base validator))
        .none current') := by
  induction nodes generalizing urls current with
  | nil =>
      refine ⟨current, ?_⟩
      rw [List.filterMap_nil, List.filterMap_nil, List.append_nil]
      exact Reads.nil _
  | cons node nodes ih =>
      cases node with
      | foreign event =>
          obtain ⟨current', rest⟩ := ih urls current
          exact ⟨current', (reads_foreign event.property (.inl rfl)).append rest⟩
      | entry e =>
          obtain ⟨between, first⟩ := reads_entry e urls current
          obtain ⟨current', rest⟩ := ih (urls ++ (e.read tools base validator).toList) between
          refine ⟨current', ?_⟩
          have one : (Node.entry e :: nodes).filterMap Node.asEntry =
              e :: nodes.filterMap Node.asEntry := rfl
          have split : (e :: nodes.filterMap Node.asEntry).filterMap
              (Entry.read tools base validator) = (e.read tools base validator).toList ++
                (nodes.filterMap Node.asEntry).filterMap (Entry.read tools base validator) := by
            rw [List.filterMap_cons]
            cases e.read tools base validator <;> rfl
          rw [one, split, ← List.append_assoc]
          exact first.append rest

theorem reads_bare {s : ParserState υ} (outside : s.flags = .none)
    (events : List {e : Event // e.IsBare}) :
    Reads tools base handleSitemapIndex validator s (events.map (·.val)) s := by
  induction events with
  | nil => exact Reads.nil _
  | cons event events ih =>
      refine (Reads.single ?_).append ih
      obtain ⟨event, bare⟩ := event
      cases event with
      | start name => exact bare.elim
      | finish name => exact bare.elim
      | text decoded =>
          simp only [onEvent, onText, outside, Flags.none]
          cases decoded <;> rfl
      | cdata lossy =>
          simp only [onEvent, onCData, outside, Flags.none]
          rfl
      | empty name => rfl
      | generalRef name => rfl
      | other => rfl

end Reading

section Documents

variable {υ : Type} {tools : ParserTools υ} {base : υ} {handleSitemapIndex : Bool}
  {validator : Validator υ}

/-- What the parser returns of a document. -/
theorem parseSitemapCore_document (document : SitemapDocument) :
    parseSitemapCore tools base handleSitemapIndex validator (document.events.map .ok) =
      if document.selfClosing then .error .invalidStructure
      else .ok (document.entries.filterMap (Entry.read tools base validator), false) := by
  have prolog : Reads tools base handleSitemapIndex validator .initial
      (document.prolog.map (·.val)) .initial := reads_bare rfl document.prolog
  rw [SitemapDocument.events, SitemapDocument.root, parseSitemapCore]
  by_cases closing : document.selfClosing
  · rw [if_pos closing, if_pos closing]
    have root : Reads tools base handleSitemapIndex validator .initial [.empty .urlset] .initial :=
      Reads.single rfl
    have whole := (prolog.append root).append (reads_bare rfl document.epilog)
    unfold Reads at whole
    rw [whole]
    rfl
  · rw [if_neg closing, if_neg closing]
    have start : Reads tools base handleSitemapIndex validator .initial [.start .urlset]
        (within handleSitemapIndex [] .none .empty) := by
      apply Reads.single
      cases handleSitemapIndex <;> rfl
    have nodes : ∃ current, Reads tools base handleSitemapIndex validator
        (within handleSitemapIndex [] .none .empty) (document.nodes.flatMap Node.events)
        (within handleSitemapIndex
          (document.entries.filterMap (Entry.read tools base validator)) .none current) :=
      reads_nodes document.nodes [] .empty
    obtain ⟨current, nodes⟩ := nodes
    have finish : Reads tools base handleSitemapIndex validator
        (within handleSitemapIndex (document.entries.filterMap (Entry.read tools base validator))
          .none current) [.finish .urlset]
        (within handleSitemapIndex (document.entries.filterMap (Entry.read tools base validator))
          .none current) := Reads.single rfl
    have root := start.append (nodes.append finish)
    have whole := (prolog.append root).append (reads_bare rfl document.epilog)
    unfold Reads at whole
    rw [List.singleton_append, ← List.cons_append] at whole
    rw [whole]
    rfl

theorem entries_take (document : SitemapDocument) (n : Nat) :
    (document.take n).entries = (document.nodes.take n).filterMap Node.asEntry := rfl

theorem parseSitemapCore_take {document : SitemapDocument} (opened : document.selfClosing = false)
    (n : Nat) :
    parseSitemapCore tools base handleSitemapIndex validator ((document.take n).events.map .ok) =
      .ok ((document.take n).entries.filterMap (Entry.read tools base validator), false) := by
  rw [parseSitemapCore_document, if_neg]
  intro closing
  exact Bool.false_ne_true (opened.symm.trans closing)

/-! ## The law -/

/-- As far as a document has been read, the parser has the entries that it states, in order. -/
def Recovers (tools : ParserTools υ) (base : υ) (handleSitemapIndex : Bool)
    (validator : Validator υ) (document : SitemapDocument) : Prop :=
  ∀ n, parseSitemapCore tools base handleSitemapIndex validator
      ((document.take n).events.map .ok) =
    .ok ((document.take n).entries.filterMap (Entry.stated tools base validator), false)

theorem filterMap_concat {α β : Type} (f : α → Option β) (l : List α) (a : α) :
    (l ++ [a]).filterMap f = l.filterMap f ++ (f a).toList := by
  rw [List.filterMap_append]
  cases h : f a with
  | none => rw [List.filterMap_cons_none h]; rfl
  | some b => rw [List.filterMap_cons_some h]; rfl

theorem toList_inj {α : Type} {a b : Option α} (same : a.toList = b.toList) : a = b := by
  cases a <;> cases b <;> simp_all

/-- The entries of a document are recovered exactly when its root element has an end tag and the
last pieces of the texts that can be read stand for the whole texts. -/
theorem parseSitemapCore_recovers_iff (document : SitemapDocument) :
    Recovers tools base handleSitemapIndex validator document ↔
      document.selfClosing = false ∧
        ∀ e ∈ document.entries, e.LastStandsForWhole tools base validator := by
  constructor
  · intro recovers
    have opened : document.selfClosing = false := by
      have law := recovers 0
      rw [parseSitemapCore_document] at law
      cases closing : document.selfClosing with
      | false => rfl
      | true =>
          have closing' : (document.take 0).selfClosing = true := closing
          rw [if_pos closing'] at law
          cases law
    refine ⟨opened, ?_⟩
    intro e known
    obtain ⟨node, mem, stands⟩ := List.mem_filterMap.mp known
    obtain ⟨before, after, split⟩ := List.append_of_mem mem
    have law : ∀ n, (document.take n).entries.filterMap (Entry.read tools base validator) =
        (document.take n).entries.filterMap (Entry.stated tools base validator) := by
      intro n
      have law := recovers n
      rw [parseSitemapCore_take opened, Except.ok.injEq, Prod.mk.injEq] at law
      exact law.1
    have shorter : (document.take before.length).entries = before.filterMap Node.asEntry := by
      rw [entries_take, split, List.take_left]
    have longer : (document.take (before.length + 1)).entries =
        before.filterMap Node.asEntry ++ [e] := by
      rw [entries_take, split, List.append_cons,
        List.take_left' (by rw [List.length_append, List.length_singleton]), filterMap_concat,
        stands]
      rfl
    have earlier := law before.length
    have later := law (before.length + 1)
    rw [shorter] at earlier
    rw [longer, filterMap_concat, filterMap_concat, earlier, List.append_cancel_left_eq] at later
    exact e.read_eq_stated_iff.mp (toList_inj later)
  · intro ⟨opened, whole⟩ n
    rw [parseSitemapCore_take opened]
    have same : (document.take n).entries.filterMap (Entry.read tools base validator) =
        (document.take n).entries.filterMap (Entry.stated tools base validator) := by
      apply List.filterMap_congr
      intro e mem
      apply e.read_eq_stated_iff.mpr
      apply whole e
      exact ((List.take_sublist n document.nodes).filterMap Node.asEntry).mem mem
    rw [same]

end Documents

/-- URLs of one host, which are their texts. -/
def sampleTools : ParserTools (List Char) where
  parse text := if "https://a.b/".toList.isPrefixOf text then some text else none
  scheme _ := "https".toList
  beforePath _ := "https://a.b".toList
  path text := (text.drop 11).takeWhile (· ≠ '?')
  afterPath text := text.dropWhile (· ≠ '?')
  setPath text path := "https://a.b".toList ++ path ++ text.dropWhile (· ≠ '?')
  toString text := text
  hostStr _ := some "a.b".toList
  join _ text := some ("https://a.b/".toList ++ text)
  toLowercase text := text.map Char.toLower
  parseF32 _ := none

/-- `https://a.b/?x=1&amp;y=2` -/
def escapedLoc : Content :=
  .written [.text "https://a.b/?x=1".toList, .reference "amp".toList ['&'], .text "y=2".toList]

def escapedSitemap : SitemapDocument where
  prolog := []
  selfClosing := false
  nodes := [.entry ⟨[.loc escapedLoc], escapedLoc, none, none, none, rfl, rfl, rfl, rfl⟩]
  epilog := []
  nodes_eq := nofun

/-- The tail of an escaped query replaces the URL. -/
theorem escaped_query_lost :
    ¬ Recovers sampleTools "https://a.b/sitemap.xml".toList false none escapedSitemap := by
  intro law
  have urls := congrArg (fun result => result.toOption.map fun parsed => parsed.1.map (·.url))
    (law 1)
  revert urls
  decide +kernel

end Sitemap

end Webfang
