import Webfang.Crawler.Bans

/-!
# What a crawl of a site covers

The pages of a site within `maxDepth` links of the seed.  A page has the depth of the page that
pushes it first, and pages at the limit push nothing: a crawl returns what is within the limit
as long as no page with links is pushed at the limit that is nearer to the seed.
-/

set_option linter.unusedSectionVars false

namespace Webfang

open StepSystem

/-- A site: the pages and the links between them, all of them followed and each its own
document. -/
structure Site {υ κ η : Type} (cfg : CrawlConfig υ κ η) where
  pages : List υ
  links : υ → List υ
  seedMem : cfg.seedUrl ∈ pages
  closed : ∀ page ∈ pages, ∀ link ∈ links page, link ∈ pages
  distinct : ∀ a ∈ pages, ∀ b ∈ pages, cfg.canonical a = cfg.canonical b → a = b
  followed : ∀ page ∈ pages, cfg.followed page = true
  seedAllowed : cfg.seedAllowed = true

namespace Site

variable {υ κ η : Type} {cfg : CrawlConfig υ κ η} (site : Site cfg)

/-- The pages at most this many links from the seed. -/
def within : Nat → List υ
  | 0 => [cfg.seedUrl]
  | n + 1 => within n ++ (within n).flatMap site.links

variable {site}

theorem within_mono {n m : Nat} (le : n ≤ m) {url : υ} (member : url ∈ site.within n) :
    url ∈ site.within m := by
  induction m with
  | zero =>
      rw [Nat.le_zero.mp le] at member
      exact member
  | succ m ih =>
      rcases Nat.le_succ_iff.mp le with less | rfl
      · exact List.mem_append_left _ (ih less)
      · exact member

theorem mem_within_link {n : Nat} {page link : υ} (member : page ∈ site.within n)
    (linked : link ∈ site.links page) : link ∈ site.within (n + 1) :=
  List.mem_append_right _ (List.mem_flatMap.mpr ⟨page, member, linked⟩)

end Site

section Coverage

variable {υ κ η : Type} [LinearOrder υ] [DecidableEq κ] [DecidableEq η] {cfg : CrawlConfig υ κ η}

/-- The outside serves the site: every page is fetched without a redirect and passes, and nobody
stops the crawl. -/
def Serves (site : Site cfg) (s : CrawlState υ κ η) : CrawlAction υ → Prop
  | .task i (.fetch outcome) => ∀ task ∈ s.tasks[i]?,
      outcome = .page task.discovered.url (site.links task.discovered.url)
  | .task _ (.acquire answer) | .task _ (.pipeline answer) | .task _ (.link answer) =>
      answer = true
  | .task _ .panic | .signal | .cancel | .restart => False
  | _ => True

instance (site : Site cfg) (s : CrawlState υ κ η) (a : CrawlAction υ) :
    Decidable (Serves site s a) :=
  match a with
  | .task i (.fetch _) => inferInstanceAs (Decidable (∀ task ∈ s.tasks[i]?, _))
  | .task _ (.acquire answer) | .task _ (.pipeline answer) | .task _ (.link answer) =>
      inferInstanceAs (Decidable (answer = true))
  | .task _ .panic | .signal | .cancel | .restart => .isFalse id
  | .task _ .ready | .task _ .cancelWait | .task _ .count | .task _ .send | .task _ .push
    | .task _ .finish | .task _ .abort | .engine _ => .isTrue True.intro

/-- The link a task takes up is not a page with links that is pushed at the limit though it is
nearer to the seed. -/
def NotCutOff (site : Site cfg) (seen : List κ) (task : CrawlTask υ) : Prop :=
  match task.pc with
  | .extract _ (link :: _) => task.discovered.depth + 1 = cfg.maxDepth →
      link ∈ site.within task.discovered.depth → cfg.canonical link ∈ seen ∨ site.links link = []
  | _ => True

instance (site : Site cfg) (seen : List κ) (task : CrawlTask υ) :
    Decidable (NotCutOff site seen task) :=
  match task with
  | ⟨_, .extract _ (_ :: _)⟩ => inferInstanceAs (Decidable (_ → _ → _ ∨ _))
  | ⟨_, .extract _ []⟩ | ⟨_, .rateLimit⟩ | ⟨_, .session⟩ | ⟨_, .fetch⟩ | ⟨_, .fetched _ _⟩
    | ⟨_, .collect _ _⟩ | ⟨_, .send _ _⟩ | ⟨_, .pushing _ _ _⟩ | ⟨_, .ended _⟩ => .isTrue True.intro

def NoneCutOff (site : Site cfg) (s : CrawlState υ κ η) : CrawlAction υ → Prop
  | .task i (.link _) => ∀ task ∈ s.tasks[i]?, NotCutOff site s.scheduler.queue.seen task
  | _ => True

instance (site : Site cfg) (s : CrawlState υ κ η) (a : CrawlAction υ) :
    Decidable (NoneCutOff site s a) :=
  match a with
  | .task i (.link _) => inferInstanceAs (Decidable (∀ task ∈ s.tasks[i]?, _))
  | .task _ .ready | .task _ .cancelWait | .task _ (.acquire _) | .task _ (.fetch _)
    | .task _ (.pipeline _) | .task _ .count | .task _ .send | .task _ .push | .task _ .finish
    | .task _ .panic | .task _ .abort | .engine _ | .signal | .cancel | .restart =>
      .isTrue True.intro

namespace CrawlState

/-- A page of the site at most as far from the seed as its depth, and one at the limit only if
it is no nearer or has no links. -/
structure Sound (site : Site cfg) (d : DiscoveredUrl υ) : Prop where
  page : d.url ∈ site.pages
  near : d.url ∈ site.within d.depth
  limit : d.depth ≤ cfg.maxDepth
  tight : d.depth < cfg.maxDepth ∨ (∀ n, d.url ∈ site.within n → cfg.maxDepth ≤ n) ∨
    site.links d.url = []

/-- The page is among the results and, above the limit, its links are seen, but for the ones
still to be taken up. -/
structure LinksLeft (site : Site cfg) (results : List (DiscoveredUrl υ)) (seen : List κ)
    (d : DiscoveredUrl υ) (left : List υ) : Prop where
  recorded : d.url ∈ results.map (·.url)
  taken : d.depth < cfg.maxDepth →
    ∀ link ∈ site.links d.url, link ∈ left ∨ cfg.canonical link ∈ seen
  above : left ≠ [] → d.depth < cfg.maxDepth
  links : ∀ link ∈ left, link ∈ site.links d.url

/-- Where a task stands with its page. -/
def TaskServed (site : Site cfg) (results : List (DiscoveredUrl υ)) (seen : List κ)
    (d : DiscoveredUrl υ) : TaskPc υ → Prop
  | .rateLimit | .session | .fetch => True
  | .fetched finalUrl links | .collect finalUrl links | .send finalUrl links =>
      finalUrl = d.url ∧ links = site.links d.url
  | .extract _ links => LinksLeft site results seen d links
  | .pushing _ link links => LinksLeft site results seen d links ∧ Sound site link
  | .ended _ => LinksLeft site results seen d []

/-- The task has the URL in the seen set, not on the heap yet. -/
def Pushes (task : CrawlTask υ) (url : υ) : Prop :=
  ∃ finalUrl link links, task.pc = .pushing finalUrl link links ∧ link.url = url

structure Covering (site : Site cfg) (s : CrawlState υ κ η) : Prop where
  running : s.shutdown = false ∧ s.cancelled = false
  restored : s.trace.restored = []
  pending : ∀ d ∈ s.scheduler.pending, Sound site d
  heap : ∀ p ∈ s.scheduler.queue.heap, Sound site p.url
  tasks : ∀ task ∈ s.tasks, Sound site task.discovered ∧
    TaskServed site s.results s.scheduler.queue.seen task.discovered task.pc
  started : ∀ d ∈ s.trace.started, Sound site d ∧ ((∃ task ∈ s.tasks, task.discovered = d) ∨
    LinksLeft site s.results s.scheduler.queue.seen d [])
  seed : cfg.canonical cfg.seedUrl ∈ s.scheduler.queue.seen
  seen : ∀ url ∈ site.pages, cfg.canonical url ∈ s.scheduler.queue.seen →
    url ∈ s.trace.accepted ∨ ∃ task ∈ s.tasks, Pushes task url
  results : ∀ d ∈ s.results, d.url ∈ site.within cfg.maxDepth

theorem LinksLeft.mono {site : Site cfg} {results later : List (DiscoveredUrl υ)}
    {seen more : List κ} {d : DiscoveredUrl υ} {left : List υ}
    (linksLeft : LinksLeft site results seen d left) (results' : ∀ r ∈ results, r ∈ later)
    (seen' : ∀ key ∈ seen, key ∈ more) : LinksLeft site later more d left := by
  refine ⟨?_, fun shallow link member => ?_, linksLeft.above, linksLeft.links⟩
  · obtain ⟨r, there, same⟩ := List.mem_map.mp linksLeft.recorded
    exact List.mem_map.mpr ⟨r, results' r there, same⟩
  · exact (linksLeft.taken shallow link member).imp_right (seen' _)

theorem TaskServed.mono {site : Site cfg} {results later : List (DiscoveredUrl υ)}
    {seen more : List κ} {d : DiscoveredUrl υ} {pc : TaskPc υ}
    (served : TaskServed site results seen d pc) (results' : ∀ r ∈ results, r ∈ later)
    (seen' : ∀ key ∈ seen, key ∈ more) : TaskServed site later more d pc := by
  cases pc with
  | rateLimit | session | fetch => trivial
  | fetched | collect | send => exact served
  | extract | ended => exact LinksLeft.mono served results' seen'
  | pushing => exact ⟨served.1.mono results' seen', served.2⟩

/-! ## Tasks -/

/-- What a task's move has to show: that its own task is served, and where what is newly
recorded, seen and pushed comes from. -/
theorem Covering.move {site : Site cfg} {s t : CrawlState υ κ η} {i : Nat} {task : CrawlTask υ}
    {pc : TaskPc υ} (covering : s.Covering site) (found : s.tasks[i]? = some task)
    (same : SameEngine s t) (tasks : t.tasks = s.tasks.set i ⟨task.discovered, pc⟩)
    (results : ∀ d ∈ s.results, d ∈ t.results)
    (recorded : ∀ d ∈ t.results, d ∈ s.results ∨ d.url ∈ site.within cfg.maxDepth)
    (seen : ∀ key ∈ s.scheduler.queue.seen, key ∈ t.scheduler.queue.seen)
    (accepted : ∀ url ∈ s.trace.accepted, url ∈ t.trace.accepted)
    (heap : ∀ p ∈ t.scheduler.queue.heap, p ∈ s.scheduler.queue.heap ∨ Sound site p.url)
    (served : TaskServed site t.results t.scheduler.queue.seen task.discovered pc)
    (pushed : ∀ url, Pushes task url → url ∈ t.trace.accepted)
    (marked : ∀ url ∈ site.pages, cfg.canonical url ∈ t.scheduler.queue.seen →
      cfg.canonical url ∈ s.scheduler.queue.seen ∨ Pushes ⟨task.discovered, pc⟩ url) :
    t.Covering site := by
  have inside := (List.getElem?_eq_some_iff.mp found).1
  have moved : (⟨task.discovered, pc⟩ : CrawlTask υ) ∈ t.tasks := by
    rw [tasks]
    exact List.mem_set inside _
  have others : ∀ j, i ≠ j → ∀ other, s.tasks[j]? = some other → other ∈ t.tasks := by
    intro j different other there
    rw [tasks]
    refine List.mem_iff_getElem?.mpr ⟨j, ?_⟩
    rw [List.getElem?_set_ne different]
    exact there
  refine ⟨?_, ?_, ?_, fun p member => ?_, fun other member => ?_, fun d member => ?_,
    seen _ covering.seed, fun url page member => ?_, fun d member => ?_⟩
  · rw [same.shutdown, same.cancelled]
    exact covering.running
  · rw [same.restored]
    exact covering.restored
  · rw [same.pending]
    exact covering.pending
  · exact (heap p member).elim (covering.heap p) id
  · rw [tasks] at member
    rcases List.mem_or_eq_of_mem_set member with old | rfl
    · obtain ⟨sound, before⟩ := covering.tasks other old
      exact ⟨sound, before.mono results seen⟩
    · exact ⟨(covering.tasks task (List.mem_of_getElem? found)).1, served⟩
  · rw [same.started] at member
    obtain ⟨sound, ⟨other, there, rfl⟩ | finished⟩ := covering.started d member
    · refine ⟨sound, .inl ?_⟩
      obtain ⟨j, stands⟩ := List.mem_iff_getElem?.mp there
      rcases eq_or_ne i j with rfl | different
      · rw [found] at stands
        cases stands
        exact ⟨_, moved, rfl⟩
      · exact ⟨other, others j different other stands, rfl⟩
    · exact ⟨sound, .inr (finished.mono results seen)⟩
  · rcases marked url page member with old | here
    · rcases covering.seen url page old with known | ⟨other, there, pushes⟩
      · exact .inl (accepted url known)
      · obtain ⟨j, stands⟩ := List.mem_iff_getElem?.mp there
        rcases eq_or_ne i j with rfl | different
        · rw [found] at stands
          cases stands
          exact .inl (pushed url pushes)
        · exact .inr ⟨other, others j different other stands, pushes⟩
    · exact .inr ⟨_, moved, here⟩
  · exact (recorded d member).elim (covering.results d) id

/-- A quiet move of a task that pushes nothing. -/
theorem Covering.quietly {site : Site cfg} {s : CrawlState υ κ η} {i : Nat} {task : CrawlTask υ}
    {pc : TaskPc υ} (covering : s.Covering site) (found : s.tasks[i]? = some task)
    (quiet : ∀ url, ¬ Pushes task url)
    (served : TaskServed site s.results s.scheduler.queue.seen task.discovered pc) :
    (s.setPc i task.discovered pc).Covering site := by
  have seen : (s.setPc i task.discovered pc).scheduler = s.scheduler := by cases pc <;> rfl
  have results := (setPc_landed s i task.discovered pc).2
  refine covering.move found (setPc_sameEngine ..) rfl ?_ ?_ ?_ ?_ ?_ ?_
    (fun url pushes => absurd pushes (quiet url)) ?_
  · rw [results]
    exact fun d member => member
  · rw [results]
    exact fun d member => .inl member
  · rw [seen]
    exact fun key member => member
  · cases pc <;> exact fun url member => member
  · rw [seen]
    exact fun p member => .inl member
  · rw [results, seen]
    exact served
  · rw [seen]
    exact fun url _ member => .inl member

/-- The link a task takes up is a sound page to push. -/
theorem sound_link {site : Site cfg} {seen : List κ} {d : DiscoveredUrl υ} {finalUrl link : υ}
    {links : List υ} {results : List (DiscoveredUrl υ)} (sound : Sound site d)
    (left : LinksLeft site results seen d (link :: links)) (fresh : cfg.canonical link ∉ seen)
    (uncut : NotCutOff site seen ⟨d, .extract finalUrl (link :: links)⟩) (parent : υ) :
    Sound site ⟨link, d.depth + 1, parent⟩ := by
  have above := left.above (List.cons_ne_nil _ _)
  have linked := left.links link (List.mem_cons_self ..)
  refine ⟨site.closed d.url sound.page link linked, Site.mem_within_link sound.near linked, above, ?_⟩
  rcases Nat.lt_or_eq_of_le above with shallow | atLimit
  · exact .inl shallow
  · by_cases nearer : link ∈ site.within d.depth
    · rcases uncut atLimit nearer with known | none
      · exact absurd known fresh
      · exact .inr (.inr none)
    · refine .inr (.inl fun n member => ?_)
      by_contra less
      exact nearer (Site.within_mono (by omega) member)

theorem Covering.taskStep {site : Site cfg} {s t : CrawlState υ κ η} {i : Nat}
    {move : TaskMove υ} (covering : s.Covering site) (phased : s.Phased cfg)
    (notFull : s.isFull cfg = false) (serves : Serves site s (.task i move))
    (uncut : NoneCutOff site s (.task i move)) (step : s.taskStep cfg i move = some t) :
    t.Covering site := by
  obtain ⟨⟨d, pc⟩, next, effect, found, moved, rfl⟩ := taskStep_cases step
  obtain ⟨sound, served⟩ := covering.tasks _ (List.mem_of_getElem? found)
  have moved := taskMove_moved moved
  have idle (pcIdle : ∀ finalUrl link links, pc ≠ .pushing finalUrl link links) :
      ∀ url, ¬ Pushes ⟨d, pc⟩ url := by
    rintro url ⟨finalUrl, link, links, here, -⟩
    exact pcIdle finalUrl link links here
  dsimp only at moved served sound
  cases moved with
  | admitted | acquired => exact covering.quietly found (idle (by simp)) trivial
  | fetched finalUrl links =>
      have answer := serves _ found
      cases answer
      exact (covering.move (t := (s.effect cfg d .fetched).setPc i d _) found
        ((s.effect_sameEngine d .fetched).trans (setPc_sameEngine ..)) rfl (fun _ member => member)
        (fun _ member => .inl member) (fun _ member => member) (fun _ member => member)
        (fun _ member => .inl member) ⟨rfl, rfl⟩ (fun url pushes => absurd pushes (idle (by simp) url))
        fun _ _ member => .inl member)
  | passed finalUrl links => exact covering.quietly found (idle (by simp)) served
  | counted finalUrl links =>
      exact (covering.move (t := (s.effect cfg d .counted).setPc i d _) found
        ((s.effect_sameEngine d .counted).trans (setPc_sameEngine ..)) rfl (fun _ member => member)
        (fun _ member => .inl member) (fun _ member => member) (fun _ member => member)
        (fun _ member => .inl member) served (fun url pushes => absurd pushes (idle (by simp) url))
        fun _ _ member => .inl member)
  | sent finalUrl links =>
      obtain ⟨rfl, rfl⟩ := served
      refine covering.move (t := (s.effect cfg d (.sent d.url)).setPc i d _) found
        ((s.effect_sameEngine d (.sent d.url)).trans (setPc_sameEngine ..)) rfl
        (fun _ member => List.mem_append_left _ member) (fun r member => ?_)
        (fun _ member => member) (fun _ member => member) (fun _ member => .inl member) ?_
        (fun url pushes => absurd pushes (idle (by simp) url)) fun _ _ member => .inl member
      · refine (List.mem_append.mp member).imp_right fun new => ?_
        rw [List.mem_singleton.mp new]
        exact Site.within_mono sound.limit sound.near
      · refine ⟨?_, fun shallow link member => ?_, fun some => ?_, fun link member => ?_⟩
        · exact List.mem_map.mpr ⟨_, List.mem_append_right _ (List.mem_singleton.mpr rfl), rfl⟩
        · rw [if_pos shallow]
          exact .inl member
        · by_contra deep
          exact some (if_neg deep)
        · split at member
          · exact member
          · cases member
  | marked finalUrl link links follows fresh =>
      have toPush := sound_link sound served fresh (uncut _ found) finalUrl
      refine covering.move (t := (s.effect cfg d (.marked link)).setPc i d _) found
        ((s.effect_sameEngine d (.marked link)).trans (setPc_sameEngine ..)) rfl
        (fun _ member => member) (fun _ member => .inl member)
        (fun _ member => List.mem_cons_of_mem _ member) (fun _ member => member)
        (fun _ member => .inl member) ⟨⟨served.recorded, fun shallow other member => ?_,
          fun _ => served.above (List.cons_ne_nil _ _),
          fun other member => served.links other (List.mem_cons_of_mem _ member)⟩, toPush⟩
        (fun url pushes => absurd pushes (idle (by simp) url)) fun url page member => ?_
      · rcases served.taken shallow other member with here | seen
        · rcases List.mem_cons.mp here with rfl | later
          · exact .inr (List.mem_cons_self ..)
          · exact .inl later
        · exact .inr (List.mem_cons_of_mem _ seen)
      · rcases List.mem_cons.mp member with agree | old
        · exact .inr ⟨finalUrl, _, links, rfl, (site.distinct _ page _ toPush.page agree).symm⟩
        · exact .inl old
  | passedOver finalUrl link links robots refused =>
      have page := site.closed d.url sound.page link (served.links link (List.mem_cons_self ..))
      have known : cfg.canonical link ∈ s.scheduler.queue.seen := by
        rcases refused with notFollowed | denied | known
        · rw [site.followed link page] at notFollowed
          cases notFollowed
        · rw [show robots = true from serves] at denied
          cases denied
        · exact known
      refine covering.quietly found (idle (by simp)) ⟨served.recorded, fun shallow other member => ?_,
        fun _ => served.above (List.cons_ne_nil _ _),
        fun other member => served.links other (List.mem_cons_of_mem _ member)⟩
      rcases served.taken shallow other member with here | seen
      · rcases List.mem_cons.mp here with rfl | later
        · exact .inr known
        · exact .inl later
      · exact .inr seen
  | pushed finalUrl link links =>
      refine covering.move (t := (s.effect cfg d (.pushed link)).setPc i d _) found
        ((s.effect_sameEngine d (.pushed link)).trans (setPc_sameEngine ..)) rfl
        (fun _ member => member) (fun _ member => .inl member) (fun _ member => member)
        (fun _ member => List.mem_append_left _ member) (fun p member => ?_) served.1 ?_
        fun _ _ member => .inl member
      · refine (List.mem_cons.mp member).symm.imp_right ?_
        rintro rfl
        exact served.2
      · rintro url ⟨_, other, _, here, rfl⟩
        cases here
        exact List.mem_append_right _ (List.mem_singleton.mpr rfl)
  | finished finalUrl => exact covering.quietly found (idle (by simp)) served
  | filtered | skipped => cases serves
  | failed waf => cases serves _ found
  | panicked => exact serves.elim
  | cancelled fired =>
      rw [covering.running.2] at fired
      cases fired
  | aborted pc aborts =>
      rcases phased.interrupted found aborts with shutdown | full
      · rw [covering.running.1] at shutdown
        cases shutdown
      · rw [notFull] at full
        cases full

/-! ## The engine -/

/-- Steps that keep the records and shrink the frontier, and only end tasks. -/
theorem Covering.frame {site : Site cfg} {s t : CrawlState υ κ η} (covering : s.Covering site)
    (running : t.shutdown = false ∧ t.cancelled = false) (trace : t.trace = s.trace)
    (results : t.results = s.results) (queue : t.scheduler.queue.seen = s.scheduler.queue.seen)
    (pending : ∀ d ∈ t.scheduler.pending, Sound site d)
    (heap : ∀ p ∈ t.scheduler.queue.heap, p ∈ s.scheduler.queue.heap)
    (tasks : ∀ task ∈ t.tasks, task ∈ s.tasks)
    (ended : ∀ task ∈ s.tasks, task ∈ t.tasks ∨ task.pc.isEnded = true) : t.Covering site := by
  refine ⟨running, ?_, pending, fun p member => covering.heap p (heap p member),
    fun task member => ?_, fun d member => ?_, ?_, fun url page member => ?_, ?_⟩
  · rw [trace]
    exact covering.restored
  · rw [results, queue]
    exact covering.tasks task (tasks task member)
  · rw [trace] at member
    rw [results, queue]
    obtain ⟨sound, ⟨task, there, rfl⟩ | finished⟩ := covering.started d member
    · rcases ended task there with stays | past
      · exact ⟨sound, .inl ⟨task, stays, rfl⟩⟩
      · have served := (covering.tasks task there).2
        cases stands : task.pc with
        | ended result =>
            rw [stands] at served
            exact ⟨sound, .inr served⟩
        | _ =>
            rw [stands] at past
            cases past
    · exact ⟨sound, .inr finished⟩
  · rw [queue]
    exact covering.seed
  · rw [queue] at member
    rw [trace]
    refine (covering.seen url page member).imp_right ?_
    rintro ⟨task, there, pushes⟩
    obtain ⟨finalUrl, link, links, stands, -⟩ := id pushes
    refine ⟨task, (ended task there).resolve_right fun past => ?_, pushes⟩
    rw [stands] at past
    cases past
  · rw [results]
    exact covering.results

theorem ended_eraseIdx {tasks : List (CrawlTask υ)} {i : Nat} {gone task : CrawlTask υ}
    (found : tasks[i]? = some gone) (ended : gone.pc.isEnded = true) (member : task ∈ tasks) :
    task ∈ tasks.eraseIdx i ∨ task.pc.isEnded = true := by
  cases running : task.pc.isEnded with
  | true => exact .inr rfl
  | false => exact .inl (runs_eraseIdx found ended member running)

theorem Covering.spawnNext {site : Site cfg} {s : CrawlState υ κ η} {limit : Nat}
    (covering : s.Covering site) (fewer : s.tasks.length < limit) :
    (s.spawnNext cfg limit).Covering site := by
  rcases spawnNext_cases cfg fewer with
    ⟨next, -⟩ | ⟨skipped, d, rest, next, split, -⟩
  · rw [next]
    exact covering.frame covering.running rfl rfl rfl (fun d member => nomatch member)
      (fun p member => member) (fun task member => member) fun task member => .inl member
  · rw [next]
    have sound : ∀ d' ∈ d :: rest, Sound site d' := fun d' member =>
      covering.pending d' (split ▸ List.mem_append_right _ member)
    refine ⟨covering.running, covering.restored,
      fun d' member => sound d' (List.mem_cons_of_mem _ member), covering.heap,
      fun task member => ?_, fun d' member => ?_, covering.seed, fun url page member => ?_,
      covering.results⟩
    · rcases List.mem_append.mp member with old | new
      · exact covering.tasks task old
      · rw [List.mem_singleton.mp new]
        exact ⟨sound d (List.mem_cons_self ..), trivial⟩
    · rcases List.mem_append.mp member with old | new
      · obtain ⟨here, known⟩ := covering.started d' old
        refine ⟨here, known.imp_left ?_⟩
        rintro ⟨task, there, same⟩
        exact ⟨task, List.mem_append_left _ there, same⟩
      · rw [List.mem_singleton.mp new]
        exact ⟨sound d (List.mem_cons_self ..), .inl ⟨⟨d, .rateLimit⟩,
          List.mem_append_right _ (List.mem_singleton.mpr rfl), rfl⟩⟩
    · refine (covering.seen url page member).imp_right ?_
      rintro ⟨task, there, pushes⟩
      exact ⟨task, List.mem_append_left _ there, pushes⟩

theorem Covering.engineMoved {site : Site cfg} {s t : CrawlState υ κ η}
    (covering : s.Covering site) (notFull : s.isFull cfg = false) (moved : EngineMoved cfg s t) :
    t.Covering site := by
  cases moved with
  | @pass phase cancelled saved passes fires =>
      obtain ⟨scheduler, trace, tasks, -, shutdown, cancels, -, -, results, -⟩ :=
        saveCheckpoint_frame cfg { s with phase := phase, cancelled := cancelled } saved
      have keeps : cancelled = false := by
        rcases fires with same | ⟨-, stopped | full⟩
        · exact same.trans covering.running.2
        · rw [covering.running.1] at stopped
          cases stopped
        · rw [notFull] at full
          cases full
      refine covering.frame ⟨shutdown.trans covering.running.1, cancels.trans keeps⟩ trace results
        (by rw [scheduler]) ?_ ?_ ?_ ?_
      · rw [scheduler]
        exact covering.pending
      · rw [scheduler]
        exact fun p member => member
      · rw [tasks]
        exact fun task member => member
      · rw [tasks]
        exact fun task member => .inl member
  | reap found ended here =>
      exact covering.frame covering.running rfl rfl rfl covering.pending (fun p member => member)
        (fun task member => List.mem_of_mem_eraseIdx member)
        fun task member => ended_eraseIdx found ended member
  | joined found ended here pending =>
      exact covering.frame covering.running rfl rfl rfl covering.pending (fun p member => member)
        (fun task member => List.mem_of_mem_eraseIdx member)
        fun task member => ended_eraseIdx found ended member
  | drain here =>
      refine covering.frame covering.running rfl rfl rfl (fun d member => ?_)
        (fun p member => nomatch member) (fun task member => member) fun task member => .inl member
      rcases List.mem_append.mp member with old | drained
      · exact covering.pending d old
      · obtain ⟨p, there, rfl⟩ := List.mem_map.mp (UrlQueue.mem_popOrder.mp drained)
        exact covering.heap p there
  | spawn here room fewer => exact covering.spawnNext fewer
  | delete here running pending notFull =>
      exact covering.frame covering.running rfl rfl rfl covering.pending (fun p member => member)
        (fun task member => member) fun task member => .inl member

theorem covering_init (site : Site cfg) : (CrawlState.init cfg).Covering site := by
  obtain ⟨pending, queue, -⟩ := startProcess_scheduler cfg none ([] : List η)
  have sound : Sound site ⟨cfg.seedUrl, 0, cfg.seedUrl⟩ := by
    refine ⟨site.seedMem, List.mem_singleton.mpr rfl, Nat.zero_le _, ?_⟩
    rcases Nat.eq_zero_or_pos cfg.maxDepth with none | some
    · exact .inr (.inl fun n _ => none ▸ Nat.zero_le n)
    · exact .inl some
  unfold init
  refine ⟨⟨rfl, rfl⟩, rfl, fun d member => ?_, fun p member => ?_, fun task member => (nomatch member),
    fun d member => (nomatch member), ?_, fun url page member => ?_, fun d member => nomatch member⟩
  · rw [pending] at member
    rw [List.mem_singleton.mp member]
    exact sound
  · rw [queue] at member
    rw [List.mem_singleton.mp member]
    exact sound
  · rw [queue]
    exact List.mem_singleton.mpr rfl
  · rw [queue] at member
    have same := site.distinct url page _ site.seedMem (List.mem_singleton.mp member)
    rw [same]
    exact .inl (List.mem_singleton.mpr rfl)

/-- At the end every page within the limit has been dispatched. -/
theorem Covering.dispatched {site : Site cfg} {s : CrawlState υ κ η} (covering : s.Covering site)
    (accounted : s.Accounted cfg) (quiescent : s.Quiescent) {n : Nat} (le : n ≤ cfg.maxDepth)
    {url : υ} (near : url ∈ site.within n) : ∃ d ∈ s.trace.started, d.url = url := by
  obtain ⟨pending, heap, tasks⟩ := quiescent
  -- what is seen was accepted, and what was accepted is dispatched
  have known : ∀ url ∈ site.pages, cfg.canonical url ∈ s.scheduler.queue.seen →
      ∃ d ∈ s.trace.started, d.url = url := by
    intro url page seen
    have accepted := (covering.seen url page seen).resolve_right fun ⟨task, there, _⟩ => by
      rw [tasks] at there
      cases there
    have visited : cfg.canonical url ∈ s.scheduler.visited := by
      refine (accounted.accepted url accepted).resolve_left ?_
      rintro (⟨d, there, -⟩ | ⟨p, there, -⟩)
      · rw [pending] at there
        cases there
      · rw [heap] at there
        cases there
    rcases accounted.visited _ visited with ⟨u, there, -⟩ | ⟨d, there, same⟩
    · rw [covering.restored] at there
      cases there
    · exact ⟨d, there, site.distinct _ (covering.started d there).1.page _ page same⟩
  induction n generalizing url with
  | zero =>
      rw [List.mem_singleton.mp near]
      exact known _ site.seedMem covering.seed
  | succ n ih =>
      rcases List.mem_append.mp near with nearer | link
      · exact ih (Nat.le_of_succ_le le) nearer
      · obtain ⟨page, there, linked⟩ := List.mem_flatMap.mp link
        obtain ⟨d, started, rfl⟩ := ih (Nat.le_of_succ_le le) there
        obtain ⟨sound, ⟨task, running, -⟩ | finished⟩ := covering.started d started
        · rw [tasks] at running
          cases running
        · have shallow : d.depth < cfg.maxDepth := by
            rcases sound.tight with shallow | far | none
            · exact shallow
            · exact absurd (far n there) (by omega)
            · rw [none] at linked
              cases linked
          refine known url (site.closed _ sound.page _ linked) ?_
          exact (finished.taken shallow url linked).resolve_left fun left => nomatch left

end CrawlState

theorem covering_crawlStep {site : Site cfg} {s t : CrawlState υ κ η} {a : CrawlAction υ}
    (covering : (s.isFull cfg = true ∨ s.Covering site) ∧ s.Phased cfg)
    (allowed : Serves site s a ∧ NoneCutOff site s a) (step : crawlStep cfg s a = some t) :
    (t.isFull cfg = true ∨ t.Covering site) ∧ t.Phased cfg := by
  obtain ⟨covering, phased⟩ := covering
  refine ⟨?_, phased_crawlStep phased step⟩
  rcases crawlStep_cases step with ⟨i, move, rfl, moved⟩ | ⟨move, rfl, moved⟩ | ⟨rfl, -⟩ |
    ⟨rfl, -⟩ | ⟨rfl, -⟩
  · cases full : s.isFull cfg with
    | true => exact .inl (CrawlState.taskStep_isFull moved full)
    | false =>
        rw [full] at covering
        exact .inr ((covering.resolve_left (by decide)).taskStep phased full allowed.1 allowed.2 moved)
  · cases full : s.isFull cfg with
    | true =>
        refine .inl ?_
        unfold CrawlState.isFull at full ⊢
        rw [moved.counts.2]
        exact full
    | false =>
        rw [full] at covering
        exact .inr ((covering.resolve_left (by decide)).engineMoved full moved)
  · exact allowed.1.elim
  · exact allowed.1.elim
  · exact allowed.1.elim

/-- A crawl of the site, from an empty state directory to its end, that does not fill its
collector and cuts no page off. -/
structure Crawls (site : Site cfg) (as : List (CrawlAction υ)) (t : CrawlState υ κ η) : Prop where
  run : execute (crawlStep cfg) (.init cfg) as = some t
  serves : Along (crawlStep cfg) (Serves site) (.init cfg) as
  uncut : Along (crawlStep cfg) (NoneCutOff site) (.init cfg) as
  finished : t.phase = .finished
  notFull : t.isFull cfg = false

theorem Crawls.results {site : Site cfg} {as : List (CrawlAction υ)} {t : CrawlState υ κ η}
    (crawls : Crawls site as t) (url : υ) :
    url ∈ t.results.map (·.url) ↔ url ∈ site.within cfg.maxDepth := by
  obtain ⟨covering, phased⟩ := execute_invariant_along
    (fun _ _ _ covering allowed step => covering_crawlStep covering allowed step) crawls.run
    (crawls.serves.and crawls.uncut)
    ⟨.inr (CrawlState.covering_init site), CrawlState.phased_startProcess ..⟩
  rw [crawls.notFull] at covering
  have covering := covering.resolve_left (by decide)
  have quiescent : t.Quiescent := by
    rcases phased.leaving (.inr (.inr (.inr ⟨crawls.finished, site.seedAllowed⟩))) with
      shutdown | full | quiescent
    · rw [covering.running.1] at shutdown
      cases shutdown
    · rw [crawls.notFull] at full
      cases full
    · exact quiescent
  constructor
  · intro member
    obtain ⟨d, there, rfl⟩ := List.mem_map.mp member
    exact covering.results d there
  · intro near
    obtain ⟨d, started, rfl⟩ :=
      covering.dispatched (accounted_of_run crawls.run) quiescent (Nat.le_refl _) near
    obtain ⟨-, ⟨task, running, -⟩ | finished⟩ := covering.started d started
    · rw [quiescent.2.2] at running
      cases running
    · exact finished.recorded

/-- Two crawls of a site that cut no page off, whatever the order their tasks ran in, return the
pages within `maxDepth` links of the seed, and so the same set. -/
theorem coverage_independent_of_timing {site : Site cfg} {as bs : List (CrawlAction υ)}
    {s t : CrawlState υ κ η} (first : Crawls site as s) (second : Crawls site bs t) :
    (∀ url, url ∈ s.results.map (·.url) ↔ url ∈ site.within cfg.maxDepth) ∧
      ∀ url, url ∈ s.results.map (·.url) ↔ url ∈ t.results.map (·.url) :=
  ⟨first.results, fun url => (first.results url).trans (second.results url).symm⟩

end Coverage

/-! ## Crawls of two sites -/

/-- The seed links to two pages. -/
def forkSite : Site (sampleConfig 1) where
  pages := ["https://site.test/", "https://site.test/a", "https://site.test/b"]
  links
    | "https://site.test/" => ["https://site.test/a", "https://site.test/b"]
    | _ => []
  seedMem := by decide +kernel
  closed := by decide +kernel
  distinct _ _ _ _ same := same
  followed _ _ := rfl
  seedAllowed := rfl

/-- Both pages are dispatched, and end in the order of these tasks. -/
def forkCrawl (tasks : List (Nat × String)) : List (CrawlAction String) :=
  loopTurn [] 2 ++ fetchPage 0 "https://site.test/" (forkSite.links "https://site.test/") ++
    pushLinks 0 2 ++ loopTurn [0] 3 ++
    (tasks.map fun task => fetchPage task.1 task.2 [] ++ pushLinks task.1 0).flatten ++
    loopTurn [0, 0] 1 ++ stopCrawl 0

theorem coverage_independent_of_timing_of_fork :
    ∃ s t,
      execute (crawlStep (sampleConfig 1)) (.init (sampleConfig 1))
        (forkCrawl [(0, "https://site.test/a"), (1, "https://site.test/b")]) = some s ∧
      execute (crawlStep (sampleConfig 1)) (.init (sampleConfig 1))
        (forkCrawl [(1, "https://site.test/b"), (0, "https://site.test/a")]) = some t ∧
      (∀ url, url ∈ s.results.map (·.url) ↔ url ∈ forkSite.within 1) ∧
      ∀ url, url ∈ s.results.map (·.url) ↔ url ∈ t.results.map (·.url) := by
  have ends : ∀ tasks ∈ [[(0, "https://site.test/a"), (1, "https://site.test/b")],
        [(1, "https://site.test/b"), (0, "https://site.test/a")]],
      (execute (crawlStep (sampleConfig 1)) (.init (sampleConfig 1)) (forkCrawl tasks)).any
        (fun t => decide (t.phase = .finished ∧ t.isFull (sampleConfig 1) = false)) = true := by
    decide +kernel
  obtain ⟨s, runS, endS⟩ := (Option.any_eq_true _ _).mp (ends _ (List.mem_cons_self ..))
  obtain ⟨t, runT, endT⟩ := (Option.any_eq_true _ _).mp
    (ends _ (List.mem_cons_of_mem _ (List.mem_cons_self ..)))
  obtain ⟨finishedS, notFullS⟩ := of_decide_eq_true endS
  obtain ⟨finishedT, notFullT⟩ := of_decide_eq_true endT
  have first : Crawls forkSite _ s :=
    ⟨runS, by decide +kernel, by decide +kernel, finishedS, notFullS⟩
  have second : Crawls forkSite _ t :=
    ⟨runT, by decide +kernel, by decide +kernel, finishedT, notFullT⟩
  exact ⟨s, t, runS, runT, coverage_independent_of_timing first second⟩

/-- The page `x` is two links from the seed by `b` and three by `a` and `c`, and links to `y`. -/
def detourSite : Site (sampleConfig 3) where
  pages := ["https://site.test/", "https://site.test/a", "https://site.test/b",
    "https://site.test/c", "https://site.test/x", "https://site.test/y"]
  links
    | "https://site.test/" => ["https://site.test/a", "https://site.test/b"]
    | "https://site.test/a" => ["https://site.test/c"]
    | "https://site.test/b" => ["https://site.test/x"]
    | "https://site.test/c" => ["https://site.test/x"]
    | "https://site.test/x" => ["https://site.test/y"]
    | _ => []
  seedMem := by decide +kernel
  closed := by decide +kernel
  distinct _ _ _ _ same := same
  followed _ _ := rfl
  seedAllowed := rfl

/-- The task of `b` is slower than those of `a` and `c`: `x` is pushed at the depth limit. -/
def detourCrawl : List (CrawlAction String) :=
  loopTurn [] 2 ++ fetchPage 0 "https://site.test/" (detourSite.links "https://site.test/") ++
    pushLinks 0 2 ++ loopTurn [0] 3 ++
    fetchPage 0 "https://site.test/a" ["https://site.test/c"] ++ pushLinks 0 1 ++ loopTurn [0] 2 ++
    fetchPage 1 "https://site.test/c" ["https://site.test/x"] ++ pushLinks 1 1 ++
    fetchPage 0 "https://site.test/b" ["https://site.test/x"] ++
    [.task 0 (.link true), .task 0 .finish] ++ loopTurn [0, 0] 2 ++
    fetchPage 0 "https://site.test/x" ["https://site.test/y"] ++ pushLinks 0 0 ++
    loopTurn [0] 1 ++ stopCrawl 0

/-- The crawl ends by itself without `y`, which is three links from the seed. -/
theorem slow_task_cuts_page_off :
    ∃ t, execute (crawlStep (sampleConfig 3)) (.init (sampleConfig 3)) detourCrawl = some t ∧
      Along (crawlStep (sampleConfig 3)) (Serves detourSite) (.init (sampleConfig 3)) detourCrawl ∧
      t.phase = .finished ∧ t.isFull (sampleConfig 3) = false ∧
      "https://site.test/y" ∈ detourSite.within 3 ∧
      "https://site.test/y" ∉ t.results.map (·.url) := by
  have succeeds : (execute (crawlStep (sampleConfig 3)) (.init (sampleConfig 3)) detourCrawl).any
      (fun t => decide (t.phase = .finished ∧ t.isFull (sampleConfig 3) = false ∧
        "https://site.test/y" ∈ detourSite.within 3 ∧
        "https://site.test/y" ∉ t.results.map (·.url))) = true := by
    decide +kernel
  obtain ⟨t, run, all⟩ := (Option.any_eq_true _ _).mp succeeds
  exact ⟨t, run, by decide +kernel, of_decide_eq_true all⟩

end Webfang
