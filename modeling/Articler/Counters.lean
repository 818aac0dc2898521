import Articler.Filters
import Articler.Lib.Readers
import Articler.Requests
import Articler.Web.Articles

/-! The counters of the sidebar, on pages that are loaded while others write. -/
namespace Articler
open Txn Relation

namespace Web
variable {m : Type → Type} [Acquire Db Error m] {K : Type} [Field K] [LinearOrder K]

/-- A request for a page that shows the counters. -/
inductive PageRequest where
  | main (entriesFilter : FindParams) (activeCategory : Category)
  | partialArticles (category : Category)
  | search (headers : HxHeaders) (uri : String) (query : SearchQuery)
  | partialCategories (activeCategory : Category)

def PageRequest.run (eng : Engine K) (userId : Int) : PageRequest → m Page
  | .main entriesFilter activeCategory => Web.main eng userId entriesFilter activeCategory
  | .partialArticles category => Web.partialArticles eng userId category
  | .search headers uri query => Web.search eng headers uri userId query
  | .partialCategories activeCategory => Web.partialCategories eng userId activeCategory

def PageRequest.Pooled : PageRequest → Prop
  | .partialCategories _ => True
  | _ => False

structure ArticleCounters.Consistent (c : ArticleCounters) : Prop where
  split : c.unread + c.archived = c.all
  starred : c.starred ≤ c.all

end Web

def tally (userId : Int) (archived : Bool) (db : Db) : Nat :=
  db.entries.countP fun e => e.userId = userId ∧ e.isArchived = archived

def SameTallies (userId : Int) (s t : Db) : Prop :=
  ∀ archived, tally userId archived s = tally userId archived t

theorem passes_iff {params : FindParams} {hit : Int → Bool} {e : EntryRecord} :
    Passes params hit e ↔ e.userId = params.userId ∧ hit e.id = true ∧
      (∀ a, params.archive = some a → e.isArchived = a) ∧
      (∀ s, params.starred = some s → e.isStarred = s) ∧
      (∀ p, params.isPublic = some p → e.isPublic = some p) ∧
      ∀ d, params.since = some d → d < e.updatedAt :=
  ⟨fun h => ⟨h.user, h.search, h.archive, h.starred, h.isPublic, h.since⟩,
    fun ⟨h1, h2, h3, h4, h5, h6⟩ => ⟨h1, h2, h3, h4, h5, h6⟩⟩

section counting
variable (userId : Int) (db : Db)

theorem matching_archive (archived : Bool) :
    (matching { userId, archive := some archived } (fun _ => true) db).length =
      tally userId archived db := by
  rw [matching, ← List.countP_eq_length_filter]
  refine List.countP_congr fun e _ => ?_
  rw [decide_eq_true_iff, decide_eq_true_iff, passes_iff]
  simp

theorem matching_all :
    (matching { userId } (fun _ => true) db).length = tally userId false db + tally userId true db := by
  have hcount (archived : Bool) : tally userId archived db =
      (matching { userId } (fun _ => true) db).countP fun e => e.isArchived = archived := by
    rw [matching, List.countP_filter]
    refine List.countP_congr fun e _ => ?_
    rw [Bool.and_eq_true, decide_eq_true_iff, decide_eq_true_iff, decide_eq_true_iff, passes_iff]
    simp [and_comm]
  rw [hcount, hcount, Nat.add_comm,
    List.length_eq_countP_add_countP fun e : EntryRecord => decide (e.isArchived = true)]
  congr 1
  exact List.countP_congr fun e _ => by simp

theorem matching_starred_le :
    (matching { userId, starred := some true } (fun _ => true) db).length ≤
      (matching { userId } (fun _ => true) db).length := by
  refine List.Sublist.length_le (List.monotone_filter_right _ fun e h => ?_)
  have hpass := passes_iff.mp (of_decide_eq_true h)
  exact decide_eq_true (passes_iff.mpr (by simp [hpass.1]))

end counting

section reading
variable {K : Type} [Field K] [LinearOrder K] (eng : Engine K) {E : Db → Db → Prop}
  {st : Stand Db}

omit [Field K] [LinearOrder K] in
theorem count_reads {β : Type} {Q : Except Error β → Stand Db → Prop} {k : Int → Prog Db Error β}
    {params : FindParams} (htags : params.tags = none) (hdomain : params.domainName = none)
    (hsearch : params.search = none) (hst : st ≠ .closed)
    (h : ∀ s : Db, s.Valid → st.May E s →
      (k (matching params (fun _ => true) s).length).Reads Db.Valid E Q (st.after s)) :
    (Entries.count eng params >>= k : Prog Db Error β).Reads Db.Valid E Q st := by
  have hprog : (Entries.count eng params : Prog Db Error Int) = query fun db =>
      (Entries.searchMatch eng params db).map fun hit =>
        ((((joinTags db).filter fun r => r.entry.userId == params.userId && hit r.entry.id &&
          Entries.predicates params r.entry).map fun r => r.entry.id).dedup.length : Int) := by
    rw [Entries.count, ensureSupported_ok htags hdomain]
    rfl
  have hmatch (s : Db) : Entries.searchMatch eng params s = .ok fun _ => true := by
    rw [Entries.searchMatch, hsearch]
  rw [hprog]
  refine Prog.reads_query hst fun s hs hmay => ⟨fun e he => ?_, fun n hn => ?_⟩
  · rw [hmatch] at he
    cases he
  · rw [hmatch] at hn
    obtain rfl : ((matching params (fun _ => true) s).length : Int) = n := by
      rw [← count_joined params (fun _ => true) ⟨s, hs⟩]
      exact Except.ok.inj hn
    exact h s hs hmay

omit [Field K] [LinearOrder K] in
/-- In one transaction, or on alike stores, the four numbers fit together. -/
theorem load_reads (userId : Int) (hst : st ≠ .closed)
    (h : st.Inside ∨ ∀ s t, E s t → SameTallies userId s t) :
    (Web.ArticleCounters.load eng userId : Prog Db Error _).Reads Db.Valid E
      (fun r st' => (∀ c, r = .ok c → c.Consistent) ∧ (st.Inside → st'.Inside) ∧ st' ≠ .closed)
      st := by
  have hsame {s t : Db} (hs : st.May E s) (ht : (st.after s).May E t) : SameTallies userId s t :=
    fun archived => Stand.may_after (g := tally userId archived)
      (h.imp_right fun hE s t he => hE s t he archived) hs ht
  refine count_reads eng rfl rfl rfl hst fun s1 hs1 hmay1 => ?_
  have hst1 := Stand.after_ne_closed hst s1
  refine count_reads eng rfl rfl rfl hst1 fun s2 hs2 hmay2 => ?_
  rw [Stand.after_after]
  refine count_reads eng rfl rfl rfl hst1 fun s3 hs3 hmay3 => ?_
  rw [Stand.after_after]
  refine count_reads eng rfl rfl rfl hst1 fun s4 hs4 hmay4 => ?_
  rw [Stand.after_after]
  refine ⟨?_, fun hin => hin.after s1, hst1⟩
  rintro _ ⟨⟩
  have h2 := hsame hmay1 hmay2
  have h3 := hsame hmay1 hmay3
  have h4 := hsame hmay1 hmay4
  have hstarred := matching_starred_le userId s3
  rw [matching_all] at hstarred
  constructor
  · dsimp only
    rw [matching_archive, matching_archive, matching_all]
    have := h2 false
    have := h2 true
    have := h4 true
    omega
  · dsimp only
    rw [matching_all userId s2]
    have := h2 false
    have := h2 true
    have := h3 false
    have := h3 true
    omega

/-- What a page ends with: its counters fit together. -/
def Web.Fits (r : Except Error Web.Page) (_ : Stand Db) : Prop :=
  ∀ page, r = .ok page → page.counters.Consistent

theorem loadArticles_reads (userId : Int) (params : FindParams) (category : Web.Category) :
    (Web.loadArticles eng userId params category : Prog Db Error _).Reads Db.Valid E
      (fun r _ => ∀ context, r = .ok context → context.counters.Consistent) .fresh := by
  refine Prog.reads_transaction ?_
  cases hsupported : Entries.ensureSupported params with
  | error e =>
    have hprog : (Entries.findAllMetadata eng params : Prog Db Error _) = .done (.error e) := by
      rw [Entries.findAllMetadata, Entries.findAllRows, hsupported]
      rfl
    rw [hprog]
    exact ⟨.inl rfl, by simp⟩
  | ok _ =>
    have hprog : (Entries.findAllMetadata eng params : Prog Db Error _) = query fun db =>
        (Entries.searchMatch eng params db).bind fun hit =>
          Entries.gatherRows EntryMetadataRow.fromRow (Entries.rawRows eng params db hit) := by
      rw [Entries.findAllMetadata, Entries.findAllRows, hsupported]
      rfl
    rw [hprog]
    have hopened : (Stand.opened : Stand Db).Inside := .inl rfl
    refine Prog.reads_query hopened.ne_closed fun s _ _ =>
      ⟨fun e _ => ⟨hopened.after s, by simp⟩, fun rows _ => ?_⟩
    have hin := hopened.after s
    have hload := load_reads (E := E) eng userId hin.ne_closed (.inl hin)
    refine Prog.reads_bind (hload.mono ?_)
    rintro (e | c) st' ⟨hc, hstays, -⟩
    · exact ⟨hstays hin, by simp⟩
    · refine ⟨hstays hin, ?_⟩
      rintro _ ⟨⟩
      exact hc c rfl

/-- A page whose counters come from the pool needs that the tallies stay. -/
theorem Web.PageRequest.run_reads (userId : Int) (request : Web.PageRequest)
    (hE : request.Pooled → ∀ s t, E s t → SameTallies userId s t) :
    (request.run eng userId : Prog Db Error _).Reads Db.Valid E Web.Fits .fresh := by
  have harticles (params : FindParams) (category : Web.Category) {f : Web.ArticlesContext → Web.Page}
      (hf : ∀ context, (f context).counters = context.counters) :
      ((Web.loadArticles eng userId params category >>= fun context => pure (f context) :
        Prog Db Error _)).Reads Db.Valid E Web.Fits .fresh := by
    refine Prog.reads_bind ((loadArticles_reads eng userId params category).mono ?_)
    rintro (e | context) st' hcontext
    · exact nofun
    · rintro _ ⟨⟩
      exact hf context ▸ hcontext context rfl
  cases request with
  | main params category => exact harticles params category fun _ => rfl
  | partialArticles category => exact harticles _ category fun _ => rfl
  | search headers uri query =>
    dsimp only [Web.PageRequest.run, Web.search]
    split
    · exact harticles _ _ fun _ => rfl
    · exact harticles _ _ fun _ => rfl
  | partialCategories category =>
    have hload := load_reads eng userId (show (Stand.fresh : Stand Db) ≠ .closed from nofun)
      (.inr (hE trivial))
    refine Prog.reads_bind (hload.mono ?_)
    rintro (e | c) st' ⟨hc, -, -⟩
    · exact nofun
    · rintro _ ⟨⟩
      exact hc c rfl

end reading

/-- Whoever comes to the server: for a page, or to write. -/
inductive Visitor (Url : Type) [UrlCrate Url] where
  | page (userId : Int) (r : Web.PageRequest)
  | request (r : Request Url)
  | call (c : Call)

section visitors
variable {Url : Type} [UrlCrate Url] {K : Type} [Field K] [LinearOrder K]

def Visitor.run {m : Type → Type} [Acquire Db Error m] (crates : Crates) (eng : Engine K) :
    Visitor Url → m (Option Web.Page)
  | .page userId r => do
    let page ← r.run eng userId
    pure (some page)
  | .request r => do
    r.run crates eng
    pure none
  | .call c => do
    c.run
    pure none

omit [Field K] [LinearOrder K] in
theorem loadCounters_built {m : Type → Type} [Acquire Db Error m] {G : Db → Db → Prop}
    (hrefl : ∀ s, G s s) (eng : Engine K) (userId : Int) :
    Built G (Web.ArticleCounters.load eng userId : m Web.ArticleCounters) := by
  have hcount (params : FindParams) : Built G (Entries.count eng params : m Int) :=
    .bind (.ofExcept _) fun _ => .query hrefl _
  exact .bind (hcount _) fun _ => .bind (hcount _) fun _ => .bind (hcount _) fun _ =>
    .bind (hcount _) fun _ => .pure _

theorem Web.PageRequest.run_built {m : Type → Type} [Acquire Db Error m] {G : Db → Db → Prop}
    (hrefl : ∀ s, G s s) (eng : Engine K) (userId : Int) (request : Web.PageRequest) :
    Built G (request.run eng userId : m Web.Page) := by
  have harticles (params : FindParams) (category : Web.Category) (f : Web.ArticlesContext → Web.Page) :
      Built G (Web.loadArticles eng userId params category >>= fun context => pure (f context) :
        m Web.Page) :=
    .bind (.transaction (.bind (findAllRows_built hrefl eng _ _) fun _ =>
      .bind (loadCounters_built hrefl eng userId) fun _ => .pure _)) fun _ => .pure _
  cases request with
  | main params category => exact harticles params category .pageArticles
  | partialArticles category => exact harticles _ category .articlesAndCategories
  | search headers uri query =>
    dsimp only [Web.PageRequest.run, Web.search]
    split
    · exact harticles _ _ (.articleCards · uri)
    · exact harticles _ _ .pageArticles
  | partialCategories category =>
    exact .bind (loadCounters_built hrefl eng userId) fun _ => .pure _

variable (crates : Crates) (eng : Engine K)

theorem Visitor.run_built {m : Type → Type} [Acquire Db Error m] (v : Visitor Url) :
    Built (fun s t : Db => s.Valid → t.Valid) (v.run crates eng : m (Option Web.Page)) := by
  have hrefl (s : Db) : (fun s t : Db => s.Valid → t.Valid) s s := id
  cases v with
  | page userId r => exact .bind (r.run_built hrefl eng userId) fun _ => .pure _
  | request r =>
    exact .bind (r.built crates hrefl (fun k _ => allows_valid k) eng
      (fun _ _ s _ t h => (Write.insertEntry (fun _ => rfl) h).valid)
      fun _ _ s _ _ t h => (Write.updateEntries h).valid) fun _ => .pure _
  | call c => exact .bind (c.run_built hrefl fun k _ => allows_valid k) fun _ => .pure _

/-- The stores this page may be read from, if from several. -/
def Web.PageRequest.Alike (userId : Int) (request : Web.PageRequest) (s t : Db) : Prop :=
  request.Pooled → SameTallies userId s t

/-- Counters fit together on every page that is read in a transaction; on the others, if
nobody commits a change of the user's tallies from the first of the four queries to the last. -/
theorem counters_consistent {db : Database} {visitors : Nat → Visitor Url} {i : Nat} {userId : Int}
    {request : Web.PageRequest} (hi : visitors i = .page userId request)
    {s : World Db Error (Option Web.Page)}
    (h : ReflTransGen
      (World.Undisturbed (request.Alike userId) ((visitors i).run crates eng) i)
      (World.start db.val fun j => (visitors j).run crates eng) s) {page : Web.Page}
    (hpage : (s.sessions i).prog = .done (.ok (some page))) : page.counters.Consistent := by
  have hvalid (t : World Db Error (Option Web.Page))
      (ht : World.Reached db.val (fun j => (visitors j).run crates eng) t) : t.db.Valid :=
    (ht.serial (G := fun s t : Db => s.Valid → t.Valid) (fun _ => id)
      (fun _ _ _ hst htu => htu ∘ hst) fun j => (visitors j).run_built crates eng).keeps
        (I := Db.Valid) (fun _ _ _ hG => hG) db.property
  have hreads : ((visitors i).run crates eng : Prog Db Error _).Reads Db.Valid (request.Alike userId)
      (fun r _ => ∀ page, r = .ok (some page) → page.counters.Consistent) .fresh := by
    rw [hi]
    have hrequest := request.run_reads eng (E := request.Alike userId) userId fun hp s t he => he hp
    refine Prog.reads_bind (hrequest.mono ?_)
    rintro (e | page) st hfits
    · exact nofun
    · rintro _ ⟨⟩
      exact hfits page rfl
  have hread := (World.reading (fun _ _ _ => rfl) (fun _ _ _ hst htu hp archived =>
    (hst hp archived).trans (htu hp archived)) (fun _ => nofun) hvalid hreads h).2
  obtain ⟨-, hfits⟩ := hread.done hpage
  exact hfits page rfl

end visitors

/-- The sidebar is reloaded while an account is made, and an article is added to it. -/
def reloading : Nat → Visitor HttpText
  | 0 => .page 1 (.partialCategories .unread)
  | 1 => .call (.createUser "ada" "" "" "" 0 0)
  | _ => .request (.doAdd ⟨50, by decide⟩ (fun _ => blankPage) "https://a.org/" 1)

theorem reloading_undisturbed : ∃ s : World Db Error (Option Web.Page),
    ReflTransGen (World.Undisturbed ((Web.PageRequest.partialCategories .unread).Alike 1)
        ((reloading 0).run plainCrates plainEngine) 0)
      (World.start {} fun i => (reloading i).run plainCrates plainEngine) s ∧
    (s.sessions 0).prog = .done (.ok (some (.categories ⟨⟨0, 0, 0, 0⟩, .unread⟩))) := by
  have hstart : ReflTransGen (World.Undisturbed ((Web.PageRequest.partialCategories .unread).Alike 1)
        ((reloading 0).run plainCrates plainEngine) 0)
      (World.start {} fun i => (reloading i).run plainCrates plainEngine)
      (World.start {} fun i => (reloading i).run plainCrates plainEngine) := .refl
  have hunread := hstart.tail ⟨⟨0, .read rfl rfl⟩, fun _ _ _ => rfl⟩
  have huser := hunread.tail ⟨⟨1, .write rfl (by decide) rfl⟩, fun _ _ _ => rfl⟩
  have hall := huser.tail ⟨⟨0, .read rfl rfl⟩, fun _ _ _ => rfl⟩
  have hstarred := hall.tail ⟨⟨0, .read rfl rfl⟩, fun _ _ _ => rfl⟩
  exact ⟨_, hstarred.tail ⟨⟨0, .read rfl rfl⟩, fun _ _ _ => rfl⟩, rfl⟩

theorem counters_consistent_reloading : ∃ s : World Db Error (Option Web.Page),
    ReflTransGen (World.Undisturbed ((Web.PageRequest.partialCategories .unread).Alike 1)
        ((reloading 0).run plainCrates plainEngine) 0)
      (World.start {} fun i => (reloading i).run plainCrates plainEngine) s ∧
    ∃ page, (s.sessions 0).prog = .done (.ok (some page)) ∧ page.counters.Consistent := by
  obtain ⟨s, h, hpage⟩ := reloading_undisturbed
  have hpage0 : reloading 0 = .page 1 (.partialCategories .unread) := rfl
  let start : Database := ⟨{}, Db.valid_empty⟩
  exact ⟨s, h, _, hpage, counters_consistent plainCrates plainEngine hpage0
    (show ReflTransGen _ (World.start start.val _) s from h) hpage⟩

/-- The article is added after the unread ones are counted: none is unread or archived, and
there is one in all. -/
theorem reloading_torn : ∃ (s : World Db Error (Option Web.Page)) (page : Web.Page),
    World.Reached {} (fun i => (reloading i).run plainCrates plainEngine) s ∧
    (s.sessions 0).prog = .done (.ok (some page)) ∧ ¬ page.counters.Consistent := by
  have hstart : World.Reached {} (fun i => (reloading i).run plainCrates plainEngine)
    (World.start {} fun i => (reloading i).run plainCrates plainEngine) := .refl
  have huser := hstart.step 1 (.write rfl (by decide) rfl)
  have hunread := huser.step 0 (.read rfl rfl)
  have hentry := (hunread.step 2 (.enter rfl)).step 2 (.change rfl (by decide) rfl (.inl rfl))
  have hadded := ((hentry.step 2 (.look rfl rfl)).step 2 (.look rfl rfl)).step 2 (.commit rfl rfl)
  have hall := hadded.step 0 (.read rfl rfl)
  have hstarred := hall.step 0 (.read rfl rfl)
  have hpage := hstarred.step 0 (.read rfl rfl)
  exact ⟨_, .categories ⟨⟨0, 1, 0, 0⟩, .unread⟩, hpage, rfl, fun h => absurd h.split (by decide)⟩

end Articler
