import Articler.Listing
import Articler.Web.Articles
import Articler.Lib.FullText

/-! The search box. What is typed there goes to FTS5 as it is, as a query expression. -/
namespace Articler.Web
open Txn Rows FullText

/-- The columns of `entries_fts`, whose names SQLite compares without case. -/
def FtsColumn (w : List Char) : Prop := (String.ofList w).toLower ∈ ["title", "content_text"]

/-- FTS5 fails on this text, for this index, exactly if it is no query expression. -/
def ReadsQuery {K : Type} (eng : Engine K) (index : ContentIndex.Index FtsDoc) (q : String) : Prop :=
  (eng.fts5.query index q).isSome = true ↔ IsQuery FtsColumn q

section search
variable {K : Type} [Field K] [LinearOrder K] {eng : Engine K} {db : Database} {userId : Int}
  {query : SearchQuery}

theorem searchParams_plain (userId : Int) (query : SearchQuery) :
    (searchParams userId query).tags = none ∧ (searchParams userId query).domainName = none ∧
      (searchParams userId query).search = some query.q ∧
      (searchParams userId query).userId = userId := by
  unfold searchParams findParamsForCategory
  cases query.category.getD .all <;> exact ⟨rfl, rfl, rfl, rfl⟩

omit [Field K] [LinearOrder K] in
theorem searchMatch_search : Articler.Entries.searchMatch eng (searchParams userId query) db.val =
    okOr (.sqlx .fts5) (eng.fts5.query db.val.entriesFts query.q) := by
  rw [Articler.Entries.searchMatch, (searchParams_plain userId query).2.2.1]

omit [Field K] [LinearOrder K] in
theorem load_ok (eng : Engine K) (userId : Int) (db : Database) :
    ∃ counters, (ArticleCounters.load eng userId : Run Db Error ArticleCounters) db.val =
      (.ok counters, db.val) := by
  have hcount (params : FindParams) (htags : params.tags = none)
      (hdomain : params.domainName = none) (hsearch : params.search = none) :
      (Articler.Entries.count eng params : Run Db Error Int) db.val =
        (.ok (matching params (fun _ => true) db.val).length, db.val) := by
    have hs : Articler.Entries.searchMatch eng params db.val = .ok fun _ => true := by
      rw [Articler.Entries.searchMatch, hsearch]
    exact count_ok eng htags hdomain hs
  rw [ArticleCounters.load, run_bind_ok (hcount _ rfl rfl rfl), run_bind_ok (hcount _ rfl rfl rfl),
    run_bind_ok (hcount _ rfl rfl rfl), run_bind_ok (hcount _ rfl rfl rfl)]
  exact ⟨_, rfl⟩

theorem loadArticles_search {hit : Int → Bool} (category : Category)
    (hhit : eng.fts5.query db.val.entriesFts query.q = some hit)
    (hids : ∀ e ∈ db.val.entries, e.userId = userId → fitsI32 e.id = true) :
    ∃ context, (loadArticles eng userId (searchParams userId query) category :
      Run Db Error ArticlesContext) db.val = (.ok context, db.val) := by
  obtain ⟨htags, hdomain, -, huser⟩ := searchParams_plain userId query
  have hmatch : Articler.Entries.searchMatch eng (searchParams userId query) db.val = .ok hit := by
    rw [searchMatch_search, hhit]
    rfl
  have hrows := findAllRows_of_fits eng EntryMetadataRow.fromRow htags hdomain hmatch
    fun e he => hids e (pageRows_sub eng db.val he).1 ((pageRows_sub eng db.val he).2.user.trans huser)
  obtain ⟨counters, hcounters⟩ := load_ok eng userId db
  rw [loadArticles, run_transaction, Articler.Entries.findAllMetadata, run_bind_ok hrows,
    run_bind_ok hcounters]
  exact ⟨_, rfl⟩

theorem loadArticles_noQuery (category : Category)
    (h : eng.fts5.query db.val.entriesFts query.q = none) :
    (loadArticles eng userId (searchParams userId query) category :
      Run Db Error ArticlesContext) db.val = (.error (.sqlx .fts5), db.val) := by
  obtain ⟨htags, hdomain, -, -⟩ := searchParams_plain userId query
  rw [loadArticles, run_transaction, Articler.Entries.findAllMetadata, run_bind,
    Articler.Entries.findAllRows, run_bind, run_ofExcept, ensureSupported_ok htags hdomain]
  simp only [run_query, searchMatch_search, h, okOr, Except.bind]

theorem search_run (eng : Engine K) (userId : Int) (query : SearchQuery) (headers : HxHeaders)
    (uri : String) :
    ∃ page : ArticlesContext → Page,
      (search eng headers uri userId query : Run Db Error Page) =
        loadArticles eng userId (searchParams userId query) (query.category.getD .all) >>=
          fun context => pure (page context) := by
  unfold search
  dsimp only
  split
  · exact ⟨fun context => .articleCards context uri, rfl⟩
  · exact ⟨.pageArticles, rfl⟩

/-- A search answers with its articles if what was typed is a query expression; otherwise it
fails with the error of FTS5. -/
theorem search_answers_queries (hquery : ReadsQuery eng db.val.entriesFts query.q)
    (hids : ∀ e ∈ db.val.entries, e.userId = userId → fitsI32 e.id = true) (headers : HxHeaders)
    (uri : String) :
    ((∃ page, (search eng headers uri userId query : Run Db Error Page) db.val =
        (.ok page, db.val)) ↔ IsQuery FtsColumn query.q) ∧
      (¬ IsQuery FtsColumn query.q →
        (search eng headers uri userId query : Run Db Error Page) db.val =
          (.error (.sqlx .fts5), db.val)) := by
  obtain ⟨page, hsearch⟩ := search_run eng userId query headers uri
  rw [ReadsQuery] at hquery
  rw [hsearch, ← hquery]
  cases hmatch : eng.fts5.query db.val.entriesFts query.q with
  | none =>
    rw [run_bind, loadArticles_noQuery _ hmatch]
    exact ⟨by simp, fun _ => rfl⟩
  | some hit =>
    obtain ⟨context, hcontext⟩ := loadArticles_search (query.category.getD .all) hmatch hids
    rw [run_bind_ok hcontext]
    exact ⟨⟨fun _ => rfl, fun _ => ⟨page context, rfl⟩⟩, fun h => absurd rfl h⟩

end search

open Classical in
/-- An FTS5 that fails on what is no query expression. -/
noncomputable def grammarEngine : Engine ℚ :=
  { plainEngine with fts5 := { plainEngine.fts5 with
      query := fun index q =>
        if IsQuery FtsColumn q then plainEngine.fts5.query index q else none } }

theorem grammarEngine_reads (index : ContentIndex.Index FtsDoc) (q : String) :
    ReadsQuery grammarEngine index q := by
  by_cases h : IsQuery FtsColumn q <;> simp [ReadsQuery, grammarEngine, plainEngine, h]

/-- Two words that no article has. -/
theorem search_answers_words :
    IsQuery FtsColumn "quick fox" ∧
      ∃ page, (search grammarEngine ⟨true, false, false⟩ "/search" 1 { q := "quick fox" } :
        Run Db Error Page) shelf.val = (.ok page, shelf.val) := by
  have hword : ∀ w ∈ ["quick".toList, "fox".toList], IsWord w := by
    intro w hw
    rcases List.mem_pair.mp hw with rfl | rfl
    · exact ⟨by decide, List.all_eq_true.mp rfl, by decide⟩
    · exact ⟨by decide, List.all_eq_true.mp rfl, by decide⟩
  have hwords : IsQuery FtsColumn "quick fox" :=
    isQuery_words (List.cons_ne_nil _ _) hword (by decide)
  have hids : ∀ e ∈ shelf.val.entries, e.userId = 1 → fitsI32 e.id = true := by decide
  exact ⟨hwords, (search_answers_queries (grammarEngine_reads _ _) hids _ _).1.mpr hwords⟩

/-- A single double quote is no query expression, and the search fails. -/
theorem search_fails_unclosed : (∀ index q, ReadsQuery grammarEngine index q) ∧
    (search grammarEngine ⟨true, false, false⟩ "/search" 1 { q := "\"" } :
      Run Db Error Page) shelf.val = (.error (.sqlx .fts5), shelf.val) := by
  have hnone : grammarEngine.fts5.query shelf.val.entriesFts "\"" = none :=
    if_neg (not_isQuery_of_quotes (by decide))
  refine ⟨grammarEngine_reads, ?_⟩
  obtain ⟨page, hsearch⟩ := search_run grammarEngine 1 { q := "\"" } ⟨true, false, false⟩ "/search"
  rw [hsearch, run_bind, loadArticles_noQuery _ hnone]

end Articler.Web
