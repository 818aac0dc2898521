import Articler.Intact

/-! What a handler may refuse. A request that the code has a refusal for gets it, and none runs into
an error of the database, a row that does not convert, or a state the code does not expect. -/
namespace Articler
open Txn Rows Relation

/-- What is known of the `url` crate: a url that was written out parses, and so do the two that the
API makes up for its links. -/
structure UrlsParse (Url : Type) [UrlCrate Url] : Prop where
  written : ∀ u : Url, ParsesAs Url (UrlCrate.asStr u)
  self : ParsesAs Url "https://example.com"
  links : ParsesAs Url "http://example.com"

section updates
variable {Url : Type} [UrlCrate Url] {now : Int}

theorem forall_assigned {α : Type} {field : UpdateField α} {mk : Option α → Assign}
    {P : Assign → Prop} :
    (∀ a ∈ (field.map mk).toList, P a) ↔ ∀ v, field = some v → P (mk v) := by
  cases field <;> simp

theorem assignments_readable {update : UpdateEntry}
    (harchived : ∀ t, update.archivedAt = some (some t) → InDateTime t)
    (hstarred : ∀ t, update.starredAt = some (some t) → InDateTime t)
    (hpicture : ∀ s, update.previewPicture = some (some s) → ParsesAs Url s)
    (horigin : ∀ s, update.originUrl = some (some s) → ParsesAs Url s)
    (hpublished : ∀ t, update.publishedAt = some (some t) → InDateTime t)
    (hupdated : InDateTime update.updatedAt) : ∀ a ∈ update.assignments, a.Readable Url := by
  simp only [UpdateEntry.assignments, List.forall_mem_append, forall_assigned,
    List.forall_mem_singleton, Assign.Readable, implies_true, true_and, and_true]
  refine ⟨⟨⟨⟨⟨?_, ?_⟩, ?_⟩, ?_⟩, ?_⟩, hupdated⟩
  all_goals
    rintro v hv x rfl
  · exact harchived x hv
  · exact hstarred x hv
  · exact hpicture x hv
  · exact horigin x hv
  · exact hpublished x hv

theorem Title.tryFrom_refuses {value : String} {e : Error} (h : Title.tryFrom value = .error e) :
    e.Refusal := by
  dsimp only [Title.tryFrom] at h
  split at h
  · cases h
    rfl
  · split at h <;> cases h

theorem ArticleUrl.tryFrom_refuses {value : Url} {e : Error}
    (h : ArticleUrl.tryFrom value = .error e) : e.Refusal := by
  unfold ArticleUrl.tryFrom at h
  split at h <;> cases h
  rfl

theorem stamp_parses {made : DateTime} {flag : Option Bool} {t : Int}
    (h : Api.stamp made flag = some (some t)) : InDateTime t := by
  rcases flag with _ | _ | _ <;> cases h
  exact made.inDateTime

theorem repoUpdate_title {crates : Crates} {request : Api.UpdateEntry Url} {made : DateTime}
    {uid : String} {update : UpdateEntry} (h : request.repoUpdate crates made uid = .ok update) :
    update.title ≠ some none := by
  unfold Api.UpdateEntry.repoUpdate at h
  cases hrequest : request.title with
  | none =>
    rw [hrequest] at h
    cases h
    exact nofun
  | some value =>
    rw [hrequest] at h
    obtain ⟨title, htitle, h⟩ := bind_eq_ok.mp h
    cases h
    cases hvalue : Title.tryFrom value with
    | error e =>
      rw [hvalue] at htitle
      cases htitle
    | ok t =>
      rw [hvalue] at htitle
      cases htitle
      exact nofun

/-- The update that a patch asks for. -/
theorem repoUpdate_proper (hurl : UrlsParse Url) {crates : Crates} {request : Api.UpdateEntry Url}
    {made : DateTime} {uid : String} {update : UpdateEntry} (hmade : now ≤ made.timestamp)
    (horigin : ∀ s, request.originUrl = some s → ParsesAs Url s)
    (h : request.repoUpdate crates made uid = .ok update) : update.Proper Url now := by
  have htitle := repoUpdate_title h
  obtain ⟨title, rest, hrest, rfl⟩ := Api.UpdateEntry.repoUpdate_ok h
  cases hrest
  refine ⟨⟨htitle, ?_, ?_, ?_, ?_, ?_⟩, assignments_readable (fun _ => stamp_parses)
    (fun _ => stamp_parses) (fun s hs => ?_) (fun s hs => ?_) (fun t ht => ?_) made.inDateTime, nofun, hmade⟩
  · cases request.content <;> exact nofun
  · exact nofun
  · cases request.archive <;> exact nofun
  · cases request.starred <;> exact nofun
  · exact nofun
  · cases hpicture : request.previewPicture with
    | none => simp [hpicture] at hs
    | some picture =>
      obtain rfl : UrlCrate.asStr picture = s := by simpa [hpicture] using hs
      exact hurl.written picture
  · refine horigin s ?_
    simpa using hs
  · cases hpublished : request.publishedAt with
    | none => simp [hpublished] at ht
    | some date =>
      obtain rfl : date.timestamp = t := by simpa [hpublished] using ht
      exact date.inDateTime

theorem repoUpdate_refuses {crates : Crates} {request : Api.UpdateEntry Url} {made : DateTime}
    {uid : String} {e : Error} (h : request.repoUpdate crates made uid = .error e) : e.Refusal := by
  unfold Api.UpdateEntry.repoUpdate at h
  cases hrequest : request.title with
  | none =>
    rw [hrequest] at h
    cases h
  | some value =>
    rw [hrequest] at h
    dsimp only at h
    cases hvalue : Title.tryFrom value with
    | error d =>
      rw [hvalue] at h
      cases h
      exact Title.tryFrom_refuses hvalue
    | ok t =>
      rw [hvalue] at h
      cases h

theorem archiveUpdate_proper {made updated : DateTime} (h : now ≤ updated.timestamp)
    (archived : Bool) : (Web.archiveUpdate made updated archived).Proper Url now :=
  ⟨⟨nofun, nofun, nofun, nofun, nofun, nofun⟩, archiveUpdate_readable made updated archived, nofun, h⟩

theorem favouriteUpdate_proper {made updated : DateTime} (h : now ≤ updated.timestamp)
    (starred : Bool) : (Web.favouriteUpdate made updated starred).Proper Url now :=
  ⟨⟨nofun, nofun, nofun, nofun, nofun, nofun⟩, favouriteUpdate_readable made updated starred, nofun, h⟩

theorem titleUpdate_proper {made : DateTime} (h : now ≤ made.timestamp) (title : Title) :
    UpdateEntry.Proper Url now { title := some (some title), updatedAt := made.timestamp } :=
  ⟨⟨nofun, nofun, nofun, nofun, nofun, nofun⟩, titleUpdate_readable made title, nofun, h⟩

theorem reloadUpdate_proper (hurl : UrlsParse Url) {made : DateTime} (h : now ≤ made.timestamp)
    {document : Document Url} (htime : fitsI32 document.readingTime = true) :
    (Cli.reloadUpdate made document).Proper Url now :=
  ⟨⟨nofun, nofun, nofun, nofun, nofun, nofun⟩, reloadUpdate_readable hurl.written made document,
    fun _ ht => by cases ht; exact htime, h⟩

end updates

section handlers
variable {Url : Type} [UrlCrate Url] (hurl : UrlsParse Url) {now last u : Int} {K : Type} [Field K]
  [LinearOrder K] (crates : Crates) (eng : Engine K)

theorem Api.deleteEntry_serves (entryId : Int) (expect : Api.Expect) :
    Serves Url now last u (fun _ => True)
      (Api.deleteEntry entryId expect u : Run Db Error (Api.DeleteEntryResponse Url)) := by
  refine .transaction ?_
  cases expect with
  | id =>
    refine .bind (deleteById_serves u entryId) fun deleted _ => ?_
    cases deleted with
    | true => exact .pure trivial
    | false => exact .fail rfl
  | full =>
    refine .bind (findById_serves u entryId) fun found hfound => ?_
    refine .bind (Q := fun full => full ∈ found) (.ofExcept (fun full h => okOr_eq_ok.mp h)
      fun e he => ?_) fun full hfull => .bind (deleteById_serves u entryId) fun deleted _ => ?_
    · cases found <;> cases he
      rfl
    · cases deleted with
      | true => exact .bind (.given (hfound full hfull).converts) fun _ _ => .pure trivial
      | false => exact .fail rfl

theorem Api.postEntryTags_serves (entryId : Int) (labels : List String) :
    Serves Url now last u (fun _ => True)
      (Api.postEntryTags crates entryId labels u : Run Db Error (Entry Url)) := by
  refine .bind (Q := fun result => ∀ e, result = .error e → e.Refusal) (.transaction
    (.bind (findById_serves u entryId) fun found hfound => ?_)) fun result hresult =>
      .ofExcept (fun _ _ => trivial) hresult
  split
  · refine .bind (updateTags_serves entryId _) fun _ _ => .bind (findById_serves u entryId)
      fun found hfound => .bind (Q := fun full => full ∈ found)
        (.ofExcept (fun full h => okOr_eq_ok.mp h) fun e he => ?_) fun full hfull =>
          .bind (.given (hfound full hfull).converts) fun _ _ => .pure nofun
    cases found <;> cases he
    rfl
  · refine .pure fun e he => ?_
    cases he
    rfl

theorem Api.getTagsByEntry_serves (entryId : Int) :
    Serves Url now last u (fun _ => True) (Api.getTagsByEntry entryId u) := by
  refine .bind (Q := fun result => ∀ e, result = .error e → e.Refusal) (.transaction
    (.bind (Q := fun _ => True) (.read fun _ _ => trivial) fun found _ => ?_)) fun result hresult =>
      .ofExcept (fun _ _ => trivial) hresult
  split
  · exact .bind (Q := fun _ => True) (.read fun _ _ => trivial) fun _ _ => .pure nofun
  · refine .pure fun e he => ?_
    cases he
    rfl

/-- The entry is still there after one of its tags is taken off it. -/
theorem Api.untag_serves (entryId tagId : Int) :
    Answers (fun db => db.Serving Url now last u ∧
        (db.entries.any fun e => e.userId == u && e.id == entryId) = true) Error.Refusal
      (fun result => ∀ e, result = .error e → e.Refusal) (do
        let _ ← Articler.Entries.deleteTagByTagId u entryId tagId
        let full ← Articler.Entries.findById u entryId
        match full with
        | some full => do
          let entry ← ofExcept (Entry.tryFromFull full)
          pure (.ok entry)
        | none => pure (.error (.unexpectedState "Can't find entry by id")) :
          Run Db Error (Except Error (Entry Url))) := by
  refine .bind (Q := fun _ => True) (.update fun s hs => ⟨⟨hs.1.write (.deleteEntryTags s _)
    (by decide) (by decide), hs.2⟩, trivial⟩) fun _ _ => .bind
      (Q := fun found => ∃ full, found = some full ∧ full.Stored Url) (fun s hs => ?_) ?_
  · obtain ⟨hserving, hthere⟩ := hs
    obtain ⟨e, he, hown⟩ := List.any_eq_true.mp hthere
    have hfind : (s.entries.find? fun e => e.userId == u && e.id == entryId).isSome = true := by
      rw [List.find?_isSome]
      exact ⟨e, he, hown⟩
    obtain ⟨row, hrow⟩ := Option.isSome_iff_exists.mp hfind
    rw [Articler.Entries.findById_run, hrow]
    exact .ok ⟨hserving, hthere⟩ ⟨_, rfl, row, hserving.readable row (List.mem_of_find?_eq_some hrow), rfl⟩
  · rintro _ ⟨full, rfl, hstored⟩
    exact .bind (.given hstored.converts) fun _ _ => .pure nofun

theorem Api.deleteTagFromEntry_serves (entryId tagId : Int) :
    Serves Url now last u (fun _ => True)
      (Api.deleteTagFromEntry entryId tagId u : Run Db Error (Entry Url)) := by
  refine .bind (Q := fun result => ∀ e, result = .error e → e.Refusal) (.transaction
    fun db hdb => ?_) fun result hresult => .ofExcept (fun _ _ => trivial) hresult
  rw [Articler.Entries.existsById, run_bind, run_query]
  cases hfound : db.entries.any fun e => e.userId == u && e.id == entryId with
  | true => exact (Api.untag_serves entryId tagId db ⟨hdb, hfound⟩).imp fun _ h => h.1
  | false =>
    refine .ok hdb fun e he => ?_
    cases he
    rfl

omit [UrlCrate Url] in
theorem Api.found_refuses {α : Type} {r : Option α} {message : String} {e : Error}
    (h : okOr (.notFound message) r = .error e) : e.Refusal := by
  cases r <;> cases h
  rfl

theorem Api.deleteTagById_serves (tagId : Int) :
    Serves Url now last u (fun _ => True) (Api.deleteTagById tagId u) :=
  .bind (Q := fun _ => True) (.bind (deleteReturning_serves _) fun _ _ => .pure trivial) fun _ _ =>
    .ofExcept (fun _ _ => trivial) fun _ => Api.found_refuses

theorem Api.deleteTagByLabel_serves (label : String) :
    Serves Url now last u (fun _ => True) (Api.deleteTagByLabel label u) :=
  .bind (Q := fun _ => True) (.bind (deleteReturning_serves _) fun _ _ => .pure trivial) fun _ _ =>
    .ofExcept (fun _ _ => trivial) fun _ => Api.found_refuses

theorem Api.deleteTagsByLabel_serves {labels : List String}
    (h : labels.length < Articler.Tags.maxVariableNumber) :
    Serves Url now last u (fun _ => True) (Api.deleteTagsByLabel labels u) := by
  have hprepared : Articler.Tags.prepare (labels.length + 1) = .ok () := if_neg (Nat.not_lt.mpr h)
  exact .bind (Q := fun _ => True) (.bind (.given ⟨(), hprepared⟩) fun _ _ => deleteReturning_serves _)
    fun _ _ => .pure trivial

include hurl

theorem Api.entries_serves (hlast : last < 2 ^ 31) (request : Api.EntriesRequest) :
    Serves Url now last u (fun _ => True)
      (Api.entries eng request u : Run Db Error (Api.Entries Url)) := by
  have hsearch : (request.params u).Searchable eng := .unsearched eng rfl
  refine .bind (Q := fun _ => True) (.transaction (.bind (count_serves eng hsearch)
    fun count _ => ?_)) fun _ _ => ?_
  · split
    · exact .bind (findAll_serves eng hlast hsearch) fun rows hrows =>
        .bind (.given (mapM_ok fun full hfull => (hrows full hfull).converts)) fun _ _ => .pure trivial
    · exact .bind (findAllMetadata_serves eng hlast hsearch) fun rows hrows =>
        .bind (.given (mapM_ok fun listed hlisted => (hrows listed hlisted).converts))
          fun _ _ => .pure trivial
  · dsimp only
    split
    · exact .fail rfl
    · exact .bind (.given (parseUrl_ok_iff.mpr hurl.links)) fun _ _ => .pure trivial

theorem Api.patchEntry_serves {made : DateTime} (hmade : now ≤ made.timestamp) (uid : String)
    (entryId : Int) {request : Api.UpdateEntry Url}
    (horigin : ∀ s, request.originUrl = some s → ParsesAs Url s) :
    Serves Url now last u (fun _ => True) (Api.patchEntry crates made uid entryId request u) := by
  refine .bind (Q := fun update => update.Proper Url now) (.ofExcept
    (fun _ => repoUpdate_proper hurl hmade horigin) fun _ => repoUpdate_refuses) fun update hupdate =>
      .transaction (.bind (updateById_serves hupdate u entryId) fun updated _ => ?_)
  split
  · refine .bind (Q := fun _ => True) ?_ fun _ _ => .bind (findById_serves u entryId)
      fun found hfound => .bind (Q := fun full => full ∈ found)
        (.ofExcept (fun _ h => okOr_eq_ok.mp h) fun _ => Api.found_refuses) fun full hfull =>
          .given (hfound full hfull).converts
    cases request.tags with
    | some labels => exact updateTags_serves entryId _
    | none => exact .pure trivial
  · exact .fail rfl

theorem Api.postEntries_serves {s : Db} (hs : s.Serving Url now last u) {made : DateTime} {now' : Int}
    (hmade : now ≤ made.timestamp) (hnow : made.timestamp ≤ now')
    (uid : String) {extract : ArticleUrl Url → Document Url}
    (hdocs : ∀ url, fitsI32 (extract url).readingTime = true) {addEntry : Api.AddEntry Url}
    (horigin : ∀ o, addEntry.originUrl = some o → ParsesAs Url o) :
    Answered (fun db => db.Serving Url now' (last + 1) u) Error.Refusal (fun _ => True)
      ((Api.postEntries crates made uid extract u addEntry : Run Db Error _) s) := by
  have hlater := hs.mono (hmade.trans hnow)
  unfold Api.postEntries
  split
  · exact .failed hlater rfl
  rw [run_bind, run_ofExcept]
  cases hurl' : ArticleUrl.tryFrom addEntry.url with
  | error e => exact .failed hlater (ArticleUrl.tryFrom_refuses hurl')
  | ok url =>
    exact Answered.bind (create_serves hs rfl (createEntry_readable hurl.written crates horigin made
      uid u url (extract url)) (hdocs url) le_rfl (hmade.trans hnow) hnow _) fun full hfull =>
        .bind (.given (parseUrl_ok_iff.mpr hurl.self)) fun _ _ =>
          .bind (.given hfull.converts) fun _ _ => .pure trivial

theorem Web.doAdd_serves {s : Db} (hs : s.Serving Url now last u) {made : DateTime} {now' : Int}
    (hmade : now ≤ made.timestamp) (hnow : made.timestamp ≤ now')
    {extract : ArticleUrl Url → Document Url} (hdocs : ∀ url, fitsI32 (extract url).readingTime = true)
    {url : String} (hparses : ParsesAs Url url) :
    Answered (fun db => db.Serving Url now' (last + 1) u) Error.Refusal (fun _ => True)
      ((Web.doAdd crates made extract url u : Run Db Error _) s) := by
  have hlater := hs.mono (hmade.trans hnow)
  obtain ⟨parsed, hparsed⟩ := Option.isSome_iff_exists.mp hparses
  unfold Web.doAdd
  rw [run_bind, run_ofExcept, hparsed]
  dsimp only [okOr]
  rw [run_bind, run_ofExcept]
  cases harticle : ArticleUrl.tryFrom parsed with
  | error e => exact .failed hlater (ArticleUrl.tryFrom_refuses harticle)
  | ok article =>
    exact Answered.bind (create_serves hs rfl (addedEntry_readable hurl.written crates made u article
      (extract article)) (hdocs article) le_rfl (hmade.trans hnow) hnow _) fun _ _ => .pure trivial

end handlers

section pages
variable {Url : Type} [UrlCrate Url] {now last u : Int} {K : Type} [Field K] [LinearOrder K]
  (eng : Engine K)

omit [Field K] [LinearOrder K] in
theorem Web.counters_serves : Serves Url now last u (fun _ => True) (Web.ArticleCounters.load eng u) := by
  refine .bind (count_serves eng ?_) fun _ _ => .bind (count_serves eng ?_) fun _ _ =>
    .bind (count_serves eng ?_) fun _ _ => .bind (count_serves eng ?_) fun _ _ => .pure trivial
  all_goals exact .unsearched eng rfl

omit [Field K] [LinearOrder K] in
theorem Web.category_searchable (category : Web.Category) :
    (Web.findParamsForCategory u category).Searchable eng := by
  cases category <;> exact .unsearched eng rfl

section listing
variable (hlast : last < 2 ^ 31)
include hlast

theorem Web.loadArticles_serves {params : FindParams} (h : params.Searchable eng)
    (activeCategory : Web.Category) :
    Serves Url now last u (fun _ => True) (Web.loadArticles eng u params activeCategory) :=
  .transaction (.bind (findAllMetadata_serves eng hlast h) fun _ _ => .bind (Web.counters_serves eng)
    fun _ _ => .pure trivial)

theorem Web.main_serves {params : FindParams} (h : params.Searchable eng)
    (activeCategory : Web.Category) :
    Serves Url now last u (fun _ => True) (Web.main eng u params activeCategory) :=
  .bind (Web.loadArticles_serves eng hlast h activeCategory) fun _ _ => .pure trivial

theorem Web.articleCards_serves (category : Web.Category) :
    Serves Url now last u (fun _ => True) (Web.renderArticleCards eng u category) :=
  .bind (findAllMetadata_serves eng hlast (Web.category_searchable eng category)) fun _ _ => .pure trivial

theorem Web.renderSource_serves (source : Option Web.HxSource) (articleId : Int)
    (category : Web.Category) :
    Serves Url now last u (fun _ => True) (Web.renderSource eng source u articleId category) := by
  cases source with
  | none => exact Web.articleCards_serves eng hlast category
  | some source =>
    cases source
    refine .bind (findById_serves u articleId) fun found _ => ?_
    cases found with
    | none => exact .fail rfl
    | some full => exact .pure trivial

theorem Web.edit_serves {update : UpdateEntry} (h : update.Proper Url now) (id : Int)
    (source : Option Web.HxSource) (category : Web.Category) :
    Serves Url now last u (fun _ => True) (do
      let _ ← Entries.updateById u id update
      Web.renderSource eng source u id category) :=
  .bind (updateById_serves h u id) fun _ _ => Web.renderSource_serves eng hlast source id category

theorem Web.search_serves (headers : Web.HxHeaders) (uri : String) {query : Web.SearchQuery}
    (h : ∀ fts, (eng.fts5.query fts query.q).isSome = true) :
    Serves Url now last u (fun _ => True) (Web.search eng headers uri u query) := by
  have hsearch : (Web.searchParams u query).Searchable eng := by
    intro q hq
    cases hq
    exact h
  unfold Web.search
  dsimp only
  split
  · exact .bind (Web.loadArticles_serves eng hlast hsearch _) fun _ _ => .pure trivial
  · exact Web.main_serves eng hlast hsearch _

theorem Web.doEditTitle_serves {made : DateTime} (hmade : now ≤ made.timestamp) (articleId : Int)
    (title : String) (source : Option Web.HxSource) (category : Web.Category) :
    Serves Url now last u (fun _ => True)
      (Web.doEditTitle eng made articleId title source u category) := by
  unfold Web.doEditTitle
  split
  · exact .pure trivial
  · exact .fail (Title.tryFrom_refuses ‹_›)
  · exact Web.edit_serves eng hlast (titleUpdate_proper hmade _) articleId source category

theorem Web.doDelete_serves (articleId : Int) (backLocation : Option String)
    (source : Option Web.HxSource) (category : Web.Category) :
    Serves Url now last u (fun _ => True)
      (Web.doDelete eng articleId backLocation source u category) := by
  refine .bind (deleteById_serves u articleId) fun _ _ => ?_
  split
  · exact .pure trivial
  · exact Web.articleCards_serves eng hlast category

end listing

omit [Field K] [LinearOrder K] in
theorem Web.article_serves (id : Int) (referer : Option String) :
    Serves Url now last u (fun _ => True) (Web.article id referer u) := by
  refine .bind (findById_serves u id) fun found _ => ?_
  cases found with
  | none => exact .fail rfl
  | some full => exact .pure trivial

theorem ClientName.tryFrom_refuses {value : String} {e : Error}
    (h : ClientName.tryFrom value = .error e) : e.Refusal := by
  dsimp only [ClientName.tryFrom] at h
  split at h
  · cases h
    rfl
  · split at h
    · cases h
    · cases h
      rfl

theorem createClient_serves {s : Db} (hs : s.Serving Url now last u) {clientId : String}
    (hfresh : ∀ c ∈ s.clients, c.clientId ≠ clientId) (clientName clientSecret : String)
    (createdAt : Int) :
    Answered (fun db => db.Serving Url now last u) Error.Refusal (fun _ => True)
      ((Clients.create u clientName clientId clientSecret createdAt : Run Db Error _) s) := by
  have hinsert : ∃ p, (s.insertClient fun id =>
      { id, name := clientName, clientId, clientSecret, userId := u, createdAt }) = .ok p := by
    have hnone : (s.clients.any fun d => d.userId == u && d.clientId == clientId) = false :=
      List.any_eq_false.mpr fun d hd => by simp [hfresh d hd]
    simp only [Db.insertClient, hnone, hs.user, Bool.false_eq_true, if_false, Bool.not_true,
      Except.ok.injEq, exists_eq']
  obtain ⟨⟨c, t⟩, hinsert⟩ := hinsert
  rw [Clients.create, run_stmt, hinsert]
  exact .ok (hs.write (.insertClient (fun _ => rfl) hinsert) (by decide) (by decide)) trivial

theorem Web.doCreateClient_serves {s : Db} (hs : s.Serving Url now last u) {keys : ClientKeys}
    (hfresh : ∀ c ∈ s.clients, c.clientId ≠ keys.clientId) (made : DateTime) (clientName : String) :
    Answered (fun db => db.Serving Url now last u) Error.Refusal (fun _ => True)
      ((Web.doCreateClient made keys clientName u : Run Db Error _) s) := by
  unfold Web.doCreateClient
  rcases hname : ClientName.tryFrom clientName with e | name
  · cases e with
    | validation message => exact .ok hs trivial
    | _ => exact .failed hs (ClientName.tryFrom_refuses hname)
  · exact (createClient_serves hs hfresh _ _ _).bind fun _ _ => .pure trivial

theorem FakeUi.postClientCreate_serves {s : Db} (hs : s.Serving Url now last u) {keys : ClientKeys}
    (hfresh : ∀ c ∈ s.clients, c.clientId ≠ keys.clientId) (made : DateTime) (name : String) :
    Answered (fun db => db.Serving Url now last u) Error.Refusal (fun _ => True)
      ((FakeUi.postClientCreate made keys name u : Run Db Error _) s) := by
  unfold FakeUi.postClientCreate
  rw [run_bind, run_ofExcept]
  cases hname : ClientName.tryFrom name with
  | error e => exact .failed hs (ClientName.tryFrom_refuses hname)
  | ok clientName => exact (createClient_serves hs hfresh _ _ _).bind fun _ _ => .pure trivial

end pages

section accounts
variable {Url : Type} [UrlCrate Url] {now : Int} (accounts : AccountCrates)

theorem createUser_intact {s : Db} (hs : s.Intact Url now) {username : String}
    (hfree : ∀ w ∈ s.users, w.username ≠ username) (passwordHash name email : String) (made : Int) :
    Answered (fun db => db.Intact Url now) Error.Refusal (fun _ => True)
      ((Users.createUser username passwordHash name email made made : Run Db Error _) s) := by
  have hinsert : ∃ p, (s.insertUser fun id =>
      { id, username, email, name, passwordHash, createdAt := made, updatedAt := made }) = .ok p := by
    have hnone : (s.users.any fun w => w.username == username) = false :=
      List.any_eq_false.mpr fun w hw => by simp [hfree w hw]
    simp only [Db.insertUser, hnone, lt_irrefl, Bool.false_eq_true, if_false, Except.ok.injEq,
      exists_eq']
  obtain ⟨⟨w, t⟩, hinsert⟩ := hinsert
  rw [Users.createUser, run_stmt, hinsert]
  exact .ok (hs.write (.insertUser (fun _ => rfl) hinsert) (by decide)) trivial

theorem Username.tryFrom_refuses {value : String} {e : Error}
    (h : Username.tryFrom value = .error e) : e.Refusal := by
  dsimp only [Username.tryFrom] at h
  split at h
  · cases h
    rfl
  · split at h
    · cases h
    · cases h
      rfl

theorem Password.tryFrom_refuses {value : String} {e : Error}
    (h : Password.tryFrom value = .error e) : e.Refusal := by
  dsimp only [Password.tryFrom] at h
  split at h
  · cases h
    rfl
  · split at h
    · cases h
    · cases h
      rfl

variable {accounts} (hhash : ∀ password e, accounts.hashPassword password = .error e → e.Refusal)

theorem Web.validated_intact {α : Type} {r : Except Error α} (hr : ∀ e, r = .error e → e.Refusal)
    {next : α → Run Db Error Web.SetupResponse}
    (h : ∀ a, Answers (fun db => db.Intact Url now) Error.Refusal (fun _ => True) (next a)) :
    Answers (fun db => db.Intact Url now) Error.Refusal (fun _ => True)
      (Web.validated r next) := by
  unfold Web.validated
  split
  · exact h _
  · exact .pure trivial
  · exact .fail (hr _ rfl)

include hhash

theorem Web.doSetup_intact (made : DateTime) (form : Web.SetupForm) :
    Answers (fun db => db.Intact Url now) Error.Refusal (fun _ => True)
      (Web.doSetup accounts made form) := by
  refine .bind (Q := fun _ => True) (.read fun _ _ => trivial) fun count _ => ?_
  split
  · exact .pure trivial
  refine Web.validated_intact (fun _ => Username.tryFrom_refuses) fun username =>
    Web.validated_intact (fun _ => Password.tryFrom_refuses) fun password =>
      Web.validated_intact (fun _ => Password.tryFrom_refuses) fun confirmPassword => ?_
  split
  · exact .pure trivial
  refine .bind (Q := fun _ => True) (.ofExcept (fun _ _ => trivial) (hhash password)) fun hash _ =>
    .transaction fun s hs => ?_
  rw [Users.count, run_bind, run_query]
  dsimp only
  split
  · exact .ok hs trivial
  · have hnone : s.users = [] := List.length_eq_zero_iff.mp (by omega)
    have hfree : ∀ w ∈ s.users, w.username ≠ username.val := by simp [hnone]
    exact (createUser_intact hs hfree hash "" "" made.timestamp).bind fun _ _ => .pure trivial

theorem Cli.createUser_intact (made : DateTime) (username password name email : String) :
    Answers (fun db => db.Intact Url now) Error.Refusal (fun _ => True)
      (Cli.createUser accounts made username password name email) := by
  refine .transaction ?_
  split
  · exact .fail rfl
  refine .bind (Q := fun _ => True) (.ofExcept (fun _ _ => trivial)
    fun _ => Username.tryFrom_refuses) fun username _ s hs => ?_
  rw [Users.findByUsername, run_bind, run_query]
  dsimp only
  cases hfound : s.users.find? fun w => w.username == username.val with
  | some w => exact .failed hs rfl
  | none =>
    have hfree : ∀ w ∈ s.users, w.username ≠ username.val := by simpa using List.find?_eq_none.mp hfound
    simp only [Option.isSome_none, Bool.false_eq_true, if_false]
    rw [run_bind, run_ofExcept]
    cases hpassword : Password.tryFrom password with
    | error e => exact .failed hs (Password.tryFrom_refuses hpassword)
    | ok p =>
      dsimp only
      rw [run_bind, run_ofExcept]
      cases hhashed : accounts.hashPassword p with
      | error e => exact .failed hs (hhash p e hhashed)
      | ok hash =>
        exact (Articler.createUser_intact hs hfree hash name email made.timestamp).bind fun _ _ =>
          .pure trivial

end accounts

section commands
variable {Url : Type} [UrlCrate Url] {now last : Int}

theorem Cli.createClient_intact {s : Db} (hs : s.Intact Url now) {keys : ClientKeys}
    (hfresh : ∀ c ∈ s.clients, c.clientId ≠ keys.clientId) (made : DateTime)
    (username clientName : String) :
    Answered (fun db => db.Intact Url now) Error.Refusal (fun _ => True)
      ((Cli.createClient made keys username clientName : Run Db Error _) s) := by
  refine Answered.transaction hs ?_
  rw [Users.findByUsername, run_bind, run_query]
  dsimp only
  cases hfound : s.users.find? fun w => w.username == username with
  | none => exact .failed hs rfl
  | some w =>
    have hserving : s.Serving Url now s.entriesSeq w.id :=
      ⟨hs, Db.hasUser_iff.mpr ⟨w, List.mem_of_find?_eq_some hfound, rfl⟩, le_rfl⟩
    dsimp only
    rw [run_bind, run_ofExcept]
    cases hname : ClientName.tryFrom clientName with
    | error e => exact .failed hs (ClientName.tryFrom_refuses hname)
    | ok name => exact (createClient_serves hserving hfresh _ _ _).imp fun _ h => h.toIntact

theorem MetadataEntry.Stored.url {listed : MetadataEntry} (h : listed.Stored Url) :
    ParsesAs Url listed.1.url := by
  obtain ⟨e, he, hrow⟩ := h
  rw [hrow]
  exact he.url

theorem Cli.reloadEntries_serves (hurl : UrlsParse Url) {u : Int} {made : Int → DateTime}
    (hmade : ∀ id, now ≤ (made id).timestamp) {extract : ArticleUrl Url → Option (Document Url)}
    (hdocs : ∀ url doc, extract url = some doc → fitsI32 doc.readingTime = true)
    {rows : List EntryMetadataRow} (hrows : ∀ row ∈ rows, ParsesAs Url row.url) :
    Serves Url now last u (fun _ => True) (Cli.reloadEntries made extract u rows) := by
  induction rows with
  | nil => exact .pure trivial
  | cons e rows ih =>
    obtain ⟨parsed, hparsed⟩ := Option.isSome_iff_exists.mp (hrows e List.mem_cons_self)
    refine .bind (Q := fun _ => True) (.bind (.given ⟨parsed, by rw [hparsed]; rfl⟩) fun url _ =>
      .bind (Q := fun _ => True) (.ofExcept (fun _ _ => trivial) fun _ => ArticleUrl.tryFrom_refuses)
        fun article _ => ?_) fun _ _ => ih fun row hrow => hrows row (List.mem_cons_of_mem e hrow)
    cases hdoc : extract article with
    | none => exact .pure trivial
    | some document =>
      exact .bind (updateById_serves (reloadUpdate_proper hurl (hmade e.id)
        (hdocs article document hdoc)) u e.id) fun _ _ => .pure trivial

theorem Cli.reloadArticles_intact (hurl : UrlsParse Url) {K : Type} [Field K] [LinearOrder K]
    (eng : Engine K) {s : Db} (hs : s.Intact Url now) (hroom : s.entriesSeq < 2 ^ 31)
    {made : Int → DateTime} (hmade : ∀ id, now ≤ (made id).timestamp)
    {scraper : Option (ArticleUrl Url → Option (Document Url))}
    (hdocs : ∀ extract url doc, scraper = some extract → extract url = some doc →
      fitsI32 doc.readingTime = true) (username : String) :
    Answered (fun db => db.Intact Url now) Error.Refusal (fun _ => True)
      ((Cli.reloadArticles eng made scraper username : Run Db Error Unit) s) := by
  rw [Cli.reloadArticles_run]
  cases hfound : s.users.find? fun w => w.username == username with
  | none => exact .failed hs rfl
  | some w =>
    have hserving : s.Serving Url now s.entriesSeq w.id :=
      ⟨hs, Db.hasUser_iff.mpr ⟨w, List.mem_of_find?_eq_some hfound, rfl⟩, le_rfl⟩
    have hserves : Serves Url now s.entriesSeq w.id (fun _ => True) (Txn.transaction (do
        let rows ← Entries.findAllMetadata eng { userId := w.id }
        let extract ← ofExcept (okOr .httpClientInit scraper)
        Cli.reloadEntries made extract w.id (rows.map Prod.fst)) : Run Db Error Unit) := by
      refine .transaction (.bind (findAllMetadata_serves eng hroom (.unsearched eng rfl))
        fun rows hrows => ?_)
      have hurls : ∀ row ∈ rows.map Prod.fst, ParsesAs Url row.url := by
        intro row hrow
        obtain ⟨listed, hlisted, rfl⟩ := List.mem_map.mp hrow
        exact (hrows listed hlisted).url
      cases scraper with
      | none => exact .fail rfl
      | some extract =>
        exact Cli.reloadEntries_serves hurl hmade (fun url doc => hdocs extract url doc rfl) hurls
    exact (hserves s hserving).imp fun _ h => h.toIntact

end commands

section tokens
variable {db : Db} {access : AccessTokens}
  {verifyPassword : String → String → Except Error Bool}

theorem foundUser_refuses (hverify : ∀ password hash e, verifyPassword password hash = .error e → e.Refusal)
    {form : Web.LoginForm} {e : Error} (h : db.foundUser verifyPassword form = .error e) :
    e.Refusal := by
  rw [Db.foundUser] at h
  cases hfind : db.users.find? fun w => w.username == form.username with
  | none => simp [hfind] at h
  | some w =>
    rw [hfind] at h
    dsimp only at h
    cases hw : verifyPassword form.password w.passwordHash with
    | error d =>
      rw [hw] at h
      cases h
      exact hverify _ _ _ hw
    | ok accepted =>
      rw [hw] at h
      cases h

/-- A bearer that is turned away is told so. -/
theorem Oauth.authExtractor_refuses {now : Int} {credentials : Option String} {e : Error}
    {s : AccessTokens × Db} (h : ((Oauth.authExtractor now credentials :
      RunWith AccessTokens Db Error Claim) s).1 = .error e) : e.Refusal := by
  obtain ⟨access, db⟩ := s
  cases credentials with
  | none =>
    cases h
    rfl
  | some token =>
    dsimp only [Oauth.authExtractor] at h
    rw [RunWith.run_bind, TokenStorage.validate_run] at h
    cases ht : access token with
    | none =>
      rw [ht] at h
      cases h
      rfl
    | some t =>
      rw [ht] at h
      by_cases hexpired : t.expiresAt < now
      · simp only [hexpired, if_true] at h
        cases h
        rfl
      · simp only [hexpired, if_false] at h
        cases h

theorem Oauth.refreshToken_refuses (hv : db.Valid) {clock : Clock} {generated : Generated}
    {request : Oauth.GetToken} {e : Error} (h : ((Oauth.refreshToken clock generated request :
      RunWith AccessTokens Db Error Oauth.Token) (access, db)).1 = .error e) : e.Refusal := by
  obtain ⟨grantType, clientId, clientSecret, username, password, presented⟩ := request
  cases clientId with
  | none =>
    cases h
    rfl
  | some clientId =>
  cases clientSecret with
  | none =>
    cases h
    rfl
  | some clientSecret =>
  dsimp only [Oauth.refreshToken] at h
  rw [RunWith.run_bind_ok (Clients.findByClientIdAndSecret_with ..)] at h
  cases hclient : db.clients.find? fun c => c.clientId == clientId && c.clientSecret == clientSecret with
  | none =>
    rw [hclient] at h
    cases h
    rfl
  | some c =>
  rw [hclient] at h
  dsimp only at h
  cases presented with
  | none =>
    cases h
    rfl
  | some token =>
  dsimp only at h
  cases hrow : db.liveToken clock.purged token with
  | none =>
    rw [RunWith.run_bind_ok (TokenStorage.refresh_none clock generated access hrow)] at h
    cases h
    rfl
  | some row =>
    rw [RunWith.run_bind_ok (TokenStorage.refresh_some clock generated access hv hrow)] at h
    cases h

theorem Oauth.newToken_refuses
    (hverify : ∀ password hash e, verifyPassword password hash = .error e → e.Refusal) {clock : Clock}
    {generated : Generated} {request : Oauth.GetToken} {e : Error}
    (h : ((Oauth.newToken verifyPassword clock generated request :
      RunWith AccessTokens Db Error Oauth.Token) (access, db)).1 = .error e) : e.Refusal := by
  obtain ⟨grantType, clientId, clientSecret, username, password, presented⟩ := request
  cases username with
  | none =>
    cases h
    rfl
  | some username =>
  cases password with
  | none =>
    cases h
    rfl
  | some password =>
  cases clientId with
  | none =>
    cases h
    rfl
  | some clientId =>
  cases clientSecret with
  | none =>
    cases h
    rfl
  | some clientSecret =>
  let form : Web.LoginForm := ⟨username, password⟩
  let client : ClientRow := ⟨0, "", clientId, clientSecret, 0, 0⟩
  have hgrant : ((Oauth.postToken verifyPassword clock generated (.byPassword form client) :
      RunWith AccessTokens Db Error _) (access, db)).1 = .error e := h
  rw [postToken_password] at hgrant
  rcases hfound : db.foundUser verifyPassword form with d | _ | w <;>
    rw [hfound] at hgrant <;> dsimp only at hgrant
  · cases hgrant
    exact foundUser_refuses hverify hfound
  · cases hgrant
    rfl
  · cases hclient : db.clients.find? fun c =>
      c.userId == w.id && c.clientId == clientId && c.clientSecret == clientSecret with
    | none =>
      rw [hclient] at hgrant
      cases hgrant
      rfl
    | some c =>
      rw [hclient] at hgrant
      have huser : db.hasUser (Claim.mk w.id c.id).userId = true :=
        Db.hasUser_iff.mpr ⟨w, (foundUser_mem hfound).1, rfl⟩
      have hissued := TokenStorage.newToken_ok clock generated access huser
        (Db.hasClient_iff.mpr ⟨c, List.mem_of_find?_eq_some hclient, rfl⟩)
      dsimp only at hgrant hissued
      rw [RunWith.run_bind_ok hissued] at hgrant
      cases hgrant

/-- The program fails in no other way than by a refusal. -/
def Refuses (s : AccessTokens × Db) {α : Type} (x : RunWith AccessTokens Db Error α) : Prop :=
  ∀ e, (x s).1 = .error e → e.Refusal

theorem Oauth.postToken_refuses (hv : db.Valid)
    (hverify : ∀ password hash e, verifyPassword password hash = .error e → e.Refusal)
    (clock : Clock) (generated : Generated) (request : Oauth.GetToken) :
    Refuses (access, db) (Oauth.postToken verifyPassword clock generated request) := by
  unfold Oauth.postToken
  split
  · exact fun _ => Oauth.newToken_refuses hverify
  · exact fun _ => Oauth.refreshToken_refuses hv
  · intro e he
    cases he
    rfl

end tokens
end Articler
