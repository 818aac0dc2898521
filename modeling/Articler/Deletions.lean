import Articler.Lifetimes
import Articler.ReadPaths
import Articler.UpdateQuery

/-! An article that was deleted does not come back: no later answer shows it, and a later
request that names it changes nothing. -/
namespace Articler
open Txn Rows Lineage

/-- The id of an article that was there once. -/
structure Gone (i : Int) (db : Db) : Prop where
  valid : db.Valid
  spent : Spent EntryRecord.id ⟨db.entries, db.entriesSeq⟩ i

theorem Gone.later {i : Int} {s t : Db} (h : Gone i s) (hlater : Later s t) : Gone i t :=
  ⟨hlater.valid h.valid, hlater.lasting.entries.spent h.spent⟩

section shows
variable {Url : Type} [UrlCrate Url]

@[simp] def Api.Reply.shows : Api.Reply Url → List Int
  | .entries list => list.items.map Entry.id
  | .added response => [response.entry.id]
  | .entry e => [e.id]
  | .deleted (.id id) => [id]
  | .deleted (.full e) => [e.id]
  | .exists _ | .tags _ | .tag _ => []

@[simp] def Web.Page.shows : Web.Page → List Int
  | .pageArticles context | .articlesAndCategories context | .articleCards context _ =>
    context.articles.map ArticleMetadata.id
  | .categories _ => []

@[simp] def Web.Reply.shows : Web.Reply → List Int
  | .page p => p.shows
  | .article context => [context.article.id]
  | .response (.article row) => [row.id]
  | .response (.articleCards rows) => rows.map EntryMetadataRow.id
  | .response .seeOther | .response (.hxRedirect _) | .response (.unprocessableEntity _)
  | .clients _ => []

@[simp] def Api.Handler.names : Api.Handler Url → Option Int
  | .patchEntry _ _ entryId _ | .deleteEntry entryId _ | .getTagsByEntry entryId
  | .postEntryTags entryId _ | .deleteTagFromEntry entryId _ => some entryId
  | _ => none

@[simp] def Web.Handler.names : Web.Handler Url → Option Int
  | .article id _ => some id
  | .doArchive _ _ articleId _ _ _ | .doFavourite _ _ articleId _ _ _
  | .doEditTitle _ articleId _ _ _ | .doDelete articleId _ _ _ => some articleId
  | _ => none

@[simp] def Server.Answer.shows : Server.Answer Url → List Int
  | .api (.ok reply) => reply.shows
  | .web (.ok reply) => reply.shows
  | _ => []

@[simp] def Server.Answer.apiReply : Server.Answer Url → Option (Api.Reply Url)
  | .api (.ok reply) => some reply
  | _ => none

@[simp] def Server.Event.names : Server.Event Url → Option Int
  | .api _ _ handler => handler.names
  | .web _ _ handler => handler.names
  | _ => none

end shows

section programs
variable {Url : Type} [UrlCrate Url] {K : Type} [Field K] [LinearOrder K] {i : Int}

/-- A program that does not bring the article `i` back. -/
abbrev Spares {α : Type} (i : Int) (Q : α → Prop) (x : Run Db Error α) : Prop :=
  Obeys (Gone i) (fun _ _ => True) Q x

namespace Spares
variable {α β : Type} {Q : α → Prop} {P : β → Prop}

theorem bind {x : Run Db Error α} {f : α → Run Db Error β} (hx : Spares i Q x)
    (hf : ∀ a, Q a → Spares i P (f a)) : Spares i P (x >>= f) :=
  Obeys.bind (fun _ _ _ _ _ => trivial) hx hf

theorem transaction {x : Run Db Error α} (hx : Spares i Q x) :
    Spares i Q (Txn.transaction x : Run Db Error α) := Obeys.transaction (fun _ => trivial) hx

theorem done {a : α} (ha : Q a) : Spares i Q (pure a : Run Db Error α) :=
  Obeys.pure (fun _ => trivial) ha

theorem fail (e : Error) : Spares i Q (Txn.fail e : Run Db Error α) :=
  Obeys.fail (fun _ => trivial) e

theorem given (r : Except Error α) {f : α → Run Db Error β} (hf : ∀ a, r = .ok a → Spares i P (f a)) :
    Spares i P (ofExcept r >>= f) := Obeys.given (fun _ => trivial) hf

theorem ofExcept {r : Except Error α} (hr : ∀ a, r = .ok a → Q a) :
    Spares i Q (Txn.ofExcept r : Run Db Error α) := by
  cases r with
  | ok a => exact done (hr a rfl)
  | error e => exact fail e

theorem acts {rights : List Right} {eng : Engine K} {u : Int} {x : Run Db Error α}
    (hx : Acts rights eng u x) (hq : ∀ s, Gone i s → ∀ a, (x s).1 = .ok a → Q a) : Spares i Q x :=
  fun s hs => ⟨hs.later (hx.later s), trivial, hq s hs⟩

theorem any {rights : List Right} {eng : Engine K} {u : Int} {x : Run Db Error α}
    (hx : Acts rights eng u x) : Spares i (fun _ => True) x := acts hx fun _ _ _ _ => trivial

end Spares

section calls
variable {eng : Engine K} {u : Int}

theorem findAllRows_spares (params : FindParams) {R : Type} {fromRow : EntryRecord → R}
    {k : R → Int} (hk : ∀ e, k (fromRow e) = e.id) :
    Spares i (fun rows => ∀ r ∈ rows, k r.1 ≠ i) (Entries.findAllRows eng params fromRow) := by
  refine .given _ fun _ _ => .query (fun _ => trivial) fun s rows hs h => ?_
  obtain ⟨db, rfl⟩ : ∃ d : Database, d.val = s := ⟨⟨s, hs.valid⟩, rfl⟩
  obtain ⟨hit, rfl⟩ := gatherRows_inv eng h
  intro r hr
  obtain ⟨l, hl, rfl⟩ := List.mem_map.mp hr
  rw [hk]
  exact hs.spent.2 _ (joinTags_entry ((rawRows_entry eng).mp (mem_of_leader hl)).1)

theorem findById_spares (id : Int) :
    Spares i (fun r => ∀ full ∈ r, full.1.id ≠ i) (Entries.findById u id) := by
  intro s hs
  rw [Entries.findById_run]
  refine ⟨hs, trivial, fun r hr => ?_⟩
  cases hr
  intro full hfull
  obtain ⟨e, he, rfl⟩ := Option.map_eq_some_iff.mp hfull
  exact hs.spent.2 e (List.mem_of_find?_eq_some he)

omit [Field K] [LinearOrder K] in
theorem Gone.absent {s : Db} (h : Gone i s) {p : EntryRecord → Bool} {id : Int}
    (hp : ∀ e, p e = true → e.id = id) (hany : s.entries.any p = true) : id ≠ i := by
  intro hid
  obtain ⟨e, he, hpe⟩ := List.any_eq_true.mp hany
  exact h.spent.2 e he ((hp e hpe).trans hid)

theorem existsById_spares (id : Int) :
    Spares i (fun found => found = true → id ≠ i) (Entries.existsById u id) := by
  refine .query (fun _ => trivial) fun s found hs h => ?_
  cases h
  exact hs.absent fun e he => by simp_all

theorem deleteById_spares (id : Int) :
    Spares i (fun deleted => deleted = true → id ≠ i) (Entries.deleteById u id) := by
  have hacts : Acts [.remove] plainEngine u (Entries.deleteById u id) :=
    .op (.deleteById id) (by simp)
  refine .acts hacts fun s hs deleted h => ?_
  rw [← Except.ok.inj h]
  exact hs.absent fun e he => by simp_all

theorem create_spares (entry : CreateEntry) (tags : List Tags.CreateTag) :
    Spares i (fun full => full.1.id ≠ i) (Entries.create entry tags) := by
  have hacts : Acts [.add] plainEngine entry.userId (Entries.create entry tags) :=
    .create (by simp) entry rfl tags
  refine .acts hacts fun s hs ⟨row, tagRows⟩ h => ?_
  obtain ⟨id, s', hinsert, -, e, hfound, rfl, -⟩ := Entries.create_ok (Prod.ext h rfl)
  have hid : e.id = id := by simpa using List.find?_some hfound
  have hgiven := hs.spent.1
  obtain ⟨rfl, -⟩ := Db.insertEntry_ok hinsert
  change e.id ≠ i
  dsimp only at hgiven
  omega

theorem readFull_spares {α : Type} {next : Entry Url → Run Db Error α} {Q : α → Prop}
    {full : FullEntry} (hfull : full.1.id ≠ i) (hnext : ∀ e, e.id ≠ i → Spares i Q (next e)) :
    Spares i Q (ofExcept (Entry.tryFromFull full) >>= next) :=
  .given _ fun e he => hnext e ((Entry.tryFromRow_id he).trans_ne hfull)

end calls

section handlers
variable {crates : Crates} {eng : Engine K} {u : Int}

omit [UrlCrate Url] in
theorem mapM_spares {R : Type} {rows : List R} {convert : R → Except Error (Entry Url)}
    {k : R → Int} (hconvert : ∀ r e, convert r = .ok e → e.id = k r)
    (hrows : ∀ r ∈ rows, k r ≠ i) {items : List (Entry Url)} (h : rows.mapM convert = .ok items) :
    i ∉ items.map Entry.id := by
  intro hi
  obtain ⟨e, he, hid⟩ := List.mem_map.mp hi
  obtain ⟨r, hr, hconverted⟩ := exists_old (mapM_inv h) he
  exact hrows r hr ((hconvert r e hconverted).symm.trans hid)

theorem Api.entries_spares (request : Api.EntriesRequest) :
    Spares i (fun r : Api.Entries Url => i ∉ r.items.map Entry.id) (Api.entries eng request u) := by
  refine .bind (Q := fun r => i ∉ r.2.map Entry.id) (.transaction (.bind (.any
    (.count _ rfl (by simp [EntriesRequest.params]) : Acts [.read] eng u _)) fun count _ => ?_)) fun r hr => ?_
  · split
    · exact .bind (findAllRows_spares _ (k := EntryRow.id) fun _ => rfl) fun rows hrows =>
        .given _ fun items hitems => .done
          (mapM_spares (k := fun r => r.1.id) (fun _ _ => Entry.tryFromRow_id) hrows hitems)
    · exact .bind (findAllRows_spares _ (k := EntryMetadataRow.id) fun _ => rfl) fun rows hrows =>
        .given _ fun items hitems => .done
          (mapM_spares (k := fun r => r.1.id) (fun _ _ => Entry.tryFromRow_id) hrows hitems)
  · dsimp only
    split
    · exact .fail _
    · exact .given _ fun _ _ => .done hr

theorem Api.patchEntry_spares (now : DateTime) (uid : String) (entryId : Int)
    (request : Api.UpdateEntry Url) :
    Spares i (fun e : Entry Url => e.id ≠ i) (Api.patchEntry crates now uid entryId request u) := by
  have hupdate (update : Articler.UpdateEntry) : Acts [.edit] plainEngine u (Entries.updateById u entryId update) :=
    .update (by simp) entryId update
  refine .given _ fun update _ => .transaction (.bind (.any (hupdate update)) fun updated _ => ?_)
  split
  · refine .bind (Q := fun _ => True) ?_ fun _ _ => .bind (findById_spares entryId)
      fun found hfound => .given _ fun full hfull => ?_
    · cases request.tags with
      | none => exact .done trivial
      | some labels => exact .any (.updateTags (by simp) entryId _ : Acts [.tag] plainEngine u _)
    · have := hfound full (okOr_eq_ok.mp hfull)
      exact .ofExcept fun e he => (Entry.tryFromRow_id he).trans_ne this
  · exact .fail _

theorem Api.deleteEntry_spares (entryId : Int) (expect : Api.Expect) :
    Spares i (fun response => i ∉ (Api.Reply.deleted response : Api.Reply Url).shows)
      (Api.deleteEntry entryId expect u) := by
  refine .transaction ?_
  cases expect with
  | id =>
    refine .bind (deleteById_spares entryId) fun deleted hdeleted => ?_
    split
    · exact .done (by simpa using (hdeleted ‹_›).symm)
    · exact .fail _
  | full =>
    refine .bind (findById_spares entryId) fun found hfound => .given _ fun full hfull =>
      .bind (deleteById_spares entryId) fun deleted hdeleted => ?_
    split
    · exact readFull_spares (hfound full (okOr_eq_ok.mp hfull)) fun e he =>
        .done (by simpa using he.symm)
    · exact .fail _

theorem Api.postEntryTags_spares (entryId : Int) (labels : List String) :
    Spares i (fun e : Entry Url => e.id ≠ i) (Api.postEntryTags crates entryId labels u) := by
  refine .bind (Q := fun r => ∀ e, r = .ok e → e.id ≠ i) (.transaction (.bind
    (findById_spares entryId) fun found _ => ?_)) fun r hr => .ofExcept hr
  split
  · refine .bind (.any (.updateTags (by simp) entryId _ : Acts [.tag] plainEngine u _)) fun _ _ =>
      .bind (findById_spares entryId) fun found hfound => .given _ fun full hfull =>
        readFull_spares (hfound full (okOr_eq_ok.mp hfull)) fun e he => .done fun e' he' => ?_
    rw [← Except.ok.inj he']
    exact he
  · exact .done fun _ h => by cases h

theorem Api.deleteTagFromEntry_spares (entryId tagId : Int) :
    Spares i (fun e : Entry Url => e.id ≠ i) (Api.deleteTagFromEntry entryId tagId u) := by
  refine .bind (Q := fun r => ∀ e, r = .ok e → e.id ≠ i) (.transaction (.bind
    (existsById_spares entryId) fun found _ => ?_)) fun r hr => .ofExcept hr
  split
  · refine .bind (.any (.op (.deleteTagByTagId entryId tagId) (by simp) : Acts [.remove] plainEngine u _))
      fun _ _ => .bind (findById_spares entryId) fun found hfound => ?_
    cases found with
    | none => exact .done fun _ h => by cases h
    | some full =>
      refine readFull_spares (hfound full rfl) fun e he => .done fun e' he' => ?_
      rw [← Except.ok.inj he']
      exact he
  · exact .done fun _ h => by cases h

theorem Api.postEntries_spares (now : DateTime) (uid : String)
    (extract : ArticleUrl Url → Document Url) (addEntry : Api.AddEntry Url) :
    Spares i (fun response : Api.AddEntryResponse Url => response.entry.id ≠ i)
      (Api.postEntries crates now uid extract u addEntry) := by
  unfold Api.postEntries
  split
  · exact .fail _
  · exact .given _ fun url _ => .bind (create_spares _ _) fun full hfull => .given _ fun _ _ =>
      readFull_spares hfull fun e he => .done he

theorem Api.Handler.spares (handler : Api.Handler Url) :
    Spares i (fun reply : Api.Reply Url => i ∉ reply.shows) (handler.run crates eng u) := by
  have hquiet {α : Type} {x : Run Db Error α} {rights : List Right} (hx : Acts rights eng u x)
      {reply : α → Api.Reply Url} (hreply : ∀ a, (reply a).shows = []) :
      Spares i (fun reply : Api.Reply Url => i ∉ reply.shows) (x >>= fun a => pure (reply a)) :=
    .bind (.any hx) fun a _ => .done (by rw [hreply]; exact List.not_mem_nil)
  cases handler with
  | entries request => exact .bind (Api.entries_spares request) fun r hr => .done hr
  | postEntries now uid extract addEntry =>
    exact .bind (Api.postEntries_spares now uid extract addEntry) fun r hr =>
      .done (by simpa using hr.symm)
  | «exists» => exact .done (by simp)
  | patchEntry now uid entryId request =>
    exact .bind (Api.patchEntry_spares now uid entryId request) fun e he =>
      .done (by simpa using he.symm)
  | deleteEntry entryId expect =>
    exact .bind (Api.deleteEntry_spares entryId expect) fun r hr => .done hr
  | getTagsByEntry entryId =>
    exact hquiet (Api.getTagsByEntry_acts (by simp : Right.read ∈ [.read]) entryId) fun _ => rfl
  | postEntryTags entryId labels =>
    exact .bind (Api.postEntryTags_spares entryId labels) fun e he =>
      .done (by simpa using he.symm)
  | deleteTagFromEntry entryId tagId =>
    exact .bind (Api.deleteTagFromEntry_spares entryId tagId) fun e he =>
      .done (by simpa using he.symm)
  | getTags =>
    exact hquiet (.bind (.op .getAll (by simp) : Acts [.read] eng u _) fun _ => .pure _) fun _ => rfl
  | deleteTagsByLabel labels =>
    exact hquiet (.bind (.op (.deleteAllByLabel labels) (by simp) : Acts [.remove] eng u _)
      fun _ => .pure _) fun _ => rfl
  | deleteTagById tagId =>
    exact hquiet (.bind (.op (.deleteTagById tagId) (by simp) : Acts [.remove] eng u _)
      fun _ => .ofExcept _) fun _ => rfl
  | deleteTagByLabel label =>
    exact hquiet (.bind (.op (.deleteByLabel label) (by simp) : Acts [.remove] eng u _)
      fun _ => .ofExcept _) fun _ => rfl

theorem cards_spares {R : Type} {rows : List (EntryMetadataRow × List TagRow)} {id : R → Int}
    {card : EntryMetadataRow × List TagRow → R} (hcard : ∀ r, id (card r) = r.1.id)
    (hrows : ∀ r ∈ rows, r.1.id ≠ i) : i ∉ (rows.map card).map id := by
  intro hi
  simp only [List.map_map, List.mem_map, Function.comp, hcard] at hi
  obtain ⟨r, hr, hid⟩ := hi
  exact hrows r hr hid

theorem Web.loadArticles_spares (params : FindParams) (activeCategory : Web.Category) :
    Spares i (fun context : ArticlesContext => i ∉ context.articles.map ArticleMetadata.id)
      (Web.loadArticles eng u params activeCategory) :=
  .transaction (.bind (findAllRows_spares params (k := EntryMetadataRow.id) fun _ => rfl)
    fun _ hrows => .bind (.any (counters_acts (by simp) : Acts [.read] eng u _)) fun _ _ =>
      .done (cards_spares (fun _ => rfl) hrows))

theorem Web.main_spares (params : FindParams) (activeCategory : Web.Category) :
    Spares i (fun page : Page => i ∉ page.shows) (Web.main eng u params activeCategory) :=
  .bind (Web.loadArticles_spares params activeCategory) fun _ h => .done h

theorem Web.articleCards_spares (category : Web.Category) :
    Spares i (fun response => i ∉ (Reply.response response).shows)
      (Web.renderArticleCards eng u category) :=
  .bind (findAllRows_spares _ (k := EntryMetadataRow.id) fun _ => rfl) fun _ hrows =>
    .done (cards_spares (fun _ => rfl) hrows)

theorem Web.renderSource_spares (source : Option Web.HxSource) (articleId : Int)
    (category : Web.Category) :
    Spares i (fun response => i ∉ (Reply.response response).shows)
      (Web.renderSource eng source u articleId category) := by
  cases source with
  | none => exact Web.articleCards_spares category
  | some source =>
    cases source
    refine .bind (findById_spares articleId) fun found hfound => ?_
    cases found with
    | none => exact .fail _
    | some full => exact .done (by simpa using (hfound full rfl).symm)

theorem Web.edit_spares (id : Int) (update : UpdateEntry) (source : Option Web.HxSource)
    (category : Web.Category) :
    Spares i (fun response => i ∉ (Reply.response response).shows) (do
      let _ ← Entries.updateById u id update
      Web.renderSource eng source u id category) :=
  .bind (.any (.update (by simp) id update : Acts [.edit] eng u _)) fun _ _ =>
    Web.renderSource_spares source id category

theorem Web.Handler.spares (handler : Web.Handler Url) :
    Spares i (fun reply : Web.Reply => i ∉ reply.shows) (handler.run crates eng u) := by
  cases handler with
  | index | all | favourite | archive => exact .bind (Web.main_spares _ _) fun _ h => .done h
  | article id referer =>
    refine .bind (Q := fun context => context.article.id ≠ i) (.bind (findById_spares id)
      fun found hfound => ?_) fun context h => .done (by simpa using h.symm)
    cases found with
    | none => exact .fail _
    | some full => exact .done (hfound full rfl)
  | clients =>
    exact .bind (.any (.bind (.op .findClientsByUserId (by simp)) fun _ => .pure _ :
      Acts [.clients] eng u _)) fun _ _ => .done List.not_mem_nil
  | partialArticles category =>
    exact .bind (.bind (Web.loadArticles_spares _ _) fun _ h => .done h) fun _ h => .done h
  | partialCategories activeCategory =>
    exact .bind (Q := fun page => i ∉ page.shows) (.bind (.any (counters_acts (by simp) :
      Acts [.read] eng u _)) fun _ _ => .done List.not_mem_nil) fun _ h => .done h
  | search headers uri query =>
    refine .bind (Q := fun page => i ∉ page.shows) ?_ fun _ h => .done h
    unfold Web.search
    dsimp only
    split
    · exact .bind (Web.loadArticles_spares _ _) fun _ h => .done h
    · exact Web.main_spares _ _
  | doArchive now updated articleId archived source category =>
    exact .bind (Web.edit_spares articleId _ source category) fun _ h => .done h
  | doFavourite now updated articleId starred source category =>
    exact .bind (Web.edit_spares articleId _ source category) fun _ h => .done h
  | doEditTitle now articleId title source category =>
    refine .bind (Q := fun response => i ∉ (Reply.response response).shows) ?_ fun _ h => .done h
    unfold Web.doEditTitle
    split
    · exact .done List.not_mem_nil
    · exact .fail _
    · exact Web.edit_spares articleId _ source category
  | doDelete articleId backLocation source category =>
    refine .bind (Q := fun response => i ∉ (Reply.response response).shows)
      (.bind (deleteById_spares articleId) fun _ _ => ?_) fun _ h => .done h
    split
    · exact .done List.not_mem_nil
    · exact Web.articleCards_spares category
  | doAdd now extract url =>
    exact .bind (Q := fun response => i ∉ (Reply.response response).shows) (.given _ fun _ _ =>
      .given _ fun _ _ => .bind (create_spares _ _) fun _ _ => .done List.not_mem_nil)
        fun _ h => .done h
  | doClientDelete id =>
    exact .bind (Q := fun response => i ∉ (Reply.response response).shows) (.bind
      (.any (.op (.deleteClientById id) (by simp) : Acts [.clients] eng u _)) fun _ _ =>
        .done List.not_mem_nil) fun _ h => .done h
  | doCreateClient now keys clientName =>
    refine .bind (Q := fun response => i ∉ (Reply.response response).shows) ?_ fun _ h => .done h
    unfold Web.doCreateClient
    split
    · exact .done List.not_mem_nil
    · exact .fail _
    · exact .bind (.any (.createClient (by simp) _ _ _ _ : Acts [.clients] eng u _)) fun _ _ =>
        .done List.not_mem_nil

end handlers

section naming
variable {crates : Crates} {eng : Engine K} {u : Int} {s : Db}

theorem Acts.reads {rights : List Right} {α : Type} {x : Run Db Error α} (hx : Acts rights eng u x)
    (h : ∀ r ∈ rights, r.statements = []) (s : Db) : (x s).2 = s := by
  refine (hx.built (G := Eq) (fun _ => rfl) fun r hr k hk => ?_).reads s
  rw [h r hr] at hk
  cases hk

omit [Field K] [LinearOrder K] in
theorem Gone.misses (h : Gone i s) (u : Int) :
    ∀ e ∈ s.entries, (e.userId == u && e.id == i) = false := by
  intro e he
  have := h.spent.2 e he
  simp [this]

theorem Gone.existsById (h : Gone i s) :
    (Entries.existsById u i : Run Db Error _) s = (.ok false, s) := by
  rw [Entries.existsById, run_query, List.any_eq_false.mpr fun e he => by simp [h.misses u e he]]

theorem Gone.findById (h : Gone i s) :
    (Entries.findById u i : Run Db Error _) s = (.ok none, s) := by
  rw [Entries.findById_run, List.find?_eq_none.mpr fun e he => by simp [h.misses u e he]]
  rfl

theorem Gone.updateById (h : Gone i s) (update : UpdateEntry) :
    (Entries.updateById u i update : Run Db Error _) s = (.ok false, s) :=
  Entries.updateById_missing fun e he hid => absurd hid (h.spent.2 e he)

omit [Field K] [LinearOrder K] in
theorem Db.deleteEntries_none {p : EntryRecord → Bool} (h : ∀ e ∈ s.entries, p e = false) :
    s.deleteEntries p = s := by
  have hkept : (s.entries.filter fun e => !p e) = s.entries :=
    List.filter_eq_self.mpr fun e he => by simp [h e he]
  have hrows : s.entries.filter p = [] :=
    List.filter_eq_nil_iff.mpr fun e he => by simp [h e he]
  have hlinks : (s.entryTags.filter fun l => !s.entries.any fun e => p e && e.id == l.entryId) =
      s.entryTags := by
    refine List.filter_eq_self.mpr fun l _ => ?_
    simp only [Bool.not_eq_true', List.any_eq_false]
    exact fun e he => by simp [h e he]
  simp [deleteEntries, hkept, hrows, hlinks]

theorem Gone.deleteById (h : Gone i s) :
    (Entries.deleteById u i : Run Db Error _) s = (.ok false, s) := by
  rw [Entries.deleteById, run_stmt]
  dsimp only
  rw [Db.deleteEntries_none (h.misses u), List.any_eq_false.mpr fun e he => by simp [h.misses u e he]]

omit [Field K] [LinearOrder K] in
theorem refused_bind {α β : Type} {x : Run Db Error α} {f : α → Run Db Error β}
    (h : ∃ e, x s = (.error e, s)) : ∃ e, (x >>= f) s = (.error e, s) := by
  obtain ⟨e, he⟩ := h
  exact ⟨e, by rw [run_bind, he]⟩

/-- A request to the API that names the article is refused. -/
theorem Api.Handler.refused (handler : Api.Handler Url) (h : Gone i s)
    (hnames : handler.names = some i) :
    ∃ e, (handler.run crates eng u : Run Db Error _) s = (.error e, s) := by
  cases handler with
  | patchEntry now uid entryId request =>
    cases hnames
    refine refused_bind ?_
    rw [Api.patchEntry, run_bind, run_ofExcept]
    cases request.repoUpdate crates now uid with
    | error e => exact ⟨e, rfl⟩
    | ok update =>
      dsimp only
      rw [run_transaction, run_bind, h.updateById]
      exact ⟨.notFound "Entry not found", rfl⟩
  | deleteEntry entryId expect =>
    cases hnames
    refine refused_bind ⟨.notFound "Entry not found", ?_⟩
    unfold Api.deleteEntry
    cases expect with
    | id =>
      simp only [run_transaction, run_bind, h.deleteById]
      rfl
    | full =>
      simp only [run_transaction, run_bind, h.findById]
      rfl
  | getTagsByEntry entryId =>
    cases hnames
    refine refused_bind ⟨.notFound "Entry not found", ?_⟩
    rw [Api.getTagsByEntry, run_bind, run_transaction, run_bind, h.existsById]
    rfl
  | postEntryTags entryId labels =>
    cases hnames
    refine refused_bind ⟨.notFound "Entry not found", ?_⟩
    rw [Api.postEntryTags, run_bind, run_transaction, run_bind, h.findById]
    rfl
  | deleteTagFromEntry entryId tagId =>
    cases hnames
    refine refused_bind ⟨.notFound "Entry not found", ?_⟩
    rw [Api.deleteTagFromEntry, run_bind, run_transaction, run_bind, h.existsById]
    rfl
  | _ => cases hnames

/-- A program that changes nothing where the article `i` is gone. -/
def Idles {α : Type} (i : Int) (x : Run Db Error α) : Prop := ∀ s, Gone i s → (x s).2 = s

omit [Field K] [LinearOrder K] in
theorem Idles.after {α β : Type} {x : Run Db Error α} {f : α → Run Db Error β} {a : α}
    (hx : ∀ s, Gone i s → x s = (.ok a, s)) (hf : Idles i (f a)) : Idles i (x >>= f) := by
  intro s h
  rw [run_bind, hx s h]
  exact hf s h

omit [Field K] [LinearOrder K] in
theorem Idles.answer {α β : Type} {x : Run Db Error α} {f : α → β} (hx : Idles i x) :
    Idles i (x >>= fun a => pure (f a)) := by
  intro s h
  have hxs := hx s h
  rw [run_bind]
  rcases hrun : x s with ⟨_ | _, t⟩ <;> rw [hrun] at hxs <;> exact hxs

theorem Idles.look {α : Type} {x : Run Db Error α} (hx : Acts [.read] eng u x) : Idles i x :=
  fun s _ => hx.reads (by simp) s

theorem Web.edit_idles (update : UpdateEntry) (source : Option Web.HxSource)
    (category : Web.Category) : Idles i (do
      let _ ← Entries.updateById u i update
      Web.renderSource eng source u i category) :=
  .after (fun _ h => h.updateById update) (.look (Web.renderSource_acts (by simp) source i category))

/-- A form of the web UI that names the article changes nothing. -/
theorem Web.Handler.idles (handler : Web.Handler Url) (hnames : handler.names = some i) :
    Idles i (handler.run crates eng u) := by
  cases handler with
  | article id referer => exact .look (Web.Handler.acts (.article id referer : Web.Handler Url))
  | doArchive now updated articleId archived source category =>
    cases hnames
    exact .answer (Web.edit_idles _ source category)
  | doFavourite now updated articleId starred source category =>
    cases hnames
    exact .answer (Web.edit_idles _ source category)
  | doEditTitle now articleId title source category =>
    cases hnames
    refine .answer ?_
    unfold Web.doEditTitle
    split
    · exact fun _ _ => rfl
    · exact fun _ _ => rfl
    · exact Web.edit_idles _ source category
  | doDelete articleId backLocation source category =>
    cases hnames
    refine .answer (.after (fun _ h => h.deleteById) ?_)
    split
    · exact fun _ _ => rfl
    · exact .look (.bind (Web.categoryCards_acts (by simp) category) fun _ => .pure _)
  | _ => cases hnames

end naming
end programs

namespace Server
variable {Url : Type} [UrlCrate Url] {K : Type} [Field K] [LinearOrder K] {config : Config K}
  {i : Int}

/-- What one event answers where the article is gone, and what it does if it names it. -/
theorem handle_gone {s : Server} (h : Gone i s.db) (event : Event Url) :
    i ∉ (s.handle config event).1.shows ∧
      (event.names = some i → (s.handle config event).2.db = s.db ∧
        (s.handle config event).1.apiReply = none) := by
  cases event with
  | api now credentials handler =>
    have hdb := Oauth.authExtractor_db now credentials (s.access, s.db)
    dsimp only [Server.handle, Server.grant]
    rcases hrun : (Oauth.authExtractor now credentials : RunWith AccessTokens Db Error Claim)
      (s.access, s.db) with ⟨e | claim, access, db⟩ <;> rw [hrun] at hdb
    · exact ⟨List.not_mem_nil, fun _ => ⟨hdb, rfl⟩⟩
    · cases hdb
      dsimp only [Server.query]
      have hspares : Spares i (fun reply : Api.Reply Url => i ∉ reply.shows)
        (handler.run config.crates config.eng claim.userId) := handler.spares
      refine ⟨?_, fun hnames => ?_⟩
      · cases hreply : ((handler.run config.crates config.eng claim.userId : Run Db Error _) s.db).1 with
        | error e => exact List.not_mem_nil
        | ok reply => exact (hspares s.db h).2.2 reply hreply
      · have hrefused : ∃ e, (handler.run config.crates config.eng claim.userId : Run Db Error _)
          s.db = (.error e, s.db) := handler.refused h hnames
        obtain ⟨e, he⟩ := hrefused
        rw [he]
        exact ⟨rfl, rfl⟩
  | web cookie htmx handler =>
    dsimp only [Server.handle]
    cases s.sessionUser cookie with
    | none => exact ⟨List.not_mem_nil, fun _ => ⟨rfl, rfl⟩⟩
    | some userId =>
      dsimp only [Server.query]
      have hspares : Spares i (fun reply : Web.Reply => i ∉ reply.shows)
        (handler.run config.crates config.eng userId) := handler.spares
      have hidles (hnames : handler.names = some i) :
          Idles i (handler.run config.crates config.eng userId) := handler.idles hnames
      refine ⟨?_, fun hnames => ⟨hidles hnames s.db h, rfl⟩⟩
      cases hreply : ((handler.run config.crates config.eng userId : Run Db Error _) s.db).1 with
      | error e => exact List.not_mem_nil
      | ok reply => exact (hspares s.db h).2.2 reply hreply
  | fakeUi cookie handler =>
    dsimp only [Server.handle]
    cases s.sessionUser cookie with
    | none => exact ⟨List.not_mem_nil, nofun⟩
    | some userId => exact ⟨List.not_mem_nil, nofun⟩
  | doLogin form referer =>
    dsimp only [Server.handle]
    rcases s.query (Web.doLogin config.verifyPassword form referer) with ⟨e | response, s'⟩ <;>
      exact ⟨List.not_mem_nil, nofun⟩
  | version | postToken clock generated request | login | logout | setup | doSetup now form
  | command command | gc now => exact ⟨List.not_mem_nil, nofun⟩

/-- An article that was in the database and is no longer in it does not come back: no later answer
shows it to anyone, and a later request that names it changes nothing. -/
theorem deleted_for_good {s : Server} (hv : s.db.Valid) {e : EntryRecord} (he : e ∈ s.db.entries)
    {before : List (Event Url)}
    (hdeleted : ∀ d ∈ (serve config s before).db.entries, d.id ≠ e.id)
    (after : List (Event Url)) (event : Event Url) :
    e.id ∉ ((serve config s (before ++ after)).handle config event).1.shows ∧
      (event.names = some e.id →
        ((serve config s (before ++ after)).handle config event).2.db =
            (serve config s (before ++ after)).db ∧
          ((serve config s (before ++ after)).handle config event).1.apiReply = none) := by
  have hbefore : Later s.db (serve config s before).db := s.serve_later before
  have hgone : Gone e.id (serve config s before).db :=
    ⟨hbefore.valid hv, (hv.entries.seq e he).trans hbefore.lasting.entries.seq, hdeleted⟩
  rw [serve_append]
  exact handle_gone (hgone.later (serve_later _ after)) event

/-- The card of the deleted article was still on the screen. -/
def belated : Event HttpText :=
  .web (some 1) true (.doArchive ⟨51, by decide⟩ ⟨51, by decide⟩ 2 true none .all)

theorem deleted_for_good_replacing :
    2 ∉ ((serve plainConfig ⟨shelf.val, fun _ => none, [1]⟩ (replacing ++ [])).handle plainConfig
        belated).1.shows ∧
      ((serve plainConfig ⟨shelf.val, fun _ => none, [1]⟩ (replacing ++ [])).handle plainConfig
        belated).2.db = (serve plainConfig ⟨shelf.val, fun _ => none, [1]⟩ (replacing ++ [])).db := by
  have h := @deleted_for_good HttpText _ ℚ _ _ plainConfig ⟨shelf.val, fun _ => none, [1]⟩
    shelf.property shelf.val.entries[1] (by decide) replacing (by decide) [] belated
  exact ⟨h.1, (h.2 rfl).1⟩

end Server
end Articler
