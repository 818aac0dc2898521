import Articler.Lib.Paired
import Articler.Server
import Articler.Tenancy

/-! On whose behalf the handlers act: what a handler does for a user it does by calls of the
repositories with that user's id. -/
namespace Articler
open Txn Rows Relation

/-- What a handler needs to be allowed. -/
inductive Right where
  | read | search | add | edit | remove | tag | clients
deriving DecidableEq, Repr

@[simp] def UserOp.right {K α : Type} : UserOp K α → Right
  | .findAll params | .findAllMetadata params | .count params =>
    if params.search.isSome then .search else .read
  | .existsById _ | .findById _ | .findByEntryId _ | .getAll => .read
  | .create _ _ => .add
  | .updateById _ _ => .edit
  | .deleteById _ | .deleteTagByTagId _ _ | .deleteByLabel _ | .deleteAllByLabel _
  | .deleteTagById _ => .remove
  | .createAndLink _ _ | .updateTagsByEntryId _ _ => .tag
  | .deleteClientById _ | .findClientsByUserId => .clients

@[simp] def Right.statements : Right → List Statement
  | .read | .search => []
  | .add => [.insertEntry, .insertTags, .linkLabels]
  | .edit => [.updateEntries]
  | .remove => [.deleteEntries, .deleteTags, .deleteEntryTags]
  | .tag => [.insertTags, .linkLabels, .deleteEntryTags]
  | .clients => [.insertClient, .deleteClients]

@[simp] def Api.Handler.rights {Url : Type} [UrlCrate Url] : Api.Handler Url → List Right
  | .entries _ | .getTagsByEntry _ | .getTags => [.read]
  | .postEntries .. => [.add]
  | .exists => []
  | .patchEntry _ _ _ request =>
    if request.tags.isSome then [.edit, .tag, .read] else [.edit, .read]
  | .postEntryTags _ _ => [.tag, .read]
  | .deleteEntry _ _ | .deleteTagFromEntry _ _ => [.remove, .read]
  | .deleteTagsByLabel _ | .deleteTagById _ | .deleteTagByLabel _ => [.remove]

@[simp] def Web.Handler.rights {Url : Type} [UrlCrate Url] : Web.Handler Url → List Right
  | .index | .all | .favourite | .archive | .article _ _ | .partialArticles _
  | .partialCategories _ => [.read]
  | .search .. => [.search, .read]
  | .doArchive .. | .doFavourite .. | .doEditTitle .. => [.edit, .read]
  | .doDelete .. => [.remove, .read]
  | .doAdd .. => [.add]
  | .clients | .doClientDelete _ | .doCreateClient .. => [.clients]

@[simp] def FakeUi.Handler.rights : FakeUi.Handler → List Right
  | .developer | .postClientCreate .. => [.clients]
  | .getClientCreate => []

theorem clients_only_api {Url : Type} [UrlCrate Url] (handler : Api.Handler Url) : .clients ∉ handler.rights := by
  cases handler with
  | patchEntry now uid entryId request => simp only [Api.Handler.rights]; split <;> simp
  | entries | postEntries | «exists» | deleteEntry | getTagsByEntry | postEntryTags
  | deleteTagFromEntry | getTags | deleteTagsByLabel | deleteTagById | deleteTagByLabel => simp

theorem clients_only_web {Url : Type} [UrlCrate Url] (handler : Web.Handler Url) (h : .clients ∈ handler.rights) :
    ∀ r ∈ handler.rights, r = .clients := by
  cases handler <;> simp_all

theorem clients_only_fakeUi (handler : FakeUi.Handler) : ∀ r ∈ handler.rights, r = .clients := by
  cases handler <;> simp

section acts
variable {Url : Type} [UrlCrate Url] {K : Type} [Field K] [LinearOrder K]

/-- A program that reaches the database only by calls for the user `u`, with these rights. -/
inductive Acts (rights : List Right) (eng : Engine K) (u : Int) :
    {α : Type} → Run Db Error α → Prop where
  | pure {α : Type} (a : α) : Acts rights eng u (Pure.pure a : Run Db Error α)
  | fail {α : Type} (e : Error) : Acts rights eng u (Txn.fail e : Run Db Error α)
  | op {α : Type} (o : UserOp K α) (h : o.right ∈ rights) : Acts rights eng u (o.run eng u)
  | createClient (h : .clients ∈ rights) (clientName clientId clientSecret : String)
      (createdAt : Int) :
      Acts rights eng u (Clients.create u clientName clientId clientSecret createdAt)
  | bind {α β : Type} {x : Run Db Error α} {f : α → Run Db Error β} (hx : Acts rights eng u x)
      (hf : ∀ a, Acts rights eng u (f a)) : Acts rights eng u (x >>= f)
  | transaction {α : Type} {x : Run Db Error α} (hx : Acts rights eng u x) :
      Acts rights eng u (Txn.transaction x)

namespace Acts
variable {rights : List Right} {eng : Engine K} {u : Int} {α β : Type}

theorem ofExcept (r : Except Error α) : Acts rights eng u (Txn.ofExcept r) := by
  cases r with
  | ok a => exact .pure a
  | error e => exact .fail e

/-- What every call for `u` obeys, the program obeys. -/
theorem obeys {I : Db → Prop} {R : Db → Db → Prop} (hrefl : ∀ s, R s s)
    (htrans : ∀ s t r, R s t → R t r → R s r)
    (hop : ∀ {α : Type} (o : UserOp K α), o.right ∈ rights →
      Obeys I R (fun _ => True) (o.run eng u))
    (hclient : .clients ∈ rights → ∀ clientName clientId clientSecret createdAt,
      Obeys I R (fun _ => True) (Clients.create u clientName clientId clientSecret createdAt))
    {x : Run Db Error α} (hx : Acts rights eng u x) : Obeys I R (fun _ => True) x := by
  induction hx with
  | pure a => exact .pure hrefl trivial
  | fail e => exact .fail hrefl e
  | op o h => exact hop o h
  | createClient h clientName clientId clientSecret createdAt => exact hclient h _ _ _ _
  | bind _ _ hx hf => exact .bind htrans hx fun a _ => hf a
  | transaction _ hx => exact .transaction hrefl hx

theorem paired {R : Db → Db → Prop}
    (hop : ∀ {α : Type} (o : UserOp K α), o.right ∈ rights → Paired R (o.run eng u))
    (hclient : .clients ∈ rights → ∀ clientName clientId clientSecret createdAt,
      Paired R (Clients.create u clientName clientId clientSecret createdAt))
    {x : Run Db Error α} (hx : Acts rights eng u x) : Paired R x := by
  induction hx with
  | pure a => exact .pure a
  | fail e => exact .fail e
  | op o h => exact hop o h
  | createClient h clientName clientId clientSecret createdAt => exact hclient h _ _ _ _
  | bind _ _ hx hf => exact .bind hx hf
  | transaction _ hx => exact .transaction hx

section statements
variable {G : Db → Db → Prop}

theorem UserOp.run_built (hrefl : ∀ s, G s s) (o : UserOp K α)
    (h : ∀ k ∈ o.right.statements, Allows G k) : Built G (o.run eng u : Run Db Error α) := by
  cases o with
  | findAll | findAllMetadata => exact findAllRows_built hrefl eng _ _
  | count => exact .bind (.ofExcept _) fun _ => .query hrefl _
  | existsById | findByEntryId | getAll | findClientsByUserId => exact .query hrefl _
  | findById id => exact Entries.findById_built u id hrefl
  | create entry tags =>
    exact Entries.create_built hrefl (fun s _ t hs => h .insertEntry (by simp) s t
      (.insertEntry (fun _ => rfl) hs)) (h _ (by simp)) (h _ (by simp)) tags
  | updateById id update =>
    exact Entries.updateById_built u id fun s _ t hs =>
      h .updateEntries (by simp) s t (.updateEntries hs)
  | deleteById id => exact Entries.deleteById_built u id (h _ (by simp))
  | deleteTagByTagId id tagId => exact Entries.deleteTagByTagId_built u id (h _ (by simp)) tagId
  | createAndLink entryId tags =>
    exact Tags.createAndLink_built u entryId hrefl (h _ (by simp)) (h _ (by simp)) tags
  | updateTagsByEntryId entryId tags =>
    exact Tags.updateTagsByEntryId_built u entryId hrefl (h _ (by simp)) (h _ (by simp))
      (h _ (by simp)) tags
  | deleteByLabel | deleteTagById =>
    exact .bind (Tags.deleteReturning_built (h _ (by simp)) _) fun _ => .pure _
  | deleteAllByLabel => exact .bind (.ofExcept _) fun _ => Tags.deleteReturning_built (h _ (by simp)) _
  | deleteClientById id => exact Clients.deleteById_built u id (h _ (by simp))

theorem built (hrefl : ∀ s, G s s) (h : ∀ r ∈ rights, ∀ k ∈ r.statements, Allows G k)
    {x : Run Db Error α} (hx : Acts rights eng u x) : Built G x := by
  induction hx with
  | pure a => exact .pure a
  | fail e => exact .fail e
  | op o hr => exact UserOp.run_built hrefl o (h o.right hr)
  | createClient hr =>
    exact .stmt fun s _ t hs => h .clients hr .insertClient (by decide) s t
      (.insertClient (fun _ => rfl) hs)
  | bind _ _ hx hf => exact .bind hx hf
  | transaction _ hx => exact .transaction hx

end statements

section articles
variable (params : FindParams) (hu : params.userId = u)
include hu

theorem findAll (h : (UserOp.findAll params : UserOp K _).right ∈ rights) :
    Acts rights eng u (Entries.findAll eng params) := by
  subst hu
  exact .op (.findAll params) h

theorem findAllMetadata (h : (UserOp.findAllMetadata params : UserOp K _).right ∈ rights) :
    Acts rights eng u (Entries.findAllMetadata eng params) := by
  subst hu
  exact .op (.findAllMetadata params) h

theorem count (h : (UserOp.count params : UserOp K _).right ∈ rights) :
    Acts rights eng u (Entries.count eng params) := by
  subst hu
  exact .op (.count params) h

end articles

theorem create (h : .add ∈ rights) (entry : CreateEntry) (hu : entry.userId = u)
    (tags : List Tags.CreateTag) : Acts rights eng u (Entries.create entry tags) := by
  subst hu
  exact .op (.create entry tags) h

theorem update (h : .edit ∈ rights) (id : Int) (update : UpdateEntry) :
    Acts rights eng u (Entries.updateById u id update) := .op (.updateById id update) h

theorem updateTags (h : .tag ∈ rights) (entryId : Int) (tags : List Tags.CreateTag) :
    Acts rights eng u (Tags.updateTagsByEntryId u entryId tags) :=
  .op (.updateTagsByEntryId entryId tags) h

end Acts

section handlers
variable {crates : Crates} {rights : List Right} {eng : Engine K} {u : Int}

theorem Api.entries_acts (h : .read ∈ rights) (request : Api.EntriesRequest) :
    Acts rights eng u (Api.entries eng request u : Run Db Error (Api.Entries Url)) := by
  refine .bind (.transaction (.bind (.count _ rfl h) fun count => ?_)) fun _ => ?_
  · split
    · exact .bind (.findAll _ rfl h) fun _ => .bind (.ofExcept _) fun _ => .pure _
    · exact .bind (.findAllMetadata _ rfl h) fun _ => .bind (.ofExcept _) fun _ => .pure _
  · dsimp only
    split
    · exact .fail _
    · exact .bind (.ofExcept _) fun _ => .pure _

theorem Api.postEntries_acts (h : .add ∈ rights) (now : DateTime) (uid : String)
    (extract : ArticleUrl Url → Document Url) (addEntry : Api.AddEntry Url) :
    Acts rights eng u (Api.postEntries crates now uid extract u addEntry) := by
  unfold Api.postEntries
  split
  · exact .fail _
  · exact .bind (.ofExcept _) fun _ => .bind (.create h _ (by rfl) _) fun _ =>
      .bind (.ofExcept _) fun _ => .bind (.ofExcept _) fun _ => .pure _

theorem Api.patchEntry_acts (hedit : .edit ∈ rights) (hread : .read ∈ rights) (now : DateTime)
    (uid : String) (entryId : Int) (request : Api.UpdateEntry Url)
    (htag : request.tags.isSome = true → .tag ∈ rights) :
    Acts rights eng u (Api.patchEntry crates now uid entryId request u) := by
  refine .bind (.ofExcept _) fun update => .transaction
    (.bind (.update hedit entryId update) fun updated => ?_)
  split
  · refine .bind ?_ fun _ => .bind (.op (.findById entryId) hread) fun _ =>
      .bind (.ofExcept _) fun _ => .ofExcept _
    cases htags : request.tags with
    | some labels => exact .updateTags (htag (by rw [htags]; rfl)) entryId _
    | none => exact .pure _
  · exact .fail _

theorem Api.deleteEntry_acts (hremove : .remove ∈ rights) (hread : .read ∈ rights)
    (entryId : Int) (expect : Api.Expect) :
    Acts rights eng u
      (Api.deleteEntry entryId expect u : Run Db Error (Api.DeleteEntryResponse Url)) := by
  refine .transaction ?_
  cases expect with
  | id =>
    refine .bind (.op (.deleteById entryId) hremove) fun deleted => ?_
    split
    · exact .pure _
    · exact .fail _
  | full =>
    refine .bind (.op (.findById entryId) hread) fun _ => .bind (.ofExcept _) fun _ =>
      .bind (.op (.deleteById entryId) hremove) fun deleted => ?_
    split
    · exact .bind (.ofExcept _) fun _ => .pure _
    · exact .fail _

theorem Api.getTagsByEntry_acts (h : .read ∈ rights) (entryId : Int) :
    Acts rights eng u (Api.getTagsByEntry entryId u) := by
  refine .bind (.transaction (.bind (.op (.existsById entryId) h) fun found => ?_)) fun _ =>
    .ofExcept _
  split
  · exact .bind (.op (.findByEntryId entryId) h) fun _ => .pure _
  · exact .pure _

theorem Api.postEntryTags_acts (htag : .tag ∈ rights) (hread : .read ∈ rights) (entryId : Int)
    (labels : List String) :
    Acts rights eng u (Api.postEntryTags crates entryId labels u : Run Db Error (Entry Url)) := by
  refine .bind (.transaction (.bind (.op (.findById entryId) hread) fun found => ?_)) fun _ =>
    .ofExcept _
  split
  · exact .bind (.updateTags htag entryId _) fun _ => .bind (.op (.findById entryId) hread)
      fun _ => .bind (.ofExcept _) fun _ => .bind (.ofExcept _) fun _ => .pure _
  · exact .pure _

theorem Api.deleteTagFromEntry_acts (hremove : .remove ∈ rights) (hread : .read ∈ rights)
    (entryId tagId : Int) :
    Acts rights eng u
      (Api.deleteTagFromEntry entryId tagId u : Run Db Error (Entry Url)) := by
  refine .bind (.transaction (.bind (.op (.existsById entryId) hread) fun found => ?_)) fun _ =>
    .ofExcept _
  split
  · refine .bind (.op (.deleteTagByTagId entryId tagId) hremove) fun _ =>
      .bind (.op (.findById entryId) hread) fun full => ?_
    split
    · exact .bind (.ofExcept _) fun _ => .pure _
    · exact .pure _
  · exact .pure _

theorem Api.Handler.acts (handler : Api.Handler Url) :
    Acts handler.rights eng u (handler.run crates eng u : Run Db Error _) := by
  cases handler with
  | entries request => exact .bind (Api.entries_acts (by simp) request) fun _ => .pure _
  | postEntries now uid extract addEntry =>
    exact .bind (Api.postEntries_acts (by simp) now uid extract addEntry) fun _ => .pure _
  | «exists» => exact .pure _
  | patchEntry now uid entryId request =>
    refine .bind (Api.patchEntry_acts ?_ ?_ now uid entryId request fun htags => ?_) fun _ =>
      .pure _
    · rw [rights]; split <;> simp
    · rw [rights]; split <;> simp
    · simp [htags]
  | deleteEntry entryId expect =>
    exact .bind (Api.deleteEntry_acts (by simp) (by simp) entryId expect)
      fun _ => .pure _
  | getTagsByEntry entryId =>
    exact .bind (Api.getTagsByEntry_acts (by simp) entryId) fun _ => .pure _
  | postEntryTags entryId labels =>
    exact .bind (Api.postEntryTags_acts (by simp) (by simp) entryId labels)
      fun _ => .pure _
  | deleteTagFromEntry entryId tagId =>
    exact .bind (Api.deleteTagFromEntry_acts (by simp) (by simp) entryId tagId)
      fun _ => .pure _
  | getTags =>
    exact .bind (.bind (.op .getAll (by simp)) fun _ => .pure _) fun _ =>
      .pure _
  | deleteTagsByLabel labels =>
    exact .bind (.bind (.op (.deleteAllByLabel labels) (by simp))
      fun _ => .pure _) fun _ => .pure _
  | deleteTagById tagId =>
    exact .bind (.bind (.op (.deleteTagById tagId) (by simp))
      fun _ => .ofExcept _) fun _ => .pure _
  | deleteTagByLabel label =>
    exact .bind (.bind (.op (.deleteByLabel label) (by simp))
      fun _ => .ofExcept _) fun _ => .pure _

theorem Web.counters_acts (h : .read ∈ rights) :
    Acts rights eng u (Web.ArticleCounters.load eng u) :=
  .bind (.count _ rfl h) fun _ => .bind (.count _ rfl h) fun _ => .bind (.count _ rfl h) fun _ =>
    .bind (.count _ rfl h) fun _ => .pure _

theorem Web.loadArticles_acts (params : FindParams) (hu : params.userId = u)
    (h : (UserOp.findAllMetadata params : UserOp K _).right ∈ rights) (hread : .read ∈ rights)
    (activeCategory : Web.Category) :
    Acts rights eng u (Web.loadArticles eng u params activeCategory) :=
  .transaction (.bind (.findAllMetadata params hu h) fun _ =>
    .bind (Web.counters_acts hread) fun _ => .pure _)

theorem Web.main_acts (params : FindParams) (hu : params.userId = u)
    (h : (UserOp.findAllMetadata params : UserOp K _).right ∈ rights) (hread : .read ∈ rights)
    (activeCategory : Web.Category) : Acts rights eng u (Web.main eng u params activeCategory) :=
  .bind (Web.loadArticles_acts params hu h hread activeCategory) fun _ => .pure _

theorem Web.findParamsForCategory_userId (category : Web.Category) :
    (Web.findParamsForCategory u category).userId = u := by
  cases category <;> rfl

@[simp] theorem Web.findParamsForCategory_search (category : Web.Category) :
    (Web.findParamsForCategory u category).search = none := by
  cases category <;> rfl

theorem Web.categoryCards_acts (h : .read ∈ rights) (category : Web.Category) :
    Acts rights eng u (Entries.findAllMetadata eng (Web.findParamsForCategory u category)) :=
  .findAllMetadata _ (Web.findParamsForCategory_userId category)
    (by simpa using h)

theorem Web.renderSource_acts (h : .read ∈ rights) (source : Option Web.HxSource) (articleId : Int)
    (category : Web.Category) :
    Acts rights eng u (Web.renderSource eng source u articleId category) := by
  cases source with
  | none => exact .bind (Web.categoryCards_acts h category) fun _ => .pure _
  | some source =>
    cases source
    refine .bind (.op (.findById articleId) h) fun found => ?_
    split
    · exact .pure _
    · exact .fail _

theorem Web.edit_acts (hedit : .edit ∈ rights) (hread : .read ∈ rights) (id : Int)
    (update : UpdateEntry) (source : Option Web.HxSource) (category : Web.Category) :
    Acts rights eng u (do
      let _ ← Entries.updateById u id update
      Web.renderSource eng source u id category) :=
  .bind (.update hedit id update) fun _ => Web.renderSource_acts hread source id category

theorem Web.Handler.acts (handler : Web.Handler Url) :
    Acts handler.rights eng u (handler.run crates eng u : Run Db Error _) := by
  cases handler with
  | index | all | favourite | archive =>
    exact .bind (Web.main_acts _ (by rfl) (by simp) (by simp) _)
      fun _ => .pure _
  | article id referer =>
    refine .bind (.bind (.op (.findById id) (by simp)) fun found => ?_)
      fun _ => .pure _
    split
    · exact .pure _
    · exact .fail _
  | clients =>
    exact .bind (.bind (.op .findClientsByUserId (by simp)) fun _ => .pure _)
      fun _ => .pure _
  | partialArticles category =>
    exact .bind (.bind (Web.loadArticles_acts _ (Web.findParamsForCategory_userId category)
      (by simp) (by simp) _) fun _ => .pure _)
        fun _ => .pure _
  | partialCategories activeCategory =>
    exact .bind (.bind (Web.counters_acts (by simp)) fun _ => .pure _) fun _ => .pure _
  | search headers uri query =>
    have hparams : (Web.searchParams u query).userId = u :=
      Web.findParamsForCategory_userId (query.category.getD .all)
    have hright : (UserOp.findAllMetadata (Web.searchParams u query) : UserOp K _).right ∈
        (Web.Handler.search headers uri query : Web.Handler Url).rights := by
      simp [Web.searchParams]
    refine .bind ?_ fun _ => .pure _
    unfold Web.search
    dsimp only
    split
    · exact .bind (Web.loadArticles_acts _ hparams hright (by simp) _) fun _ => .pure _
    · exact Web.main_acts _ hparams hright (by simp) _
  | doArchive now updated articleId archived source category =>
    exact .bind (Web.edit_acts (by simp) (by simp) articleId _ source category)
      fun _ => .pure _
  | doFavourite now updated articleId starred source category =>
    exact .bind (Web.edit_acts (by simp) (by simp) articleId _ source category)
      fun _ => .pure _
  | doEditTitle now articleId title source category =>
    refine .bind ?_ fun _ => .pure _
    unfold Web.doEditTitle
    split
    · exact .pure _
    · exact .fail _
    · exact Web.edit_acts (by simp) (by simp) articleId _ source category
  | doDelete articleId backLocation source category =>
    refine .bind (.bind (.op (.deleteById articleId) (by simp))
      fun _ => ?_) fun _ => .pure _
    split
    · exact .pure _
    · exact .bind (Web.categoryCards_acts (by simp) category) fun _ => .pure _
  | doAdd now extract url =>
    exact .bind (.bind (.ofExcept _) fun _ => .bind (.ofExcept _) fun _ =>
      .bind (.create (by simp) _ (by rfl) _) fun _ => .pure _) fun _ => .pure _
  | doClientDelete id =>
    exact .bind (.bind (.op (.deleteClientById id) (by simp)) fun _ =>
      .pure _) fun _ => .pure _
  | doCreateClient now keys clientName =>
    refine .bind ?_ fun _ => .pure _
    unfold Web.doCreateClient
    split
    · exact .pure _
    · exact .fail _
    · exact .bind (.createClient (by simp) _ _ _ _) fun _ => .pure _

theorem FakeUi.Handler.acts (handler : FakeUi.Handler) :
    Acts handler.rights eng u (handler.run u : Run Db Error _) := by
  cases handler with
  | developer =>
    rw [FakeUi.Handler.run, FakeUi.developer_alone]
    exact .bind (.op .findClientsByUserId (by simp)) fun _ => .pure _
  | getClientCreate => exact .pure _
  | postClientCreate now keys name =>
    exact .bind (.ofExcept _) fun _ => .bind (.createClient (by simp) _ _ _ _) fun _ =>
      .pure _

theorem Cli.reloadEntries_acts (h : .edit ∈ rights) (now : Int → DateTime)
    (extract : ArticleUrl Url → Option (Document Url)) (rows : List EntryMetadataRow) :
    Acts rights eng u (Cli.reloadEntries now extract u rows) := by
  induction rows with
  | nil => exact .pure _
  | cons e rows ih =>
    refine .bind (.bind (.ofExcept _) fun _ => .bind (.ofExcept _) fun url => ?_) fun _ => ih
    split
    · exact .bind (.update h e.id _) fun _ => .pure _
    · exact .pure _

theorem Cli.reloadUser_acts (now : Int → DateTime)
    (scraper : Option (ArticleUrl Url → Option (Document Url))) :
    Acts [.read, .edit] eng u (do
      let rows ← Entries.findAllMetadata eng { userId := u }
      let extract ← ofExcept (okOr .httpClientInit scraper)
      Cli.reloadEntries now extract u (rows.map Prod.fst)) :=
  .bind (.findAllMetadata _ rfl (by simp)) fun _ => .bind (.ofExcept _) fun extract =>
    Cli.reloadEntries_acts (by simp) now extract _

theorem Cli.reloadArticles_run (now : Int → DateTime)
    (scraper : Option (ArticleUrl Url → Option (Document Url))) (username : String) (s : Db) :
    (Cli.reloadArticles eng now scraper username : Run Db Error Unit) s =
      match s.users.find? fun w => w.username == username with
      | none => (.error .userNotFound, s)
      | some w => (Txn.transaction (do
          let rows ← Entries.findAllMetadata eng { userId := w.id }
          let extract ← ofExcept (okOr .httpClientInit scraper)
          Cli.reloadEntries now extract w.id (rows.map Prod.fst)) : Run Db Error Unit) s := by
  rw [Cli.reloadArticles, run_transaction, Users.findByUsername, run_bind, run_query]
  cases s.users.find? fun w => w.username == username <;> rfl

end handlers
end acts

theorem Oauth.authExtractor_ok {now : Int} {credentials : Option String} {s s' : AccessTokens × Db}
    {claim : Claim} (h : (authExtractor now credentials : RunWith AccessTokens Db Error Claim) s =
      (.ok claim, s')) :
    s' = s ∧ ∃ token t, credentials = some token ∧ s.1 token = some t ∧ now ≤ t.expiresAt ∧
      claim = t.claim := by
  obtain ⟨access, db⟩ := s
  cases credentials with
  | none => cases h
  | some token =>
    dsimp only [authExtractor] at h
    rw [RunWith.run_bind, TokenStorage.validate_run] at h
    cases ht : access token with
    | none => simp [ht] at h
    | some t =>
      by_cases hexpired : t.expiresAt < now
      · simp [ht, hexpired] at h
      · simp only [ht, hexpired, if_false] at h
        cases h
        exact ⟨rfl, token, t, rfl, ht, Int.not_lt.mp hexpired, rfl⟩

end Articler
