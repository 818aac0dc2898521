import Articler.Api.Entries
import Articler.Runs
import Articler.Web.Ui

/-! Requests, the statements they are put together from, and runs of requests. -/
namespace Articler
open Txn Rows Relation

/-- A request that may write, with what the handler takes from the clock and from outside.
Accounts are made beforehand, with any values. -/
inductive Request (Url : Type) [UrlCrate Url] where
  | createUser (username passwordHash name email : String) (createdAt updatedAt : Int)
  | postEntries (now : DateTime) (uid : String) (extract : ArticleUrl Url → Document Url)
      (userId : Int) (addEntry : Api.AddEntry Url)
  | patchEntry (now : DateTime) (uid : String) (entryId : Int) (request : Api.UpdateEntry Url)
      (userId : Int)
  | postEntryTags (entryId : Int) (labels : List String) (userId : Int)
  | deleteTagFromEntry (entryId tagId userId : Int)
  | deleteEntry (entryId : Int) (expect : Api.Expect) (userId : Int)
  | deleteTagsByLabel (labels : List String) (userId : Int)
  | deleteTagById (tagId userId : Int)
  | deleteTagByLabel (label : String) (userId : Int)
  | doAdd (now : DateTime) (extract : ArticleUrl Url → Document Url) (url : String) (userId : Int)
  | doArchive (now updated : DateTime) (articleId : Int) (archived : Bool)
      (source : Option Web.HxSource) (userId : Int) (category : Web.Category)
  | doFavourite (now updated : DateTime) (articleId : Int) (starred : Bool)
      (source : Option Web.HxSource) (userId : Int) (category : Web.Category)
  | doEditTitle (now : DateTime) (articleId : Int) (title : String)
      (source : Option Web.HxSource) (userId : Int) (category : Web.Category)
  | doDelete (articleId : Int) (backLocation : Option String) (source : Option Web.HxSource)
      (userId : Int) (category : Web.Category)
  | reloadArticles (now : Int → DateTime)
      (scraper : Option (ArticleUrl Url → Option (Document Url))) (username : String)

section requests
variable {Url : Type} [UrlCrate Url] {K : Type} [Field K] [LinearOrder K]

def Request.run {m : Type → Type} [Acquire Db Error m] (crates : Crates) (eng : Engine K) :
    Request Url → m Unit
  | .createUser username passwordHash name email createdAt updatedAt => do
    let _ ← Users.createUser username passwordHash name email createdAt updatedAt
  | .postEntries now uid extract userId addEntry => do
    let _ ← Api.postEntries crates now uid extract userId addEntry
  | .patchEntry now uid entryId request userId => do
    let _ ← Api.patchEntry crates now uid entryId request userId
  | .postEntryTags entryId labels userId => do
    let _ ← (Api.postEntryTags crates entryId labels userId : m (Entry Url))
  | .deleteTagFromEntry entryId tagId userId => do
    let _ ← (Api.deleteTagFromEntry entryId tagId userId : m (Entry Url))
  | .deleteEntry entryId expect userId => do
    let _ ← (Api.deleteEntry entryId expect userId : m (Api.DeleteEntryResponse Url))
  | .deleteTagsByLabel labels userId => do let _ ← Api.deleteTagsByLabel labels userId
  | .deleteTagById tagId userId => do let _ ← Api.deleteTagById tagId userId
  | .deleteTagByLabel label userId => do let _ ← Api.deleteTagByLabel label userId
  | .doAdd now extract url userId => do let _ ← Web.doAdd crates now extract url userId
  | .doArchive now updated articleId archived source userId category => do
    let _ ← Web.doArchive eng now updated articleId archived source userId category
  | .doFavourite now updated articleId starred source userId category => do
    let _ ← Web.doFavourite eng now updated articleId starred source userId category
  | .doEditTitle now articleId title source userId category => do
    let _ ← Web.doEditTitle eng now articleId title source userId category
  | .doDelete articleId backLocation source userId category => do
    let _ ← Web.doDelete eng articleId backLocation source userId category
  | .reloadArticles now scraper username => Cli.reloadArticles eng now scraper username

def Request.Step (crates : Crates) (eng : Engine K) (P : Request Url → Prop) (s t : Db) : Prop :=
  ∃ r : Request Url, P r ∧ t = ((r.run crates eng : Run Db Error Unit) s).2

/-- A run: the requests one after the other. -/
def serve (crates : Crates) (eng : Engine K) (requests : List (Request Url)) (db : Db) : Db :=
  requests.foldl (fun db r => ((r.run crates eng : Run Db Error Unit) db).2) db

theorem serve_run (crates : Crates) (eng : Engine K) {P : Request Url → Prop}
    {requests : List (Request Url)} (h : ∀ r ∈ requests, P r) (db : Db) :
    ReflTransGen (Request.Step crates eng P) db (serve crates eng requests db) := by
  induction requests generalizing db with
  | nil => exact .refl
  | cons r requests ih =>
    exact .head ⟨r, h r List.mem_cons_self, rfl⟩
      (ih (fun q hq => h q (List.mem_cons_of_mem r hq)) _)

/-- The `origin_url` of `post_entries`, which arrives as a plain string, is a url. -/
def Request.OriginParses : Request Url → Prop
  | .postEntries _ _ _ _ addEntry => ∀ s, addEntry.originUrl = some s → ParsesAs Url s
  | _ => True

end requests

/-- Statements that put nothing new into a row of `entries`. -/
def Statement.LeavesRows (k : Statement) : Prop := k ≠ .insertEntry ∧ k ≠ .updateEntries

instance (k : Statement) : Decidable k.LeavesRows := inferInstanceAs (Decidable (_ ∧ _))

theorem Write.mem_entries {k : Statement} {s t : Db} (hw : Write k s t) (hk : k.LeavesRows)
    {e : EntryRecord} (he : e ∈ t.entries) : e ∈ s.entries := by
  have hframe (h : DbTable.entries ∉ k.changes) : t.entries = s.entries := (hw.frame h).1
  cases hw with
  | insertEntry | updateEntries => exact absurd hk (by decide)
  | deleteUsers _ p | deleteEntries _ p => exact (List.mem_filter.mp he).1
  | _ => exact hframe (by decide) ▸ he

section building
variable {Url : Type} [UrlCrate Url] (crates : Crates)

def Request.Inserts : Request Url → CreateEntry → Prop
  | .postEntries now uid extract userId addEntry, entry => ∃ url,
    ArticleUrl.tryFrom addEntry.url = .ok url ∧
      entry = addEntry.createEntry crates now uid userId url (extract url)
  | .doAdd now extract _ userId, entry => ∃ url : ArticleUrl Url,
    entry = Web.addedEntry crates now userId url (extract url)
  | _, _ => False

def Request.Updates : Request Url → UpdateEntry → Prop
  | .patchEntry now uid _ request _, update => request.repoUpdate crates now uid = .ok update
  | .doArchive now updated _ archived .., update => update = Web.archiveUpdate now updated archived
  | .doFavourite now updated _ starred .., update =>
    update = Web.favouriteUpdate now updated starred
  | .doEditTitle now _ _ .., update => ∃ title : Title,
    update = { title := some (some title), updatedAt := now.timestamp }
  | .reloadArticles now scraper _, update => ∃ extract id url doc,
    scraper = some extract ∧ extract url = some doc ∧ update = Cli.reloadUpdate (now id) doc
  | _, _ => False

variable {m : Type → Type} [Acquire Db Error m] {G : Db → Db → Prop} (hrefl : ∀ s, G s s)
  (hleaves : ∀ k : Statement, k.LeavesRows ∧ k ≠ .deleteUsers → Allows G k)

/-- An update of one entry moves the database along `G`. -/
abbrev AllowsUpdate (G : Db → Db → Prop) (update : UpdateEntry) : Prop :=
  ∀ s p n t, s.updateEntries p update.assignments = .ok (n, t) → G s t

abbrev AllowsInsert (G : Db → Db → Prop) (entry : CreateEntry) : Prop :=
  ∀ s id t, s.insertEntry entry.record = .ok (id, t) → G s t

include hrefl in
theorem findAllRows_built {K : Type} [Field K] [LinearOrder K] (eng : Engine K) {R : Type}
    (params : FindParams) (fromRow : EntryRecord → R) :
    Built G (Entries.findAllRows eng params fromRow : m (List (R × List TagRow))) :=
  .bind (.ofExcept _) fun _ => .query hrefl _

include hrefl in
theorem renderSource_built {K : Type} [Field K] [LinearOrder K] (eng : Engine K)
    (source : Option Web.HxSource) (userId articleId : Int) (category : Web.Category) :
    Built G (Web.renderSource eng source userId articleId category : m Web.Response) := by
  unfold Web.renderSource
  split
  · refine .bind (Entries.findById_built _ _ hrefl) fun found => ?_
    split
    · exact .pure _
    · exact .fail _
  · exact .bind (findAllRows_built hrefl eng _ _) fun _ => .pure _

include hrefl in
theorem updateAndRender_built {K : Type} [Field K] [LinearOrder K] (eng : Engine K)
    {update : UpdateEntry} (h : AllowsUpdate G update) (source : Option Web.HxSource)
    (userId articleId : Int) (category : Web.Category) :
    Built G (Entries.updateById userId articleId update >>= fun _ =>
      Web.renderSource eng source userId articleId category : m Web.Response) :=
  .bind (Entries.updateById_built _ _ fun s n t hs => h s _ n t hs)
    fun _ => renderSource_built hrefl eng _ _ _ _

include hrefl hleaves

theorem updateTags_built (userId entryId : Int) (tags : List Tags.CreateTag) :
    Built G (Tags.updateTagsByEntryId userId entryId tags : m (List TagRow)) :=
  Tags.updateTagsByEntryId_built userId entryId hrefl (hleaves _ (by decide))
    (hleaves _ (by decide)) (hleaves _ (by decide)) tags

theorem create_built {entry : CreateEntry} (h : AllowsInsert G entry)
    (tags : List Tags.CreateTag) : Built G (Entries.create entry tags : m FullEntry) :=
  Entries.create_built hrefl h (hleaves _ (by decide)) (hleaves _ (by decide)) tags

theorem patchEntry_built (now : DateTime) (uid : String) (entryId : Int)
    (request : Api.UpdateEntry Url) (userId : Int)
    (h : ∀ update, request.repoUpdate crates now uid = .ok update → AllowsUpdate G update) :
    Built G (Api.patchEntry crates now uid entryId request userId : m (Entry Url)) := by
  refine .given fun update hupdate => .transaction (.bind (Entries.updateById_built _ _
    fun s n t hs => h update hupdate s _ n t hs) fun _ => ?_)
  split
  · refine .bind ?_ fun _ => .bind (Entries.findById_built _ _ hrefl) fun _ =>
      .bind (.ofExcept _) fun _ => .ofExcept _
    split
    · exact updateTags_built hrefl hleaves _ _ _
    · exact .pure _
  · exact .fail _

theorem postEntries_built (now : DateTime) (uid : String)
    (extract : ArticleUrl Url → Document Url) (userId : Int) (addEntry : Api.AddEntry Url)
    (h : ∀ url, ArticleUrl.tryFrom addEntry.url = .ok url →
      AllowsInsert G (addEntry.createEntry crates now uid userId url (extract url))) :
    Built G (Api.postEntries crates now uid extract userId addEntry :
      m (Api.AddEntryResponse Url)) := by
  unfold Api.postEntries
  split
  · exact .fail _
  · exact .given fun url hurl => .bind (create_built hrefl hleaves (h url hurl) _) fun _ =>
      .bind (.ofExcept _) fun _ => .bind (.ofExcept _) fun _ => .pure _

theorem doAdd_built (now : DateTime) (extract : ArticleUrl Url → Document Url) (url : String)
    (userId : Int)
    (h : ∀ url, AllowsInsert G (Web.addedEntry crates now userId url (extract url))) :
    Built G (Web.doAdd crates now extract url userId : m Web.Response) :=
  .bind (.ofExcept _) fun _ => .bind (.ofExcept _) fun url =>
    .bind (create_built hrefl hleaves (h url) _) fun _ => .pure _

theorem postEntryTags_built (entryId : Int) (labels : List String) (userId : Int) :
    Built G (Api.postEntryTags crates entryId labels userId : m (Entry Url)) := by
  refine .bind (.transaction (.bind (Entries.findById_built _ _ hrefl) fun _ => ?_))
    fun _ => .ofExcept _
  split
  · exact .bind (updateTags_built hrefl hleaves _ _ _) fun _ =>
      .bind (Entries.findById_built _ _ hrefl) fun _ => .bind (.ofExcept _) fun _ =>
        .bind (.ofExcept _) fun _ => .pure _
  · exact .pure _

theorem deleteTagFromEntry_built (entryId tagId userId : Int) :
    Built G (Api.deleteTagFromEntry entryId tagId userId : m (Entry Url)) := by
  refine .bind (.transaction (.bind (.query hrefl _) fun _ => ?_)) fun _ => .ofExcept _
  split
  · refine .bind (Entries.deleteTagByTagId_built _ _ (hleaves _ (by decide)) _) fun _ =>
      .bind (Entries.findById_built _ _ hrefl) fun _ => ?_
    split
    · exact .bind (.ofExcept _) fun _ => .pure _
    · exact .pure _
  · exact .pure _

theorem deleteEntry_built (entryId : Int) (expect : Api.Expect) (userId : Int) :
    Built G (Api.deleteEntry entryId expect userId : m (Api.DeleteEntryResponse Url)) := by
  have hdelete := fun userId id => Entries.deleteById_built (m := m) (G := G) userId id
    (hleaves _ (by decide))
  refine .transaction ?_
  cases expect with
  | id =>
    refine .bind (hdelete _ _) fun _ => ?_
    split
    · exact .pure _
    · exact .fail _
  | full =>
    refine .bind (Entries.findById_built _ _ hrefl) fun _ => .bind (.ofExcept _) fun _ =>
      .bind (hdelete _ _) fun _ => ?_
    split
    · exact .bind (.ofExcept _) fun _ => .pure _
    · exact .fail _

omit hleaves in
theorem reloadArticles_built {K : Type} [Field K] [LinearOrder K] (eng : Engine K)
    (now : Int → DateTime) (scraper : Option (ArticleUrl Url → Option (Document Url)))
    (username : String) (h : ∀ extract id url doc, scraper = some extract → extract url = some doc →
      AllowsUpdate G (Cli.reloadUpdate (now id) doc)) :
    Built G (Cli.reloadArticles eng now scraper username : m Unit) := by
  have hentry {extract : ArticleUrl Url → Option (Document Url)} (hscraper : scraper = some extract)
      (userId : Int) (e : EntryMetadataRow) :
      Built G (Cli.reloadEntry now extract userId e : m Unit) := by
    refine .bind (.ofExcept _) fun _ => .bind (.ofExcept _) fun url => ?_
    cases hdoc : extract url with
    | none => exact .pure _
    | some doc =>
      exact .bind (Entries.updateById_built _ _ fun s n t hs => h extract e.id url doc hscraper hdoc s _ n t hs)
        fun _ => .pure _
  refine .transaction (.bind (.query hrefl _) fun _ => .bind (.ofExcept _) fun user =>
    .bind (findAllRows_built hrefl eng _ _) fun rows => .given fun extract hscraper => ?_)
  induction rows.map Prod.fst with
  | nil => exact .pure _
  | cons e rest ih => exact .bind (hentry (okOr_eq_ok.mp hscraper) user.id e) fun _ => ih

/-- A request is put together from statements that put nothing into a row, and from the
inserts and updates it may make. -/
theorem Request.built {K : Type} [Field K] [LinearOrder K] (eng : Engine K) (r : Request Url)
    (hinsert : ∀ entry, r.Inserts crates entry → AllowsInsert G entry)
    (hupdate : ∀ update, r.Updates crates update → AllowsUpdate G update) :
    Built G (r.run crates eng : m Unit) := by
  have htags := fun p => Tags.deleteReturning_built (m := m) (G := G) (hleaves _ (by decide)) p
  cases r with
  | createUser =>
    exact .bind (Users.createUser_built (hleaves _ (by decide)) ..) fun _ => .pure _
  | postEntries now uid extract userId addEntry =>
    exact .bind (postEntries_built crates hrefl hleaves now uid extract userId addEntry
      fun url hurl => hinsert _ ⟨url, hurl, rfl⟩) fun _ => .pure _
  | patchEntry now uid entryId request userId =>
    exact .bind (patchEntry_built crates hrefl hleaves now uid entryId request userId hupdate)
      fun _ => .pure _
  | postEntryTags entryId labels userId =>
    exact .bind (postEntryTags_built crates hrefl hleaves entryId labels userId) fun _ => .pure _
  | deleteTagFromEntry entryId tagId userId =>
    exact .bind (deleteTagFromEntry_built hrefl hleaves entryId tagId userId) fun _ => .pure _
  | deleteEntry entryId expect userId =>
    exact .bind (deleteEntry_built hrefl hleaves entryId expect userId) fun _ => .pure _
  | deleteTagsByLabel =>
    exact .bind (.bind (.bind (.ofExcept _) fun _ => htags _) fun _ => .pure _) fun _ => .pure _
  | deleteTagById | deleteTagByLabel =>
    exact .bind (.bind (.bind (htags _) fun _ => .pure _) fun _ => .ofExcept _) fun _ => .pure _
  | doAdd now extract url userId =>
    exact .bind (doAdd_built crates hrefl hleaves now extract url userId
      fun url => hinsert _ ⟨url, rfl⟩) fun _ => .pure _
  | doArchive | doFavourite =>
    exact .bind (updateAndRender_built hrefl eng (hupdate _ rfl) _ _ _ _) fun _ => .pure _
  | doEditTitle =>
    refine .bind ?_ fun _ => .pure _
    unfold Web.doEditTitle
    split
    · exact .pure _
    · exact .fail _
    · exact updateAndRender_built hrefl eng (hupdate _ ⟨_, rfl⟩) _ _ _ _
  | doDelete =>
    refine .bind (.bind (Entries.deleteById_built _ _ (hleaves _ (by decide))) fun _ => ?_)
      fun _ => .pure _
    split
    · exact .pure _
    · exact .bind (findAllRows_built hrefl eng _ _) fun _ => .pure _
  | reloadArticles now scraper username =>
    exact reloadArticles_built hrefl eng now scraper username fun extract id url doc hscraper hdoc =>
      hupdate _ ⟨extract, id, url, doc, hscraper, hdoc, rfl⟩

end building

section runs
variable {Url : Type} [UrlCrate Url] {K : Type} [Field K] [LinearOrder K] (crates : Crates)
  (eng : Engine K)

theorem Request.run_writes (r : Request Url) : Writes (fun _ => True) (r.run crates eng) :=
  .of_built (Request.built crates (fun _ => .refl) (fun k _ _ _ hw => .single ⟨k, trivial, hw⟩) eng
    r (fun _ _ _ _ _ h => .single ⟨_, trivial, .insertEntry (fun _ => rfl) h⟩)
    fun _ _ _ _ _ _ h => .single ⟨_, trivial, .updateEntries h⟩)

theorem serve_snoc (requests : List (Request Url)) (r : Request Url) (db : Db) :
    serve crates eng (requests ++ [r]) db =
      ((r.run crates eng : Run Db Error Unit) (serve crates eng requests db)).2 := by
  rw [serve, List.foldl_append]
  rfl

end runs

end Articler
