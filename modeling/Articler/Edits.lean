import Articler.Interleaving
import Articler.Updates

/-! Edits of one article at the same time: what a `PATCH` has set stays set until another edit
of the same article touches it. -/
namespace Articler
open Txn Rows

section shows
variable {β : Type} {c : EntryRecord → β} {v : β} {u id : Int}

/-- The article belongs to the user `u`, and what `c` sees of it is `v`. -/
structure Shows (c : EntryRecord → β) (v : β) (u id : Int) (db : Db) : Prop where
  valid : db.Valid
  given : id ≤ db.entriesSeq
  shown : ∀ e ∈ db.entries, e.id = id → e.userId = u ∧ c e = v

theorem Shows.write {k : Statement} {s t : Db} (hw : Write k s t) (hk : k ≠ .updateEntries)
    (h : Shows c v u id s) : Shows c v u id t := by
  have hvalid := hw.valid h.valid
  by_cases hchanges : DbTable.entries ∈ k.changes
  · cases hw with
    | insertEntry hid hi =>
      obtain ⟨rfl, -, -, rfl⟩ := Db.insertEntry_ok hi
      refine ⟨hvalid, Int.le_trans h.given (by simp), fun e he heq => ?_⟩
      rcases List.mem_append.mp he with he | he
      · exact h.shown e he heq
      · rw [List.mem_singleton.mp he, hid] at heq
        have hgiven := h.given
        omega
    | updateEntries => exact absurd rfl hk
    | deleteEntries p | deleteUsers p =>
      exact ⟨hvalid, h.given, fun e he => h.shown e (List.mem_filter.mp he).1⟩
    | _ => simp [Statement.changes] at hchanges
  · obtain ⟨hrows, hseq, -⟩ := hw.frame hchanges
    exact ⟨hvalid, hseq ▸ h.given, hrows ▸ h.shown⟩

theorem Shows.update {p : EntryRecord → Bool} {update : UpdateEntry} {s t : Db} {n : Nat}
    (hkeeps : ∀ e, p e = true → e.id = id → e.userId = u → c e = v → c (update.updated e) = v)
    (hu : s.updateEntries p update.assignments = .ok (n, t)) (h : Shows c v u id s) :
    Shows c v u id t := by
  have hvalid := (Write.updateEntries hu).valid h.valid
  obtain ⟨-, -, fts, rfl⟩ := Db.updateEntries_updated hu
  refine ⟨hvalid, h.given, fun e he heq => ?_⟩
  obtain ⟨d, hd, rfl⟩ := List.mem_map.mp he
  by_cases hp : p d = true
  · rw [if_pos hp] at heq ⊢
    obtain ⟨howner, hshown⟩ := h.shown d hd heq
    exact ⟨howner, hkeeps d hp heq howner hshown⟩
  · rw [if_neg hp] at heq ⊢
    exact h.shown d hd heq

theorem allows_shows {k : Statement} (hk : k ≠ .updateEntries) :
    Allows (fun s t => Shows c v u id s → Shows c v u id t) k :=
  fun _ _ hw => .write hw hk

end shows

theorem Right.leavesRows {r : Right} (hadd : r ≠ .add) (hedit : r ≠ .edit) :
    ∀ k ∈ r.statements, k.LeavesRows := by
  cases r with
  | add => exact absurd rfl hadd
  | edit => exact absurd rfl hedit
  | _ => decide

section jobs
variable {Url : Type} [UrlCrate Url] {K : Type} [Field K] [LinearOrder K]

/-- The updates of one article that a job may make. -/
def Job.Edits (config : Server.Config K) : Job Url → Int → Int → UpdateEntry → Prop
  | .api owner (.patchEntry now uid entryId request), u, id, update =>
    owner = u ∧ entryId = id ∧ request.repoUpdate config.crates now uid = .ok update
  | .web owner (.doArchive now updated articleId archived _ _), u, id, update =>
    owner = u ∧ articleId = id ∧ update = Web.archiveUpdate now updated archived
  | .web owner (.doFavourite now updated articleId starred _ _), u, id, update =>
    owner = u ∧ articleId = id ∧ update = Web.favouriteUpdate now updated starred
  | .web owner (.doEditTitle now articleId text _ _), u, id, update =>
    owner = u ∧ articleId = id ∧ ∃ title, Title.tryFrom text = .ok title ∧
      update = { title := some (some title), updatedAt := now.timestamp }
  | .command (.reloadArticles now scraper _), _, id, update => ∃ extract url doc,
    scraper = some extract ∧ extract url = some doc ∧ update = Cli.reloadUpdate (now id) doc
  | _, _, _, _ => False

def Job.Adds (config : Server.Config K) : Job Url → CreateEntry → Prop
  | .api u (.postEntries now uid extract addEntry), entry => ∃ url,
    ArticleUrl.tryFrom addEntry.url = .ok url ∧
      entry = addEntry.createEntry config.crates now uid u url (extract url)
  | .web u (.doAdd now extract _), entry => ∃ url : ArticleUrl Url,
    entry = Web.addedEntry config.crates now u url (extract url)
  | _, _ => False

section built
variable {G : Db → Db → Prop} (hrefl : ∀ s, G s s)

/-- The update of an article by its owner moves the database along `G`. -/
abbrev AllowsEdit (G : Db → Db → Prop) (u id : Int) (update : UpdateEntry) : Prop :=
  ∀ s n t, s.updateEntries (fun e => e.id == id && e.userId == u) update.assignments = .ok (n, t) →
    G s t

include hrefl

omit [Field K] [LinearOrder K] in
theorem Api.editEntry_built (hother : ∀ k : Statement, k.LeavesRows → Allows G k) (crates : Crates)
    (now : DateTime) (uid : String) (entryId : Int) (request : Api.UpdateEntry Url) (u : Int)
    (h : ∀ update, request.repoUpdate crates now uid = .ok update → AllowsEdit G u entryId update) :
    Built G (Api.patchEntry crates now uid entryId request u : Run Db Error (Entry Url)) := by
  refine .given fun update hupdate => .transaction
    (.bind (Entries.updateById_built u entryId (h update hupdate)) fun _ => ?_)
  split
  · refine .bind ?_ fun _ => .bind (Entries.findById_built _ _ hrefl) fun _ =>
      .bind (.ofExcept _) fun _ => .ofExcept _
    split
    · exact updateTags_built hrefl (fun k hk => hother k hk.1) _ _ _
    · exact .pure _
  · exact .fail _

theorem Web.edit_built (eng : Engine K) {update : UpdateEntry} (u articleId : Int)
    (h : AllowsEdit G u articleId update) (source : Option Web.HxSource)
    (category : Web.Category) :
    Built G (Entries.updateById u articleId update >>= fun _ =>
      Web.renderSource eng source u articleId category : Run Db Error Web.Response) :=
  .bind (Entries.updateById_built u articleId h)
    fun _ => renderSource_built hrefl eng source u articleId category

theorem Cli.reloadAll_built (eng : Engine K) (now : Int → DateTime)
    (scraper : Option (ArticleUrl Url → Option (Document Url))) (username : String)
    (h : ∀ u id extract url doc, scraper = some extract → extract url = some doc →
      AllowsEdit G u id (Cli.reloadUpdate (now id) doc)) :
    Built G (Cli.reloadArticles eng now scraper username : Run Db Error Unit) := by
  have hentry {extract : ArticleUrl Url → Option (Document Url)} (hscraper : scraper = some extract)
      (u : Int) (e : EntryMetadataRow) :
      Built G (Cli.reloadEntry now extract u e : Run Db Error Unit) := by
    refine .bind (.ofExcept _) fun _ => .bind (.ofExcept _) fun url => ?_
    cases hdoc : extract url with
    | none => exact .pure _
    | some doc =>
      exact .bind (Entries.updateById_built u e.id (h u e.id extract url doc hscraper hdoc)) fun _ => .pure _
  refine .transaction (.bind (.query hrefl _) fun _ => .bind (.ofExcept _) fun user =>
    .bind (findAllRows_built hrefl eng _ _) fun rows => .given fun extract hscraper => ?_)
  induction rows.map Prod.fst with
  | nil => exact .pure _
  | cons e rest ih => exact .bind (hentry (okOr_eq_ok.mp hscraper) user.id e) fun _ => ih

omit [Field K] [LinearOrder K] in
theorem Web.doLogin_built (verifyPassword : String → String → Except Error Bool)
    (form : Web.LoginForm) (referer : Option String) :
    Built G (Web.doLogin verifyPassword form referer : Run Db Error Web.LoginResponse) := by
  refine .bind (.bind (.query hrefl _) fun found => ?_) fun found => ?_
  · cases found with
    | none => exact .pure _
    | some user => exact .bind (.ofExcept _) fun verified => by cases verified <;> exact .pure _
  · cases found <;> exact .pure _

/-- A job is put together from its insert, its edits, and statements that put nothing into a row. -/
theorem Job.built_rows (hother : ∀ k : Statement, k.LeavesRows → Allows G k)
    (config : Server.Config K) (job : Job Url)
    (hadd : ∀ entry, job.Adds config entry → AllowsInsert G entry)
    (h : ∀ u id update, job.Edits config u id update → AllowsEdit G u id update) :
    Built G (job.run config : Run Db Error (Job.Reply Url)) := by
  have hacts {rights : List Right} {u : Int} {α : Type} {x : Run Db Error α}
      (hx : Acts rights config.eng u x) (hrights : .add ∉ rights ∧ .edit ∉ rights) : Built G x :=
    hx.built hrefl fun r hr k hk => hother k (Right.leavesRows (fun he => hrights.1 (he ▸ hr))
      (fun he => hrights.2 (he ▸ hr)) k hk)
  cases job with
  | api u handler =>
    refine .bind ?_ fun _ => .pure _
    cases handler with
    | patchEntry now uid entryId request =>
      exact .bind (Api.editEntry_built hrefl hother config.crates now uid entryId request u
        fun update hupdate => h u entryId update ⟨rfl, rfl, hupdate⟩) fun _ => .pure _
    | postEntries now uid extract addEntry =>
      exact .bind (postEntries_built config.crates hrefl (fun k hk => hother k hk.1) now uid extract u
        addEntry fun url hurl => hadd _ ⟨url, hurl, rfl⟩) fun _ => .pure _
    | entries | «exists» | deleteEntry | getTagsByEntry | postEntryTags
    | deleteTagFromEntry | getTags | deleteTagsByLabel | deleteTagById | deleteTagByLabel =>
      exact hacts (Api.Handler.acts _) (by simp)
  | web u handler =>
    refine .bind ?_ fun _ => .pure _
    cases handler with
    | doArchive now updated articleId archived source category =>
      exact .bind (Web.edit_built hrefl config.eng u articleId (h u articleId _ ⟨rfl, rfl, rfl⟩)
        source category) fun _ => .pure _
    | doFavourite now updated articleId starred source category =>
      exact .bind (Web.edit_built hrefl config.eng u articleId (h u articleId _ ⟨rfl, rfl, rfl⟩)
        source category) fun _ => .pure _
    | doEditTitle now articleId text source category =>
      refine .bind ?_ fun _ => .pure _
      unfold Web.doEditTitle
      split
      · exact .pure _
      · exact .fail _
      · rename_i title htitle
        exact Web.edit_built hrefl config.eng u articleId
          (h u articleId _ ⟨rfl, rfl, title, htitle, rfl⟩) source category
    | doAdd now extract url =>
      exact .bind (doAdd_built config.crates hrefl (fun k hk => hother k hk.1) now extract url u
        fun url => hadd _ ⟨url, rfl⟩) fun _ => .pure _
    | index | all | favourite | archive | article | clients | partialArticles
    | partialCategories | search | doDelete | doClientDelete | doCreateClient =>
      exact hacts (Web.Handler.acts _) (by simp)
  | fakeUi u handler =>
    refine .bind (hacts (FakeUi.Handler.acts handler) ?_) fun _ => .pure _
    cases handler <;> simp
  | login => exact .bind (Web.login_built hrefl) fun _ => .pure _
  | setup => exact .bind (Web.setup_built hrefl) fun _ => .pure _
  | doLogin form referer =>
    exact .bind (Web.doLogin_built hrefl config.verifyPassword form referer) fun _ => .pure _
  | command command =>
    refine .bind ?_ fun _ => .pure _
    cases command with
    | createUser now username password name email =>
      exact .bind (Cli.createUser_built hrefl (hother _ (by decide)) config.accounts now username
        password name email) fun _ => .pure _
    | createClient now keys username clientName =>
      exact .bind (Cli.createClient_built hrefl (hother _ (by decide)) now keys username clientName)
        fun _ => .pure _
    | reloadArticles now scraper username =>
      exact .bind (Cli.reloadAll_built hrefl config.eng now scraper username
        fun u id extract url doc hscraper hdoc => h u id _ ⟨extract, url, doc, hscraper, hdoc, rfl⟩)
        fun _ => .pure _

theorem Job.built (hother : ∀ k, k ≠ .updateEntries → Allows G k) (config : Server.Config K)
    (job : Job Url) (h : ∀ u id update, job.Edits config u id update → AllowsEdit G u id update) :
    Built G (job.run config : Run Db Error (Job.Reply Url)) :=
  job.built_rows hrefl (fun k hk => hother k hk.2) config
    (fun _ _ s _ t hi => hother .insertEntry (by decide) s t (.insertEntry (fun _ => rfl) hi)) h

end built

variable {β : Type} {c : EntryRecord → β} {v : β} {u id : Int}

theorem Job.valid (config : Server.Config K) (job : Job Url) {s : Db} (hs : s.Valid) :
    ((job.run config : Run Db Error (Job.Reply Url)) s).2.Valid :=
  (job.built (G := fun s t => s.Valid → t.Valid) (fun _ h => h) (fun k _ => allows_valid k) config
    fun _ _ _ _ _ _ _ hu => (Write.updateEntries hu).valid).invariant hs

theorem Job.shows (config : Server.Config K) (job : Job Url)
    (hkeeps : ∀ update, job.Edits config u id update → ∀ e, c e = v → c (update.updated e) = v)
    {s : Db} (hs : Shows c v u id s) :
    Shows c v u id ((job.run config : Run Db Error (Job.Reply Url)) s).2 := by
  have hbuilt : Built (fun s t => Shows c v u id s → Shows c v u id t)
      (job.run config : Run Db Error (Job.Reply Url)) := by
    refine job.built (fun _ h => h) (fun k hk => allows_shows hk) config
      fun owner article update hedits s n t hu => .update (fun e hp hid howner => ?_) hu
    obtain ⟨harticle, huser⟩ := Bool.and_eq_true_iff.mp hp
    obtain rfl : article = id := (eq_of_beq harticle).symm.trans hid
    obtain rfl : owner = u := (eq_of_beq huser).symm.trans howner
    exact hkeeps update hedits e
  exact hbuilt.invariant hs

end jobs

end Articler
