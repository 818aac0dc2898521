import Articler.Pages
import Articler.Repository.Columns

/-! `detail=metadata` beside `detail=full`: the two conversions written out, the handler over
the columns by name, and what the two answers have in common. -/
namespace Articler
open Txn Rows

section agree
variable {α β γ δ : Type}

/-- Both fail in the same way, or both succeed and their values are related. -/
def Agree (R : α → β → Prop) : Except Error α → Except Error β → Prop
  | .ok a, .ok b => R a b
  | .error e, .error f => e = f
  | _, _ => False

namespace Agree
variable {R : α → β → Prop} {S : γ → δ → Prop}

theorem bind {x : Except Error α} {y : Except Error β} {f : α → Except Error γ}
    {g : β → Except Error δ} (h : Agree R x y) (hf : ∀ a b, R a b → Agree S (f a) (g b)) :
    Agree S (x >>= f) (y >>= g) := by
  cases x with
  | error e =>
    cases y with
    | error e' => exact h
    | ok b => cases h
  | ok a =>
    cases y with
    | error e' => cases h
    | ok b => exact hf a b h

theorem same (x : Except Error α) {f : α → Except Error γ} {g : α → Except Error δ}
    (h : ∀ a, Agree S (f a) (g a)) : Agree S (x >>= f) (x >>= g) := by
  cases x with
  | error e => rfl
  | ok a => exact h a

theorem mapM {f : α → Except Error γ} {g : β → Except Error δ} {as : List α} {bs : List β}
    (h : List.Forall₂ R as bs) (hf : ∀ a b, R a b → Agree S (f a) (g b)) :
    Agree (List.Forall₂ S) (as.mapM f) (bs.mapM g) := by
  induction h with
  | nil => exact List.Forall₂.nil
  | cons hab _ ih =>
    rw [List.mapM_cons, List.mapM_cons]
    exact (hf _ _ hab).bind fun c d hcd => ih.bind fun cs ds hcds => List.Forall₂.cons hcd hcds

end Agree
end agree

section conversions
variable {Url : Type} [UrlCrate Url]

/-- `TryFrom<FullEntry>`. -/
def Entry.tryFromFullEntry (entry : FullEntry) : Except Error (Entry Url) := do
  let e := entry.1
  let url ← parseUrl e.url
  let givenUrl ← tryParseUrl e.givenUrl
  let archivedAt ← tryParseTimestampOpt e.archivedAt
  let starredAt ← tryParseTimestampOpt e.starredAt
  let createdAt ← tryParseTimestamp e.createdAt
  let updatedAt ← tryParseTimestamp e.updatedAt
  let previewPicture ← tryParseUrl e.previewPicture
  let originUrl ← tryParseUrl e.originUrl
  let publishedAt ← tryParseTimestampOpt e.publishedAt
  pure
    { id := e.id, url
      hashedUrl := e.hashedUrl, givenUrl
      hashedGivenUrl := e.hashedGivenUrl
      title := e.title
      content := some e.content
      isArchived := e.isArchived, archivedAt
      isStarred := e.isStarred, starredAt
      tags := entry.2.map Tag.from, createdAt, updatedAt
      annotations := []
      mimetype := e.mimetype.getD ""
      language := e.language
      readingTime := e.readingTime
      domainName := e.domainName, previewPicture, originUrl, publishedAt
      publishedBy := e.publishedBy.map splitComma
      isPublic := e.isPublic
      uid := e.uid }

/-- `TryFrom<MetadataEntry>`. -/
def Entry.tryFromMetadataEntry (entry : MetadataEntry) : Except Error (Entry Url) := do
  let e := entry.1
  let url ← parseUrl e.url
  let givenUrl ← tryParseUrl e.givenUrl
  let archivedAt ← tryParseTimestampOpt e.archivedAt
  let starredAt ← tryParseTimestampOpt e.starredAt
  let createdAt ← tryParseTimestamp e.createdAt
  let updatedAt ← tryParseTimestamp e.updatedAt
  let previewPicture ← tryParseUrl e.previewPicture
  let originUrl ← tryParseUrl e.originUrl
  let publishedAt ← tryParseTimestampOpt e.publishedAt
  pure
    { id := e.id, url
      hashedUrl := e.hashedUrl, givenUrl
      hashedGivenUrl := e.hashedGivenUrl
      title := e.title
      content := none
      isArchived := e.isArchived, archivedAt
      isStarred := e.isStarred, starredAt
      tags := entry.2.map Tag.from, createdAt, updatedAt
      annotations := []
      mimetype := e.mimetype.getD ""
      language := e.language
      readingTime := e.readingTime
      domainName := e.domainName, previewPicture, originUrl, publishedAt
      publishedBy := e.publishedBy.map splitComma
      isPublic := e.isPublic
      uid := e.uid }

theorem Entry.tryFromFullEntry_eq (entry : FullEntry) :
    (Entry.tryFromFullEntry entry : Except Error (Entry Url)) = Entry.tryFromFull entry := rfl

theorem Entry.tryFromMetadataEntry_eq (entry : MetadataEntry) :
    (Entry.tryFromMetadataEntry entry : Except Error (Entry Url)) =
      Entry.tryFromMetadata entry := rfl

structure Entry.SameButContent (full metadata : Entry Url) : Prop where
  rest : metadata = { full with content := none }
  content : full.content.isSome = true

structure SameRow (full : FullEntry) (metadata : MetadataEntry) : Prop where
  row : metadata.1 = full.1.metadata
  tags : metadata.2 = full.2

theorem SameRow.convert {full : FullEntry} {metadata : MetadataEntry} (h : SameRow full metadata) :
    Agree Entry.SameButContent (Entry.tryFromFullEntry full : Except Error (Entry Url))
      (Entry.tryFromMetadataEntry metadata) := by
  obtain ⟨e, tags⟩ := full
  obtain ⟨m, tags'⟩ := metadata
  obtain ⟨rfl, rfl⟩ : m = e.metadata ∧ tags' = tags := ⟨h.row, h.tags⟩
  exact .same _ fun _ => .same _ fun _ => .same _ fun _ => .same _ fun _ => .same _ fun _ =>
    .same _ fun _ => .same _ fun _ => .same _ fun _ => .same _ fun _ => ⟨rfl, rfl⟩

end conversions

theorem gather_agree (rows : List JoinedRow) : Agree (List.Forall₂ SameRow)
    (SqliteRow.gather (rows.map (JoinedRow.select Entries.findAllFullSelect)))
    (SqliteRow.gather (rows.map (JoinedRow.select Entries.findAllMetadataSelect))) := by
  rw [gather_select (by decide) Entries.tagRow_full fromRow_full,
    gather_select (by decide) Entries.tagRow_metadata fromRow_metadata]
  split
  · refine Agree.mapM (List.forall₂_same.mpr fun g _ => rfl) fun g g' (hg : g = g') => ?_
    obtain rfl := hg
    simp only [readEntry]
    split
    · exact ⟨rfl, rfl⟩
    · rfl
  · rfl

namespace Api
variable {Url : Type} [UrlCrate Url] {K : Type} [Field K] [LinearOrder K]

section handler
variable {m : Type → Type} [Acquire Db Error m]

/-- `entries`, reading the columns of each SELECT by their names. -/
def entriesNamed (eng : Engine K) (request : EntriesRequest) (userId : Int) :
    m (Entries Url) := do
  let params := request.params userId
  let found ← transaction do
    let count ← Articler.Entries.count eng params
    match request.detail with
    | .full => do
      let rows ← Articler.Entries.findAllNamed eng params
      let ents ← ofExcept (rows.mapM Entry.tryFromFullEntry)
      pure (count, ents)
    | .metadata => do
      let rows ← Articler.Entries.findAllMetadataNamed eng params
      let ents ← ofExcept (rows.mapM Entry.tryFromMetadataEntry)
      pure (count, ents)
  let pages := pageCount found.1 request.perPage
  if request.page > pages then fail (.notFound "Page not found")
  else do
    let url ← ofExcept (parseUrl "http://example.com")
    pure { page := request.page, limit := request.perPage, pages, total := found.1
           items := found.2
           links := { self := url, first := some url, last := some url, next := some url } }

end handler

/-- Two answers with the same numbers and the same entries, with their content and without. -/
structure SamePage (full metadata : Entries Url) : Prop where
  page : metadata.page = full.page
  limit : metadata.limit = full.limit
  pages : metadata.pages = full.pages
  total : metadata.total = full.total
  links : metadata.links = full.links
  items : List.Forall₂ Entry.SameButContent full.items metadata.items

/-- The rows that a request sees, in the order it sees them. -/
def EntriesRequest.sees (eng : Engine K) (request : EntriesRequest) (userId : Int) (db : Db) :
    List JoinedRow :=
  Articler.Entries.rawRows eng (request.params userId) db fun _ => true

theorem answer_agree (request : EntriesRequest) (total : Int) {full metadata : List (Entry Url)}
    (h : List.Forall₂ Entry.SameButContent full metadata) :
    Agree SamePage (request.answer total full) (request.answer total metadata) := by
  dsimp only [EntriesRequest.answer]
  split
  · rfl
  · cases (parseUrl "http://example.com" : Except Error Url) with
    | error e => rfl
    | ok url => exact ⟨rfl, rfl, rfl, rfl, rfl, h⟩

section runs
variable {eng : Engine K} {request : EntriesRequest} {userId : Int} {db : Database}

/-- The items of a response, in the detail asked for. -/
def EntriesRequest.itemsNamed (Url : Type) [UrlCrate Url] (eng : Engine K)
    (request : EntriesRequest) (userId : Int) (db : Db) : Except Error (List (Entry Url)) :=
  match request.detail with
  | .full =>
    (SqliteRow.gather ((request.sees eng userId db).map
      (JoinedRow.select Articler.Entries.findAllFullSelect))).bind fun rows =>
        rows.mapM Entry.tryFromFullEntry
  | .metadata =>
    (SqliteRow.gather ((request.sees eng userId db).map
      (JoinedRow.select Articler.Entries.findAllMetadataSelect))).bind fun rows =>
        rows.mapM Entry.tryFromMetadataEntry

theorem entriesNamed_run (htags : request.tags = none) (hdomain : request.domainName = none) :
    (entriesNamed eng request userId : Run Db Error (Entries Url)) db.val =
      ((request.itemsNamed Url eng userId db.val).bind
        (request.answer (request.rows userId db.val).length), db.val) := by
  have hcount : (Articler.Entries.count eng (request.params userId) : Run Db Error Int) db.val =
      (.ok (request.rows userId db.val).length, db.val) := count_ok eng htags hdomain rfl
  have hlisting {R : Type} [FromRow R] (select : List String)
      (convert : R × List TagRow → Except Error (Entry Url)) :
      (do
        let count ← Articler.Entries.count eng (request.params userId)
        let rows ← Articler.Entries.findAllRowsNamed eng (request.params userId) select
        let ents ← ofExcept (rows.mapM convert)
        pure (count, ents) : Run Db Error (Int × List (Entry Url))) db.val =
        (((SqliteRow.gather ((request.sees eng userId db.val).map
          (JoinedRow.select select))).bind fun rows => rows.mapM convert).map fun items =>
            (((request.rows userId db.val).length : Int), items), db.val) := by
    rw [run_bind_ok hcount, run_bind,
      Articler.Entries.findAllRowsNamed_run select htags hdomain rfl, EntriesRequest.sees]
    rcases (SqliteRow.gather _ : Except Error (List (R × List TagRow))) with e | rows
    · rfl
    · dsimp only [Except.bind]
      rw [run_bind, run_ofExcept]
      rcases rows.mapM convert with e | items <;> rfl
  refine respond_run ?_ fun items => answer_run _ items
  rw [EntriesRequest.itemsNamed]
  cases request.detail with
  | full => exact hlisting Articler.Entries.findAllFullSelect Entry.tryFromFullEntry
  | metadata => exact hlisting Articler.Entries.findAllMetadataSelect Entry.tryFromMetadataEntry

theorem itemsNamed_eq (h : ∀ e ∈ db.val.entries, fitsI32 e.readingTime = true) :
    request.itemsNamed Url eng userId db.val = request.items Url eng userId db.val := by
  have hrows : ∀ r ∈ request.sees eng userId db.val, fitsI32 r.entry.readingTime = true :=
    fun r hr => h _ (joinTags_entry ((mem_rawRows eng).mp hr).1)
  rw [EntriesRequest.itemsNamed, EntriesRequest.items,
    gather_gatherRows (by decide) Articler.Entries.tagRow_full fromRow_full hrows,
    gather_gatherRows (by decide) Articler.Entries.tagRow_metadata fromRow_metadata hrows]
  rfl

theorem entriesNamed_eq (htags : request.tags = none) (hdomain : request.domainName = none)
    (h : ∀ e ∈ db.val.entries, fitsI32 e.readingTime = true) :
    (entriesNamed eng request userId : Run Db Error (Entries Url)) db.val =
      (entries eng request userId : Run Db Error _) db.val := by
  rw [entriesNamed_run htags hdomain, entries_run htags hdomain, itemsNamed_eq h]

theorem entriesNamed_unsupported {e : Error}
    (h : Articler.Entries.ensureSupported (request.params userId) = .error e) :
    (entriesNamed eng request userId : Run Db Error (Entries Url)) db.val = (.error e, db.val) := by
  have hcount : (Articler.Entries.count eng (request.params userId) : Run Db Error Int) db.val =
      (.error e, db.val) := by
    rw [Articler.Entries.count, run_bind, run_ofExcept, h]
  rw [entriesNamed, run_bind, run_transaction, run_bind, hcount]

def EntriesRequest.withDetail (request : EntriesRequest) (detail : Detail) : EntriesRequest :=
  { request with detail }

/-- Both answers fail alike, or they are the same but for the content. -/
def DetailsAgree (Url : Type) [UrlCrate Url] (eng eng' : Engine K) (request : EntriesRequest)
    (userId : Int) (db : Db) : Prop :=
  ∃ full metadata : Except Error (Entries Url),
    (entriesNamed eng (request.withDetail .full) userId : Run Db Error _) db = (full, db) ∧
      (entriesNamed eng' (request.withDetail .metadata) userId : Run Db Error _) db =
        (metadata, db) ∧
      Agree SamePage full metadata

/-- `detail=metadata` is `detail=full` without the content, if both see the same rows in the
same order. -/
theorem details_agree (db : Database) (userId : Int) (request : EntriesRequest)
    (eng eng' : Engine K)
    (hsame : request.sees eng userId db.val = request.sees eng' userId db.val) :
    DetailsAgree Url eng eng' request userId db.val := by
  cases hsupported : Articler.Entries.ensureSupported (request.params userId) with
  | error e =>
    exact ⟨.error e, .error e, entriesNamed_unsupported hsupported,
      entriesNamed_unsupported hsupported, rfl⟩
  | ok _ =>
    obtain ⟨htags, hdomain⟩ := ensureSupported_ok_iff.mp hsupported
    refine ⟨_, _, entriesNamed_run htags hdomain, entriesNamed_run htags hdomain, ?_⟩
    have hitems : Agree (List.Forall₂ Entry.SameButContent)
        ((request.withDetail .full).itemsNamed Url eng userId db.val)
        ((request.withDetail .metadata).itemsNamed Url eng' userId db.val) := by
      have hrows := gather_agree (request.sees eng userId db.val)
      nth_rewrite 2 [hsame] at hrows
      exact hrows.bind fun rows rows' h => Agree.mapM h fun _ _ => SameRow.convert
    exact hitems.bind fun items items' h => answer_agree _ _ h

end runs

theorem details_agree_shelf :
    DetailsAgree HttpText plainEngine plainEngine { perPage := 1 } 1 shelf.val :=
  details_agree shelf 1 { perPage := 1 } plainEngine plainEngine rfl

end Api
end Articler
