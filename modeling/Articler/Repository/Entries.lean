import Mathlib.Algebra.Field.Defs
import Mathlib.Order.Defs.LinearOrder
import Articler.Repository.Tags

/-! `db::repository::entries`. Row order and full-text search are SQLite's: an
`Engine` says which order the planner picks and what FTS5 finds. -/
namespace Articler
open Txn Rows

/-- FTS5 over the whole index: the rows a query matches (`none` when the text is not
a query) and the ranking function with its column weights. -/
structure Fts5 (K : Type) where
  query : ContentIndex.Index FtsDoc → String → Option (Int → Bool)
  bm25 : ContentIndex.Index FtsDoc → String → K → K → Int → K

/-- One row of the listing query: an entry with one of its tags, or with NULLs. -/
structure JoinedRow where
  entry : EntryRecord
  tag : Option TagRow
deriving DecidableEq, Repr

/-- SQLite's choices: its full-text search, and how it arranges rows whose keys the
inner and the outer ORDER BY leave open. -/
structure Engine (K : Type) where
  fts5 : Fts5 K
  inner : OrderBy EntryRecord
  outer : OrderBy JoinedRow

structure EntryRow where
  id : Int
  userId : Int
  url : String
  hashedUrl : Option String
  givenUrl : Option String
  hashedGivenUrl : Option String
  title : String
  content : String
  contentText : String
  isArchived : Bool
  archivedAt : Option Int
  isStarred : Bool
  starredAt : Option Int
  createdAt : Int
  updatedAt : Int
  mimetype : Option String
  language : Option String
  readingTime : Int
  domainName : String
  previewPicture : Option String
  originUrl : Option String
  publishedAt : Option Int
  publishedBy : Option String
  isPublic : Option Bool
  uid : Option String
deriving DecidableEq, Repr

def EntryRow.fromRow (e : EntryRecord) : EntryRow :=
  { e with
    hashedUrl := some e.hashedUrl
    givenUrl := some e.givenUrl
    hashedGivenUrl := some e.hashedGivenUrl }

structure EntryMetadataRow where
  id : Int
  userId : Int
  url : String
  hashedUrl : Option String
  givenUrl : Option String
  hashedGivenUrl : Option String
  title : String
  isArchived : Bool
  archivedAt : Option Int
  isStarred : Bool
  starredAt : Option Int
  createdAt : Int
  updatedAt : Int
  mimetype : Option String
  language : Option String
  readingTime : Int
  domainName : String
  previewPicture : Option String
  originUrl : Option String
  publishedAt : Option Int
  publishedBy : Option String
  isPublic : Option Bool
  uid : Option String
deriving DecidableEq, Repr

def EntryMetadataRow.fromRow (e : EntryRecord) : EntryMetadataRow :=
  { e with
    hashedUrl := some e.hashedUrl
    givenUrl := some e.givenUrl
    hashedGivenUrl := some e.hashedGivenUrl }

abbrev FullEntry := EntryRow × List TagRow
abbrev MetadataEntry := EntryMetadataRow × List TagRow

structure CreateEntry where
  userId : Int
  url : String
  hashedUrl : String
  givenUrl : String
  hashedGivenUrl : String
  title : Title
  content : SafeHtml
  contentText : String
  isArchived : Bool
  archivedAt : Option Int
  isStarred : Bool
  starredAt : Option Int
  createdAt : Int
  updatedAt : Int
  mimetype : Option String
  language : Option String
  readingTime : Int
  domainName : String
  previewPicture : Option String
  originUrl : Option String
  publishedAt : Option Int
  publishedBy : Option String
  isPublic : Option Bool
  uid : Option String
deriving DecidableEq, Repr

/-- The columns as `create` binds them. -/
def CreateEntry.record (entry : CreateEntry) (id : Int) : EntryRecord :=
  { entry with id, title := entry.title.val, content := entry.content.val }

/-- `none`: leave the column; `some none`: set it to NULL; `some (some v)`: set it to `v`. -/
abbrev UpdateField (α : Type) := Option (Option α)

structure UpdateEntry where
  title : UpdateField Title := none
  content : UpdateField SafeHtml := none
  contentText : UpdateField String := none
  isArchived : UpdateField Bool := none
  archivedAt : UpdateField Int := none
  isStarred : UpdateField Bool := none
  starredAt : UpdateField Int := none
  updatedAt : Int
  language : UpdateField String := none
  readingTime : UpdateField Int := none
  previewPicture : UpdateField String := none
  originUrl : UpdateField String := none
  publishedAt : UpdateField Int := none
  publishedBy : UpdateField String := none
  isPublic : UpdateField Bool := none
  uid : UpdateField String := none
deriving DecidableEq, Repr

/-- The SET list in the order `update_by_id` pushes it. -/
def UpdateEntry.assignments (u : UpdateEntry) : List Assign :=
  (u.title.map fun v => Assign.title (v.map Title.val)).toList ++
  (u.content.map fun v => Assign.content (v.map SafeHtml.val)).toList ++
  (u.contentText.map Assign.contentText).toList ++
  (u.isArchived.map Assign.isArchived).toList ++
  (u.archivedAt.map Assign.archivedAt).toList ++
  (u.isStarred.map Assign.isStarred).toList ++
  (u.starredAt.map Assign.starredAt).toList ++
  (u.language.map Assign.language).toList ++
  (u.readingTime.map Assign.readingTime).toList ++
  (u.previewPicture.map Assign.previewPicture).toList ++
  (u.originUrl.map Assign.originUrl).toList ++
  (u.publishedAt.map Assign.publishedAt).toList ++
  (u.publishedBy.map Assign.publishedBy).toList ++
  (u.isPublic.map Assign.isPublic).toList ++
  (u.uid.map Assign.uid).toList ++
  [Assign.updatedAt u.updatedAt]

inductive SortColumn where
  | created | updated | archived
deriving DecidableEq, Repr

def SortColumn.value (e : EntryRecord) : SortColumn → Option Int
  | .created => some e.createdAt
  | .updated => some e.updatedAt
  | .archived => e.archivedAt

inductive SortOrder where
  | asc | desc
deriving DecidableEq, Repr

structure FindParams where
  userId : Int
  archive : Option Bool := none
  starred : Option Bool := none
  sort : Option SortColumn := none
  order : Option SortOrder := none
  page : Option Int := none
  perPage : Option Int := none
  tags : Option (List String) := none
  since : Option Int := none
  isPublic : Option Bool := none
  domainName : Option String := none
  search : Option String := none
deriving DecidableEq, Repr

/-- SQLite's order on a nullable integer column. -/
def nullsFirst : Option Int → Option Int → Bool
  | none, _ => true
  | some _, none => false
  | some a, some b => a ≤ b

/-- What `LEFT JOIN entry_tags … LEFT JOIN tags …` makes of the entries. -/
def joinTags (db : Db) : List JoinedRow :=
  (leftJoin (fun p t => p.2.any fun l => t.id == l.tagId)
    (leftJoin (fun e l => l.entryId == e.id) db.entries db.entryTags) db.tags).map fun r =>
      ⟨r.1.1, r.2⟩

/-- A NULL decodes to zero or to the empty string. -/
def TagRow.ofNullable (t : Option TagRow) : TagRow := t.getD ⟨0, 0, "", ""⟩

/-- The tag columns of a listing row, next to the entry's `user_id`. -/
def JoinedRow.tagRow (r : JoinedRow) : TagRow :=
  { TagRow.ofNullable r.tag with userId := r.entry.userId }

def fitsI32 (n : Int) : Bool := -2 ^ 31 ≤ n && n < 2 ^ 31

/-- `SELECT t.* FROM entry_tags et LEFT JOIN tags t … WHERE et.entry_id = ?`. -/
def linkedTags (entryId : Int) (db : Db) : List TagRow :=
  (leftJoin (fun l t => t.id == l.tagId)
    (db.entryTags.filter fun l => l.entryId == entryId) db.tags).map fun r => TagRow.ofNullable r.2

namespace Entries

section statements
variable {m : Type → Type} [Acquire Db Error m]

def ensureSupported (params : FindParams) : Except Error Unit :=
  if params.domainName.isSome then
    .error (.notSupportedYet "Domain filtering is not supported yet")
  else if params.tags.isSome then
    .error (.notSupportedYet "Tags filtering is not supported yet")
  else .ok ()

/-- `push_predicates`; a comparison with NULL is not true. -/
def predicates (params : FindParams) (e : EntryRecord) : Bool :=
  (params.archive.all fun a => e.isArchived == a) &&
  (params.starred.all fun s => e.isStarred == s) &&
  (params.isPublic.all fun p => e.isPublic == some p) &&
  (params.since.all fun d => e.updatedAt > d)

/-- `push_limit`; the offset is computed in `i64`. -/
def pushLimit {α : Type} (params : FindParams) (rows : List α) : List α :=
  match params.perPage with
  | none => rows
  | some pp => limitOffset (some pp) ((params.page.map fun p => i64 (i64 (p - 1) * pp)).getD 0) rows

section search
variable {K : Type} [Field K] [LinearOrder K] (eng : Engine K)

/-- `push_search_match`. -/
def searchMatch (params : FindParams) (db : Db) : Except Error (Int → Bool) :=
  match params.search with
  | none => .ok fun _ => true
  | some q => okOr (.sqlx .fts5) (eng.fts5.query db.entriesFts q)

/-- `push_order`: is `a` allowed before `b`? -/
def pushOrder (params : FindParams) (db : Db) (a b : EntryRecord) : Bool :=
  match params.sort with
  | some column => match params.order with
    | some .desc => nullsFirst (column.value b) (column.value a)
    | _ => nullsFirst (column.value a) (column.value b)
  | none => match params.search with
    | none => true
    | some q =>
      let tier (e : EntryRecord) : Nat :=
        if eng.fts5.bm25 db.entriesFts q 1 0 e.id < 0 then 0 else 1
      let rank (e : EntryRecord) : K := eng.fts5.bm25 db.entriesFts q 10 1 e.id
      decide (tier a < tier b ∨ tier a = tier b ∧ rank a ≤ rank b)

/-- The subquery that cuts the page. -/
def pageRows (params : FindParams) (db : Db) (hit : Int → Bool) : List EntryRecord :=
  pushLimit params (eng.inner.run (pushOrder eng params db)
    (db.entries.filter fun e => e.userId == params.userId && hit e.id && predicates params e))

/-- The rows of the outer query. -/
def rawRows (params : FindParams) (db : Db) (hit : Int → Bool) : List JoinedRow :=
  eng.outer.run (fun a b => pushOrder eng params db a.entry b.entry)
    ((joinTags db).filter fun r =>
      hit r.entry.id && ((pageRows eng params db hit).map EntryRecord.id).contains r.entry.id)

/-- The loop over the raw rows: ids decode to `i32`, rows gather by id. -/
def gatherRows {R : Type} (fromRow : EntryRecord → R) (rows : List JoinedRow) :
    Except Error (List (R × List TagRow)) :=
  if rows.all fun r => fitsI32 r.entry.id then
    .ok ((groupRows (fun r => r.entry.id) rows).filterMap fun g =>
      g.2.head?.map fun r => (fromRow r.entry, g.2.map JoinedRow.tagRow))
  else .error (.sqlx (.decode "id"))

/-- `fromRow` stands for the selected columns and the row type they decode to. -/
def findAllRows {R : Type} (params : FindParams) (fromRow : EntryRecord → R) :
    m (List (R × List TagRow)) := do
  ofExcept (ensureSupported params)
  query fun db =>
    (searchMatch eng params db).bind fun hit => gatherRows fromRow (rawRows eng params db hit)

def findAll (params : FindParams) : m (List FullEntry) := findAllRows eng params EntryRow.fromRow

def findAllMetadata (params : FindParams) : m (List MetadataEntry) :=
  findAllRows eng params EntryMetadataRow.fromRow

def count (params : FindParams) : m Int := do
  ofExcept (ensureSupported params)
  query fun db =>
    (searchMatch eng params db).map fun hit =>
      (((joinTags db).filter fun r => r.entry.userId == params.userId && hit r.entry.id &&
        predicates params r.entry).map fun r => r.entry.id).dedup.length

end search

def existsById (userId id : Int) : m Bool :=
  query fun db => .ok (db.entries.any fun e => e.userId == userId && e.id == id)

def deleteTagByTagId (userId id tagId : Int) : m Bool :=
  stmt fun db =>
    let p (l : EntryTag) : Bool := l.tagId == tagId &&
      db.entries.any fun e => e.id == id && e.userId == userId && e.id == l.entryId
    .ok (db.entryTags.any p, db.deleteEntryTags p)

def create (entry : CreateEntry) (tags : List Tags.CreateTag) : m FullEntry := transaction do
  let id ← stmt fun db => db.insertEntry entry.record
  let _ ← (if tags.isEmpty then pure [] else Tags.createAndLink entry.userId id tags)
  let row ← query fun db => okOr (.sqlx .rowNotFound) (db.entries.find? fun e => e.id == id)
  let tagRows ← query fun db => .ok (linkedTags row.id db)
  pure (EntryRow.fromRow row, tagRows)

def findById (userId id : Int) : m (Option FullEntry) := transaction do
  let entry ← query fun db => .ok (db.entries.find? fun e => e.userId == userId && e.id == id)
  match entry with
  | none => pure none
  | some e =>
    let tagRows ← query fun db => .ok (linkedTags id db)
    pure (some (EntryRow.fromRow e, tagRows))

def updateById (userId id : Int) (update : UpdateEntry) : m Bool := do
  let affected ← stmt fun db =>
    db.updateEntries (fun e => e.id == id && e.userId == userId) update.assignments
  pure (0 < affected)

def deleteById (userId id : Int) : m Bool :=
  stmt fun db =>
    let p (e : EntryRecord) : Bool := e.userId == userId && e.id == id
    .ok (db.entries.any p, db.deleteEntries p)

end statements

theorem findById_run (userId id : Int) (s : Db) :
    (findById userId id : Run Db Error _) s =
      (.ok ((s.entries.find? fun e => e.userId == userId && e.id == id).map fun e =>
        (EntryRow.fromRow e, linkedTags id s)), s) := by
  rw [findById, run_transaction, run_bind, run_query]
  cases s.entries.find? fun e => e.userId == userId && e.id == id with
  | none => rfl
  | some e => simp only [run_bind, run_query, run_pure, Option.map_some]

theorem findById_ok_iff {userId id : Int} {s t : Db} {found : Option FullEntry} :
    (findById userId id : Run Db Error _) s = (.ok found, t) ↔
      found = (s.entries.find? fun e => e.userId == userId && e.id == id).map (fun e =>
        (EntryRow.fromRow e, linkedTags id s)) ∧ s = t := by
  rw [findById_run, Prod.mk.injEq, Except.ok.injEq]
  exact and_congr_left' eq_comm

theorem updateById_ok {userId id : Int} {update : UpdateEntry} {s t : Db} {updated : Bool}
    (h : (updateById userId id update : Run Db Error _) s = (.ok updated, t)) :
    ∃ n, s.updateEntries (fun e => e.id == id && e.userId == userId) update.assignments =
      .ok (n, t) ∧ updated = decide (0 < n) := by
  obtain ⟨n, s1, h1, h2⟩ := bind_ok_inv h
  cases h2
  exact ⟨n, stmt_ok_iff.mp h1, rfl⟩

/-- What a successful `create` did: the row, then its tags, read back together. -/
theorem create_ok {entry : CreateEntry} {tags : List Tags.CreateTag} {s t : Db}
    {row : EntryRow} {tagRows : List TagRow}
    (h : (create entry tags : Run Db Error _) s = (.ok (row, tagRows), t)) :
    ∃ id s', s.insertEntry entry.record = .ok (id, s') ∧
      t = Tags.afterLink entry.userId id tags s' ∧
      (∃ e, (t.entries.find? fun e => e.id == id) = some e ∧ row = EntryRow.fromRow e ∧
        tagRows = linkedTags e.id t) := by
  rw [create, transaction_ok_iff] at h
  obtain ⟨id, s1, h1, h⟩ := bind_ok_inv h
  obtain ⟨_, s2, h2, h⟩ := bind_ok_inv h
  obtain ⟨e, s3, h3, h⟩ := bind_ok_inv h
  obtain ⟨_, s4, h4, h⟩ := bind_ok_inv h
  obtain ⟨hfound, rfl⟩ := query_ok_iff.mp h3
  obtain ⟨hlinked, rfl⟩ := query_ok_iff.mp h4
  cases hlinked
  cases h
  refine ⟨id, s1, stmt_ok_iff.mp h1, ?_, e, okOr_eq_ok.mp hfound, rfl, rfl⟩
  split at h2
  · rename_i hempty
    obtain rfl : tags = [] := List.isEmpty_iff.mp hempty
    cases h2
    simp [Tags.afterLink, Tags.insertTags, Tags.labelLinks_nil, Db.insertEntryTags, addMissing]
  · exact (Tags.createAndLink_ok h2).2.1

end Entries
end Articler
