import Articler.Listing
import Articler.Lib.Sqlite

/-! The two listing queries by the names of their columns: what each SELECT lists, and what
each row type reads. -/
namespace Articler
open Txn Rows Sqlite

/-- A row of a result: values under the names of their columns. -/
abbrev SqliteRow := List (String × Value)

/-- An `i32`. -/
structure I32 where
  val : Int
  fits : fitsI32 val = true
deriving DecidableEq

/-- A value of another type, or out of range, is an error; a NULL reads as zero, or empty. -/
class Decode (α : Type) where
  decode : Value → Option α

instance : Decode Int where
  decode
    | .null => some 0
    | .int n => some n
    | .text _ => none

instance : Decode I32 where
  decode
    | .null => some ⟨0, by decide⟩
    | .int n => if h : fitsI32 n = true then some ⟨n, h⟩ else none
    | .text _ => none

instance : Decode Bool where
  decode
    | .null => some false
    | .int n => some (n != 0)
    | .text _ => none

instance : Decode String where
  decode
    | .null => some ""
    | .int _ => none
    | .text s => some s

instance {α : Type} [Decode α] : Decode (Option α) where
  decode
    | .null => some none
    | v => (Decode.decode v).map some

/-- `Row::try_get`: the column has to be there, and to decode. -/
def SqliteRow.tryGet (row : SqliteRow) {α : Type} [Decode α] (column : String) : Except Error α :=
  okOr (.sqlx (.decode column)) ((row.lookup column).bind Decode.decode)

class FromRow (R : Type) where
  fromRow : SqliteRow → Except Error R

instance : FromRow EntryRow where
  fromRow row := do
    let id ← row.tryGet "id"
    let userId ← row.tryGet "user_id"
    let url ← row.tryGet "url"
    let hashedUrl ← row.tryGet "hashed_url"
    let givenUrl ← row.tryGet "given_url"
    let hashedGivenUrl ← row.tryGet "hashed_given_url"
    let title ← row.tryGet "title"
    let content ← row.tryGet "content"
    let contentText ← row.tryGet "content_text"
    let isArchived ← row.tryGet "is_archived"
    let archivedAt ← row.tryGet "archived_at"
    let isStarred ← row.tryGet "is_starred"
    let starredAt ← row.tryGet "starred_at"
    let createdAt ← row.tryGet "created_at"
    let updatedAt ← row.tryGet "updated_at"
    let mimetype ← row.tryGet "mimetype"
    let language ← row.tryGet "language"
    let readingTime : I32 ← row.tryGet "reading_time"
    let domainName ← row.tryGet "domain_name"
    let previewPicture ← row.tryGet "preview_picture"
    let originUrl ← row.tryGet "origin_url"
    let publishedAt ← row.tryGet "published_at"
    let publishedBy ← row.tryGet "published_by"
    let isPublic ← row.tryGet "is_public"
    let uid ← row.tryGet "uid"
    pure { id, userId, url, hashedUrl, givenUrl, hashedGivenUrl, title, content, contentText,
           isArchived, archivedAt, isStarred, starredAt, createdAt, updatedAt, mimetype, language
           readingTime := readingTime.val
           domainName, previewPicture, originUrl, publishedAt, publishedBy, isPublic, uid }

instance : FromRow EntryMetadataRow where
  fromRow row := do
    let id ← row.tryGet "id"
    let userId ← row.tryGet "user_id"
    let url ← row.tryGet "url"
    let hashedUrl ← row.tryGet "hashed_url"
    let givenUrl ← row.tryGet "given_url"
    let hashedGivenUrl ← row.tryGet "hashed_given_url"
    let title ← row.tryGet "title"
    let isArchived ← row.tryGet "is_archived"
    let archivedAt ← row.tryGet "archived_at"
    let isStarred ← row.tryGet "is_starred"
    let starredAt ← row.tryGet "starred_at"
    let createdAt ← row.tryGet "created_at"
    let updatedAt ← row.tryGet "updated_at"
    let mimetype ← row.tryGet "mimetype"
    let language ← row.tryGet "language"
    let readingTime : I32 ← row.tryGet "reading_time"
    let domainName ← row.tryGet "domain_name"
    let previewPicture ← row.tryGet "preview_picture"
    let originUrl ← row.tryGet "origin_url"
    let publishedAt ← row.tryGet "published_at"
    let publishedBy ← row.tryGet "published_by"
    let isPublic ← row.tryGet "is_public"
    let uid ← row.tryGet "uid"
    pure { id, userId, url, hashedUrl, givenUrl, hashedGivenUrl, title, isArchived, archivedAt,
           isStarred, starredAt, createdAt, updatedAt, mimetype, language
           readingTime := readingTime.val
           domainName, previewPicture, originUrl, publishedAt, publishedBy, isPublic, uid }

namespace Entries

def tagColumns : List String := ["tag_id", "tag_label", "tag_slug"]

def entryMetadataColumns : List String :=
  ["id", "user_id", "url", "hashed_url", "given_url",
   "hashed_given_url", "title", "is_archived", "archived_at", "is_starred", "starred_at",
   "created_at", "updated_at", "mimetype", "language", "reading_time", "domain_name",
   "preview_picture", "origin_url", "published_at", "published_by", "is_public", "uid"]

def entryFullColumns : List String := entryMetadataColumns ++ ["content", "content_text"]

def findAllFullSelect : List String := entryFullColumns ++ tagColumns

def findAllMetadataSelect : List String := entryMetadataColumns ++ tagColumns

end Entries

def orNull {α : Type} (f : α → Value) : Option α → Value
  | none => .null
  | some a => f a

def ofBool (b : Bool) : Value := .int (if b then 1 else 0)

/-- What a joined row holds under the names that a SELECT gives its columns. -/
def JoinedRow.column (r : JoinedRow) : String → Value
  | "id" => .int r.entry.id
  | "user_id" => .int r.entry.userId
  | "url" => .text r.entry.url
  | "hashed_url" => .text r.entry.hashedUrl
  | "given_url" => .text r.entry.givenUrl
  | "hashed_given_url" => .text r.entry.hashedGivenUrl
  | "title" => .text r.entry.title
  | "content" => .text r.entry.content
  | "content_text" => .text r.entry.contentText
  | "is_archived" => ofBool r.entry.isArchived
  | "archived_at" => orNull .int r.entry.archivedAt
  | "is_starred" => ofBool r.entry.isStarred
  | "starred_at" => orNull .int r.entry.starredAt
  | "created_at" => .int r.entry.createdAt
  | "updated_at" => .int r.entry.updatedAt
  | "mimetype" => orNull .text r.entry.mimetype
  | "language" => orNull .text r.entry.language
  | "reading_time" => .int r.entry.readingTime
  | "domain_name" => .text r.entry.domainName
  | "preview_picture" => orNull .text r.entry.previewPicture
  | "origin_url" => orNull .text r.entry.originUrl
  | "published_at" => orNull .int r.entry.publishedAt
  | "published_by" => orNull .text r.entry.publishedBy
  | "is_public" => orNull ofBool r.entry.isPublic
  | "uid" => orNull .text r.entry.uid
  | "tag_id" => orNull (fun t => .int t.id) r.tag
  | "tag_label" => orNull (fun t => .text t.label) r.tag
  | "tag_slug" => orNull (fun t => .text t.slug) r.tag
  | _ => .null

def JoinedRow.select (columns : List String) (r : JoinedRow) : SqliteRow :=
  columns.map fun c => (c, r.column c)

section reading

theorem lookup_map {α : Type} (f : String → α) {columns : List String} {c : String}
    (h : c ∈ columns) : (columns.map fun c => (c, f c)).lookup c = some (f c) := by
  induction columns with
  | nil => cases h
  | cons d columns ih =>
    rw [List.map_cons, List.lookup_cons]
    by_cases hd : c = d
    · simp [hd]
    · rw [beq_false_of_ne hd]
      exact ih ((List.mem_cons.mp h).resolve_left hd)

theorem tryGet_select {α : Type} [Decode α] {columns : List String} {c : String}
    (h : c ∈ columns) (r : JoinedRow) :
    (r.select columns).tryGet c = (okOr (.sqlx (.decode c)) (Decode.decode (r.column c)) :
      Except Error α) := by
  rw [SqliteRow.tryGet, JoinedRow.select, lookup_map _ h, Option.bind_some]

@[simp] theorem decode_int (n : Int) : Decode.decode (.int n) = some n := rfl

@[simp] theorem decode_i32 (n : Int) : (Decode.decode (.int n) : Option I32) =
    if h : fitsI32 n = true then some ⟨n, h⟩ else none := rfl

@[simp] theorem decode_text (s : String) : Decode.decode (.text s) = some s := rfl

@[simp] theorem decode_someText (s : String) : Decode.decode (.text s) = some (some s) := rfl

@[simp] theorem decode_bool (b : Bool) : Decode.decode (ofBool b) = some b := by
  cases b <;> rfl

theorem decode_orNull {α : Type} [Decode α] {f : α → Value} (hnull : ∀ a, f a ≠ .null)
    (h : ∀ a, Decode.decode (f a) = some a) (o : Option α) :
    Decode.decode (orNull f o) = some o := by
  have hsome {v : Value} (hv : v ≠ .null) :
      (Decode.decode v : Option (Option α)) = (Decode.decode v).map some := by
    cases v with
    | null => exact absurd rfl hv
    | int n => rfl
    | text s => rfl
  cases o with
  | none => rfl
  | some a => rw [orNull, hsome (hnull a), h, Option.map_some]

@[simp] theorem decode_orNull_int (o : Option Int) : Decode.decode (orNull .int o) = some o :=
  decode_orNull (fun _ => Value.noConfusion) decode_int o

@[simp] theorem decode_orNull_text (o : Option String) : Decode.decode (orNull .text o) = some o :=
  decode_orNull (fun _ => Value.noConfusion) decode_text o

@[simp] theorem decode_orNull_bool (o : Option Bool) : Decode.decode (orNull ofBool o) = some o :=
  decode_orNull (fun _ => Value.noConfusion) decode_bool o

@[simp] theorem okOr_some {α : Type} (e : Error) (a : α) : okOr e (some a) = .ok a := rfl

@[simp] theorem ok_bind {α β : Type} (a : α) (f : α → Except Error β) :
    (Except.ok a >>= f) = f a := rfl

/-- A stored entry as a SELECT row reads it, if its reading time is an `i32`. -/
def readEntry {R : Type} (fromRow : EntryRecord → R) (e : EntryRecord) : Except Error R :=
  if fitsI32 e.readingTime then .ok (fromRow e) else .error (.sqlx (.decode "reading_time"))

/-- Every column that `EntryRow` reads is selected, under the name it reads. -/
theorem fromRow_full (r : JoinedRow) :
    FromRow.fromRow (r.select Entries.findAllFullSelect) =
      readEntry EntryRow.fromRow r.entry := by
  simp (disch := decide) only [FromRow.fromRow, tryGet_select]
  simp only [JoinedRow.column, decode_int, decode_i32, decode_text, decode_someText, decode_bool,
    decode_orNull_int, decode_orNull_text, decode_orNull_bool, okOr_some, ok_bind]
  rw [readEntry]
  split <;> rfl

theorem fromRow_metadata (r : JoinedRow) :
    FromRow.fromRow (r.select Entries.findAllMetadataSelect) =
      readEntry EntryMetadataRow.fromRow r.entry := by
  simp (disch := decide) only [FromRow.fromRow, tryGet_select]
  simp only [JoinedRow.column, decode_int, decode_i32, decode_text, decode_someText, decode_bool,
    decode_orNull_int, decode_orNull_text, decode_orNull_bool, okOr_some, ok_bind]
  rw [readEntry]
  split <;> rfl

/-- The tag of a row; without one, its columns are NULL. -/
def SqliteRow.tagRow (row : SqliteRow) : Except Error TagRow := do
  let id ← row.tryGet "tag_id"
  let userId ← row.tryGet "user_id"
  let label ← row.tryGet "tag_label"
  let slug ← row.tryGet "tag_slug"
  pure { id, userId, label, slug }

theorem tagRow_select {columns : List String} (hid : "tag_id" ∈ columns)
    (huser : "user_id" ∈ columns) (hlabel : "tag_label" ∈ columns) (hslug : "tag_slug" ∈ columns)
    (r : JoinedRow) : (r.select columns).tagRow = .ok r.tagRow := by
  rw [SqliteRow.tagRow, tryGet_select hid, tryGet_select huser, tryGet_select hlabel,
    tryGet_select hslug]
  obtain ⟨e, _ | t⟩ := r <;> rfl

end reading

section gathering

/-- The loop of `find_all_rows` over the raw rows. -/
def SqliteRow.gather {R : Type} [FromRow R] (rows : List SqliteRow) :
    Except Error (List (R × List TagRow)) := do
  let entrs ← rows.mapM fun r => do
    let id : I32 ← r.tryGet "id"
    pure (id.val, r)
  let groups := (groupRows Prod.fst entrs).filterMap fun g => g.2.head?.map fun r => (r.2, g.2)
  groups.mapM fun g => do
    let tags ← g.2.mapM fun r => r.2.tagRow
    let e ← FromRow.fromRow g.1
    pure (e, tags)

/-- The rows by entry, each entry with its first row. -/
def entryGroups (rows : List JoinedRow) : List (JoinedRow × List JoinedRow) :=
  (groupRows (fun r => r.entry.id) rows).filterMap fun g => g.2.head?.map fun r => (r, g.2)

theorem mapM_map_ok {α β : Type} {f : α → Except Error β} {g : α → β} {rows : List α}
    (h : ∀ a ∈ rows, f a = .ok (g a)) : rows.mapM f = .ok (rows.map g) := by
  induction rows with
  | nil => rfl
  | cons a rows ih =>
    rw [List.mapM_cons, h a List.mem_cons_self, ih fun b hb => h b (List.mem_cons_of_mem a hb)]
    rfl

theorem keyed_select {columns : List String} (hid : "id" ∈ columns) (rows : List JoinedRow) :
    ((rows.map (JoinedRow.select columns)).mapM fun r => do
      let id : I32 ← r.tryGet "id"
      pure (id.val, r) : Except Error (List (Int × SqliteRow))) =
      if rows.all fun r => fitsI32 r.entry.id then
        .ok (rows.map fun r => (r.entry.id, r.select columns))
      else .error (.sqlx (.decode "id")) := by
  induction rows with
  | nil => rfl
  | cons r rows ih =>
    have hcolumn : r.column "id" = .int r.entry.id := rfl
    rw [List.map_cons, List.mapM_cons, ih, tryGet_select hid, List.all_cons, hcolumn, decode_i32]
    by_cases hfits : fitsI32 r.entry.id = true
    · rw [dif_pos hfits, okOr_some, ok_bind, hfits, Bool.true_and]
      split <;> rfl
    · rw [dif_neg hfits, Bool.eq_false_iff.mpr hfits]
      rfl

variable {R : Type} [FromRow R] {columns : List String} {fromRow : EntryRecord → R}

/-- What the loop makes of the raw rows of a SELECT. -/
theorem gather_select (hid : "id" ∈ columns)
    (htag : ∀ r : JoinedRow, (r.select columns).tagRow = .ok r.tagRow)
    (hrow : ∀ r : JoinedRow, FromRow.fromRow (r.select columns) = readEntry fromRow r.entry)
    (rows : List JoinedRow) :
    SqliteRow.gather (rows.map (JoinedRow.select columns)) =
      if rows.all fun r => fitsI32 r.entry.id then
        (entryGroups rows).mapM fun g => (readEntry fromRow g.1.entry).map fun e =>
          (e, g.2.map JoinedRow.tagRow)
      else .error (.sqlx (.decode "id")) := by
  rw [SqliteRow.gather, keyed_select hid]
  split
  · have hgroups : (groupRows Prod.fst (rows.map fun r => (r.entry.id, r.select columns))) =
        (groupRows (fun r => r.entry.id) rows).map fun g =>
          (g.1, g.2.map fun r => (r.entry.id, r.select columns)) := groupRows_map _ _ rows
    have hheads : (((groupRows (fun r => r.entry.id) rows).map fun g =>
        (g.1, g.2.map fun r => (r.entry.id, r.select columns))).filterMap fun g =>
          g.2.head?.map fun r => (r.2, g.2)) = (entryGroups rows).map fun g =>
            (g.1.select columns, g.2.map fun r => (r.entry.id, r.select columns)) := by
      simp [entryGroups, List.filterMap_map, List.map_filterMap, Function.comp_def]
    have htags (rs : List JoinedRow) : ((rs.map fun r => (r.entry.id, r.select columns)).mapM
        fun r => r.2.tagRow) = .ok (rs.map JoinedRow.tagRow) := by
      rw [List.mapM_map]
      exact mapM_map_ok fun r _ => htag r
    rw [ok_bind, hgroups, hheads, List.mapM_map]
    simp only [Function.comp_def, htags, hrow, ok_bind]
    refine congrArg (List.mapM · _) (funext fun g => ?_)
    cases readEntry fromRow g.1.entry <;> rfl
  · rfl

theorem entryGroups_eq (rows : List JoinedRow) :
    entryGroups rows = (leaders (fun r => r.entry.id) rows).map fun l =>
      (l, rows.filter fun r => r.entry.id = l.entry.id) := by
  rw [entryGroups, groupRows_eq, List.filterMap_map, ← List.filterMap_eq_map]
  refine List.filterMap_congr fun l hl => ?_
  simp [group_head (fun r : JoinedRow => r.entry.id) hl]

theorem entryGroups_mem {rows : List JoinedRow} {g : JoinedRow × List JoinedRow}
    (hg : g ∈ entryGroups rows) : g.1 ∈ rows := by
  rw [entryGroups_eq] at hg
  obtain ⟨l, hl, rfl⟩ := List.mem_map.mp hg
  exact mem_of_leader hl

theorem gather_gatherRows (hid : "id" ∈ columns)
    (htag : ∀ r : JoinedRow, (r.select columns).tagRow = .ok r.tagRow)
    (hrow : ∀ r : JoinedRow, FromRow.fromRow (r.select columns) = readEntry fromRow r.entry)
    {rows : List JoinedRow} (h : ∀ r ∈ rows, fitsI32 r.entry.readingTime = true) :
    SqliteRow.gather (rows.map (JoinedRow.select columns)) = Entries.gatherRows fromRow rows := by
  have hgroups : (entryGroups rows).mapM (fun g => (readEntry fromRow g.1.entry).map fun e =>
      (e, g.2.map JoinedRow.tagRow)) = .ok ((entryGroups rows).map fun g =>
        (fromRow g.1.entry, g.2.map JoinedRow.tagRow)) := by
    refine mapM_map_ok fun g hg => ?_
    rw [readEntry, if_pos (h _ (entryGroups_mem hg))]
    rfl
  rw [gather_select hid htag hrow, hgroups, Entries.gatherRows]
  simp [entryGroups, List.map_filterMap, Function.comp_def]

end gathering

namespace Entries

section queries
variable {m : Type → Type} [Acquire Db Error m] {K : Type} [Field K] [LinearOrder K]
  (eng : Engine K)

/-- `find_all_rows`, reading the columns of its SELECT by their names. -/
def findAllRowsNamed {R : Type} [FromRow R] (params : FindParams) (select : List String) :
    m (List (R × List TagRow)) := do
  ofExcept (ensureSupported params)
  query fun db =>
    (searchMatch eng params db).bind fun hit =>
      SqliteRow.gather ((rawRows eng params db hit).map (JoinedRow.select select))

def findAllNamed (params : FindParams) : m (List FullEntry) :=
  findAllRowsNamed eng params findAllFullSelect

def findAllMetadataNamed (params : FindParams) : m (List MetadataEntry) :=
  findAllRowsNamed eng params findAllMetadataSelect

variable {eng} {params : FindParams} {db : Db}

theorem findAllRowsNamed_run {R : Type} [FromRow R] (select : List String) {hit : Int → Bool}
    (htags : params.tags = none) (hdomain : params.domainName = none)
    (hs : searchMatch eng params db = .ok hit) :
    (findAllRowsNamed eng params select : Run Db Error (List (R × List TagRow))) db =
      (SqliteRow.gather ((rawRows eng params db hit).map (JoinedRow.select select)), db) := by
  rw [findAllRowsNamed, run_bind, run_ofExcept, ensureSupported_ok htags hdomain]
  simp only [run_query, hs, Except.bind]

theorem tagRow_full (r : JoinedRow) : (r.select findAllFullSelect).tagRow = .ok r.tagRow :=
  tagRow_select (by decide) (by decide) (by decide) (by decide) r

theorem tagRow_metadata (r : JoinedRow) :
    (r.select findAllMetadataSelect).tagRow = .ok r.tagRow :=
  tagRow_select (by decide) (by decide) (by decide) (by decide) r

/-- Where the reading times are `i32`s, the columns by name are the stored rows. -/
theorem findAllRowsNamed_eq {R : Type} [FromRow R] {select : List String}
    {fromRow : EntryRecord → R} (hid : "id" ∈ select)
    (htag : ∀ r : JoinedRow, (r.select select).tagRow = .ok r.tagRow)
    (hrow : ∀ r : JoinedRow, FromRow.fromRow (r.select select) = readEntry fromRow r.entry)
    (h : ∀ e ∈ db.entries, fitsI32 e.readingTime = true) :
    (findAllRowsNamed eng params select : Run Db Error (List (R × List TagRow))) db =
      (findAllRows eng params fromRow : Run Db Error _) db := by
  rw [findAllRowsNamed, findAllRows, run_bind, run_bind, run_ofExcept]
  cases ensureSupported params with
  | error e => rfl
  | ok _ =>
    dsimp only
    rw [run_query, run_query]
    cases searchMatch eng params db with
    | error e => rfl
    | ok hit =>
      dsimp only [Except.bind]
      rw [gather_gatherRows hid htag hrow
        fun r hr => h _ (joinTags_entry ((mem_rawRows eng).mp hr).1)]

theorem findAllNamed_eq (h : ∀ e ∈ db.entries, fitsI32 e.readingTime = true) :
    (findAllNamed eng params : Run Db Error _) db = (findAll eng params : Run Db Error _) db :=
  findAllRowsNamed_eq (by decide) tagRow_full fromRow_full h

theorem findAllMetadataNamed_eq (h : ∀ e ∈ db.entries, fitsI32 e.readingTime = true) :
    (findAllMetadataNamed eng params : Run Db Error _) db =
      (findAllMetadata eng params : Run Db Error _) db :=
  findAllRowsNamed_eq (by decide) tagRow_metadata fromRow_metadata h

end queries
end Entries
end Articler
