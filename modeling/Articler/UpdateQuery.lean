import Articler.Updates
import Articler.Lib.UpdateText

/-! The statement that `update_by_id` builds: its text, what the text says with the arguments
bound to it, and what it does to the rows of `entries`. -/
namespace Articler
open Txn Rows Sql

/-- A value behind a placeholder, as SQLite receives it. -/
inductive Argument where
  | int (n : Int)
  | text (s : String)
deriving DecidableEq, Repr

/-- How values of a type are bound, and read back from a column. -/
class Encode (α : Type) where
  encode : α → Argument
  decode : Argument → Option α
  decode_encode : ∀ a, decode (encode a) = some a

instance : Encode Int where
  encode := .int
  decode
    | .int n => some n
    | .text _ => none
  decode_encode _ := rfl

instance : Encode String where
  encode := .text
  decode
    | .int _ => none
    | .text s => some s
  decode_encode _ := rfl

/-- A BOOLEAN is stored as 0 or 1. -/
instance : Encode Bool where
  encode b := .int (if b then 1 else 0)
  decode
    | .int n => some (n != 0)
    | .text _ => none
  decode_encode b := by cases b <;> rfl

namespace Entries
open Encode

section text
variable {α : Type} [Encode α]

/-- SQLite has no DEFAULT in an UPDATE, so the default is NULL. -/
def pushBindOrDefault (builder : Separated Argument) (value : Option α) : Separated Argument :=
  match value with
  | some v => builder.pushBindUnseparated (encode v)
  | none => builder.pushUnseparated "NULL"

/-- One `if let Some(value) = update.field` of `update_by_id`. -/
def pushField (separated : Separated Argument) (text : String) (field : UpdateField α) :
    Separated Argument :=
  match field with
  | some value => pushBindOrDefault (separated.push text) value
  | none => separated

/-- The text and the arguments that `update_by_id` puts together. -/
def updateQuery (userId id : Int) (update : UpdateEntry) : QueryBuilder Argument :=
  let separated := (QueryBuilder.new "UPDATE entries SET ").separated ", "
  let separated := pushField separated "title = " (update.title.map fun v => v.map Title.val)
  let separated := pushField separated "content = " (update.content.map fun v => v.map SafeHtml.val)
  let separated := pushField separated "content_text = " update.contentText
  let separated := pushField separated "is_archived = " update.isArchived
  let separated := pushField separated "archived_at = " update.archivedAt
  let separated := pushField separated "is_starred = " update.isStarred
  let separated := pushField separated "starred_at = " update.starredAt
  let separated := pushField separated "language = " update.language
  let separated := pushField separated "reading_time = " update.readingTime
  let separated := pushField separated "preview_picture = " update.previewPicture
  let separated := pushField separated "origin_url = " update.originUrl
  let separated := pushField separated "published_at = " update.publishedAt
  let separated := pushField separated "published_by = " update.publishedBy
  let separated := pushField separated "is_public = " update.isPublic
  let separated := pushField separated "uid = " update.uid
  let separated := separated.push "updated_at = "
  let separated := separated.pushBindUnseparated (encode update.updatedAt)
  let builder := separated.builder.push " WHERE id = "
  let builder := builder.pushBind (encode id)
  let builder := builder.push " AND user_id = "
  builder.pushBind (encode userId)

def setting (column : String) (field : UpdateField α) : List (String × Option Argument) :=
  (field.map fun value => (column, value.map encode)).toList

theorem pushField_eq (s : Separated Argument) (column : String) (field : UpdateField α) :
    pushField s (column ++ " = ") field = (setting column field).foldl Separated.pushItem s := by
  rcases field with _ | _ | v <;> rfl

end text

def settings (update : UpdateEntry) : List (String × Option Argument) :=
  setting "title" (update.title.map fun v => v.map Title.val) ++
  setting "content" (update.content.map fun v => v.map SafeHtml.val) ++
  setting "content_text" update.contentText ++
  setting "is_archived" update.isArchived ++
  setting "archived_at" update.archivedAt ++
  setting "is_starred" update.isStarred ++
  setting "starred_at" update.starredAt ++
  setting "language" update.language ++
  setting "reading_time" update.readingTime ++
  setting "preview_picture" update.previewPicture ++
  setting "origin_url" update.originUrl ++
  setting "published_at" update.publishedAt ++
  setting "published_by" update.publishedBy ++
  setting "is_public" update.isPublic ++
  setting "uid" update.uid ++
  [("updated_at", some (encode update.updatedAt))]

/-- The statement that `update_by_id` is meant to run. -/
def boundUpdate (userId id : Int) (update : UpdateEntry) : Bound Argument :=
  ⟨"entries", settings update, [("id", some (encode id)), ("user_id", some (encode userId))]⟩

theorem updateQuery_eq (userId id : Int) (update : UpdateEntry) :
    updateQuery userId id update = ⟨(boundUpdate userId id update).statement.print,
      (boundUpdate userId id update).arguments⟩ := by
  have hfold : updateQuery userId id update =
      (((((settings update).foldl Separated.pushItem
        ((QueryBuilder.new "UPDATE entries SET ").separated ", ")).builder.push
          " WHERE id = ").pushBind (encode id)).push " AND user_id = ").pushBind (encode userId) := by
    simp only [settings, List.foldl_append, ← pushField_eq]
    rfl
  rw [hfold, Separated.pushItems_eq]
  simp [QueryBuilder.push, QueryBuilder.pushBind, QueryBuilder.new, boundUpdate, Bound.statement,
    Bound.arguments, Update.print, item, printItem, Expr.ofValue, Expr.print, String.append_assoc]

theorem settings_names (update : UpdateEntry) : ∀ x ∈ settings update, isName x.1 = true := by
  have hsetting {α : Type} [Encode α] {column : String} (hname : isName column = true)
      (field : UpdateField α) : ∀ x ∈ setting column field, isName x.1 = true := by
    rcases field with _ | v
    · simp [setting]
    · simpa [setting] using hname
  simp only [settings, List.forall_mem_append, List.forall_mem_singleton]
  refine ⟨?_, by decide⟩
  repeat' apply And.intro
  all_goals exact hsetting (by decide) _

theorem boundUpdate_wellFormed (userId id : Int) (update : UpdateEntry) :
    (boundUpdate userId id update).statement.WellFormed where
  table := (by decide : isName "entries" = true)
  sets := by simp [Bound.statement, boundUpdate, settings]
  setNames := by
    simp only [Bound.statement, boundUpdate, List.forall_mem_map]
    exact settings_names update
  conditions := by simp [Bound.statement, boundUpdate]
  conditionNames := by
    simp only [Bound.statement, boundUpdate, List.forall_mem_map, List.forall_mem_cons]
    exact ⟨(by decide : isName "id" = true), (by decide : isName "user_id" = true),
      List.forall_mem_nil _⟩

theorem updateQuery_bound (userId id : Int) (update : UpdateEntry) :
    ((Update.parse (updateQuery userId id update).sql).bind fun s =>
      s.bind (updateQuery userId id update).arguments) = some (boundUpdate userId id update) := by
  rw [updateQuery_eq, (boundUpdate_wellFormed userId id update).parse_print, Option.bind_some,
    Bound.bind_arguments]

section meaning

def read {α : Type} [Encode α] : Option Argument → Option (Option α)
  | none => some none
  | some a => (decode a).map some

def assign (x : String × Option Argument) : Option Assign :=
  match x.1 with
  | "title" => (read x.2).map .title
  | "content" => (read x.2).map .content
  | "content_text" => (read x.2).map .contentText
  | "is_archived" => (read x.2).map .isArchived
  | "archived_at" => (read x.2).map .archivedAt
  | "is_starred" => (read x.2).map .isStarred
  | "starred_at" => (read x.2).map .starredAt
  | "language" => (read x.2).map .language
  | "reading_time" => (read x.2).map .readingTime
  | "preview_picture" => (read x.2).map .previewPicture
  | "origin_url" => (read x.2).map .originUrl
  | "published_at" => (read x.2).map .publishedAt
  | "published_by" => (read x.2).map .publishedBy
  | "is_public" => (read x.2).map .isPublic
  | "uid" => (read x.2).map .uid
  | "updated_at" => (x.2.bind decode).map .updatedAt
  | _ => none

/-- `column = value` in a WHERE clause; NULL equals nothing. -/
def condition (x : String × Option Argument) : Option (EntryRecord → Bool) :=
  match x.1 with
  | "id" => (read x.2).map fun n e => some e.id == n
  | "user_id" => (read x.2).map fun n e => some e.userId == n
  | _ => none

/-- What the database does with an UPDATE of `entries`. -/
def meaning (b : Bound Argument) : Option (Db → Except Error (Nat × Db)) :=
  if b.table = "entries" then
    (b.sets.mapM assign).bind fun assigns => (b.conditions.mapM condition).map fun conditions db =>
      db.updateEntries (fun e => conditions.all fun c => c e) assigns
  else none

/-- What `execute` runs: the text, parsed, with its arguments bound. -/
def prepared (q : QueryBuilder Argument) : Option (Db → Except Error (Nat × Db)) :=
  ((Update.parse q.sql).bind fun s => s.bind q.arguments).bind meaning

variable {α : Type} [Encode α]

theorem read_encode (value : Option α) : read (value.map encode) = some value := by
  cases value with
  | none => rfl
  | some v => exact congrArg (Option.map some) (decode_encode v)

theorem setting_assign {column : String} {mk : Option α → Assign}
    (h : ∀ v, assign (column, v) = (read v).map mk) (field : UpdateField α) :
    (setting column field).mapM assign = some (field.map mk).toList := by
  cases field with
  | none => rfl
  | some value =>
    simp [setting, h, read_encode]

theorem mapM_append {xs ys : List (String × Option Argument)} {as bs : List Assign}
    (hxs : xs.mapM assign = some as) (hys : ys.mapM assign = some bs) :
    (xs ++ ys).mapM assign = some (as ++ bs) := by
  simp [List.mapM_append, hxs, hys]

theorem settings_assign (update : UpdateEntry) :
    (settings update).mapM assign = some update.assignments := by
  have htitle := setting_assign (fun _ => rfl : ∀ v, assign ("title", v) = (read v).map .title)
    (update.title.map fun v => v.map Title.val)
  have hcontent := setting_assign
    (fun _ => rfl : ∀ v, assign ("content", v) = (read v).map .content)
    (update.content.map fun v => v.map SafeHtml.val)
  rw [Option.map_map] at htitle hcontent
  refine mapM_append ?_ rfl
  refine mapM_append ?_ (setting_assign (fun _ => rfl) update.uid)
  refine mapM_append ?_ (setting_assign (fun _ => rfl) update.isPublic)
  refine mapM_append ?_ (setting_assign (fun _ => rfl) update.publishedBy)
  refine mapM_append ?_ (setting_assign (fun _ => rfl) update.publishedAt)
  refine mapM_append ?_ (setting_assign (fun _ => rfl) update.originUrl)
  refine mapM_append ?_ (setting_assign (fun _ => rfl) update.previewPicture)
  refine mapM_append ?_ (setting_assign (fun _ => rfl) update.readingTime)
  refine mapM_append ?_ (setting_assign (fun _ => rfl) update.language)
  refine mapM_append ?_ (setting_assign (fun _ => rfl) update.starredAt)
  refine mapM_append ?_ (setting_assign (fun _ => rfl) update.isStarred)
  refine mapM_append ?_ (setting_assign (fun _ => rfl) update.archivedAt)
  refine mapM_append ?_ (setting_assign (fun _ => rfl) update.isArchived)
  refine mapM_append ?_ (setting_assign (fun _ => rfl) update.contentText)
  exact mapM_append htitle hcontent

/-- The text with its arguments is the UPDATE of the one row by its id and its user. -/
theorem prepared_updateQuery (userId id : Int) (update : UpdateEntry) :
    prepared (updateQuery userId id update) = some fun db =>
      db.updateEntries (fun e => e.id == id && e.userId == userId) update.assignments := by
  rw [prepared, updateQuery_bound, Option.bind_some, boundUpdate, meaning, if_pos rfl,
    settings_assign]
  refine congrArg some (funext fun db => congrArg (db.updateEntries · _) (funext fun e => ?_))
  simp

/-- `query_builder.build().execute(…)`, then `rows_affected() > 0`. -/
def executed (q : QueryBuilder Argument) : Option (Run Db Error Bool) :=
  (prepared q).map fun run => do
    let affected ← stmt run
    pure (0 < affected)

/-- The text is what `updateById` does. -/
theorem executed_updateQuery (userId id : Int) (update : UpdateEntry) :
    executed (updateQuery userId id update) = some (updateById userId id update) := by
  rw [executed, prepared_updateQuery]
  rfl

end meaning

section effect
variable {userId id : Int} {update : UpdateEntry} {e : EntryRecord}

def Takes {α : Type} (field : UpdateField α) (old new : Option α) : Prop :=
  match field with
  | none => new = old
  | some v => new = v

/-- What an update asks of a row, column by column. -/
structure Took (u : UpdateEntry) (e e' : EntryRecord) : Prop where
  title : Takes (u.title.map fun v => v.map Title.val) (some e.title) (some e'.title)
  content : Takes (u.content.map fun v => v.map SafeHtml.val) (some e.content) (some e'.content)
  contentText : Takes u.contentText (some e.contentText) (some e'.contentText)
  isArchived : Takes u.isArchived (some e.isArchived) (some e'.isArchived)
  archivedAt : Takes u.archivedAt e.archivedAt e'.archivedAt
  isStarred : Takes u.isStarred (some e.isStarred) (some e'.isStarred)
  starredAt : Takes u.starredAt e.starredAt e'.starredAt
  updatedAt : e'.updatedAt = u.updatedAt
  language : Takes u.language e.language e'.language
  readingTime : Takes u.readingTime (some e.readingTime) (some e'.readingTime)
  previewPicture : Takes u.previewPicture e.previewPicture e'.previewPicture
  originUrl : Takes u.originUrl e.originUrl e'.originUrl
  publishedAt : Takes u.publishedAt e.publishedAt e'.publishedAt
  publishedBy : Takes u.publishedBy e.publishedBy e'.publishedBy
  isPublic : Takes u.isPublic e.isPublic e'.isPublic
  uid : Takes u.uid e.uid e'.uid
  id : e'.id = e.id
  userId : e'.userId = e.userId
  url : e'.url = e.url
  hashedUrl : e'.hashedUrl = e.hashedUrl
  givenUrl : e'.givenUrl = e.givenUrl
  hashedGivenUrl : e'.hashedGivenUrl = e.hashedGivenUrl
  createdAt : e'.createdAt = e.createdAt
  mimetype : e'.mimetype = e.mimetype
  domainName : e'.domainName = e.domainName

theorem takes_val {α β : Type} {field : UpdateField α} (h : field ≠ some none) (f : α → β)
    (old : α) :
    Takes (field.map fun v => v.map f) (some (f old)) (some (f (field.join.getD old))) := by
  rcases field with _ | _ | v
  · rfl
  · exact absurd rfl h
  · rfl

theorem takes_notNull {α : Type} {field : UpdateField α} (h : field ≠ some none) (old : α) :
    Takes field (some old) (some (field.join.getD old)) := by
  simpa using takes_val h id old

theorem takes_nullable {α : Type} (field : UpdateField α) (old : Option α) :
    Takes field old (field.getD old) := by
  cases field <;> rfl

theorem updated_took (h : update.NoNull) : Took update e (update.updated e) where
  title := takes_val h.title Title.val ⟨e.title⟩
  content := takes_val h.content SafeHtml.val ⟨e.content⟩
  contentText := takes_notNull h.contentText _
  isArchived := takes_notNull h.isArchived _
  archivedAt := takes_nullable _ _
  isStarred := takes_notNull h.isStarred _
  starredAt := takes_nullable _ _
  updatedAt := rfl
  language := takes_nullable _ _
  readingTime := takes_notNull h.readingTime _
  previewPicture := takes_nullable _ _
  originUrl := takes_nullable _ _
  publishedAt := takes_nullable _ _
  publishedBy := takes_nullable _ _
  isPublic := takes_nullable _ _
  uid := takes_nullable _ _
  id := rfl
  userId := rfl
  url := rfl
  hashedUrl := rfl
  givenUrl := rfl
  hashedGivenUrl := rfl
  createdAt := rfl
  mimetype := rfl
  domainName := rfl

/-- What a run of `update_by_id` leaves, where the row of that id and user can be updated. -/
theorem updateById_updated {db : Database} (he : e ∈ db.val.entries) (hid : e.id = id)
    (huser : e.userId = userId) (hnull : update.NoNull) (hcheck : e.createdAt ≤ update.updatedAt) :
    ∃ fts, (updateById userId id update : Run Db Error Bool) db.val = (.ok true, { db.val with
      entries := db.val.entries.map fun r => if r.id = id then update.updated e else r
      entriesFts := fts }) := by
  have hrow {r : EntryRecord} (hr : r ∈ db.val.entries) (hp : r.id = id) : r = e :=
    db.property.entries.pk.eq_of_key hr he (hp.trans hid.symm)
  obtain ⟨⟨n, t⟩, hok⟩ : ∃ r, db.val.updateEntries
      (fun e => e.id == id && e.userId == userId) update.assignments = .ok r := by
    refine Db.updateEntries_isOk.mpr fun r hr hp => ?_
    simp only [Bool.and_eq_true, beq_iff_eq] at hp
    obtain rfl := hrow hr hp.1
    exact ⟨hnull, hcheck⟩
  obtain ⟨-, hn, fts, ht⟩ := Db.updateEntries_updated hok
  have hpos : 0 < n := by
    rw [hn, List.length_pos_iff_exists_mem]
    exact ⟨e, List.mem_filter.mpr ⟨he, by simp [hid, huser]⟩⟩
  refine ⟨fts, ?_⟩
  rw [updateById, run_bind, run_stmt, hok]
  refine congrArg₂ Prod.mk (by simp [hpos]) ?_
  rw [ht]
  refine congrArg (fun rows => { db.val with entries := rows, entriesFts := fts })
    (List.map_congr_left fun r hr => ?_)
  by_cases hp : r.id = id
  · obtain rfl := hrow hr hp
    simp [hp, huser]
  · simp [hp]

theorem updateById_refused {db : Database} (he : e ∈ db.val.entries) (hid : e.id = id)
    (huser : e.userId = userId) (h : ¬(update.NoNull ∧ e.createdAt ≤ update.updatedAt)) :
    ∃ x, (updateById userId id update : Run Db Error Bool) db.val = (.error x, db.val) := by
  rw [updateById, run_bind, run_stmt]
  cases hrun : db.val.updateEntries (fun e => e.id == id && e.userId == userId)
      update.assignments with
  | error x => exact ⟨x, rfl⟩
  | ok r => exact absurd (Db.updateEntries_isOk.mp ⟨r, hrun⟩ e he (by simp [hid, huser])) h

theorem updateById_missing {db : Db} (h : ∀ e ∈ db.entries, e.id = id → e.userId ≠ userId) :
    (updateById userId id update : Run Db Error Bool) db = (.ok false, db) := by
  have hnone : ∀ e ∈ db.entries, (e.id == id && e.userId == userId) = false := fun e he => by
    simpa using h e he
  rw [updateById, run_bind, run_stmt, Db.updateEntries_none hnone]
  rfl

/-- `update_by_id` changes exactly what was asked: its text is an UPDATE with all its arguments,
and what that does is told by the row of this id and user. -/
theorem update_exact (db : Database) (userId id : Int) (update : UpdateEntry) :
    ∃ run, executed (updateQuery userId id update) = some run ∧
      (∀ e ∈ db.val.entries, e.id = id → e.userId = userId →
        (update.NoNull ∧ e.createdAt ≤ update.updatedAt → ∃ e' fts, Took update e e' ∧
          run db.val = (.ok true, { db.val with
            entries := db.val.entries.map fun r => if r.id = id then e' else r
            entriesFts := fts })) ∧
        (¬(update.NoNull ∧ e.createdAt ≤ update.updatedAt) →
          ∃ x, run db.val = (.error x, db.val))) ∧
      ((∀ e ∈ db.val.entries, e.id = id → e.userId ≠ userId) →
        run db.val = (.ok false, db.val)) := by
  refine ⟨_, executed_updateQuery userId id update, fun e he hid huser => ⟨fun h => ?_, ?_⟩, ?_⟩
  · obtain ⟨fts, hrun⟩ := updateById_updated he hid huser h.1 h.2
    exact ⟨update.updated e, fts, updated_took h.1, hrun⟩
  · exact updateById_refused he hid huser
  · exact updateById_missing

end effect

end Entries
end Articler
