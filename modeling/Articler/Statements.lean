import Articler.Schema

/-! What the SQL statements do to the tables: constraint checks, the cascades of the
foreign keys and the triggers that keep `entries_fts`. -/
namespace Articler
open Rows ContentIndex

/-- One `column = value` of an UPDATE of `entries`; `none` is NULL. -/
inductive Assign where
  | title (v : Option String)
  | content (v : Option String)
  | contentText (v : Option String)
  | isArchived (v : Option Bool)
  | archivedAt (v : Option Int)
  | isStarred (v : Option Bool)
  | starredAt (v : Option Int)
  | language (v : Option String)
  | readingTime (v : Option Int)
  | previewPicture (v : Option String)
  | originUrl (v : Option String)
  | publishedAt (v : Option Int)
  | publishedBy (v : Option String)
  | isPublic (v : Option Bool)
  | uid (v : Option String)
  | updatedAt (v : Int)
deriving DecidableEq, Repr

def notNull {α : Type} (column : String) : Option α → Except Error α :=
  okOr (.sqlx (.notNull column))

def Assign.apply (e : EntryRecord) : Assign → Except Error EntryRecord
  | .title v => (notNull "title" v).map fun v => { e with title := v }
  | .content v => (notNull "content" v).map fun v => { e with content := v }
  | .contentText v => (notNull "content_text" v).map fun v => { e with contentText := v }
  | .isArchived v => (notNull "is_archived" v).map fun v => { e with isArchived := v }
  | .archivedAt v => .ok { e with archivedAt := v }
  | .isStarred v => (notNull "is_starred" v).map fun v => { e with isStarred := v }
  | .starredAt v => .ok { e with starredAt := v }
  | .language v => .ok { e with language := v }
  | .readingTime v => (notNull "reading_time" v).map fun v => { e with readingTime := v }
  | .previewPicture v => .ok { e with previewPicture := v }
  | .originUrl v => .ok { e with originUrl := v }
  | .publishedAt v => .ok { e with publishedAt := v }
  | .publishedBy v => .ok { e with publishedBy := v }
  | .isPublic v => .ok { e with isPublic := v }
  | .uid v => .ok { e with uid := v }
  | .updatedAt v => .ok { e with updatedAt := v }

/-- Does the assignment name a column that `entries_au` watches? -/
def Assign.indexed : Assign → Bool
  | .title _ | .contentText _ => true
  | _ => false

def EntryRecord.assignAll (e : EntryRecord) : List Assign → Except Error EntryRecord
  | [] => .ok e
  | a :: as => (a.apply e).bind fun e' => e'.assignAll as

/-- The new row of an UPDATE, if its constraints hold. -/
def EntryRecord.update (as : List Assign) (e : EntryRecord) : Except Error EntryRecord :=
  (e.assignAll as).bind fun e' =>
    if e'.createdAt ≤ e'.updatedAt then .ok e'
    else .error (.sqlx (.check "check_entries_updated_at"))

namespace Db

def insertUser (row : Int → UserRow) (db : Db) : Except Error (UserRow × Db) :=
  let u := row (db.usersSeq + 1)
  if u.updatedAt < u.createdAt then .error (.sqlx (.check "check_users_updated_at"))
  else if db.users.any fun v => v.username == u.username then .error (.sqlx .unique)
  else .ok (u, { db with users := db.users ++ [u], usersSeq := db.usersSeq + 1 })

/-- INSERT of one entry, then trigger `entries_ai`. -/
def insertEntry (row : Int → EntryRecord) (db : Db) : Except Error (Int × Db) :=
  let e := row (db.entriesSeq + 1)
  if e.updatedAt < e.createdAt then .error (.sqlx (.check "check_entries_updated_at"))
  else if !db.hasUser e.userId then .error (.sqlx .foreignKey)
  else .ok (db.entriesSeq + 1, { db with
    entries := db.entries ++ [e]
    entriesSeq := db.entriesSeq + 1
    entriesFts := db.entriesFts.insert e.ftsDoc })

/-- UPDATE of the entries that match, then trigger `entries_au` for each of them if
the statement names a watched column. -/
def updateEntries (p : EntryRecord → Bool) (as : List Assign) (db : Db) : Except Error (Nat × Db) :=
  (updateWhere p (EntryRecord.update as) db.entries).map fun entries' =>
    ((db.entries.filter p).length, { db with
      entries := entries'
      entriesFts := if as.any Assign.indexed then
          ((db.entries.zip entries').filter fun c => p c.1).foldl
            (fun fts c => (fts.delete FtsDoc.rowid c.1.ftsDoc).insert c.2.ftsDoc) db.entriesFts
        else db.entriesFts })

/-- DELETE of entries, with trigger `entries_ad` and the cascade to `entry_tags`. -/
def deleteEntries (p : EntryRecord → Bool) (db : Db) : Db :=
  { db with
    entries := db.entries.filter fun e => !p e
    entryTags := db.entryTags.filter fun l => !db.entries.any fun e => p e && e.id == l.entryId
    entriesFts := (db.entries.filter p).foldl
      (fun fts e => fts.delete FtsDoc.rowid e.ftsDoc) db.entriesFts }

/-- One row of `INSERT INTO tags … ON CONFLICT DO NOTHING`: a conflict with either
unique constraint skips the row, its id is spent all the same. -/
def insertTag (userId : Int) (label slug : String) (db : Db) : Db :=
  if db.tags.any fun t => t.userId == userId && (t.label == label || t.slug == slug) then
    { db with tagsSeq := db.tagsSeq + 1 }
  else
    { db with
      tags := db.tags ++ [⟨db.tagsSeq + 1, userId, label, slug⟩]
      tagsSeq := db.tagsSeq + 1 }

/-- `INSERT INTO entry_tags … ON CONFLICT DO NOTHING`. -/
def insertEntryTags (links : List EntryTag) (db : Db) : Db :=
  { db with entryTags := addMissing links db.entryTags }

def deleteEntryTags (p : EntryTag → Bool) (db : Db) : Db :=
  { db with entryTags := db.entryTags.filter fun l => !p l }

/-- DELETE of tags, with the cascade to `entry_tags`. -/
def deleteTags (p : TagRow → Bool) (db : Db) : Db :=
  { db with
    tags := db.tags.filter fun t => !p t
    entryTags := db.entryTags.filter fun l => !db.tags.any fun t => p t && t.id == l.tagId }

def insertClient (row : Int → ClientRow) (db : Db) : Except Error (ClientRow × Db) :=
  let c := row (db.clientsSeq + 1)
  if db.clients.any fun d => d.userId == c.userId && d.clientId == c.clientId then
    .error (.sqlx .unique)
  else if !db.hasUser c.userId then .error (.sqlx .foreignKey)
  else .ok (c, { db with clients := db.clients ++ [c], clientsSeq := db.clientsSeq + 1 })

/-- DELETE of clients, with the cascade to `tokens`. -/
def deleteClients (p : ClientRow → Bool) (db : Db) : Db :=
  { db with
    clients := db.clients.filter fun c => !p c
    tokens := db.tokens.filter fun t => !db.clients.any fun c => p c && c.id == t.clientId }

def insertToken (row : Int → TokenRow) (db : Db) : Except Error (TokenRow × Db) :=
  let t := row (db.tokensSeq + 1)
  if !db.hasUser t.userId || !db.hasClient t.clientId then .error (.sqlx .foreignKey)
  else .ok (t, { db with tokens := db.tokens ++ [t], tokensSeq := db.tokensSeq + 1 })

def deleteTokens (p : TokenRow → Bool) (db : Db) : Db :=
  { db with tokens := db.tokens.filter fun t => !p t }

/-- DELETE of users, with the cascades to everything they own. -/
def deleteUsers (p : UserRow → Bool) (db : Db) : Db :=
  let gone (userId : Int) : Bool := db.users.any fun u => p u && u.id == userId
  let db := db.deleteEntries fun e => gone e.userId
  let db := db.deleteTags fun t => gone t.userId
  let db := db.deleteClients fun c => gone c.userId
  let db := db.deleteTokens fun t => gone t.userId
  { db with users := db.users.filter fun u => !p u }

end Db
end Articler
