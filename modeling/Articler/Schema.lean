import Articler.Lib.ContentIndex
import Articler.Types

/-! The tables after the last migration, with the constraints they declare. -/
namespace Articler
open Rows ContentIndex

structure UserRow where
  id : Int
  username : String
  email : String
  name : String
  passwordHash : String
  createdAt : Int
  updatedAt : Int
deriving DecidableEq, Repr

/-- A row of `entries`, with the nullability of its columns. -/
structure EntryRecord where
  id : Int
  userId : Int
  url : String
  hashedUrl : String
  givenUrl : String
  hashedGivenUrl : String
  title : String
  content : String
  contentText : String
  isArchived : Bool
  archivedAt : Option Int
  isStarred : Bool
  starredAt : Option Int
  createdAt : Int
  updatedAt : Int
  mimetype : Option String
  language : Option String
  readingTime : Int
  domainName : String
  previewPicture : Option String
  originUrl : Option String
  publishedAt : Option Int
  publishedBy : Option String
  isPublic : Option Bool
  uid : Option String
deriving DecidableEq, Repr

structure TagRow where
  id : Int
  userId : Int
  label : String
  slug : String
deriving DecidableEq, Repr

structure EntryTag where
  entryId : Int
  tagId : Int
deriving DecidableEq, Repr

structure ClientRow where
  id : Int
  name : String
  clientId : String
  clientSecret : String
  userId : Int
  createdAt : Int
deriving DecidableEq, Repr

structure TokenRow where
  id : Int
  token : String
  createdAt : Int
  expiresAt : Int
  userId : Int
  clientId : Int
deriving DecidableEq, Repr

structure FtsDoc where
  rowid : Int
  title : String
  contentText : String
deriving DecidableEq, Repr

def EntryRecord.ftsDoc (e : EntryRecord) : FtsDoc := ⟨e.id, e.title, e.contentText⟩

/-- The database; a `Seq` field is the table's row of `sqlite_sequence`. -/
structure Db where
  users : List UserRow := []
  usersSeq : Int := 0
  entries : List EntryRecord := []
  entriesSeq : Int := 0
  tags : List TagRow := []
  tagsSeq : Int := 0
  entryTags : List EntryTag := []
  clients : List ClientRow := []
  clientsSeq : Int := 0
  tokens : List TokenRow := []
  tokensSeq : Int := 0
  entriesFts : Index FtsDoc := {}
deriving DecidableEq, Repr

def Db.hasUser (db : Db) (userId : Int) : Bool := db.users.any fun u => u.id == userId

def Db.hasClient (db : Db) (clientId : Int) : Bool := db.clients.any fun c => c.id == clientId

theorem Db.hasUser_iff {db : Db} {userId : Int} :
    db.hasUser userId = true ↔ ∃ u ∈ db.users, u.id = userId := by
  simp [Db.hasUser]

theorem Db.hasClient_iff {db : Db} {clientId : Int} :
    db.hasClient clientId = true ↔ ∃ c ∈ db.clients, c.id = clientId := by
  simp [Db.hasClient]

/-- PRIMARY KEY with AUTOINCREMENT: unique ids, none above the sequence. -/
structure Keyed {α : Type} (id : α → Int) (seq : Int) (rows : List α) : Prop where
  pk : UniqueBy id rows
  seq : ∀ r ∈ rows, id r ≤ seq

/-- Every declared constraint holds of the stored rows. -/
structure Db.Valid (db : Db) : Prop where
  users : Keyed UserRow.id db.usersSeq db.users
  usernames : UniqueBy UserRow.username db.users
  entries : Keyed EntryRecord.id db.entriesSeq db.entries
  entriesUser : ∀ e ∈ db.entries, db.hasUser e.userId = true
  entriesUpdatedAt : ∀ e ∈ db.entries, e.createdAt ≤ e.updatedAt
  tags : Keyed TagRow.id db.tagsSeq db.tags
  tagsUser : ∀ t ∈ db.tags, db.hasUser t.userId = true
  tagLabels : UniqueBy (fun t => (t.userId, t.label)) db.tags
  tagSlugs : UniqueBy (fun t => (t.userId, t.slug)) db.tags
  entryTags : db.entryTags.Nodup
  entryTagsEntry : ∀ l ∈ db.entryTags, ∃ e ∈ db.entries, e.id = l.entryId
  entryTagsTag : ∀ l ∈ db.entryTags, ∃ t ∈ db.tags, t.id = l.tagId
  clients : Keyed ClientRow.id db.clientsSeq db.clients
  clientsUser : ∀ c ∈ db.clients, db.hasUser c.userId = true
  clientIds : UniqueBy (fun c => (c.userId, c.clientId)) db.clients
  tokens : Keyed TokenRow.id db.tokensSeq db.tokens
  tokensUser : ∀ t ∈ db.tokens, db.hasUser t.userId = true
  tokensClient : ∀ t ∈ db.tokens, db.hasClient t.clientId = true

/-- A database state: the constraints are part of what it is. -/
abbrev Database := { db : Db // db.Valid }

namespace Keyed
variable {α : Type} {id : α → Int} {seq : Int} {rows : List α}

theorem nil : Keyed id seq [] := ⟨UniqueBy.nil, by simp⟩

theorem filter (h : Keyed id seq rows) (p : α → Bool) : Keyed id seq (rows.filter p) :=
  ⟨h.pk.filter p, fun r hr => h.seq r (List.mem_filter.mp hr).1⟩

theorem concat (h : Keyed id seq rows) {a : α} (ha : id a = seq + 1) :
    Keyed id (seq + 1) (rows ++ [a]) := by
  refine ⟨h.pk.concat ?_, ?_⟩
  · intro b hb
    have := h.seq b hb
    omega
  · intro r hr
    rcases List.mem_append.mp hr with hr | hr
    · have := h.seq r hr
      omega
    · rw [List.mem_singleton.mp hr]
      omega

theorem mono (h : Keyed id seq rows) {seq' : Int} (hs : seq ≤ seq') : Keyed id seq' rows :=
  ⟨h.pk, fun r hr => (h.seq r hr).trans hs⟩

end Keyed

instance {α : Type} {id : α → Int} {seq : Int} {rows : List α} : Decidable (Keyed id seq rows) :=
  decidable_of_iff ((rows.map id).Nodup ∧ ∀ r ∈ rows, id r ≤ seq)
    ⟨fun ⟨h1, h2⟩ => ⟨h1, h2⟩, fun ⟨h1, h2⟩ => ⟨h1, h2⟩⟩

instance {α κ : Type} [DecidableEq κ] {key : α → κ} {rows : List α} :
    Decidable (UniqueBy key rows) := inferInstanceAs (Decidable (rows.map key).Nodup)

theorem Db.valid_empty : Db.Valid {} := by
  constructor <;> first | exact Keyed.nil | exact UniqueBy.nil | simp

instance (db : Db) : Decidable db.Valid :=
  decidable_of_iff
    ((Keyed UserRow.id db.usersSeq db.users ∧ UniqueBy UserRow.username db.users) ∧
      (Keyed EntryRecord.id db.entriesSeq db.entries ∧
        (∀ e ∈ db.entries, db.hasUser e.userId = true) ∧
        ∀ e ∈ db.entries, e.createdAt ≤ e.updatedAt) ∧
      (Keyed TagRow.id db.tagsSeq db.tags ∧ (∀ t ∈ db.tags, db.hasUser t.userId = true) ∧
        UniqueBy (fun t => (t.userId, t.label)) db.tags ∧
        UniqueBy (fun t => (t.userId, t.slug)) db.tags) ∧
      (db.entryTags.Nodup ∧ (∀ l ∈ db.entryTags, ∃ e ∈ db.entries, e.id = l.entryId) ∧
        ∀ l ∈ db.entryTags, ∃ t ∈ db.tags, t.id = l.tagId) ∧
      (Keyed ClientRow.id db.clientsSeq db.clients ∧
        (∀ c ∈ db.clients, db.hasUser c.userId = true) ∧
        UniqueBy (fun c => (c.userId, c.clientId)) db.clients) ∧
      Keyed TokenRow.id db.tokensSeq db.tokens ∧
        (∀ t ∈ db.tokens, db.hasUser t.userId = true) ∧
        ∀ t ∈ db.tokens, db.hasClient t.clientId = true)
    ⟨fun ⟨⟨h1, h2⟩, ⟨h3, h4, h5⟩, ⟨h6, h7, h8, h9⟩, ⟨h10, h11, h12⟩, ⟨h13, h14, h15⟩, h16, h17,
          h18⟩ =>
        ⟨h1, h2, h3, h4, h5, h6, h7, h8, h9, h10, h11, h12, h13, h14, h15, h16, h17, h18⟩,
      fun ⟨h1, h2, h3, h4, h5, h6, h7, h8, h9, h10, h11, h12, h13, h14, h15, h16, h17, h18⟩ =>
        ⟨⟨h1, h2⟩, ⟨h3, h4, h5⟩, ⟨h6, h7, h8, h9⟩, ⟨h10, h11, h12⟩, ⟨h13, h14, h15⟩, h16, h17, h18⟩⟩

/-- Two users; the first has two entries, of which one carries a tag. -/
def shelf : Database where
  val :=
    { users := [⟨1, "wallabag", "", "", "", 0, 0⟩, ⟨2, "other", "", "", "", 0, 0⟩]
      usersSeq := 2
      entries := [
        ⟨1, 1, "https://a.org/", "h1", "https://a.org/", "h1", "A", "a", "a", false, none, false,
          none, 10, 10, none, none, 1, "a.org", none, none, none, none, none, none⟩,
        ⟨2, 1, "https://b.org/", "h2", "https://b.org/", "h2", "B", "b", "b", true, some 30, false,
          none, 20, 30, none, none, 1, "b.org", none, none, none, none, none, none⟩]
      entriesSeq := 2
      tags := [⟨1, 1, "rust", "rust"⟩]
      tagsSeq := 1
      entryTags := [⟨1, 1⟩]
      entriesFts := { docs := [⟨1, "A", "a"⟩, ⟨2, "B", "b"⟩] } }
  property := by decide

end Articler
