import Articler.Constraints

/-! `db::repository::tags`. -/
namespace Articler.Tags
open Txn Rows
variable {m : Type → Type} [Acquire Db Error m]

def sqliteLimitVariableNumber : Nat := 999

structure CreateTag where
  label : String
  slug : String
deriving DecidableEq, Repr

/-- `INSERT INTO tags … VALUES … ON CONFLICT DO NOTHING`, row after row. -/
def insertTags (userId : Int) (tags : List CreateTag) (db : Db) : Db :=
  tags.foldl (fun db tag => db.insertTag userId tag.label tag.slug) db

/-- The `entry_tags` rows that linking by label selects. -/
def labelLinks (userId entryId : Int) (labels : List String) (db : Db) : List EntryTag :=
  (db.entries.filter fun e => e.id == entryId && e.userId == userId).flatMap fun e =>
    (db.tags.filter fun t => t.userId == userId && labels.contains t.label).map
      fun t => ⟨e.id, t.id⟩

def createAndLink (userId entryId : Int) (tags : List CreateTag) : m (List TagRow) :=
  if tags.isEmpty then pure []
  else if sqliteLimitVariableNumber / 3 < tags.length then
    fail (.tooManySqliteHostParameters
      s!"Too many tags: {tags.length} exceeds limit of {sqliteLimitVariableNumber / 3}")
  else transaction do
    stmt fun db =>
      -- the foreign key fails the statement if it stored a row for a missing user
      if db.hasUser userId || (insertTags userId tags db).tags == db.tags then
        .ok ((), insertTags userId tags db)
      else .error (.sqlx .foreignKey)
    stmt fun db => .ok ((), db.insertEntryTags (labelLinks userId entryId (tags.map (·.label)) db))
    query fun db => .ok (db.tags.filter fun t =>
      t.userId == userId && (tags.map (·.label)).contains t.label)

/-- The links that `update_tags_by_entry_id` prunes. -/
def staleLink (userId entryId : Int) (labels : List String) (db : Db) (l : EntryTag) : Bool :=
  (db.entries.any fun e => e.id == entryId && e.userId == userId && e.id == l.entryId) &&
    !db.tags.any fun t => t.userId == userId && labels.contains t.label && t.id == l.tagId

def updateTagsByEntryId (userId entryId : Int) (tags : List CreateTag) : m (List TagRow) := do
  let resultTags ← createAndLink userId entryId tags
  stmt fun db =>
    .ok ((), db.deleteEntryTags (staleLink userId entryId (tags.map (·.label)) db))
  pure resultTags

def findByEntryId (userId entryId : Int) : m (List TagRow) :=
  query fun db => .ok ((db.tags.filter fun t => t.userId == userId).flatMap fun t =>
    (db.entryTags.filter fun l => l.entryId == entryId && l.tagId == t.id).map fun _ => t)

def getAll (userId : Int) : m (List TagRow) :=
  query fun db => .ok (db.tags.filter fun t => t.userId == userId)

/-- `DELETE FROM tags WHERE … RETURNING *`. -/
def deleteReturning (p : TagRow → Bool) : m (List TagRow) :=
  stmt fun db => .ok (db.tags.filter p, db.deleteTags p)

def deleteByLabel (userId : Int) (label : String) : m (Option TagRow) := do
  let rows ← deleteReturning fun t => t.userId == userId && t.label == label
  pure rows.head?

/-- The host parameters that SQLite takes in one statement. -/
def maxVariableNumber : Nat := 32766

def prepare (parameters : Nat) : Except Error Unit :=
  if maxVariableNumber < parameters then .error (.sqlx .tooManyVariables) else .ok ()

def deleteAllByLabel (userId : Int) (labels : List String) : m (List TagRow) := do
  -- the user and each label are bound
  ofExcept (prepare (labels.length + 1))
  deleteReturning fun t => t.userId == userId && labels.contains t.label

def deleteById (userId id : Int) : m (Option TagRow) := do
  let rows ← deleteReturning fun t => t.userId == userId && t.id == id
  pure rows.head?

section lemmas
variable {db : Db} {userId entryId : Int} {tags : List CreateTag} {labels : List String}

theorem insertTag_shape (db : Db) (userId : Int) (label slug : String) : ∃ new,
    db.insertTag userId label slug =
      { db with tags := db.tags ++ new, tagsSeq := db.tagsSeq + 1 } ∧
    ∀ t ∈ new, t.userId = userId ∧ t.label = label ∧ t.slug = slug := by
  unfold Db.insertTag
  split
  · exact ⟨[], by simp, by simp⟩
  · exact ⟨[⟨db.tagsSeq + 1, userId, label, slug⟩], rfl, by simp⟩

theorem insertTags_shape (db : Db) (userId : Int) (tags : List CreateTag) : ∃ new,
    insertTags userId tags db =
      { db with tags := db.tags ++ new, tagsSeq := db.tagsSeq + tags.length } ∧
    ∀ t ∈ new, t.userId = userId ∧ ⟨t.label, t.slug⟩ ∈ tags := by
  induction tags generalizing db with
  | nil => exact ⟨[], by simp [insertTags], by simp⟩
  | cons tag tags ih =>
    obtain ⟨first, hfirst, hmem⟩ := insertTag_shape db userId tag.label tag.slug
    obtain ⟨rest, hrest, hmems⟩ := ih (db.insertTag userId tag.label tag.slug)
    refine ⟨first ++ rest, ?_, ?_⟩
    · have hstep : insertTags userId (tag :: tags) db =
          insertTags userId tags (db.insertTag userId tag.label tag.slug) := rfl
      rw [hstep, hrest, hfirst]
      simp only [List.append_assoc, List.length_cons, Db.mk.injEq, true_and, and_true]
      omega
    · intro t ht
      rcases List.mem_append.mp ht with ht | ht
      · obtain ⟨h1, h2, h3⟩ := hmem t ht
        rw [h2, h3]
        exact ⟨h1, List.mem_cons_self⟩
      · exact ⟨(hmems t ht).1, List.mem_cons_of_mem _ (hmems t ht).2⟩

theorem insertTags_valid_of_user (h : db.Valid) (huser : db.hasUser userId = true) :
    (insertTags userId tags db).Valid := by
  induction tags generalizing db with
  | nil => exact h
  | cons tag tags ih =>
    refine ih (h.insertTag huser tag.label tag.slug) ?_
    obtain ⟨new, heq, -⟩ := insertTag_shape db userId tag.label tag.slug
    dsimp only
    rw [heq]
    exact huser

theorem insertTags_valid (h : db.Valid)
    (hguard : db.hasUser userId = true ∨ (insertTags userId tags db).tags = db.tags) :
    (insertTags userId tags db).Valid := by
  rcases hguard with huser | hsame
  · exact insertTags_valid_of_user h huser
  · obtain ⟨new, heq, -⟩ := insertTags_shape db userId tags
    rw [heq] at hsame ⊢
    have hnew : new = [] := by simpa using hsame
    subst hnew
    rw [List.append_nil]
    exact { h with tags := h.tags.mono (Int.le_add_of_nonneg_right (Int.natCast_nonneg _)) }

theorem mem_labelLinks {l : EntryTag} : l ∈ labelLinks userId entryId labels db ↔
    ∃ e ∈ db.entries, e.id = entryId ∧ e.userId = userId ∧
      ∃ t ∈ db.tags, t.userId = userId ∧ t.label ∈ labels ∧ l = ⟨e.id, t.id⟩ := by
  simp only [labelLinks, List.mem_flatMap, List.mem_filter, List.mem_map, Bool.and_eq_true,
    beq_iff_eq, List.contains_iff_mem]
  constructor
  · rintro ⟨e, ⟨he, hid, hu⟩, t, ⟨ht, htu, hl⟩, rfl⟩
    exact ⟨e, he, hid, hu, t, ht, htu, hl, rfl⟩
  · rintro ⟨e, he, hid, hu, t, ht, htu, hl, rfl⟩
    exact ⟨e, ⟨he, hid, hu⟩, t, ⟨ht, htu, hl⟩, rfl⟩

theorem labelLinks_nil (userId entryId : Int) (db : Db) : labelLinks userId entryId [] db = [] := by
  simp [labelLinks]

def afterLink (userId entryId : Int) (tags : List CreateTag) (db : Db) : Db :=
  let inserted := insertTags userId tags db
  inserted.insertEntryTags (labelLinks userId entryId (tags.map (·.label)) inserted)

theorem afterLink_entries (userId entryId : Int) (tags : List CreateTag) (db : Db) :
    (afterLink userId entryId tags db).entries = db.entries := by
  obtain ⟨new, heq, -⟩ := insertTags_shape db userId tags
  rw [afterLink, heq]
  rfl

theorem createAndLink_ok {s t : Db} {rows : List TagRow}
    (h : (createAndLink userId entryId tags : Run Db Error _) s = (.ok rows, t)) :
    (s.hasUser userId = true ∨ (insertTags userId tags s).tags = s.tags) ∧
      t = afterLink userId entryId tags s ∧
      rows = t.tags.filter
        fun r => r.userId == userId && (tags.map (·.label)).contains r.label := by
  unfold createAndLink at h
  split at h
  · rename_i hempty
    obtain rfl : tags = [] := List.isEmpty_iff.mp hempty
    cases h
    refine ⟨.inr rfl, ?_, by simp⟩
    simp [afterLink, insertTags, labelLinks_nil, Db.insertEntryTags, addMissing]
  split at h
  · cases h
  rw [transaction_ok_iff] at h
  obtain ⟨_, s1, h1, h⟩ := bind_ok_inv h
  obtain ⟨_, s2, h2, h3⟩ := bind_ok_inv h
  rw [stmt_ok_iff] at h1
  split at h1
  · rename_i hguard
    cases h1
    cases h2
    cases h3
    exact ⟨by simpa using hguard, rfl, rfl⟩
  · cases h1

theorem updateTagsByEntryId_length {s t : Db} {rows : List TagRow}
    (h : (updateTagsByEntryId userId entryId tags : Run Db Error _) s = (.ok rows, t)) :
    tags.length ≤ sqliteLimitVariableNumber / 3 := by
  obtain ⟨_, s1, h, -⟩ := bind_ok_inv h
  unfold createAndLink at h
  split at h
  · rename_i hempty
    rw [List.isEmpty_iff.mp hempty]
    exact Nat.zero_le _
  split at h
  · cases h
  · exact Nat.not_lt.mp ‹_›

def afterUpdate (userId entryId : Int) (tags : List CreateTag) (db : Db) : Db :=
  let linked := afterLink userId entryId tags db
  linked.deleteEntryTags (staleLink userId entryId (tags.map (·.label)) linked)

theorem afterUpdate_entries (userId entryId : Int) (tags : List CreateTag) (db : Db) :
    (afterUpdate userId entryId tags db).entries = db.entries := by
  rw [afterUpdate]
  exact afterLink_entries userId entryId tags db

theorem updateTagsByEntryId_ok {s t : Db} {rows : List TagRow}
    (h : (updateTagsByEntryId userId entryId tags : Run Db Error _) s = (.ok rows, t)) :
    (s.hasUser userId = true ∨ (insertTags userId tags s).tags = s.tags) ∧
      t = afterUpdate userId entryId tags s := by
  obtain ⟨_, s1, h1, h⟩ := bind_ok_inv h
  obtain ⟨hguard, rfl, -⟩ := createAndLink_ok h1
  obtain ⟨_, s2, h2, h3⟩ := bind_ok_inv h
  cases h2
  cases h3
  exact ⟨hguard, rfl⟩

theorem linkLabels_valid (h : db.Valid) :
    (db.insertEntryTags (labelLinks userId entryId labels db)).Valid := by
  refine h.insertEntryTags (fun l hl => ?_) fun l hl => ?_
  · obtain ⟨e, he, -, -, t, -, -, -, rfl⟩ := mem_labelLinks.mp hl
    exact ⟨e, he, rfl⟩
  · obtain ⟨e, -, -, -, t, ht, -, -, rfl⟩ := mem_labelLinks.mp hl
    exact ⟨t, ht, rfl⟩

end lemmas

end Articler.Tags
