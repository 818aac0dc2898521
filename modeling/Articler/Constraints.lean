import Articler.Statements

/-! Every statement keeps the declared constraints. -/
namespace Articler
open Rows ContentIndex

theorem Assign.apply_ok {e e' : EntryRecord} {a : Assign} (h : a.apply e = .ok e') :
    e'.id = e.id ∧ e'.userId = e.userId ∧ e'.createdAt = e.createdAt := by
  cases a <;> simp only [Assign.apply, notNull] at h
  case archivedAt | starredAt | language | previewPicture | originUrl | publishedAt |
      publishedBy | isPublic | uid | updatedAt =>
    cases h
    exact ⟨rfl, rfl, rfl⟩
  all_goals
    rename_i v
    cases v with
    | none => cases h
    | some v =>
      cases h
      exact ⟨rfl, rfl, rfl⟩

theorem EntryRecord.assignAll_ok {e e' : EntryRecord} {as : List Assign}
    (h : e.assignAll as = .ok e') :
    e'.id = e.id ∧ e'.userId = e.userId ∧ e'.createdAt = e.createdAt := by
  induction as generalizing e with
  | nil =>
    cases h
    exact ⟨rfl, rfl, rfl⟩
  | cons a as ih =>
    rw [assignAll] at h
    cases ha : a.apply e with
    | error x =>
      rw [ha] at h
      cases h
    | ok d =>
      rw [ha] at h
      obtain ⟨h1, h2, h3⟩ := Assign.apply_ok ha
      obtain ⟨h4, h5, h6⟩ := ih h
      exact ⟨h4.trans h1, h5.trans h2, h6.trans h3⟩

theorem EntryRecord.update_ok {e e' : EntryRecord} {as : List Assign}
    (h : e.update as = .ok e') :
    e.assignAll as = .ok e' ∧ e'.id = e.id ∧ e'.userId = e.userId ∧
      e'.createdAt ≤ e'.updatedAt := by
  rw [update] at h
  cases ha : e.assignAll as with
  | error x =>
    rw [ha] at h
    cases h
  | ok d =>
    rw [ha] at h
    simp only [Except.bind] at h
    split at h
    · cases h
      obtain ⟨h1, h2, -⟩ := assignAll_ok ha
      exact ⟨rfl, h1, h2, ‹_›⟩
    · cases h

namespace Db
variable {db db' : Db}

theorem insertUser_ok {row : Int → UserRow} {u : UserRow} (h : db.insertUser row = .ok (u, db')) :
    u = row (db.usersSeq + 1) ∧ (∀ v ∈ db.users, v.username ≠ u.username) ∧
      db' = { db with users := db.users ++ [u], usersSeq := db.usersSeq + 1 } := by
  unfold insertUser at h
  simp only at h
  split at h
  · cases h
  split at h
  · cases h
  rename_i hname
  cases h
  exact ⟨rfl, by simpa using hname, rfl⟩

theorem insertEntry_ok {row : Int → EntryRecord} {id : Int}
    (h : db.insertEntry row = .ok (id, db')) :
    id = db.entriesSeq + 1 ∧ (row id).createdAt ≤ (row id).updatedAt ∧
      db.hasUser (row id).userId = true ∧
      db' = { db with
        entries := db.entries ++ [row id]
        entriesSeq := db.entriesSeq + 1
        entriesFts := db.entriesFts.insert (row id).ftsDoc } := by
  unfold insertEntry at h
  simp only at h
  split at h
  · cases h
  rename_i hcheck
  split at h
  · cases h
  rename_i huser
  cases h
  exact ⟨rfl, by omega, by simpa using huser, rfl⟩

theorem insertClient_ok {row : Int → ClientRow} {c : ClientRow}
    (h : db.insertClient row = .ok (c, db')) :
    c = row (db.clientsSeq + 1) ∧
      (∀ d ∈ db.clients, d.userId = c.userId → d.clientId ≠ c.clientId) ∧
      db.hasUser c.userId = true ∧
      db' = { db with clients := db.clients ++ [c], clientsSeq := db.clientsSeq + 1 } := by
  unfold insertClient at h
  simp only at h
  split at h
  · cases h
  rename_i hfree
  split at h
  · cases h
  rename_i huser
  cases h
  exact ⟨rfl, by simpa using hfree, by simpa using huser, rfl⟩

theorem insertToken_ok {row : Int → TokenRow} {t : TokenRow}
    (h : db.insertToken row = .ok (t, db')) :
    t = row (db.tokensSeq + 1) ∧ db.hasUser t.userId = true ∧ db.hasClient t.clientId = true ∧
      db' = { db with tokens := db.tokens ++ [t], tokensSeq := db.tokensSeq + 1 } := by
  unfold insertToken at h
  simp only at h
  split at h
  · cases h
  rename_i hparents
  simp only [Bool.or_eq_true, Bool.not_eq_true', not_or, Bool.not_eq_false] at hparents
  cases h
  exact ⟨rfl, hparents.1, hparents.2, rfl⟩

theorem updateEntries_ok {p : EntryRecord → Bool} {as : List Assign} {n : Nat}
    (h : db.updateEntries p as = .ok (n, db')) :
    ∃ entries', List.Forall₂ (fun e e' => (if p e then e.update as else .ok e) = .ok e')
        db.entries entries' ∧ n = (db.entries.filter p).length ∧
      db' = { db with
        entries := entries'
        entriesFts := if as.any Assign.indexed then
            ((db.entries.zip entries').filter fun c => p c.1).foldl
              (fun fts c => (fts.delete FtsDoc.rowid c.1.ftsDoc).insert c.2.ftsDoc) db.entriesFts
          else db.entriesFts } := by
  rw [updateEntries] at h
  cases hu : updateWhere p (EntryRecord.update as) db.entries with
  | error e =>
    rw [hu] at h
    cases h
  | ok entries' =>
    rw [hu] at h
    cases h
    exact ⟨entries', updateWhere_ok hu, rfl, rfl⟩

theorem update_step {p : EntryRecord → Bool} {as : List Assign} {e e' : EntryRecord}
    (h : (if p e then e.update as else .ok e) = .ok e') :
    e'.id = e.id ∧ e'.userId = e.userId ∧
      (e.createdAt ≤ e.updatedAt → e'.createdAt ≤ e'.updatedAt) := by
  split at h
  · obtain ⟨-, h1, h2, h3⟩ := EntryRecord.update_ok h
    exact ⟨h1, h2, fun _ => h3⟩
  · cases h
    exact ⟨rfl, rfl, fun h => h⟩

theorem updateEntries_keeps {p : EntryRecord → Bool} {as : List Assign} {n : Nat}
    (h : db.updateEntries p as = .ok (n, db')) {e : EntryRecord} (he : e ∈ db.entries) :
    ∃ e' ∈ db'.entries, e'.id = e.id ∧ e'.userId = e.userId := by
  obtain ⟨entries', hall, -, rfl⟩ := updateEntries_ok h
  have hkeys : entries'.map (fun e => (e.id, e.userId)) =
      db.entries.map fun e => (e.id, e.userId) := by
    refine map_eq_of_forall₂ (fun e e' hr => ?_) hall
    obtain ⟨h1, h2, -⟩ := update_step hr
    rw [h1, h2]
  have hm : (e.id, e.userId) ∈ entries'.map fun e => (e.id, e.userId) :=
    hkeys ▸ List.mem_map_of_mem he
  obtain ⟨e', he', hkey⟩ := List.mem_map.mp hm
  exact ⟨e', he', Prod.mk.inj hkey⟩

theorem updateEntries_frame {p : EntryRecord → Bool} {as : List Assign} {n : Nat}
    (h : db.updateEntries p as = .ok (n, db')) :
    db'.users = db.users ∧ db'.tags = db.tags ∧ db'.entryTags = db.entryTags := by
  obtain ⟨entries', -, -, rfl⟩ := updateEntries_ok h
  exact ⟨rfl, rfl, rfl⟩

end Db

namespace Db.Valid
variable {db db' : Db}

theorem insertUser (h : db.Valid) {row : Int → UserRow} {u : UserRow}
    (hid : ∀ i, (row i).id = i) (hi : db.insertUser row = .ok (u, db')) : db'.Valid := by
  obtain ⟨rfl, hname, rfl⟩ := Db.insertUser_ok hi
  have hmore (i : Int) (hu : db.hasUser i = true) : Db.hasUser { db with
      users := db.users ++ [row (db.usersSeq + 1)], usersSeq := db.usersSeq + 1 } i = true := by
    simp only [Db.hasUser, List.any_append, Bool.or_eq_true] at hu ⊢
    exact .inl hu
  exact { h with
    users := h.users.concat (hid _)
    usernames := h.usernames.concat hname
    entriesUser := fun e he => hmore _ (h.entriesUser e he)
    tagsUser := fun t ht => hmore _ (h.tagsUser t ht)
    clientsUser := fun c hc => hmore _ (h.clientsUser c hc)
    tokensUser := fun t ht => hmore _ (h.tokensUser t ht) }

theorem insertEntry (h : db.Valid) {row : Int → EntryRecord} {id : Int}
    (hid : ∀ i, (row i).id = i) (hi : db.insertEntry row = .ok (id, db')) : db'.Valid := by
  obtain ⟨rfl, hcheck, huser, rfl⟩ := Db.insertEntry_ok hi
  refine { h with
    entries := h.entries.concat (hid _)
    entriesUser := ?_
    entriesUpdatedAt := ?_
    entryTagsEntry := ?_ }
  · intro e he
    rcases List.mem_append.mp he with he | he
    · exact h.entriesUser e he
    · rw [List.mem_singleton.mp he]
      exact huser
  · intro e he
    rcases List.mem_append.mp he with he | he
    · exact h.entriesUpdatedAt e he
    · rw [List.mem_singleton.mp he]
      exact hcheck
  · intro l hl
    obtain ⟨e, he, hel⟩ := h.entryTagsEntry l hl
    exact ⟨e, List.mem_append_left _ he, hel⟩

theorem updateEntries (h : db.Valid) {p : EntryRecord → Bool} {as : List Assign} {n : Nat}
    (hu : db.updateEntries p as = .ok (n, db')) : db'.Valid := by
  obtain ⟨entries', hall, -, rfl⟩ := Db.updateEntries_ok hu
  have hids : entries'.map EntryRecord.id = db.entries.map EntryRecord.id :=
    map_eq_of_forall₂ (g := EntryRecord.id) (fun _ _ hr => (Db.update_step hr).1) hall
  have hback : ∀ e' ∈ entries', ∃ e ∈ db.entries, e'.id = e.id ∧ e'.userId = e.userId ∧
      e'.createdAt ≤ e'.updatedAt := by
    intro e' he'
    obtain ⟨e, he, hr⟩ := exists_old hall he'
    obtain ⟨h1, h2, h3⟩ := Db.update_step hr
    exact ⟨e, he, h1, h2, h3 (h.entriesUpdatedAt e he)⟩
  refine { h with entries := ⟨?_, ?_⟩, entriesUser := ?_, entriesUpdatedAt := ?_,
                  entryTagsEntry := ?_ }
  · rw [UniqueBy, hids]
    exact h.entries.pk
  · intro e' he'
    obtain ⟨e, he, hid, -⟩ := hback e' he'
    rw [hid]
    exact h.entries.seq e he
  · intro e' he'
    obtain ⟨e, he, -, huser, -⟩ := hback e' he'
    rw [huser]
    exact h.entriesUser e he
  · intro e' he'
    obtain ⟨e, he, -, -, hcheck⟩ := hback e' he'
    exact hcheck
  · intro l hl
    obtain ⟨e, he, hel⟩ := h.entryTagsEntry l hl
    obtain ⟨e', he', hid, -⟩ := Db.updateEntries_keeps hu he
    exact ⟨e', he', hid.trans hel⟩

theorem deleteEntries (h : db.Valid) (p : EntryRecord → Bool) : (db.deleteEntries p).Valid := by
  refine { h with
    entries := h.entries.filter _
    entriesUser := fun e he => h.entriesUser e (List.mem_filter.mp he).1
    entriesUpdatedAt := fun e he => h.entriesUpdatedAt e (List.mem_filter.mp he).1
    entryTags := h.entryTags.filter _
    entryTagsEntry := ?_
    entryTagsTag := fun l hl => h.entryTagsTag l (List.mem_filter.mp hl).1 }
  intro l hl
  obtain ⟨hl, hkept⟩ := List.mem_filter.mp hl
  obtain ⟨e, he, hel⟩ := h.entryTagsEntry l hl
  refine ⟨e, List.mem_filter.mpr ⟨he, ?_⟩, hel⟩
  have hall : ∀ d ∈ db.entries, p d = true → d.id ≠ l.entryId := by simpa using hkept
  simpa using fun hp => hall e he hp hel

theorem insertTag (h : db.Valid) {userId : Int} (hu : db.hasUser userId = true)
    (label slug : String) : (db.insertTag userId label slug).Valid := by
  unfold Db.insertTag
  split
  · exact { h with tags := h.tags.mono (Int.le_add_one le_rfl) }
  · rename_i hfree
    have hnone : ∀ t ∈ db.tags, t.userId = userId → t.label ≠ label ∧ t.slug ≠ slug := by
      simpa using hfree
    refine { h with
      tags := h.tags.concat rfl
      tagsUser := ?_
      tagLabels := h.tagLabels.concat ?_
      tagSlugs := h.tagSlugs.concat ?_
      entryTagsTag := ?_ }
    · intro t ht
      rcases List.mem_append.mp ht with ht | ht
      · exact h.tagsUser t ht
      · rw [List.mem_singleton.mp ht]
        exact hu
    · intro t ht he
      simp only [Prod.mk.injEq] at he
      exact (hnone t ht he.1).1 he.2
    · intro t ht he
      simp only [Prod.mk.injEq] at he
      exact (hnone t ht he.1).2 he.2
    · intro l hl
      obtain ⟨t, ht, hid⟩ := h.entryTagsTag l hl
      exact ⟨t, List.mem_append_left _ ht, hid⟩

theorem deleteTags (h : db.Valid) (p : TagRow → Bool) : (db.deleteTags p).Valid := by
  refine { h with
    tags := h.tags.filter _
    tagsUser := fun t ht => h.tagsUser t (List.mem_filter.mp ht).1
    tagLabels := h.tagLabels.filter _
    tagSlugs := h.tagSlugs.filter _
    entryTags := h.entryTags.filter _
    entryTagsEntry := fun l hl => h.entryTagsEntry l (List.mem_filter.mp hl).1
    entryTagsTag := ?_ }
  intro l hl
  obtain ⟨hl, hkept⟩ := List.mem_filter.mp hl
  obtain ⟨t, ht, htl⟩ := h.entryTagsTag l hl
  refine ⟨t, List.mem_filter.mpr ⟨ht, ?_⟩, htl⟩
  have hall : ∀ s ∈ db.tags, p s = true → s.id ≠ l.tagId := by simpa using hkept
  simpa using fun hp => hall t ht hp htl

theorem deleteEntryTags (h : db.Valid) (p : EntryTag → Bool) : (db.deleteEntryTags p).Valid :=
  { h with
    entryTags := h.entryTags.filter _
    entryTagsEntry := fun l hl => h.entryTagsEntry l (List.mem_filter.mp hl).1
    entryTagsTag := fun l hl => h.entryTagsTag l (List.mem_filter.mp hl).1 }

theorem insertClient (h : db.Valid) {row : Int → ClientRow} {c : ClientRow}
    (hid : ∀ i, (row i).id = i) (hi : db.insertClient row = .ok (c, db')) : db'.Valid := by
  obtain ⟨rfl, hnone, hu, rfl⟩ := Db.insertClient_ok hi
  refine { h with
    clients := h.clients.concat (hid _)
    clientsUser := ?_
    clientIds := h.clientIds.concat ?_
    tokensClient := ?_ }
  · intro d hd
    rcases List.mem_append.mp hd with hd | hd
    · exact h.clientsUser d hd
    · rw [List.mem_singleton.mp hd]
      exact hu
  · intro d hd he
    simp only [Prod.mk.injEq] at he
    exact hnone d hd he.1 he.2
  · intro t ht
    have hc := h.tokensClient t ht
    simp only [Db.hasClient, List.any_append, Bool.or_eq_true] at hc ⊢
    exact .inl hc

theorem deleteClients (h : db.Valid) (p : ClientRow → Bool) : (db.deleteClients p).Valid := by
  refine { h with
    clients := h.clients.filter _
    clientsUser := fun c hc => h.clientsUser c (List.mem_filter.mp hc).1
    clientIds := h.clientIds.filter _
    tokens := h.tokens.filter _
    tokensUser := fun t ht => h.tokensUser t (List.mem_filter.mp ht).1
    tokensClient := ?_ }
  intro t ht
  obtain ⟨ht, hkept⟩ := List.mem_filter.mp ht
  obtain ⟨c, hc, hid⟩ := Db.hasClient_iff.mp (h.tokensClient t ht)
  have hall : ∀ d ∈ db.clients, p d = true → d.id ≠ t.clientId := by simpa using hkept
  refine Db.hasClient_iff.mpr ⟨c, List.mem_filter.mpr ⟨hc, ?_⟩, hid⟩
  simpa using fun hp => hall c hc hp hid

theorem insertToken (h : db.Valid) {row : Int → TokenRow} {t : TokenRow}
    (hid : ∀ i, (row i).id = i) (hi : db.insertToken row = .ok (t, db')) : db'.Valid := by
  obtain ⟨rfl, huser, hclient, rfl⟩ := Db.insertToken_ok hi
  refine { h with tokens := h.tokens.concat (hid _), tokensUser := ?_, tokensClient := ?_ }
  · intro s hs
    rcases List.mem_append.mp hs with hs | hs
    · exact h.tokensUser s hs
    · rw [List.mem_singleton.mp hs]
      exact huser
  · intro s hs
    rcases List.mem_append.mp hs with hs | hs
    · exact h.tokensClient s hs
    · rw [List.mem_singleton.mp hs]
      exact hclient

theorem deleteTokens (h : db.Valid) (p : TokenRow → Bool) : (db.deleteTokens p).Valid :=
  { h with
    tokens := h.tokens.filter _
    tokensUser := fun t ht => h.tokensUser t (List.mem_filter.mp ht).1
    tokensClient := fun t ht => h.tokensClient t (List.mem_filter.mp ht).1 }

theorem insertEntryTags (h : db.Valid) {links : List EntryTag}
    (he : ∀ l ∈ links, ∃ e ∈ db.entries, e.id = l.entryId)
    (ht : ∀ l ∈ links, ∃ t ∈ db.tags, t.id = l.tagId) : (db.insertEntryTags links).Valid := by
  refine { h with
    entryTags := addMissing_nodup h.entryTags, entryTagsEntry := ?_, entryTagsTag := ?_ }
  · intro l hl
    rcases mem_addMissing.mp hl with hl | hl
    · exact h.entryTagsEntry l hl
    · exact he l hl
  · intro l hl
    rcases mem_addMissing.mp hl with hl | hl
    · exact h.entryTagsTag l hl
    · exact ht l hl

/-- Dropping user rows is safe once nothing refers to them. -/
theorem dropUsers (h : db.Valid) {p : UserRow → Bool}
    (he : ∀ e ∈ db.entries, ∀ u ∈ db.users, p u = true → u.id ≠ e.userId)
    (ht : ∀ t ∈ db.tags, ∀ u ∈ db.users, p u = true → u.id ≠ t.userId)
    (hc : ∀ c ∈ db.clients, ∀ u ∈ db.users, p u = true → u.id ≠ c.userId)
    (hk : ∀ t ∈ db.tokens, ∀ u ∈ db.users, p u = true → u.id ≠ t.userId) :
    Db.Valid { db with users := db.users.filter fun u => !p u } := by
  have hstays {i : Int} (hi : db.hasUser i = true)
      (hp : ∀ u ∈ db.users, p u = true → u.id ≠ i) :
      Db.hasUser { db with users := db.users.filter fun u => !p u } i = true := by
    obtain ⟨u, hu, hid⟩ := Db.hasUser_iff.mp hi
    refine Db.hasUser_iff.mpr ⟨u, List.mem_filter.mpr ⟨hu, ?_⟩, hid⟩
    simpa using fun h => hp u hu h hid
  exact { h with
    users := h.users.filter _
    usernames := h.usernames.filter _
    entriesUser := fun e hm => hstays (h.entriesUser e hm) (he e hm)
    tagsUser := fun t hm => hstays (h.tagsUser t hm) (ht t hm)
    clientsUser := fun c hm => hstays (h.clientsUser c hm) (hc c hm)
    tokensUser := fun t hm => hstays (h.tokensUser t hm) (hk t hm) }

theorem deleteUsers (h : db.Valid) (p : UserRow → Bool) : (db.deleteUsers p).Valid := by
  have hkept {i : Int} (hi : (!db.users.any fun u => p u && u.id == i) = true) :
      ∀ u ∈ db.users, p u = true → u.id ≠ i := by simpa using hi
  refine dropUsers ((((h.deleteEntries _).deleteTags _).deleteClients _).deleteTokens _) ?_ ?_ ?_ ?_
  · exact fun e hm => hkept (List.mem_filter.mp hm).2
  · exact fun t hm => hkept (List.mem_filter.mp hm).2
  · exact fun c hm => hkept (List.mem_filter.mp hm).2
  · exact fun t hm => hkept (List.mem_filter.mp hm).2

end Db.Valid
end Articler
