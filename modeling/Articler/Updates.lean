import Articler.Repository.Entries

/-! What `update_by_id` makes of a row, column by column. -/
namespace Articler
open Txn Rows

/-- The row after a successful update. A column that is not null takes the value it is
given; a nullable one takes what it is set to, NULL included. -/
def UpdateEntry.updated (u : UpdateEntry) (e : EntryRecord) : EntryRecord :=
  { e with
    title := (u.title.join.getD ⟨e.title⟩).val
    content := (u.content.join.getD ⟨e.content⟩).val
    contentText := u.contentText.join.getD e.contentText
    isArchived := u.isArchived.join.getD e.isArchived
    archivedAt := u.archivedAt.getD e.archivedAt
    isStarred := u.isStarred.join.getD e.isStarred
    starredAt := u.starredAt.getD e.starredAt
    updatedAt := u.updatedAt
    language := u.language.getD e.language
    readingTime := u.readingTime.join.getD e.readingTime
    previewPicture := u.previewPicture.getD e.previewPicture
    originUrl := u.originUrl.getD e.originUrl
    publishedAt := u.publishedAt.getD e.publishedAt
    publishedBy := u.publishedBy.getD e.publishedBy
    isPublic := u.isPublic.getD e.isPublic
    uid := u.uid.getD e.uid }

/-- Does the assignment set a column to NULL that is NOT NULL? -/
def Assign.clears : Assign → Bool
  | .title v | .content v | .contentText v => v.isNone
  | .isArchived v | .isStarred v => v.isNone
  | .readingTime v => v.isNone
  | _ => false

structure UpdateEntry.NoNull (u : UpdateEntry) : Prop where
  title : u.title ≠ some none
  content : u.content ≠ some none
  contentText : u.contentText ≠ some none
  isArchived : u.isArchived ≠ some none
  isStarred : u.isStarred ≠ some none
  readingTime : u.readingTime ≠ some none

section clears
variable {α : Type}

theorem clears_notNull (mk : Option α → Assign) (h : ∀ v, (mk v).clears = v.isNone)
    (field : UpdateField α) :
    (∀ a ∈ (field.map mk).toList, a.clears = false) ↔ field ≠ some none := by
  rcases field with _ | _ | v <;> simp [h]

theorem clears_nullable (mk : Option α → Assign) (h : ∀ v, (mk v).clears = false)
    (field : UpdateField α) : (∀ a ∈ (field.map mk).toList, a.clears = false) ↔ True := by
  rcases field with _ | v <;> simp [h]

theorem UpdateEntry.noNull_iff {u : UpdateEntry} :
    u.NoNull ↔ ∀ a ∈ u.assignments, a.clears = false := by
  simp only [assignments, List.forall_mem_append, List.forall_mem_singleton,
    clears_notNull (fun v : Option Title => .title (v.map Title.val)) (fun v => by cases v <;> rfl),
    clears_notNull (fun v : Option SafeHtml => .content (v.map SafeHtml.val))
      (fun v => by cases v <;> rfl),
    clears_notNull .contentText (fun _ => rfl), clears_notNull .isArchived (fun _ => rfl),
    clears_nullable .archivedAt (fun _ => rfl),
    clears_notNull .isStarred (fun _ => rfl),
    clears_nullable .starredAt (fun _ => rfl),
    clears_nullable .language (fun _ => rfl),
    clears_notNull .readingTime (fun _ => rfl),
    clears_nullable .previewPicture (fun _ => rfl),
    clears_nullable .originUrl (fun _ => rfl),
    clears_nullable .publishedAt (fun _ => rfl),
    clears_nullable .publishedBy (fun _ => rfl),
    clears_nullable .isPublic (fun _ => rfl),
    clears_nullable .uid (fun _ => rfl), and_true]
  constructor
  · intro h
    exact ⟨⟨⟨⟨⟨⟨h.title, h.content⟩, h.contentText⟩, h.isArchived⟩, h.isStarred⟩, h.readingTime⟩, rfl⟩
  · rintro ⟨⟨⟨⟨⟨⟨title, content⟩, contentText⟩, isArchived⟩, isStarred⟩, readingTime⟩, -⟩
    exact ⟨title, content, contentText, isArchived, isStarred, readingTime⟩

end clears

namespace EntryRecord
variable {α : Type} {e e' : EntryRecord}

theorem assignAll_append {as bs : List Assign} (h : e.assignAll (as ++ bs) = .ok e') :
    ∃ d, e.assignAll as = .ok d ∧ d.assignAll bs = .ok e' := by
  induction as generalizing e with
  | nil => exact ⟨e, rfl, h⟩
  | cons a as ih =>
    rw [List.cons_append, assignAll] at h
    cases ha : a.apply e with
    | error x =>
      rw [ha] at h
      cases h
    | ok d =>
      rw [ha] at h
      obtain ⟨f, hf, hrest⟩ := ih h
      refine ⟨f, ?_, hrest⟩
      rw [assignAll, ha]
      exact hf

theorem assign_notNull {mk : Option α → Assign} {column : String} (get : EntryRecord → α)
    (set : EntryRecord → α → EntryRecord)
    (hmk : ∀ e v, (mk v).apply e = (notNull column v).map (set e)) (hset : ∀ e, set e (get e) = e)
    {u : UpdateField α} (h : e.assignAll (u.map mk).toList = .ok e') :
    e' = set e (u.join.getD (get e)) := by
  rcases u with _ | _ | v
  · cases h
    exact (hset e).symm
  · rw [Option.map_some, Option.toList_some, assignAll, hmk] at h
    cases h
  · rw [Option.map_some, Option.toList_some, assignAll, hmk] at h
    cases h
    rfl

theorem assign_nullable {mk : Option α → Assign} (get : EntryRecord → Option α)
    (set : EntryRecord → Option α → EntryRecord) (hmk : ∀ e v, (mk v).apply e = .ok (set e v))
    (hset : ∀ e, set e (get e) = e) {u : UpdateField α}
    (h : e.assignAll (u.map mk).toList = .ok e') : e' = set e (u.getD (get e)) := by
  cases u with
  | none =>
    cases h
    exact (hset e).symm
  | some v =>
    rw [Option.map_some, Option.toList_some, assignAll, hmk] at h
    cases h
    rfl

/-- The SET list of an update, column after column. -/
theorem assignAll_assignments {u : UpdateEntry} (h : e.assignAll u.assignments = .ok e') :
    e' = u.updated e := by
  obtain ⟨_, h, hlast⟩ := assignAll_append h
  obtain ⟨_, h, huid⟩ := assignAll_append h
  obtain ⟨_, h, hisPublic⟩ := assignAll_append h
  obtain ⟨_, h, hpublishedBy⟩ := assignAll_append h
  obtain ⟨_, h, hpublishedAt⟩ := assignAll_append h
  obtain ⟨_, h, horiginUrl⟩ := assignAll_append h
  obtain ⟨_, h, hpreviewPicture⟩ := assignAll_append h
  obtain ⟨_, h, hreadingTime⟩ := assignAll_append h
  obtain ⟨_, h, hlanguage⟩ := assignAll_append h
  obtain ⟨_, h, hstarredAt⟩ := assignAll_append h
  obtain ⟨_, h, hisStarred⟩ := assignAll_append h
  obtain ⟨_, h, harchivedAt⟩ := assignAll_append h
  obtain ⟨_, h, hisArchived⟩ := assignAll_append h
  obtain ⟨_, h, hcontentText⟩ := assignAll_append h
  obtain ⟨_, htitle, hcontent⟩ := assignAll_append h
  obtain rfl := assign_notNull (fun e => ⟨e.title⟩) (fun e v => { e with title := v.val })
    (fun _ v => by cases v <;> rfl) (fun _ => rfl) htitle
  obtain rfl := assign_notNull (fun e => ⟨e.content⟩) (fun e v => { e with content := v.val })
    (fun _ v => by cases v <;> rfl) (fun _ => rfl) hcontent
  obtain rfl := assign_notNull contentText (fun e v => { e with contentText := v })
    (fun _ _ => rfl) (fun _ => rfl) hcontentText
  obtain rfl := assign_notNull isArchived (fun e v => { e with isArchived := v })
    (fun _ _ => rfl) (fun _ => rfl) hisArchived
  obtain rfl := assign_nullable archivedAt (fun e v => { e with archivedAt := v })
    (fun _ _ => rfl) (fun _ => rfl) harchivedAt
  obtain rfl := assign_notNull isStarred (fun e v => { e with isStarred := v })
    (fun _ _ => rfl) (fun _ => rfl) hisStarred
  obtain rfl := assign_nullable starredAt (fun e v => { e with starredAt := v })
    (fun _ _ => rfl) (fun _ => rfl) hstarredAt
  obtain rfl := assign_nullable language (fun e v => { e with language := v })
    (fun _ _ => rfl) (fun _ => rfl) hlanguage
  obtain rfl := assign_notNull readingTime (fun e v => { e with readingTime := v })
    (fun _ _ => rfl) (fun _ => rfl) hreadingTime
  obtain rfl := assign_nullable previewPicture (fun e v => { e with previewPicture := v })
    (fun _ _ => rfl) (fun _ => rfl) hpreviewPicture
  obtain rfl := assign_nullable originUrl (fun e v => { e with originUrl := v })
    (fun _ _ => rfl) (fun _ => rfl) horiginUrl
  obtain rfl := assign_nullable publishedAt (fun e v => { e with publishedAt := v })
    (fun _ _ => rfl) (fun _ => rfl) hpublishedAt
  obtain rfl := assign_nullable publishedBy (fun e v => { e with publishedBy := v })
    (fun _ _ => rfl) (fun _ => rfl) hpublishedBy
  obtain rfl := assign_nullable isPublic (fun e v => { e with isPublic := v })
    (fun _ _ => rfl) (fun _ => rfl) hisPublic
  obtain rfl := assign_nullable uid (fun e v => { e with uid := v })
    (fun _ _ => rfl) (fun _ => rfl) huid
  cases hlast
  rfl

theorem update_assignments {u : UpdateEntry} (h : e.update u.assignments = .ok e') :
    e' = u.updated e ∧ e'.createdAt ≤ e'.updatedAt :=
  have hok := update_ok h
  ⟨assignAll_assignments hok.1, hok.2.2.2⟩

theorem apply_isOk {a : Assign} : (∃ e', a.apply e = .ok e') ↔ a.clears = false := by
  cases a with
  | title v | content v | contentText v | isArchived v | isStarred v | readingTime v =>
    cases v <;> simp [Assign.apply, Assign.clears, notNull, okOr, Except.map]
  | _ => simp [Assign.apply, Assign.clears]

theorem assignAll_isOk {as : List Assign} :
    (∃ e', e.assignAll as = .ok e') ↔ ∀ a ∈ as, a.clears = false := by
  induction as generalizing e with
  | nil => simp [assignAll]
  | cons a as ih =>
    rw [List.forall_mem_cons, ← apply_isOk (e := e), assignAll]
    cases a.apply e with
    | error x => simp [Except.bind]
    | ok d => simpa [Except.bind] using ih

/-- The update of a row succeeds if it sets no NULL where none may be, and its time is not
before the row's creation. -/
theorem update_isOk {u : UpdateEntry} :
    (∃ e', e.update u.assignments = .ok e') ↔ u.NoNull ∧ e.createdAt ≤ u.updatedAt := by
  rw [UpdateEntry.noNull_iff, ← assignAll_isOk (e := e), update]
  cases ha : e.assignAll u.assignments with
  | error x => simp [Except.bind]
  | ok d =>
    obtain rfl := assignAll_assignments ha
    by_cases h : e.createdAt ≤ u.updatedAt <;> simp [Except.bind, UpdateEntry.updated, h]

end EntryRecord

/-- An UPDATE by `update_by_id` rewrites the rows it matches and no others. -/
theorem Db.updateEntries_updated {s t : Db} {p : EntryRecord → Bool} {u : UpdateEntry} {n : Nat}
    (h : s.updateEntries p u.assignments = .ok (n, t)) :
    (∀ e ∈ s.entries, p e = true → e.createdAt ≤ u.updatedAt) ∧
      n = (s.entries.filter p).length ∧ ∃ fts, t = { s with
        entries := s.entries.map fun e => if p e then u.updated e else e
        entriesFts := fts } := by
  obtain ⟨entries', hall, hn, rfl⟩ := updateEntries_ok h
  have hrow (e e' : EntryRecord)
      (hr : (if p e then e.update u.assignments else .ok e) = .ok e') :
      (p e = true → e.createdAt ≤ u.updatedAt) ∧ e' = if p e then u.updated e else e := by
    split at hr
    · rename_i hp
      obtain ⟨rfl, hcheck⟩ := EntryRecord.update_assignments hr
      exact ⟨fun _ => hcheck, (if_pos hp).symm⟩
    · rename_i hp
      cases hr
      exact ⟨fun he => absurd he hp, (if_neg hp).symm⟩
  have hentries : entries' = s.entries.map fun e => if p e then u.updated e else e :=
    (List.forall₂_eq_eq_eq ▸ List.forall₂_map_left_iff.mpr
      (hall.imp fun e e' hr => (hrow e e' hr).2.symm) : _ = _).symm
  refine ⟨fun e he => ?_, hn, _, by rw [hentries]⟩
  obtain ⟨e', -, hr⟩ := exists_new hall he
  exact (hrow e e' hr).1

theorem Db.updateEntries_isOk {s : Db} {p : EntryRecord → Bool} {u : UpdateEntry} :
    (∃ r, s.updateEntries p u.assignments = .ok r) ↔
      ∀ e ∈ s.entries, p e = true → u.NoNull ∧ e.createdAt ≤ u.updatedAt := by
  simp only [← EntryRecord.update_isOk, ← updateWhere_isOk (p := p), updateEntries]
  cases updateWhere p (EntryRecord.update u.assignments) s.entries <;> simp [Except.map]

theorem Db.updateEntries_none {s : Db} {p : EntryRecord → Bool} {as : List Assign}
    (h : ∀ e ∈ s.entries, p e = false) : s.updateEntries p as = .ok (0, s) := by
  have hpairs : ((s.entries.zip s.entries).filter fun c => p c.1) = [] := by
    refine List.filter_eq_nil_iff.mpr fun c hc => ?_
    rw [h c.1 (List.of_mem_zip hc).1]
    exact Bool.false_ne_true
  have hrows : s.entries.filter p = [] :=
    List.filter_eq_nil_iff.mpr fun e he => by simp [h e he]
  simp [updateEntries, updateWhere_none h, hpairs, hrows, Except.map]

end Articler
