import Articler.Authority
import Articler.Lib.Lineage
import Articler.ReadBack

/-! What an id stands for: AUTOINCREMENT gives none of them twice, and no statement turns a row
into another user's or another article's. -/
namespace Articler
open Txn Lineage

/-- What no statement changes about an entry. -/
structure Article where
  userId : Int
  url : String
  hashedUrl : String
  givenUrl : String
  hashedGivenUrl : String
  mimetype : Option String
  domainName : String
  createdAt : Int
deriving DecidableEq, Repr

def EntryRecord.article (e : EntryRecord) : Article := { e with }

def EntryRecord.SameArticle (e e' : EntryRecord) : Prop := e.article = e'.article

theorem EntryRecord.SameArticle.refl (e : EntryRecord) : SameArticle e e := Eq.refl e.article

/-- Every table descends: articles stay the articles they were, and all other rows stay as
they are, until they are deleted for good. -/
structure Lasting (s t : Db) : Prop where
  users : Descends UserRow.id Eq ⟨s.users, s.usersSeq⟩ ⟨t.users, t.usersSeq⟩
  entries : Descends EntryRecord.id EntryRecord.SameArticle ⟨s.entries, s.entriesSeq⟩
    ⟨t.entries, t.entriesSeq⟩
  tags : Descends TagRow.id Eq ⟨s.tags, s.tagsSeq⟩ ⟨t.tags, t.tagsSeq⟩
  clients : Descends ClientRow.id Eq ⟨s.clients, s.clientsSeq⟩ ⟨t.clients, t.clientsSeq⟩
  tokens : Descends TokenRow.id Eq ⟨s.tokens, s.tokensSeq⟩ ⟨t.tokens, t.tokensSeq⟩

section articles
variable {e e' : EntryRecord}

theorem Assign.apply_article {a : Assign} (h : a.apply e = .ok e') : e.article = e'.article := by
  cases a <;> simp only [Assign.apply, notNull] at h
  case archivedAt | starredAt | language | previewPicture | originUrl | publishedAt |
      publishedBy | isPublic | uid | updatedAt =>
    cases h
    rfl
  all_goals
    rename_i v
    cases v with
    | none => cases h
    | some v =>
      cases h
      rfl

theorem EntryRecord.assignAll_article {as : List Assign} (h : e.assignAll as = .ok e') :
    e.article = e'.article := by
  induction as generalizing e with
  | nil =>
    cases h
    rfl
  | cons a as ih =>
    rw [assignAll] at h
    cases ha : a.apply e with
    | error x =>
      rw [ha] at h
      cases h
    | ok d =>
      rw [ha] at h
      exact (Assign.apply_article ha).trans (ih h)

theorem EntryRecord.SameArticle.of_update {p : EntryRecord → Bool} {as : List Assign}
    (h : (if p e then e.update as else .ok e) = .ok e') : SameArticle e e' := by
  split at h
  · exact assignAll_article (update_ok h).1
  · cases h
    rfl

end articles

section writes
variable {k : Statement} {s t u : Db}

theorem insertTags_descend (userId : Int) (tags : List Tags.CreateTag) (s : Db) :
    Descends TagRow.id Eq ⟨s.tags, s.tagsSeq⟩
      ⟨(Tags.insertTags userId tags s).tags, (Tags.insertTags userId tags s).tagsSeq⟩ := by
  induction tags generalizing s with
  | nil => exact .refl (fun _ => rfl) _
  | cons tag tags ih =>
    refine .trans (fun _ _ _ => .trans) ?_ (ih (s.insertTag userId tag.label tag.slug))
    unfold Db.insertTag
    split
    · exact .shrink (fun _ => rfl) (by simp) (List.Subset.refl _)
    · refine .grow (fun _ => rfl) (by simp) rfl fun r hr => ?_
      rw [List.mem_singleton.mp hr]
      exact Int.lt_succ _

theorem Write.users_descend (hw : Write k s t) :
    Descends UserRow.id Eq ⟨s.users, s.usersSeq⟩ ⟨t.users, t.usersSeq⟩ := by
  by_cases hk : DbTable.users ∈ k.changes
  · cases hw with
    | insertUser hid h =>
      obtain ⟨rfl, -, rfl⟩ := Db.insertUser_ok h
      refine .grow (fun _ => rfl) (by simp) rfl fun r hr => ?_
      rw [List.mem_singleton.mp hr, hid]
      exact Int.lt_succ _
    | deleteUsers p => exact .shrink (fun _ => rfl) le_rfl List.filter_sublist.subset
    | _ => simp [Statement.changes] at hk
  · obtain ⟨hrows, hseq⟩ := hw.frame hk
    rw [hrows, hseq]
    exact .refl (fun _ => rfl) _

theorem Write.entries_descend (hw : Write k s t) : Descends EntryRecord.id EntryRecord.SameArticle
    ⟨s.entries, s.entriesSeq⟩ ⟨t.entries, t.entriesSeq⟩ := by
  by_cases hk : DbTable.entries ∈ k.changes
  · cases hw with
    | insertEntry hid h =>
      obtain ⟨rfl, -, -, rfl⟩ := Db.insertEntry_ok h
      refine .grow EntryRecord.SameArticle.refl (by simp) rfl fun r hr => ?_
      rw [List.mem_singleton.mp hr, hid]
      exact Int.lt_succ _
    | updateEntries h =>
      obtain ⟨entries', hall, -, rfl⟩ := Db.updateEntries_ok h
      exact .change le_rfl (hall.imp fun e e' hr => ⟨(Db.update_step hr).1.symm, .of_update hr⟩)
    | deleteEntries p | deleteUsers p => exact .shrink EntryRecord.SameArticle.refl le_rfl List.filter_sublist.subset
    | _ => simp [Statement.changes] at hk
  · obtain ⟨hrows, hseq, -⟩ := hw.frame hk
    rw [hrows, hseq]
    exact .refl EntryRecord.SameArticle.refl _

theorem Write.tags_descend (hw : Write k s t) :
    Descends TagRow.id Eq ⟨s.tags, s.tagsSeq⟩ ⟨t.tags, t.tagsSeq⟩ := by
  by_cases hk : DbTable.tags ∈ k.changes
  · cases hw with
    | insertTags _ userId tags => exact insertTags_descend userId tags s
    | deleteTags p | deleteUsers p => exact .shrink (fun _ => rfl) le_rfl List.filter_sublist.subset
    | _ => simp [Statement.changes] at hk
  · obtain ⟨hrows, hseq⟩ := hw.frame hk
    rw [hrows, hseq]
    exact .refl (fun _ => rfl) _

theorem Write.clients_descend (hw : Write k s t) :
    Descends ClientRow.id Eq ⟨s.clients, s.clientsSeq⟩ ⟨t.clients, t.clientsSeq⟩ := by
  by_cases hk : DbTable.clients ∈ k.changes
  · cases hw with
    | insertClient hid h =>
      obtain ⟨rfl, -, -, rfl⟩ := Db.insertClient_ok h
      refine .grow (fun _ => rfl) (by simp) rfl fun r hr => ?_
      rw [List.mem_singleton.mp hr, hid]
      exact Int.lt_succ _
    | deleteClients p | deleteUsers p => exact .shrink (fun _ => rfl) le_rfl List.filter_sublist.subset
    | _ => simp [Statement.changes] at hk
  · obtain ⟨hrows, hseq⟩ := hw.frame hk
    rw [hrows, hseq]
    exact .refl (fun _ => rfl) _

theorem Write.tokens_descend (hw : Write k s t) :
    Descends TokenRow.id Eq ⟨s.tokens, s.tokensSeq⟩ ⟨t.tokens, t.tokensSeq⟩ := by
  by_cases hk : DbTable.tokens ∈ k.changes
  · cases hw with
    | insertToken hid h =>
      obtain ⟨rfl, -, -, rfl⟩ := Db.insertToken_ok h
      refine .grow (fun _ => rfl) (by simp) rfl fun r hr => ?_
      rw [List.mem_singleton.mp hr, hid]
      exact Int.lt_succ _
    | deleteTokens p | deleteClients p => exact .shrink (fun _ => rfl) le_rfl List.filter_sublist.subset
    | deleteUsers p =>
      exact .shrink (fun _ => rfl) le_rfl fun r hr =>
        List.filter_sublist.subset (List.filter_sublist.subset hr)
    | _ => simp [Statement.changes] at hk
  · obtain ⟨hrows, hseq⟩ := hw.frame hk
    rw [hrows, hseq]
    exact .refl (fun _ => rfl) _

theorem Lasting.refl (s : Db) : Lasting s s where
  users := .refl (fun _ => rfl) _
  entries := .refl EntryRecord.SameArticle.refl _
  tags := .refl (fun _ => rfl) _
  clients := .refl (fun _ => rfl) _
  tokens := .refl (fun _ => rfl) _

theorem Lasting.trans (h : Lasting s t) (h' : Lasting t u) : Lasting s u where
  users := h.users.trans (fun _ _ _ => .trans) h'.users
  entries := h.entries.trans (fun _ _ _ => .trans) h'.entries
  tags := h.tags.trans (fun _ _ _ => .trans) h'.tags
  clients := h.clients.trans (fun _ _ _ => .trans) h'.clients
  tokens := h.tokens.trans (fun _ _ _ => .trans) h'.tokens

theorem Write.lasting (hw : Write k s t) : Lasting s t :=
  ⟨hw.users_descend, hw.entries_descend, hw.tags_descend, hw.clients_descend, hw.tokens_descend⟩

theorem Later.lasting (h : Later s t) : Lasting s t :=
  run_invariant (I := Lasting s) (fun _ _ hlast ⟨_, _, hw⟩ => hlast.trans hw.lasting) (.refl s) h

end writes

/-- Wherever an id is in use at both ends, it is in use for the same thing, and where it was
given up it is not in use again. -/
structure IdsStand (s t : Db) : Prop where
  users : ∀ r ∈ s.users, ∀ r' ∈ t.users, r.id = r'.id → r = r'
  entries : ∀ e ∈ s.entries, ∀ e' ∈ t.entries, e.id = e'.id → e.article = e'.article
  tags : ∀ r ∈ s.tags, ∀ r' ∈ t.tags, r.id = r'.id → r = r'
  clients : ∀ c ∈ s.clients, ∀ c' ∈ t.clients, c.id = c'.id → c = c'
  tokens : ∀ r ∈ s.tokens, ∀ r' ∈ t.tokens, r.id = r'.id → r = r'
  usersGone : ∀ i, Spent UserRow.id ⟨s.users, s.usersSeq⟩ i → ∀ r ∈ t.users, r.id ≠ i
  entriesGone : ∀ i, Spent EntryRecord.id ⟨s.entries, s.entriesSeq⟩ i → ∀ e ∈ t.entries, e.id ≠ i
  tagsGone : ∀ i, Spent TagRow.id ⟨s.tags, s.tagsSeq⟩ i → ∀ r ∈ t.tags, r.id ≠ i
  clientsGone : ∀ i, Spent ClientRow.id ⟨s.clients, s.clientsSeq⟩ i → ∀ c ∈ t.clients, c.id ≠ i
  tokensGone : ∀ i, Spent TokenRow.id ⟨s.tokens, s.tokensSeq⟩ i → ∀ r ∈ t.tokens, r.id ≠ i

theorem Lasting.idsStand {s t : Db} (h : Lasting s t) (hs : s.Valid) : IdsStand s t where
  users _ hr _ hr' := h.users.kept hs.users.pk hs.users.seq hr hr'
  entries _ hr _ hr' := h.entries.kept hs.entries.pk hs.entries.seq hr hr'
  tags _ hr _ hr' := h.tags.kept hs.tags.pk hs.tags.seq hr hr'
  clients _ hr _ hr' := h.clients.kept hs.clients.pk hs.clients.seq hr hr'
  tokens _ hr _ hr' := h.tokens.kept hs.tokens.pk hs.tokens.seq hr hr'
  usersGone _ hi := (h.users.spent hi).2
  entriesGone _ hi := (h.entries.spent hi).2
  tagsGone _ hi := (h.tags.spent hi).2
  clientsGone _ hi := (h.clients.spent hi).2
  tokensGone _ hi := (h.tokens.spent hi).2

namespace Server
variable {Url : Type} [UrlCrate Url] {K : Type} [Field K] [LinearOrder K] {config : Config K}

/-- Whatever the server is asked to do, an id that was given once never stands for anything else. -/
theorem ids_stand {s : Server} (hv : s.db.Valid) (events : List (Event Url)) :
    IdsStand s.db (serve config s events).db := (s.serve_later events).lasting.idsStand hv

/-- A user deletes the newer of two articles and adds another. -/
def replacing : List (Event HttpText) :=
  [.web (some 1) true (.doDelete 2 none (some .article) .all),
    .web (some 1) true (.doAdd ⟨41, by decide⟩ (fun url => page url.url) "https://c.org/")]

theorem ids_stand_replacing :
    ((serve plainConfig ⟨shelf.val, fun _ => none, [1]⟩ replacing).db.entries.map EntryRecord.id =
        [1, 3]) ∧
      IdsStand shelf.val (serve plainConfig ⟨shelf.val, fun _ => none, [1]⟩ replacing).db :=
  ⟨rfl, ids_stand (s := ⟨shelf.val, fun _ => none, [1]⟩) shelf.property replacing⟩

end Server
end Articler
