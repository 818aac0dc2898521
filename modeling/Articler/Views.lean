import Articler.Access
import Articler.Lib.Owners

/-! Two databases that differ in the articles and tags of one user only: whoever acts for
another user, search aside, finds the same in both and leaves the same difference. -/
namespace Articler
open Txn Rows

/-- The tables of accounts, clients and refresh tokens are the same. -/
structure SameAccounts (s t : Db) : Prop where
  users : t.users = s.users
  usersSeq : t.usersSeq = s.usersSeq
  clients : t.clients = s.clients
  clientsSeq : t.clientsSeq = s.clientsSeq
  tokens : t.tokens = s.tokens
  tokensSeq : t.tokensSeq = s.tokensSeq

theorem SameAccounts.refl (s : Db) : SameAccounts s s := ⟨rfl, rfl, rfl, rfl, rfl, rfl⟩

theorem SameAccounts.trans {s t r : Db} (h : SameAccounts s t) (h' : SameAccounts t r) :
    SameAccounts s r :=
  ⟨h'.users.trans h.users, h'.usersSeq.trans h.usersSeq, h'.clients.trans h.clients,
    h'.clientsSeq.trans h.clientsSeq, h'.tokens.trans h.tokens, h'.tokensSeq.trans h.tokensSeq⟩

theorem SameAccounts.symm {s t : Db} (h : SameAccounts s t) : SameAccounts t s :=
  ⟨h.users.symm, h.usersSeq.symm, h.clients.symm, h.clientsSeq.symm, h.tokens.symm, h.tokensSeq.symm⟩

/-- The two differ in the articles and tags of `u` only. -/
structure Unseen (u : UserRow) (s t : Db) : Prop where
  left : s.Sound
  right : t.Sound
  user : u ∈ s.users
  accounts : SameAccounts s t
  entriesSeq : t.entriesSeq = s.entriesSeq
  tagsSeq : t.tagsSeq = s.tagsSeq
  others : OthersSame u.id s t

namespace Unseen
variable {u : UserRow} {s t s' t' : Db} {v : Int}

theorem foreign (h : Unseen u s t) : foreignLink u.id t = foreignLink u.id s :=
  foreignLink_congr h.others.entries

theorem hasUser (h : Unseen u s t) (userId : Int) : t.hasUser userId = s.hasUser userId := by
  rw [Db.hasUser, h.accounts.users, Db.hasUser]

theorem hasClient (h : Unseen u s t) (clientId : Int) : t.hasClient clientId = s.hasClient clientId := by
  rw [Db.hasClient, h.accounts.clients, Db.hasClient]

theorem mem_entries (h : Unseen u s t) {e : EntryRecord} (he : e.userId ≠ u.id) :
    e ∈ t.entries ↔ e ∈ s.entries := by
  have hmem : e ∈ (t.entries.filter fun e => e.userId != u.id) ↔
      e ∈ s.entries.filter fun e => e.userId != u.id := by rw [h.others.entries]
  simpa [he] using hmem

theorem mem_tags (h : Unseen u s t) {r : TagRow} (hr : r.userId ≠ u.id) :
    r ∈ t.tags ↔ r ∈ s.tags := by
  have hmem : r ∈ (t.tags.filter fun r => r.userId != u.id) ↔
      r ∈ s.tags.filter fun r => r.userId != u.id := by rw [h.others.tags]
  simpa [hr] using hmem

theorem seenLinks (h : Unseen u s t) {p : EntryTag → Bool}
    (hs : ∀ l ∈ s.entryTags, p l = true → foreignLink u.id s l = true)
    (ht : ∀ l ∈ t.entryTags, p l = true → foreignLink u.id t l = true) :
    t.entryTags.filter p = s.entryTags.filter p := by
  have hself {db : Db} (hdb : ∀ l ∈ db.entryTags, p l = true → foreignLink u.id db l = true) :
      (db.entryTags.filter (foreignLink u.id db)).filter p = db.entryTags.filter p := by
    rw [List.filter_filter]
    refine List.filter_congr fun l hl => ?_
    cases hpl : p l with
    | false => rfl
    | true => simp [hdb l hl hpl]
  rw [← hself ht, h.others.links, hself hs]

theorem entryLinks (h : Unseen u s t) {e : EntryRecord} (he : e ∈ s.entries)
    (hu : e.userId ≠ u.id) (q : EntryTag → Bool) :
    (t.entryTags.filter fun l => l.entryId == e.id && q l) =
      s.entryTags.filter fun l => l.entryId == e.id && q l := by
  refine h.seenLinks (fun l _ hl => ?_) fun l _ hl => ?_ <;>
    simp only [Bool.and_eq_true, beq_iff_eq] at hl
  · exact foreignLink_iff.mpr ⟨e, he, hu, hl.1.symm⟩
  · exact foreignLink_iff.mpr ⟨e, (h.mem_entries hu).mpr he, hu, hl.1.symm⟩

theorem foreignLink_of_tag {db : Db} (hdb : db.Sound) {r : TagRow} (hr : r ∈ db.tags)
    (hu : r.userId ≠ u.id) {l : EntryTag} (hl : l ∈ db.entryTags) (hid : l.tagId = r.id) :
    foreignLink u.id db l = true := by
  obtain ⟨e, he, r', hr', heid, hrid, huser⟩ := hdb.owned l hl
  obtain rfl : r' = r := hdb.valid.tags.pk.eq_of_key hr' hr (hrid.trans hid)
  exact foreignLink_iff.mpr ⟨e, he, huser ▸ hu, heid⟩

theorem linkTags (h : Unseen u s t) {e : EntryRecord} (he : e ∈ s.entries) (hu : e.userId ≠ u.id)
    {l : EntryTag} (hl : l ∈ s.entryTags) (hid : l.entryId = e.id) :
    (t.tags.filter fun r => r.id == l.tagId) = s.tags.filter fun r => r.id == l.tagId := by
  obtain ⟨d, hd, r, hr, hdid, hrid, huser⟩ := h.left.owned l hl
  obtain rfl : d = e := h.left.valid.entries.pk.eq_of_key hd he (hdid.trans hid)
  have hru : r.userId ≠ u.id := huser ▸ hu
  have honly {db : Db} (hdb : db.Sound) (hr : r ∈ db.tags) :
      (db.tags.filter fun x => x.id == l.tagId) =
        db.tags.filter fun x => x.userId != u.id && x.id == l.tagId := by
    refine List.filter_congr fun x hx => ?_
    by_cases hxid : x.id = l.tagId
    · obtain rfl : x = r := hdb.valid.tags.pk.eq_of_key hx hr (hxid.trans hrid.symm)
      simp [hru]
    · simp [hxid]
  rw [honly h.left hr, honly h.right ((h.mem_tags hru).mpr hr)]
  exact filter_seen (o := TagRow.userId) (fun x hx => by simp_all) h.others.tags

theorem linkedTags (h : Unseen u s t) {e : EntryRecord} (he : e ∈ s.entries)
    (hu : e.userId ≠ u.id) : linkedTags e.id t = linkedTags e.id s := by
  have hlinks := h.entryLinks he hu fun _ => true
  simp only [Bool.and_true] at hlinks
  unfold Articler.linkedTags leftJoin
  rw [hlinks]
  refine congrArg _ (List.flatMap_congr fun l hl => ?_)
  obtain ⟨hl, hid⟩ := List.mem_filter.mp hl
  rw [partners_congr (h.linkTags he hu hl (by simpa using hid))]

theorem joinTags_flatMap (db : Db) : joinTags db = db.entries.flatMap fun e =>
    ((partners (fun (e : EntryRecord) (l : EntryTag) => l.entryId == e.id) db.entryTags e).flatMap
      fun l => (partners (fun (l : Option EntryTag) (r : TagRow) => l.any fun l => r.id == l.tagId)
        db.tags l).map fun r => ⟨e, r⟩) := by
  simp only [joinTags, leftJoin, List.flatMap_assoc, List.map_flatMap, List.flatMap_map, List.map_map]
  rfl

theorem joinTags (h : Unseen u s t) {q : JoinedRow → Bool}
    (hq : ∀ r, q r = true → r.entry.userId ≠ u.id) :
    (joinTags t).filter q = (joinTags s).filter q := by
  rw [joinTags_flatMap, joinTags_flatMap, List.filter_flatMap, List.filter_flatMap]
  have hnone {db : Db} (e : EntryRecord) (he : e.userId = u.id) :
      ((((partners (fun (e : EntryRecord) (l : EntryTag) => l.entryId == e.id) db.entryTags e).flatMap
        fun l => (partners (fun (l : Option EntryTag) (r : TagRow) => l.any fun l => r.id == l.tagId)
          db.tags l).map fun r => (⟨e, r⟩ : JoinedRow))).filter q) = [] := by
    rw [List.filter_eq_nil_iff]
    intro r hr hqr
    simp only [List.mem_flatMap, List.mem_map] at hr
    obtain ⟨_, -, _, -, rfl⟩ := hr
    exact hq _ hqr he
  refine flatMap_seen hnone hnone (fun e he hu => ?_) h.others.entries
  have hlinks := h.entryLinks he hu fun _ => true
  simp only [Bool.and_true] at hlinks
  rw [partners_congr hlinks]
  refine congrArg _ (List.flatMap_congr fun l hl => ?_)
  cases l with
  | none => simp [partners]
  | some l =>
    obtain ⟨hl, hid⟩ := some_mem_partners.mp hl
    rw [partners_congr (h.linkTags he hu hl (by simpa using hid))]

section listing
variable {K : Type} [Field K] [LinearOrder K] (eng : Engine K) {params : FindParams}

theorem pushOrder (hsearch : params.search = none) (s t : Db) :
    Entries.pushOrder eng params t = Entries.pushOrder eng params s := by
  funext a b
  unfold Entries.pushOrder
  rw [hsearch]

theorem pageRows (h : Unseen u s t) (hv : params.userId ≠ u.id) (hsearch : params.search = none)
    (hit : Int → Bool) :
    Entries.pageRows eng params t hit = Entries.pageRows eng params s hit := by
  unfold Entries.pageRows
  rw [pushOrder eng hsearch s t,
    filter_seen (o := EntryRecord.userId) (fun e he => ?_) h.others.entries]
  simp only [Bool.and_eq_true, beq_iff_eq] at he
  exact he.1.1 ▸ hv

theorem rawRows (h : Unseen u s t) (hv : params.userId ≠ u.id) (hsearch : params.search = none)
    (hit : Int → Bool) : Entries.rawRows eng params t hit = Entries.rawRows eng params s hit := by
  unfold Entries.rawRows
  rw [pushOrder eng hsearch s t, h.pageRows eng hv hsearch hit]
  refine congrArg _ ?_
  -- an id of the page is the id of no entry of `u`
  have hown {db : Db} (hdb : db.Sound)
      (hpage : Entries.pageRows eng params db hit = Entries.pageRows eng params s hit) :
      (Articler.joinTags db).filter (fun r => hit r.entry.id &&
          ((Entries.pageRows eng params s hit).map EntryRecord.id).contains r.entry.id) =
        (Articler.joinTags db).filter fun r => r.entry.userId != u.id && (hit r.entry.id &&
          ((Entries.pageRows eng params s hit).map EntryRecord.id).contains r.entry.id) := by
    refine List.filter_congr fun r hr => ?_
    cases hq : (hit r.entry.id &&
        ((Entries.pageRows eng params s hit).map EntryRecord.id).contains r.entry.id) with
    | false => simp
    | true =>
      simp only [Bool.and_eq_true, List.contains_iff_mem, List.mem_map] at hq
      obtain ⟨-, e, he, hid⟩ := hq
      obtain ⟨hmem, hpasses⟩ := pageRows_sub eng db (hpage.symm ▸ he)
      obtain rfl : e = r.entry := hdb.valid.entries.pk.eq_of_key hmem (joinTags_entry hr) hid
      simp [hpasses.user, hv]
  rw [hown h.right (h.pageRows eng hv hsearch hit), hown h.left rfl]
  exact h.joinTags fun r hr => by simp_all

theorem findAllRows_paired {R : Type} (params : FindParams) (hv : params.userId ≠ u.id) (hsearch : params.search = none)
    (fromRow : EntryRecord → R) :
    Paired (Unseen u) (Entries.findAllRows eng params fromRow) := by
  refine .bind (.ofExcept _) fun _ => .query fun s t h => ?_
  simp only [Entries.searchMatch, hsearch, Except.bind]
  rw [h.rawRows eng hv hsearch]

omit [Field K] [LinearOrder K] in
theorem count_paired (params : FindParams) (hv : params.userId ≠ u.id) (hsearch : params.search = none) :
    Paired (Unseen u) (Entries.count eng params) := by
  refine .bind (.ofExcept _) fun _ => .query fun s t h => ?_
  simp only [Entries.searchMatch, hsearch, Except.map]
  rw [h.joinTags fun r hr => ?_]
  simp only [Bool.and_eq_true, beq_iff_eq] at hr
  exact hr.1.1 ▸ hv

end listing

section reads
variable (hv : v ≠ u.id)
include hv

theorem existsById_paired (id : Int) : Paired (Unseen u) (Entries.existsById v id) := by
  refine .query fun s t h => congrArg _ (any_seen (o := EntryRecord.userId) (fun e he => ?_)
    h.others.entries).symm
  simp only [Bool.and_eq_true, beq_iff_eq] at he
  exact he.1 ▸ hv

theorem findById_paired (id : Int) : Paired (Unseen u) (Entries.findById v id) := by
  intro s t h
  unfold SameOutcome
  rw [Entries.findById_run, Entries.findById_run]
  refine ⟨?_, h⟩
  rw [find_seen (o := EntryRecord.userId) (fun e he => ?_) h.others.entries]
  · cases hfound : s.entries.find? fun e => e.userId == v && e.id == id with
    | none => rfl
    | some e =>
      have hp := List.find?_some hfound
      simp only [Bool.and_eq_true, beq_iff_eq] at hp
      obtain ⟨hu, rfl⟩ := hp
      simp only [Option.map_some]
      rw [h.linkedTags (List.mem_of_find?_eq_some hfound) (hu ▸ hv)]
  · simp only [Bool.and_eq_true, beq_iff_eq] at he
    exact he.1 ▸ hv

theorem tagsOf (h : Unseen u s t) (q : TagRow → Bool) :
    (t.tags.filter fun r => r.userId == v && q r) = s.tags.filter fun r => r.userId == v && q r := by
  refine filter_seen (o := TagRow.userId) (fun r hr => ?_) h.others.tags
  simp only [Bool.and_eq_true, beq_iff_eq] at hr
  exact hr.1 ▸ hv

theorem findByEntryId_paired (entryId : Int) :
    Paired (Unseen u) (Tags.findByEntryId v entryId) := by
  refine .query fun s t h => congrArg Except.ok ?_
  have htags := h.tagsOf hv fun _ => true
  simp only [Bool.and_true] at htags
  rw [htags]
  refine List.flatMap_congr fun r hr => ?_
  obtain ⟨hr, hu⟩ := List.mem_filter.mp hr
  have hu : r.userId ≠ u.id := by simp_all
  rw [h.seenLinks (fun l hl hp => ?_) fun l hl hp => ?_] <;>
    simp only [Bool.and_eq_true, beq_iff_eq] at hp
  · exact foreignLink_of_tag h.left hr hu hl hp.2
  · exact foreignLink_of_tag h.right ((h.mem_tags hu).mpr hr) hu hl hp.2

theorem getAll_paired : Paired (Unseen u) (Tags.getAll v) := by
  refine .query fun s t h => congrArg Except.ok ?_
  have htags := h.tagsOf hv fun _ => true
  simpa only [Bool.and_true] using htags.symm

end reads

section writes

/-- A statement on articles and tags, issued on both sides. -/
theorem after (h : Unseen u s t) {k : Statement} (hs : Write k s s') (ht : Write k t t')
    (hk : DbTable.users ∉ k.changes ∧ DbTable.clients ∉ k.changes ∧ DbTable.tokens ∉ k.changes)
    (hentriesSeq : t'.entriesSeq = s'.entriesSeq) (htagsSeq : t'.tagsSeq = s'.tagsSeq)
    (hentries : (t'.entries.filter fun e => e.userId != u.id) =
      s'.entries.filter fun e => e.userId != u.id)
    (htags : (t'.tags.filter fun r => r.userId != u.id) = s'.tags.filter fun r => r.userId != u.id)
    (hlinks : t'.entryTags.filter (foreignLink u.id t') =
      s'.entryTags.filter (foreignLink u.id s')) : Unseen u s' t' := by
  obtain ⟨husers, hclients, htokens⟩ := hk
  have hframe {a b : Db} (hw : Write k a b) : SameAccounts a b :=
    ⟨(hw.frame husers).1, (hw.frame husers).2, (hw.frame hclients).1, (hw.frame hclients).2,
      (hw.frame htokens).1, (hw.frame htokens).2⟩
  have haccounts : SameAccounts s' t' := (hframe hs).symm.trans (h.accounts.trans (hframe ht))
  exact ⟨hs.sound h.left, ht.sound h.right, (hframe hs).users ▸ h.user, haccounts, hentriesSeq,
    htagsSeq, hentries, htags, by rw [haccounts.clients], hlinks⟩

variable (h : Unseen u s t)
include h

theorem insertEntry {row : Int → EntryRecord} (hid : ∀ i, (row i).id = i) :
    Alike (Unseen u) (s.insertEntry row) (t.insertEntry row) := by
  have hsame : t.insertEntry row = (s.insertEntry row).map fun r => (r.1, { t with
      entries := t.entries ++ [row (s.entriesSeq + 1)]
      entriesSeq := s.entriesSeq + 1
      entriesFts := t.entriesFts.insert (row (s.entriesSeq + 1)).ftsDoc }) := by
    simp only [Db.insertEntry, h.entriesSeq, h.hasUser]
    split
    · rfl
    split <;> rfl
  rcases hs : s.insertEntry row with e | ⟨id, s'⟩
  · rw [hsame, hs]
    exact .error e
  · rw [hs] at hsame
    have hws : Write .insertEntry s s' := .insertEntry hid hs
    have hwt := Write.insertEntry hid hsame
    obtain ⟨rfl, -, -, rfl⟩ := Db.insertEntry_ok hs
    rw [hsame]
    have hentries : ((t.entries ++ [row (s.entriesSeq + 1)]).filter fun e => e.userId != u.id) =
        (s.entries ++ [row (s.entriesSeq + 1)]).filter fun e => e.userId != u.id := by
      rw [List.filter_append, List.filter_append, h.others.entries]
    refine .ok _ (h.after hws hwt (by decide) rfl h.tagsSeq hentries h.others.tags ?_)
    -- no link is of an entry with the new id
    have hlinks {db : Db} (hdb : db.Sound) (hseq : db.entriesSeq = s.entriesSeq) :
        (db.entryTags.filter fun l => (db.entries ++ [row (s.entriesSeq + 1)]).any fun e =>
          e.userId != u.id && e.id == l.entryId) = db.entryTags.filter (foreignLink u.id db) := by
      refine List.filter_congr fun l hl => ?_
      obtain ⟨e, he, heid⟩ := hdb.valid.entryTagsEntry l hl
      have hold : e.id ≤ db.entriesSeq := hdb.valid.entries.seq e he
      have hnew : ¬ s.entriesSeq + 1 = l.entryId := by omega
      simp [foreignLink, hid, hnew]
    exact (hlinks h.right h.entriesSeq).trans (h.others.links.trans (hlinks h.left rfl).symm)

theorem updateEntries {p : EntryRecord → Bool} (hp : ∀ e, p e = true → e.userId ≠ u.id)
    (as : List Assign) : Alike (Unseen u) (s.updateEntries p as) (t.updateEntries p as) := by
  have hfilter (rows : List EntryRecord) :=
    updateWhere_filter rows (q := fun e => e.userId != u.id) (f := EntryRecord.update as)
      (fun e he => by simpa using hp e he) fun e e' he => by
        rw [(EntryRecord.update_ok he).2.2.1]
  have hsame := hfilter t.entries
  rw [h.others.entries, ← hfilter s.entries] at hsame
  have hcount : (t.entries.filter p).length = (s.entries.filter p).length := by
    rw [filter_seen (o := EntryRecord.userId) hp h.others.entries]
  -- an update leaves the links where they were
  have hlinks {db db' : Db} {n : Nat} (hu : db.updateEntries p as = .ok (n, db')) :
      db'.entryTags.filter (foreignLink u.id db') = db.entryTags.filter (foreignLink u.id db) := by
    obtain ⟨entries', hall, -, rfl⟩ := Db.updateEntries_ok hu
    have hkeys := map_eq_of_forall₂ (g := fun e : EntryRecord => (e.userId, e.id))
      (fun _ _ hr => by rw [(Db.update_step hr).1, (Db.update_step hr).2.1]) hall
    refine List.filter_congr fun l _ => ?_
    have hany (rows : List EntryRecord) : (rows.any fun e => e.userId != u.id && e.id == l.entryId) =
        (rows.map fun e => (e.userId, e.id)).any fun k => k.1 != u.id && k.2 == l.entryId := by
      rw [List.any_map]
      rfl
    exact (hany entries').trans (hkeys ▸ (hany db.entries).symm)
  rcases hs : updateWhere p (EntryRecord.update as) s.entries with e | entries <;>
    rcases ht : updateWhere p (EntryRecord.update as) t.entries with e' | entries' <;>
      rw [hs, ht] at hsame
  · cases hsame
    rw [Db.updateEntries, Db.updateEntries, hs, ht]
    exact .error e
  · cases hsame
  · cases hsame
  · have hresult {db : Db} {rows : List EntryRecord}
        (hdb : updateWhere p (EntryRecord.update as) db.entries = .ok rows) :
        ∃ db', db.updateEntries p as = .ok ((db.entries.filter p).length, db') ∧
          db'.entries = rows ∧ db'.entriesSeq = db.entriesSeq ∧ db'.tags = db.tags ∧
            db'.tagsSeq = db.tagsSeq := by
      rw [Db.updateEntries, hdb]
      exact ⟨_, rfl, rfl, rfl, rfl, rfl⟩
    obtain ⟨s', hus, rfl, hsseq, hstags, hstagsSeq⟩ := hresult hs
    obtain ⟨t', hut, rfl, htseq, httags, httagsSeq⟩ := hresult ht
    rw [hus, hut, hcount]
    refine .ok _ (h.after (.updateEntries hus) (.updateEntries hut) (by decide) ?_ ?_
      (by simpa [Except.map] using hsame) ?_
      ((hlinks hut).trans (h.others.links.trans (hlinks hus).symm)))
    · rw [htseq, hsseq, h.entriesSeq]
    · rw [httagsSeq, hstagsSeq, h.tagsSeq]
    · rw [httags, hstags, h.others.tags]

theorem deleteEntries {p : EntryRecord → Bool} (hp : ∀ e, p e = true → e.userId ≠ u.id) :
    Unseen u (s.deleteEntries p) (t.deleteEntries p) := by
  have hentries : (t.entries.filter fun e => !p e).filter (fun e => e.userId != u.id) =
      (s.entries.filter fun e => !p e).filter fun e => e.userId != u.id := by
    rw [List.filter_comm, h.others.entries, List.filter_comm]
  refine h.after (.deleteEntries s p) (.deleteEntries t p) (by decide) h.entriesSeq h.tagsSeq
    hentries h.others.tags ?_
  have hgone (l : EntryTag) : t.entries.any (fun e => p e && e.id == l.entryId) =
      s.entries.any fun e => p e && e.id == l.entryId :=
    any_seen (o := EntryRecord.userId) (fun e he => hp e (by simp_all)) h.others.entries
  have hlinks {db : Db} : (db.deleteEntries p).entryTags.filter (foreignLink u.id (db.deleteEntries p)) =
      (db.entryTags.filter (foreignLink u.id db)).filter
        fun l => !db.entries.any fun e => p e && e.id == l.entryId := by
    rw [Db.deleteEntries, List.filter_filter, List.filter_filter]
    refine List.filter_congr fun l _ => ?_
    cases hl : db.entries.any fun e => p e && e.id == l.entryId with
    | true => simp
    | false =>
      simp only [List.any_eq_false, Bool.and_eq_true, beq_iff_eq, not_and] at hl
      rw [Bool.not_false, Bool.and_true, Bool.true_and, Bool.eq_iff_iff, foreignLink_iff,
        foreignLink_iff]
      constructor
      · rintro ⟨e, he, hu, hid⟩
        exact ⟨e, (List.mem_filter.mp he).1, hu, hid⟩
      · rintro ⟨e, he, hu, hid⟩
        refine ⟨e, List.mem_filter.mpr ⟨he, ?_⟩, hu, hid⟩
        cases hpe : p e with
        | false => rfl
        | true => exact absurd hid (hl e he hpe)
  rw [hlinks, hlinks, h.others.links]
  refine List.filter_congr fun l _ => ?_
  rw [hgone l]

theorem deleteEntryTags {p q : EntryTag → Bool} (hpq : ∀ l, q l = p l) :
    Unseen u (s.deleteEntryTags p) (t.deleteEntryTags q) := by
  obtain rfl : q = p := funext hpq
  refine h.after (.deleteEntryTags s q) (.deleteEntryTags t q) (by decide) h.entriesSeq h.tagsSeq
    h.others.entries h.others.tags ?_
  have hforeign {db : Db} : foreignLink u.id (db.deleteEntryTags q) = foreignLink u.id db := rfl
  rw [hforeign, hforeign, Db.deleteEntryTags, Db.deleteEntryTags]
  dsimp only
  rw [List.filter_comm, h.others.links, List.filter_comm]


theorem deleteTags {p : TagRow → Bool} (hp : ∀ r, p r = true → r.userId ≠ u.id) :
    Unseen u (s.deleteTags p) (t.deleteTags p) := by
  have htags : (t.tags.filter fun r => !p r).filter (fun r => r.userId != u.id) =
      (s.tags.filter fun r => !p r).filter fun r => r.userId != u.id := by
    rw [List.filter_comm, h.others.tags, List.filter_comm]
  refine h.after (.deleteTags s p) (.deleteTags t p) (by decide) h.entriesSeq h.tagsSeq
    h.others.entries htags ?_
  have hforeign {db : Db} : foreignLink u.id (db.deleteTags p) = foreignLink u.id db := rfl
  have hgone (l : EntryTag) : t.tags.any (fun r => p r && r.id == l.tagId) =
      s.tags.any fun r => p r && r.id == l.tagId :=
    any_seen (o := TagRow.userId) (fun r hr => hp r (by simp_all)) h.others.tags
  rw [hforeign, hforeign, Db.deleteTags, Db.deleteTags]
  dsimp only
  rw [List.filter_comm, h.others.links, List.filter_comm]
  refine congrArg _ (List.filter_congr fun l _ => ?_)
  rw [hgone l]

theorem linkLabels (hv : v ≠ u.id) (entryId : Int) (labels : List String) :
    Unseen u (s.insertEntryTags (Tags.labelLinks v entryId labels s))
      (t.insertEntryTags (Tags.labelLinks v entryId labels t)) := by
  refine h.after (.linkLabels s v entryId labels) (.linkLabels t v entryId labels) (by decide)
    h.entriesSeq h.tagsSeq h.others.entries h.others.tags ?_
  have hsame : Tags.labelLinks v entryId labels t = Tags.labelLinks v entryId labels s := by
    unfold Tags.labelLinks
    rw [h.tagsOf hv, filter_seen (o := EntryRecord.userId) (fun e he => ?_) h.others.entries]
    simp only [Bool.and_eq_true, beq_iff_eq] at he
    exact he.2 ▸ hv
  have hforeign (l) (hl : l ∈ Tags.labelLinks v entryId labels s) : foreignLink u.id s l = true := by
    obtain ⟨e, he, -, hu, r, -, -, -, rfl⟩ := Tags.mem_labelLinks.mp hl
    exact foreignLink_iff.mpr ⟨e, he, hu ▸ hv, rfl⟩
  have hkept {db : Db} (links : List EntryTag) :
      foreignLink u.id (db.insertEntryTags links) = foreignLink u.id db := rfl
  rw [hkept, hkept, hsame, h.foreign, Db.insertEntryTags, Db.insertEntryTags]
  dsimp only
  rw [addMissing_filter hforeign, addMissing_filter hforeign, ← h.foreign, h.others.links, h.foreign]

omit h in
/-- The same tags are new on both sides. -/
theorem insertTags_new (hv : v ≠ u.id) (tags : List Tags.CreateTag)
    (hseq : t.tagsSeq = s.tagsSeq)
    (htags : (t.tags.filter fun r => r.userId != u.id) = s.tags.filter fun r => r.userId != u.id) :
    ∃ new seq, Tags.insertTags v tags s = { s with tags := s.tags ++ new, tagsSeq := seq } ∧
      Tags.insertTags v tags t = { t with tags := t.tags ++ new, tagsSeq := seq } := by
  induction tags generalizing s t with
  | nil => exact ⟨[], s.tagsSeq, by simp [Tags.insertTags], by simp [Tags.insertTags, ← hseq]⟩
  | cons tag tags ih =>
    have hstep (db : Db) : Tags.insertTags v (tag :: tags) db =
        Tags.insertTags v tags (db.insertTag v tag.label tag.slug) := rfl
    have htaken : (t.tags.any fun r => r.userId == v && (r.label == tag.label || r.slug == tag.slug)) =
        s.tags.any fun r => r.userId == v && (r.label == tag.label || r.slug == tag.slug) := by
      refine any_seen (o := TagRow.userId) (fun r hr => ?_) htags
      simp only [Bool.and_eq_true, beq_iff_eq] at hr
      exact hr.1 ▸ hv
    rw [hstep, hstep, Db.insertTag, Db.insertTag, htaken, hseq]
    split
    · exact ih rfl htags
    · obtain ⟨new, seq, hs, ht⟩ := @ih
        { s with tags := s.tags ++ [⟨s.tagsSeq + 1, v, tag.label, tag.slug⟩]
                 tagsSeq := s.tagsSeq + 1 }
        { t with tags := t.tags ++ [⟨s.tagsSeq + 1, v, tag.label, tag.slug⟩]
                 tagsSeq := s.tagsSeq + 1 }
        rfl (by simp [htags])
      refine ⟨⟨s.tagsSeq + 1, v, tag.label, tag.slug⟩ :: new, seq, ?_, ?_⟩
      · rw [hs]
        simp
      · rw [ht]
        simp

theorem insertTags (hv : v ≠ u.id) (tags : List Tags.CreateTag) :
    Alike (ε := Error) (Unseen u)
      (if s.hasUser v || (Tags.insertTags v tags s).tags == s.tags then
        .ok ((), Tags.insertTags v tags s) else .error (.sqlx .foreignKey))
      (if t.hasUser v || (Tags.insertTags v tags t).tags == t.tags then
        .ok ((), Tags.insertTags v tags t) else .error (.sqlx .foreignKey)) := by
  obtain ⟨new, seq, hs, ht⟩ := insertTags_new hv tags h.tagsSeq h.others.tags
  have hnew {db : Db} (hdb : Tags.insertTags v tags db = { db with tags := db.tags ++ new, tagsSeq := seq }) :
      ((Tags.insertTags v tags db).tags == db.tags) = new.isEmpty := by
    rw [hdb]
    cases new <;> simp
  rw [hnew hs, hnew ht, h.hasUser]
  split
  · rename_i hguard
    refine .ok _ (h.after (.insertTags s v tags ?_) (.insertTags t v tags ?_) (by decide) ?_ ?_ ?_ ?_ ?_)
    · simpa [hs] using hguard
    · simpa [ht, h.hasUser] using hguard
    · rw [hs, ht]
      exact h.entriesSeq
    · rw [hs, ht]
    · rw [hs, ht]
      exact h.others.entries
    · rw [hs, ht]
      simp [h.others.tags]
    · rw [hs, ht]
      exact h.others.links
  · exact .error _

end writes

section programs
variable (hv : v ≠ u.id)
include hv

theorem createAndLink_paired (entryId : Int) (tags : List Tags.CreateTag) :
    Paired (Unseen u) (Tags.createAndLink v entryId tags) := by
  unfold Tags.createAndLink
  split
  · exact .pure _
  split
  · exact .fail _
  refine .transaction (.bind (.stmt fun s t h => h.insertTags hv tags) fun _ =>
    .bind (.stmt fun s t h => .ok () (h.linkLabels hv entryId _)) fun _ => .query fun s t h => ?_)
  rw [h.tagsOf hv]

theorem staleLink (h : Unseen u s t) (entryId : Int) (labels : List String) (l : EntryTag) :
    Tags.staleLink v entryId labels t l = Tags.staleLink v entryId labels s l := by
  have hentry (e : EntryRecord) (he : (e.id == entryId && e.userId == v && e.id == l.entryId) = true) :
      e.userId ≠ u.id := by simp_all
  have htag (r : TagRow) (hr : (r.userId == v && labels.contains r.label && r.id == l.tagId) = true) :
      r.userId ≠ u.id := by simp_all
  rw [Tags.staleLink, any_seen hentry h.others.entries, any_seen htag h.others.tags, Tags.staleLink]

theorem updateTagsByEntryId_paired (entryId : Int) (tags : List Tags.CreateTag) :
    Paired (Unseen u) (Tags.updateTagsByEntryId v entryId tags) :=
  .bind (createAndLink_paired hv entryId tags) fun _ =>
    .bind (.stmt fun _ _ h => .ok () (h.deleteEntryTags (h.staleLink hv entryId _))) fun _ => .pure _

theorem deleteReturning_paired {p : TagRow → Bool} (hp : ∀ r, p r = true → r.userId = v) :
    Paired (Unseen u) (Tags.deleteReturning p) := by
  have hother (r : TagRow) (hr : p r = true) : r.userId ≠ u.id := hp r hr ▸ hv
  refine .stmt fun s t h => ?_
  rw [filter_seen (o := TagRow.userId) hother h.others.tags]
  exact .ok _ (h.deleteTags hother)

theorem deleteTagByTagId_paired (id tagId : Int) :
    Paired (Unseen u) (Entries.deleteTagByTagId v id tagId) := by
  refine .stmt fun s t h => ?_
  dsimp only
  have howned (db : Db) (l : EntryTag) (hl : (l.tagId == tagId && db.entries.any fun e =>
      e.id == id && e.userId == v && e.id == l.entryId) = true) : foreignLink u.id db l = true := by
    simp only [Bool.and_eq_true, List.any_eq_true, beq_iff_eq] at hl
    obtain ⟨-, e, he, ⟨-, heu⟩, hid⟩ := hl
    exact foreignLink_iff.mpr ⟨e, he, heu ▸ hv, hid⟩
  have hsame (l : EntryTag) : (l.tagId == tagId && t.entries.any fun e =>
      e.id == id && e.userId == v && e.id == l.entryId) = (l.tagId == tagId && s.entries.any fun e =>
        e.id == id && e.userId == v && e.id == l.entryId) := by
    rw [any_seen (o := EntryRecord.userId) (fun e he => ?_) h.others.entries]
    simp only [Bool.and_eq_true, beq_iff_eq] at he
    exact he.1.2 ▸ hv
  have hlinks := h.seenLinks (fun l _ => howned s l) fun l _ hl => howned t l ((hsame l).trans hl)
  have hany : t.entryTags.any (fun l => l.tagId == tagId && t.entries.any fun e =>
      e.id == id && e.userId == v && e.id == l.entryId) = s.entryTags.any fun l =>
        l.tagId == tagId && s.entries.any fun e =>
          e.id == id && e.userId == v && e.id == l.entryId := by
    rw [funext hsame, ← any_self, hlinks, any_self]
  rw [hany]
  exact .ok _ (h.deleteEntryTags hsame)

theorem updateById_paired (id : Int) (update : UpdateEntry) :
    Paired (Unseen u) (Entries.updateById v id update) :=
  .bind (.stmt fun _ _ h => h.updateEntries (fun e he => by simp_all) _) fun _ => .pure _

theorem deleteById_paired (id : Int) : Paired (Unseen u) (Entries.deleteById v id) := by
  refine .stmt fun s t h => ?_
  have hown (e : EntryRecord) (he : (e.userId == v && e.id == id) = true) : e.userId ≠ u.id := by
    simp_all
  dsimp only
  rw [any_seen (o := EntryRecord.userId) hown h.others.entries]
  exact .ok _ (h.deleteEntries hown)

theorem create_paired (entry : CreateEntry) (hentry : entry.userId = v)
    (tags : List Tags.CreateTag) : Paired (Unseen u) (Entries.create entry tags) := by
  have hlink (id : Int) : Paired (Unseen u) (if tags.isEmpty then pure [] else
      Tags.createAndLink entry.userId id tags : Run Db Error _) := by
    split
    · exact .pure _
    · exact createAndLink_paired (hentry ▸ hv) id tags
  intro s t h
  refine .transaction h (.bind (Paired.stmt (fun _ _ h => h.insertEntry fun _ => rfl) s t h)
    fun id s1 t1 hs1 _ h1 => .bind (hlink id s1 t1 h1) fun _ s2 t2 hs2 _ h2 => ?_)
  -- the row with the new id is the one just inserted
  obtain ⟨-, -, -, rfl⟩ := Db.insertEntry_ok (stmt_ok_iff.mp hs1)
  have hentries : s2.entries = s.entries ++ [entry.record id] := by
    split at hs2
    · cases hs2
      rfl
    · rw [(Tags.createAndLink_ok hs2).2.1, Tags.afterLink_entries]
  have hmem : entry.record id ∈ s2.entries := by simp [hentries]
  have hother : (entry.record id).userId ≠ u.id := by
    rw [CreateEntry.record, hentry]
    exact hv
  have hfound {db : Db} (hdb : db.Sound) (hm : entry.record id ∈ db.entries) :
      (db.entries.find? fun e => e.id == id) = some (entry.record id) :=
    hdb.valid.entries.pk.find_of_key hm (by simp [CreateEntry.record]) fun e he => by
      simpa [CreateEntry.record] using he
  refine .bind (.query h2 ?_) fun row s3 t3 hs3 _ h3 => .bind (.query h3 ?_) fun _ _ _ _ _ h4 =>
    Paired.pure _ _ _ h4
  · rw [hfound h2.left hmem, hfound h2.right ((h2.mem_entries hother).mpr hmem)]
  · obtain ⟨hrow, rfl⟩ := query_ok_iff.mp hs3
    rw [hfound h2.left hmem] at hrow
    cases hrow
    rw [h3.linkedTags hmem hother]

end programs

section accounts

/-- A statement on accounts, clients or tokens finds the same tables on both sides. -/
theorem account {α : Type} {f : Db → Except Error (α × Db)} {k : Statement} (h : Unseen u s t)
    (hk : DbTable.entries ∉ k.changes ∧ DbTable.tags ∉ k.changes ∧ DbTable.entryTags ∉ k.changes)
    (hw : ∀ db a db', f db = .ok (a, db') → Write k db db')
    (hvalue : (f t).map Prod.fst = (f s).map Prod.fst)
    (haccounts : ∀ a s' t', f s = .ok (a, s') → f t = .ok (a, t') →
      SameAccounts s' t' ∧ u ∈ s'.users) : Alike (Unseen u) (f s) (f t) := by
  obtain ⟨hentries, htags, hlinks⟩ := hk
  rcases hs : f s with e | ⟨a, s'⟩ <;> rcases ht : f t with e' | ⟨b, t'⟩ <;>
    rw [hs, ht] at hvalue <;> cases hvalue
  · exact .error e
  · have hws := hw s a s' hs
    have hwt := hw t a t' ht
    obtain ⟨hsame, huser⟩ := haccounts a s' t' hs ht
    have hsentries : s'.entries = s.entries := (hws.frame hentries).1
    have htentries : t'.entries = t.entries := (hwt.frame hentries).1
    have hforeign {db db' : Db} (heq : db'.entries = db.entries) :
        foreignLink u.id db' = foreignLink u.id db := by
      funext l
      rw [foreignLink, heq, foreignLink]
    refine .ok a ⟨hws.sound h.left, hwt.sound h.right, huser, hsame, ?_, ?_, ?_, ?_, ?_, ?_⟩
    · rw [(hwt.frame hentries).2.1, h.entriesSeq, (hws.frame hentries).2.1]
    · rw [(hwt.frame htags).2, h.tagsSeq, (hws.frame htags).2]
    · rw [htentries, h.others.entries, hsentries]
    · rw [(hwt.frame htags).1, h.others.tags, (hws.frame htags).1]
    · rw [hsame.clients]
    · have hl : t'.entryTags = t.entryTags := hwt.frame hlinks
      have hl' : s'.entryTags = s.entryTags := hws.frame hlinks
      rw [hforeign htentries, hforeign hsentries, hl, hl', h.others.links]

variable (h : Unseen u s t)
include h

theorem insertUser {row : Int → UserRow} (hid : ∀ i, (row i).id = i) :
    Alike (Unseen u) (s.insertUser row) (t.insertUser row) := by
  refine h.account (k := .insertUser) (by decide) (fun _ _ _ hi => .insertUser hid hi) ?_ ?_
  · simp only [Db.insertUser, h.accounts.users, h.accounts.usersSeq]
    split
    · rfl
    split <;> rfl
  · rintro w s' t' hs ht
    obtain ⟨-, -, rfl⟩ := Db.insertUser_ok hs
    obtain ⟨-, -, rfl⟩ := Db.insertUser_ok ht
    exact ⟨{ h.accounts with users := by rw [h.accounts.users], usersSeq := by rw [h.accounts.usersSeq] },
      List.mem_append_left _ h.user⟩

theorem insertClient {row : Int → ClientRow} (hid : ∀ i, (row i).id = i) :
    Alike (Unseen u) (s.insertClient row) (t.insertClient row) := by
  refine h.account (k := .insertClient) (by decide) (fun _ _ _ hi => .insertClient hid hi) ?_ ?_
  · simp only [Db.insertClient, h.hasUser, h.accounts.clients, h.accounts.clientsSeq]
    split
    · rfl
    split <;> rfl
  · rintro c s' t' hs ht
    obtain ⟨-, -, -, rfl⟩ := Db.insertClient_ok hs
    obtain ⟨-, -, -, rfl⟩ := Db.insertClient_ok ht
    exact ⟨{ h.accounts with
      clients := by rw [h.accounts.clients], clientsSeq := by rw [h.accounts.clientsSeq] }, h.user⟩

theorem insertToken {row : Int → TokenRow} (hid : ∀ i, (row i).id = i) :
    Alike (Unseen u) (s.insertToken row) (t.insertToken row) := by
  refine h.account (k := .insertToken) (by decide) (fun _ _ _ hi => .insertToken hid hi) ?_ ?_
  · simp only [Db.insertToken, h.hasUser, h.hasClient, h.accounts.tokensSeq]
    split <;> rfl
  · rintro r s' t' hs ht
    obtain ⟨-, -, -, rfl⟩ := Db.insertToken_ok hs
    obtain ⟨-, -, -, rfl⟩ := Db.insertToken_ok ht
    exact ⟨{ h.accounts with
      tokens := by rw [h.accounts.tokens], tokensSeq := by rw [h.accounts.tokensSeq] }, h.user⟩

theorem deleteTokens {α : Type} (f : List TokenRow → α) (p : TokenRow → Bool) :
    Alike (ε := Error) (Unseen u) (.ok (f s.tokens, s.deleteTokens p))
      (.ok (f t.tokens, t.deleteTokens p)) := by
  refine h.account (f := fun db => .ok (f db.tokens, db.deleteTokens p)) (k := .deleteTokens)
    (by decide) (fun db _ _ hd => ?_) ?_ ?_
  · cases hd
    exact .deleteTokens db p
  · rw [h.accounts.tokens]
    rfl
  · rintro a s' t' hs ht
    obtain ⟨-, rfl⟩ := Prod.mk.inj (Except.ok.inj hs)
    obtain ⟨-, rfl⟩ := Prod.mk.inj (Except.ok.inj ht)
    exact ⟨{ h.accounts with tokens := by rw [Db.deleteTokens, h.accounts.tokens]; rfl }, h.user⟩

theorem deleteClients {α : Type} (f : List ClientRow → α) (p : ClientRow → Bool) :
    Alike (ε := Error) (Unseen u) (.ok (f s.clients, s.deleteClients p))
      (.ok (f t.clients, t.deleteClients p)) := by
  refine h.account (f := fun db => .ok (f db.clients, db.deleteClients p)) (k := .deleteClients)
    (by decide) (fun db _ _ hd => ?_) ?_ ?_
  · cases hd
    exact .deleteClients db p
  · rw [h.accounts.clients]
    rfl
  · rintro a s' t' hs ht
    obtain ⟨-, rfl⟩ := Prod.mk.inj (Except.ok.inj hs)
    obtain ⟨-, rfl⟩ := Prod.mk.inj (Except.ok.inj ht)
    refine ⟨{ h.accounts with clients := ?_, tokens := ?_ }, h.user⟩ <;>
      rw [Db.deleteClients, h.accounts.clients]
    · rfl
    · rw [h.accounts.tokens]
      rfl

end accounts

end Unseen

section calls
variable {K : Type} [Field K] [LinearOrder K] {u : UserRow} {v : Int}

/-- A call for another user that does not search finds the same on both sides, and so does a
call on the clients of any user. -/
theorem UserOp.paired (eng : Engine K) {α : Type} (o : UserOp K α)
    (h : v ≠ u.id ∧ o.right ≠ .search ∨ o.right = .clients) : Paired (Unseen u) (o.run eng v) := by
  cases o with
  | findClientsByUserId =>
    refine .query fun s t h => ?_
    rw [h.accounts.clients]
  | deleteClientById id => exact .stmt fun s t h => h.deleteClients (fun clients => clients.any _) _
  | findAll params | findAllMetadata params =>
    have hplain : v ≠ u.id ∧ params.search = none := by
      simp only [UserOp.right] at h
      cases hsearch : params.search <;> simp_all
    exact Unseen.findAllRows_paired eng { params with userId := v } hplain.1 hplain.2 _
  | count params =>
    have hplain : v ≠ u.id ∧ params.search = none := by
      simp only [UserOp.right] at h
      cases hsearch : params.search <;> simp_all
    exact Unseen.count_paired eng { params with userId := v } hplain.1 hplain.2
  | existsById id => exact Unseen.existsById_paired (by simp_all) id
  | findById id => exact Unseen.findById_paired (by simp_all) id
  | create entry tags => exact Unseen.create_paired (by simp_all) _ rfl tags
  | updateById id update => exact Unseen.updateById_paired (by simp_all) id update
  | deleteById id => exact Unseen.deleteById_paired (by simp_all) id
  | deleteTagByTagId id tagId => exact Unseen.deleteTagByTagId_paired (by simp_all) id tagId
  | createAndLink entryId tags => exact Unseen.createAndLink_paired (by simp_all) entryId tags
  | updateTagsByEntryId entryId tags =>
    exact Unseen.updateTagsByEntryId_paired (by simp_all) entryId tags
  | findByEntryId entryId => exact Unseen.findByEntryId_paired (by simp_all) entryId
  | getAll => exact Unseen.getAll_paired (by simp_all)
  | deleteByLabel label | deleteTagById id =>
    have hv : v ≠ u.id := by simp_all
    exact .bind (Unseen.deleteReturning_paired hv fun r hr => by simp_all) fun _ => .pure _
  | deleteAllByLabel labels =>
    have hv : v ≠ u.id := by simp_all
    exact .bind (.ofExcept _) fun _ => Unseen.deleteReturning_paired hv fun r hr => by simp_all

/-- A program that acts for another user and does not search, or that only handles the clients
of some user. -/
theorem Acts.paired_unseen {rights : List Right} {eng : Engine K} {α : Type} {x : Run Db Error α}
    (hx : Acts rights eng v x)
    (h : v ≠ u.id ∧ .search ∉ rights ∨ ∀ r ∈ rights, r = .clients) : Paired (Unseen u) x := by
  refine hx.paired (fun o hr => o.paired eng ?_) fun _ _ _ _ _ =>
    .stmt fun s t h => h.insertClient fun _ => rfl
  rcases h with ⟨hv, hsearch⟩ | hclients
  · exact .inl ⟨hv, fun hright => hsearch (hright ▸ hr)⟩
  · exact .inr (hclients _ hr)

end calls
end Articler
