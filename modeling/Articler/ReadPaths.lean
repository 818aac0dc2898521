import Articler.Api.Models
import Articler.Links
import Articler.Listing

/-! The tags of an entry as the three read paths return them. -/
namespace Articler
open Txn Rows

/-- The tag is linked to the entry in `entry_tags`. -/
def Linked (db : Db) (e : EntryRecord) (t : Tag) : Prop :=
  ∃ r ∈ db.tags, ⟨e.id, r.id⟩ ∈ db.entryTags ∧ Tag.from r = t

/-- The returned tags are those linked to the entry. -/
def ShowsLinked (db : Db) (e : EntryRecord) (rows : List TagRow) : Prop :=
  ∀ t, t ∈ rows.map Tag.from ↔ Linked db e t

section paths
variable {db : Db}

theorem find_entry (hv : db.Valid) {e : EntryRecord} (he : e ∈ db.entries) :
    (db.entries.find? fun d => d.userId == e.userId && d.id == e.id) = some e := by
  refine hv.entries.pk.find_of_key he (by simp) fun d hd => ?_
  simp only [Bool.and_eq_true, beq_iff_eq] at hd
  exact hd.2

/-- `find_by_id` joins from the links. -/
theorem mem_linkedTags (hv : db.Valid) {e : EntryRecord} {r : TagRow} :
    r ∈ linkedTags e.id db ↔ r ∈ db.tags ∧ ⟨e.id, r.id⟩ ∈ db.entryTags := by
  simp only [linkedTags, List.mem_map, Prod.exists]
  constructor
  · rintro ⟨l, t, hm, rfl⟩
    obtain ⟨hl, ht⟩ := mem_leftJoin.mp hm
    obtain ⟨hl, hid⟩ := List.mem_filter.mp hl
    rw [beq_iff_eq] at hid
    cases t with
    | some t =>
      obtain ⟨htm, hon⟩ := some_mem_partners.mp ht
      rw [beq_iff_eq] at hon
      refine ⟨htm, ?_⟩
      have hlink : (⟨e.id, t.id⟩ : EntryTag) = l := by rw [hon, ← hid]
      simpa [TagRow.ofNullable, hlink] using hl
    | none =>
      -- the foreign key leaves no link without its tag
      obtain ⟨t, htm, htl⟩ := hv.entryTagsTag l hl
      have hmiss := none_mem_partners.mp ht t htm
      simp [htl] at hmiss
  · rintro ⟨hr, hl⟩
    refine ⟨⟨e.id, r.id⟩, some r, mem_leftJoin.mpr ⟨List.mem_filter.mpr ⟨hl, by simp⟩, ?_⟩, rfl⟩
    exact some_mem_partners.mpr ⟨hr, by simp⟩

theorem findById_showsLinked (hv : db.Valid) (e : EntryRecord) :
    ShowsLinked db e (linkedTags e.id db) := by
  intro t
  rw [List.mem_map]
  constructor
  · rintro ⟨r, hr, rfl⟩
    obtain ⟨h1, h2⟩ := (mem_linkedTags hv).mp hr
    exact ⟨r, h1, h2, rfl⟩
  · rintro ⟨r, h1, h2, rfl⟩
    exact ⟨r, (mem_linkedTags hv).mpr ⟨h1, h2⟩, rfl⟩

theorem findById_ok (hv : db.Valid) {e : EntryRecord} (he : e ∈ db.entries) :
    (Entries.findById e.userId e.id : Run Db Error _) db =
      (.ok (some (EntryRow.fromRow e, linkedTags e.id db)), db) := by
  rw [Entries.findById_run, find_entry hv he]
  rfl

/-- `find_by_entry_id` also asks for the user of the tag, who is that of the entry. -/
theorem findByEntryId_showsLinked (hv : db.Valid) (ho : db.LinksOwned) {e : EntryRecord}
    (he : e ∈ db.entries) : ShowsLinked db e
      ((db.tags.filter fun t => t.userId == e.userId).flatMap fun t =>
        (db.entryTags.filter fun l => l.entryId == e.id && l.tagId == t.id).map fun _ => t) := by
  intro t
  simp only [List.mem_map, List.mem_flatMap, List.mem_filter, beq_iff_eq, Bool.and_eq_true]
  constructor
  · rintro ⟨r, ⟨s, ⟨hs, -⟩, l, ⟨hl, h1, h2⟩, rfl⟩, rfl⟩
    have hlink : (⟨e.id, s.id⟩ : EntryTag) = l := by rw [← h1, ← h2]
    exact ⟨s, hs, hlink ▸ hl, rfl⟩
  · rintro ⟨r, hr, hl, rfl⟩
    obtain ⟨d, hd, s, hs, h1, h2, huser⟩ := ho _ hl
    have hde : d = e := hv.entries.pk.eq_of_key hd he h1
    have hsr : s = r := hv.tags.pk.eq_of_key hs hr h2
    subst hde hsr
    exact ⟨s, ⟨s, ⟨hs, huser.symm⟩, ⟨d.id, s.id⟩, ⟨hl, rfl, rfl⟩, rfl⟩, rfl⟩

/-- The joined rows of an entry with links carry its tags. -/
theorem joinTags_linked (hv : db.Valid) {r : JoinedRow} (hr : r ∈ joinTags db)
    (hlink : ∃ l ∈ db.entryTags, l.entryId = r.entry.id) :
    ∃ t ∈ db.tags, ⟨r.entry.id, t.id⟩ ∈ db.entryTags ∧ r.tag = some t := by
  obtain ⟨-, l, hl, ht⟩ := mem_joinTags.mp hr
  cases l with
  | none =>
    obtain ⟨l, hlm, hid⟩ := hlink
    have hmiss := none_mem_partners.mp hl l hlm
    simp [hid] at hmiss
  | some l =>
    obtain ⟨hlm, hid⟩ := some_mem_partners.mp hl
    rw [beq_iff_eq] at hid
    cases htag : r.tag with
    | none =>
      rw [htag] at ht
      obtain ⟨t, htm, htl⟩ := hv.entryTagsTag l hlm
      have hmiss := none_mem_partners.mp ht t htm
      simp [htl] at hmiss
    | some t =>
      rw [htag] at ht
      obtain ⟨htm, hon⟩ := some_mem_partners.mp ht
      have htid : t.id = l.tagId := by simpa using hon
      have heq : (⟨r.entry.id, t.id⟩ : EntryTag) = l := by rw [htid, ← hid]
      exact ⟨t, htm, heq ▸ hlm, rfl⟩

theorem exists_joinTags_linked {e : EntryRecord} {t : TagRow} (he : e ∈ db.entries)
    (ht : t ∈ db.tags) (hl : ⟨e.id, t.id⟩ ∈ db.entryTags) : ⟨e, some t⟩ ∈ joinTags db :=
  mem_joinTags.mpr ⟨he, some ⟨e.id, t.id⟩, some_mem_partners.mpr ⟨hl, by simp⟩,
    some_mem_partners.mpr ⟨ht, by simp⟩⟩

end paths

section listing
variable {K : Type} [Field K] [LinearOrder K] (eng : Engine K) {params : FindParams}
  {hit : Int → Bool} {db : Database}

/-- The tags a listing gathers under an entry of the page. -/
def gathered (params : FindParams) (hit : Int → Bool) (db : Db) (id : Int) : List TagRow :=
  ((Entries.rawRows eng params db hit).filter fun r => r.entry.id = id).map JoinedRow.tagRow

theorem mem_gathered {e : EntryRecord} (he : e ∈ Entries.pageRows eng params db.val hit) {t : Tag} :
    t ∈ (gathered eng params hit db.val e.id).map Tag.from ↔
      ∃ r ∈ joinTags db.val, r.entry = e ∧ Tag.from (JoinedRow.tagRow r) = t := by
  simp only [gathered, List.mem_map, List.mem_filter, decide_eq_true_eq]
  constructor
  · rintro ⟨_, ⟨r, ⟨hr, hid⟩, rfl⟩, rfl⟩
    have hr' := (rawRows_entry eng).mp hr
    have heq : r.entry = e := db.property.entries.pk.eq_of_key (joinTags_entry hr'.1)
      (pageRows_sub eng db.val he).1 hid
    exact ⟨r, hr'.1, heq, rfl⟩
  · rintro ⟨r, hr, rfl, rfl⟩
    exact ⟨_, ⟨r, ⟨(rawRows_entry eng).mpr ⟨hr, he⟩, rfl⟩, rfl⟩, rfl⟩

theorem gathered_showsLinked {e : EntryRecord}
    (he : e ∈ Entries.pageRows eng params db.val hit) :
    ShowsLinked db.val e (gathered eng params hit db.val e.id) ↔
      ∃ l ∈ db.val.entryTags, l.entryId = e.id := by
  have hmem := (pageRows_sub eng db.val he).1
  by_cases hlink : ∃ l ∈ db.val.entryTags, l.entryId = e.id
  · refine iff_of_true (fun t => ?_) hlink
    rw [mem_gathered eng he]
    constructor
    · rintro ⟨r, hr, rfl, rfl⟩
      obtain ⟨s, hs, hl, htag⟩ := joinTags_linked db.property hr hlink
      exact ⟨s, hs, hl, by simp [Tag.from, JoinedRow.tagRow, TagRow.ofNullable, htag]⟩
    · rintro ⟨s, hs, hl, rfl⟩
      exact ⟨⟨e, some s⟩, exists_joinTags_linked hmem hs hl, rfl, rfl⟩
  · refine iff_of_false (fun hshows => ?_) hlink
    obtain ⟨r, hr, rfl⟩ := exists_joinTags hmem
    obtain ⟨s, -, hl, -⟩ := (hshows _).mp ((mem_gathered eng he).mpr ⟨r, hr, rfl, rfl⟩)
    exact hlink ⟨_, hl, rfl⟩

/-- Under an entry without links a listing shows one tag, made of NULLs. -/
theorem gathered_unlinked {e : EntryRecord} (he : e ∈ Entries.pageRows eng params db.val hit)
    (hnone : ¬ ∃ l ∈ db.val.entryTags, l.entryId = e.id) {t : Tag} :
    t ∈ (gathered eng params hit db.val e.id).map Tag.from ↔ t = ⟨0, "", ""⟩ := by
  have hrow (r : JoinedRow) (hr : r ∈ joinTags db.val) (hre : r.entry = e) :
      Tag.from (JoinedRow.tagRow r) = ⟨0, "", ""⟩ := by
    obtain ⟨-, l, hl, ht⟩ := mem_joinTags.mp hr
    cases l with
    | some l =>
      obtain ⟨hmem, hid⟩ := some_mem_partners.mp hl
      exact absurd ⟨l, hmem, by simpa [hre] using hid⟩ hnone
    | none =>
      cases htag : r.tag with
      | some t =>
        rw [htag] at ht
        simpa using (some_mem_partners.mp ht).2
      | none => simp [Tag.from, JoinedRow.tagRow, TagRow.ofNullable, htag]
  rw [mem_gathered eng he]
  constructor
  · rintro ⟨r, hr, hre, rfl⟩
    exact hrow r hr hre
  · rintro rfl
    obtain ⟨r, hr, hre⟩ := exists_joinTags (pageRows_sub eng db.val he).1
    exact ⟨r, hr, hre, hrow r hr hre⟩

theorem gatherRows_inv {R : Type} {fromRow : EntryRecord → R} {rows : List (R × List TagRow)}
    (h : ((Entries.searchMatch eng params db.val).bind fun hit =>
      Entries.gatherRows fromRow (Entries.rawRows eng params db.val hit)) = .ok rows) :
    ∃ hit, rows = (leaders (fun r => r.entry.id) (Entries.rawRows eng params db.val hit)).map
      fun l => (fromRow l.entry, gathered eng params hit db.val l.entry.id) := by
  cases hs : Entries.searchMatch eng params db.val with
  | error e =>
    rw [hs] at h
    cases h
  | ok hit =>
    rw [hs] at h
    simp only [Except.bind] at h
    rw [gatherRows_ok fromRow (gatherRows_fits h)] at h
    exact ⟨hit, (Except.ok.inj h).symm⟩

theorem findAllRows_inv {R : Type} {fromRow : EntryRecord → R} {db' : Db}
    {rows : List (R × List TagRow)}
    (h : (Entries.findAllRows eng params fromRow : Run Db Error _) db.val = (.ok rows, db')) :
    ∃ hit, rows = (leaders (fun r => r.entry.id) (Entries.rawRows eng params db.val hit)).map
      fun l => (fromRow l.entry, gathered eng params hit db.val l.entry.id) := by
  obtain ⟨_, u, hsupported, h⟩ := bind_ok_inv h
  rw [run_ofExcept] at hsupported
  obtain rfl : db.val = u := (Prod.mk.inj hsupported).2
  rw [run_query] at h
  exact gatherRows_inv eng (Prod.mk.inj h).1

theorem findAllRows_reads {R : Type} {fromRow : EntryRecord → R} {s t : Db}
    {rows : List (R × List TagRow)}
    (h : (Entries.findAllRows eng params fromRow : Run Db Error _) s = (.ok rows, t)) : s = t := by
  obtain ⟨_, u, hsupported, h⟩ := bind_ok_inv h
  exact (ofExcept_ok_iff.mp hsupported).2.trans (query_ok_iff.mp h).2

theorem findAllRows_stored {R : Type} {fromRow : EntryRecord → R} {s t : Db} (hv : s.Valid)
    {rows : List (R × List TagRow)}
    (h : (Entries.findAllRows eng params fromRow : Run Db Error _) s = (.ok rows, t))
    {row : R × List TagRow} (hrow : row ∈ rows) : ∃ e ∈ s.entries, row.1 = fromRow e := by
  obtain ⟨db, rfl⟩ : ∃ db : Database, db.val = s := ⟨⟨s, hv⟩, rfl⟩
  obtain ⟨hit, rfl⟩ := findAllRows_inv eng h
  obtain ⟨l, hl, rfl⟩ := List.mem_map.mp hrow
  exact ⟨l.entry, joinTags_entry ((rawRows_entry eng).mp (mem_of_leader hl)).1, rfl⟩

theorem findAllRows_listed {R : Type} {fromRow : EntryRecord → R}
    (hinj : ∀ d e, fromRow d = fromRow e → d.id = e.id) {db' : Db}
    {rows : List (R × List TagRow)} {e : EntryRecord} {tags : List TagRow}
    (h : (Entries.findAllRows eng params fromRow : Run Db Error _) db.val = (.ok rows, db'))
    (he : e ∈ db.val.entries) (hm : (fromRow e, tags) ∈ rows) :
    ∃ hit, e ∈ Entries.pageRows eng params db.val hit ∧
      tags = gathered eng params hit db.val e.id := by
  obtain ⟨hit, rfl⟩ := findAllRows_inv eng h
  obtain ⟨l, hl, heq⟩ := List.mem_map.mp hm
  obtain ⟨hrow, rfl⟩ := Prod.mk.inj heq
  have hl' := (rawRows_entry eng).mp (mem_of_leader hl)
  have hle : l.entry = e :=
    db.property.entries.pk.eq_of_key (joinTags_entry hl'.1) he (hinj _ _ hrow)
  exact ⟨hit, hle ▸ hl'.2, by rw [hle]⟩

end listing

/-- All read paths show, for an entry that a listing returned with the tags `listed`, the
tags linked to it. -/
structure PathsAgree (db : Db) (e : EntryRecord) (listed : List TagRow) : Prop where
  findById : ∃ tags, (Entries.findById e.userId e.id : Run Db Error _) db =
    (.ok (some (EntryRow.fromRow e, tags)), db) ∧ ShowsLinked db e tags
  findByEntryId : ∃ tags, (Tags.findByEntryId e.userId e.id : Run Db Error _) db =
    (.ok tags, db) ∧ ShowsLinked db e tags
  findAll : ShowsLinked db e listed

/-- The read paths agree on an entry exactly if it has a tag: `find_by_id` and
`find_by_entry_id` always show the linked tags, a listing shows a tag made of NULLs for an
entry without any. -/
theorem Reachable.paths_agree_iff {K : Type} [Field K] [LinearOrder K] (eng : Engine K)
    (params : FindParams) {db : Db} (h : Reachable db) {e : EntryRecord} (he : e ∈ db.entries)
    {listed : List TagRow}
    (hlisted : (∃ rows, (Entries.findAll eng params : Run Db Error _) db = (.ok rows, db) ∧
        (EntryRow.fromRow e, listed) ∈ rows) ∨
      ∃ rows, (Entries.findAllMetadata eng params : Run Db Error _) db = (.ok rows, db) ∧
        (EntryMetadataRow.fromRow e, listed) ∈ rows) :
    PathsAgree db e listed ↔ ∃ l ∈ db.entryTags, l.entryId = e.id := by
  have ho := h.written.linksOwned
  obtain ⟨db, rfl⟩ : ∃ d : Database, d.val = db := ⟨⟨db, h.written.valid⟩, rfl⟩
  have hlist : ShowsLinked db.val e listed ↔ ∃ l ∈ db.val.entryTags, l.entryId = e.id := by
    rcases hlisted with ⟨rows, hrows, hm⟩ | ⟨rows, hrows, hm⟩
    · obtain ⟨hit, hpage, rfl⟩ := findAllRows_listed eng
        (fun d e hde => congrArg EntryRow.id hde) hrows he hm
      exact gathered_showsLinked eng hpage
    · obtain ⟨hit, hpage, rfl⟩ := findAllRows_listed eng
        (fun d e hde => congrArg EntryMetadataRow.id hde) hrows he hm
      exact gathered_showsLinked eng hpage
  rw [← hlist]
  constructor
  · exact PathsAgree.findAll
  · intro hshows
    exact ⟨⟨_, findById_ok db.property he, findById_showsLinked db.property e⟩,
      ⟨_, rfl, findByEntryId_showsLinked db.property ho he⟩, hshows⟩

theorem Reachable.paths_agree_crossing :
    PathsAgree (runCalls crossing {}) ((note 1 "A").record 1) [⟨1, 1, "Rust", "rust"⟩] := by
  have hr : Reachable (runCalls crossing {}) := Reachable.calls .refl crossing
  refine (Reachable.paths_agree_iff plainEngine { userId := 1 } hr (by decide)
    (.inl ⟨_, rfl, by decide⟩)).mpr ⟨⟨1, 1⟩, by decide, rfl⟩

/-- One user, one entry, no tag. -/
def untagged : List Call := [.createUser "ada" "" "" "" 0 0, .create (note 1 "A") []]

theorem untagged_disagrees :
    Reachable (runCalls untagged {}) ∧ (note 1 "A").record 1 ∈ (runCalls untagged {}).entries ∧
      (Entries.findAll plainEngine { userId := 1 } : Run Db Error _) (runCalls untagged {}) =
        (.ok [(EntryRow.fromRow ((note 1 "A").record 1), [⟨0, 1, "", ""⟩])],
          runCalls untagged {}) ∧
      ¬ PathsAgree (runCalls untagged {}) ((note 1 "A").record 1) [⟨0, 1, "", ""⟩] := by
  refine ⟨Reachable.calls .refl untagged, by decide, rfl, fun h => ?_⟩
  obtain ⟨r, hr, -⟩ := (h.findAll ⟨0, "", ""⟩).mp List.mem_cons_self
  have hnone : (runCalls untagged {}).tags = [] := by decide
  simp [hnone] at hr

end Articler
