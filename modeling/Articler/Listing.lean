import Mathlib.Algebra.Order.Field.Rat
import Mathlib.Data.List.Dedup
import Articler.Repository.Entries

/-! Listing entries: the page that `find_all` and `find_all_metadata` return, and the
number that `count` returns, against the set of entries that pass the filters. -/
namespace Articler
open Txn Rows

/-- An entry of the user that passes every given filter; NULL passes none. -/
structure Passes (params : FindParams) (hit : Int → Bool) (e : EntryRecord) : Prop where
  user : e.userId = params.userId
  search : hit e.id = true
  archive : ∀ a, params.archive = some a → e.isArchived = a
  starred : ∀ s, params.starred = some s → e.isStarred = s
  isPublic : ∀ p, params.isPublic = some p → e.isPublic = some p
  since : ∀ d, params.since = some d → d < e.updatedAt

instance (params : FindParams) (hit : Int → Bool) : DecidablePred (Passes params hit) := fun e =>
  decidable_of_iff (e.userId = params.userId ∧ hit e.id = true ∧
      (∀ a ∈ params.archive, e.isArchived = a) ∧ (∀ s ∈ params.starred, e.isStarred = s) ∧
      (∀ p ∈ params.isPublic, e.isPublic = some p) ∧ ∀ d ∈ params.since, d < e.updatedAt)
    ⟨fun ⟨h1, h2, h3, h4, h5, h6⟩ => ⟨h1, h2, h3, h4, h5, h6⟩,
      fun ⟨h1, h2, h3, h4, h5, h6⟩ => ⟨h1, h2, h3, h4, h5, h6⟩⟩

def matching (params : FindParams) (hit : Int → Bool) (db : Db) : List EntryRecord :=
  db.entries.filter fun e => Passes params hit e

/-- May `a` stand before `b`? Without a sort column every order will do; NULL comes
before every value. -/
def InOrder (params : FindParams) (a b : EntryRecord) : Prop :=
  match params.sort, params.order with
  | none, _ => True
  | some column, some .desc => column.value b ≤ column.value a
  | some column, _ => column.value a ≤ column.value b

/-- Positions `(page-1)*per_page` up to `page*per_page`; everything without `per_page`. -/
def window {α : Type} (params : FindParams) (rows : List α) : List α :=
  match params.perPage with
  | none => rows
  | some pp => (rows.drop ((params.page.getD 1 - 1) * pp).toNat).take pp.toNat

/-- What a listing has to return: the requested window of the matching entries, sorted
as requested, each entry once, and again sorted as requested. -/
structure IsPage (params : FindParams) (rows page : List EntryRecord) : Prop where
  cut : ∃ arranged, arranged.Perm rows ∧ arranged.Pairwise (InOrder params) ∧
    page.Perm (window params arranged)
  once : (page.map EntryRecord.id).Nodup
  sorted : page.Pairwise (InOrder params)

/-- Paging parameters the arithmetic of the statement can carry. -/
structure Pageable (params : FindParams) : Prop where
  perPage : ∀ pp, params.perPage = some pp → 1 ≤ pp
  page : ∀ p, params.page = some p → 1 ≤ p
  offset : ∀ pp p, params.perPage = some pp → params.page = some p → (p - 1) * pp < 2 ^ 63

theorem predicates_iff {params : FindParams} {hit : Int → Bool} {e : EntryRecord} :
    (e.userId == params.userId && hit e.id && Entries.predicates params e) = true ↔
      Passes params hit e := by
  simp only [Entries.predicates, Bool.and_eq_true, beq_iff_eq, Option.all_eq_true,
    decide_eq_true_eq]
  constructor
  · rintro ⟨⟨h1, h2⟩, ⟨⟨h3, h4⟩, h5⟩, h6⟩
    exact ⟨h1, h2, h3, h4, h5, h6⟩
  · rintro ⟨h1, h2, h3, h4, h5, h6⟩
    exact ⟨⟨h1, h2⟩, ⟨⟨h3, h4⟩, h5⟩, h6⟩

theorem filter_predicates (params : FindParams) (hit : Int → Bool) (db : Db) :
    (db.entries.filter fun e =>
      e.userId == params.userId && hit e.id && Entries.predicates params e) =
        matching params hit db := by
  refine List.filter_congr fun e _ => ?_
  rw [Bool.eq_iff_iff, predicates_iff]
  simp

theorem nullsFirst_iff {a b : Option Int} : nullsFirst a b = true ↔ a ≤ b := by
  cases a <;> cases b <;> simp [nullsFirst]

section joins
variable {db : Db}

theorem mem_joinTags {r : JoinedRow} : r ∈ joinTags db ↔ r.entry ∈ db.entries ∧
    ∃ l ∈ partners (fun e l => l.entryId == e.id) db.entryTags r.entry,
      r.tag ∈ partners (fun (p : EntryRecord × Option EntryTag) t =>
        p.2.any fun l => t.id == l.tagId) db.tags (r.entry, l) := by
  obtain ⟨e, t⟩ := r
  constructor
  · intro h
    obtain ⟨⟨⟨d, l⟩, u⟩, hm, heq⟩ := List.mem_map.mp h
    cases heq
    obtain ⟨hl, ht⟩ := mem_leftJoin.mp hm
    obtain ⟨he, hp⟩ := mem_leftJoin.mp hl
    exact ⟨he, l, hp, ht⟩
  · rintro ⟨he, l, hp, ht⟩
    exact List.mem_map.mpr ⟨((e, l), t), mem_leftJoin.mpr ⟨mem_leftJoin.mpr ⟨he, hp⟩, ht⟩, rfl⟩

theorem joinTags_entry {r : JoinedRow} (h : r ∈ joinTags db) : r.entry ∈ db.entries :=
  (mem_joinTags.mp h).1

theorem exists_joinTags {e : EntryRecord} (h : e ∈ db.entries) :
    ∃ r ∈ joinTags db, r.entry = e := by
  obtain ⟨l, hl⟩ := List.exists_mem_of_ne_nil _
    (partners_ne_nil (fun (e : EntryRecord) (l : EntryTag) => l.entryId == e.id) db.entryTags e)
  obtain ⟨t, ht⟩ := List.exists_mem_of_ne_nil _ (partners_ne_nil
    (fun (p : EntryRecord × Option EntryTag) (t : TagRow) => p.2.any fun l => t.id == l.tagId)
    db.tags (e, l))
  exact ⟨⟨e, t⟩, mem_joinTags.mpr ⟨h, l, hl, ht⟩, rfl⟩

end joins

/-- The rows under one id become one listed entry, that of the first of them. -/
theorem gatherRows_ok {R : Type} (fromRow : EntryRecord → R) {rows : List JoinedRow}
    (h : ∀ r ∈ rows, fitsI32 r.entry.id = true) :
    Entries.gatherRows fromRow rows = .ok ((leaders (fun r => r.entry.id) rows).map fun l =>
      (fromRow l.entry, (rows.filter fun r => r.entry.id = l.entry.id).map JoinedRow.tagRow)) := by
  have hall : (rows.all fun r => fitsI32 r.entry.id) = true := List.all_eq_true.mpr h
  rw [Entries.gatherRows, if_pos hall, groupRows_eq, List.filterMap_map]
  congr 1
  refine (List.filterMap_congr fun l hl => ?_).trans (congrFun List.filterMap_eq_map _)
  have hhead := group_head (fun r : JoinedRow => r.entry.id) hl
  simp only [Function.comp_apply, hhead, Option.map_some]

theorem gatherRows_fits {R : Type} {fromRow : EntryRecord → R} {rows : List JoinedRow}
    {listed : List (R × List TagRow)} (h : Entries.gatherRows fromRow rows = .ok listed) :
    ∀ r ∈ rows, fitsI32 r.entry.id = true := by
  rw [Entries.gatherRows] at h
  split at h
  · rename_i hall
    exact List.all_eq_true.mp hall
  · cases h

section search
variable {K : Type} [Field K] [LinearOrder K] (eng : Engine K) {params : FindParams} {db : Db}
  {hit : Int → Bool}

theorem pushOrder_total (params : FindParams) (db : Db) (a b : EntryRecord) :
    Entries.pushOrder eng params db a b = true ∨ Entries.pushOrder eng params db b a = true := by
  have hnulls (x y : Option Int) : nullsFirst x y = true ∨ nullsFirst y x = true := by
    cases x <;> cases y <;> simp [nullsFirst]
    omega
  unfold Entries.pushOrder
  cases params.sort with
  | some column =>
    simp only
    split
    · exact hnulls _ _
    · exact hnulls _ _
  | none =>
    cases params.search with
    | none => exact .inl rfl
    | some q =>
      simp only [decide_eq_true_eq]
      rcases lt_trichotomy (if eng.fts5.bm25 db.entriesFts q 1 0 a.id < 0 then 0 else 1 : Nat)
        (if eng.fts5.bm25 db.entriesFts q 1 0 b.id < 0 then 0 else 1) with h | h | h
      · exact .inl (.inl h)
      · rcases le_total (eng.fts5.bm25 db.entriesFts q 10 1 a.id)
          (eng.fts5.bm25 db.entriesFts q 10 1 b.id) with hr | hr
        · exact .inl (.inr ⟨h, hr⟩)
        · exact .inr (.inr ⟨h.symm, hr⟩)
      · exact .inr (.inl h)

theorem pushOrder_trans (params : FindParams) (db : Db) (a b c : EntryRecord)
    (hab : Entries.pushOrder eng params db a b = true)
    (hbc : Entries.pushOrder eng params db b c = true) :
    Entries.pushOrder eng params db a c = true := by
  have hnulls (x y z : Option Int) (hxy : nullsFirst x y = true) (hyz : nullsFirst y z = true) :
      nullsFirst x z = true := by
    cases x <;> cases y <;> cases z <;> simp [nullsFirst] at *
    omega
  unfold Entries.pushOrder at *
  cases hsort : params.sort with
  | some column =>
    simp only [hsort] at *
    split at hab
    · simp_all only
      exact hnulls _ _ _ hbc hab
    · simp_all only
      exact hnulls _ _ _ hab hbc
  | none =>
    cases hsearch : params.search with
    | none => rfl
    | some q =>
      simp only [hsort, hsearch, decide_eq_true_eq] at *
      rcases hab with hab | ⟨hab, hrab⟩
      · rcases hbc with hbc | ⟨hbc, -⟩
        · exact .inl (hab.trans hbc)
        · exact .inl (hab.trans_eq hbc)
      · rcases hbc with hbc | ⟨hbc, hrbc⟩
        · exact .inl (hab.trans_lt hbc)
        · exact .inr ⟨hab.trans hbc, hrab.trans hrbc⟩

theorem pushOrder_inOrder {a b : EntryRecord} (h : Entries.pushOrder eng params db a b = true) :
    InOrder params a b := by
  unfold Entries.pushOrder at h
  unfold InOrder
  cases hsort : params.sort with
  | none => trivial
  | some column =>
    simp only [hsort] at h
    cases horder : params.order with
    | none =>
      simp only [horder] at h
      exact nullsFirst_iff.mp h
    | some order =>
      cases order <;> simp only [horder] at h <;> exact nullsFirst_iff.mp h

variable (params db hit)

theorem pageRows_eq : Entries.pageRows eng params db hit =
    Entries.pushLimit params
      (eng.inner.run (Entries.pushOrder eng params db) (matching params hit db)) := by
  rw [Entries.pageRows, filter_predicates]

theorem pushLimit_sublist {α : Type} (rows : List α) :
    (Entries.pushLimit params rows).Sublist rows := by
  unfold Entries.pushLimit
  split
  · exact List.Sublist.refl _
  · exact limitOffset_sublist _ _ _

/-- Where the offset fits, LIMIT and OFFSET cut the window. -/
theorem pushLimit_window {α : Type} (hp : Pageable params) (rows : List α) :
    Entries.pushLimit params rows = window params rows := by
  unfold Entries.pushLimit window
  cases hpp : params.perPage with
  | none => rfl
  | some pp =>
    have h1 : 1 ≤ pp := hp.perPage pp hpp
    have hneg : ¬ pp < 0 := by omega
    have hoff : (params.page.map fun p => i64 (i64 (p - 1) * pp)).getD 0 =
        (params.page.getD 1 - 1) * pp := by
      cases hpage : params.page with
      | none => simp
      | some p =>
        have h2 : 1 ≤ p := hp.page p hpage
        have h3 : (p - 1) * pp < 2 ^ 63 := hp.offset pp p hpp hpage
        have h4 : 0 ≤ (p - 1) * pp := Int.mul_nonneg (by omega) (by omega)
        have h5 : (p - 1) * 1 ≤ (p - 1) * pp := Int.mul_le_mul_of_nonneg_left h1 (by omega)
        simp only [Option.map_some, Option.getD_some]
        rw [i64_of_fits (n := p - 1) (by omega), i64_of_fits (by omega)]
    simp only [limitOffset, hneg, if_false, hoff]

end search

/-- No ranking, rows with equal keys in the order of the table. -/
def plainEngine : Engine ℚ where
  fts5 := { query := fun fts q => some fun id => fts.docs.any fun d =>
      d.rowid == id && (d.title == q || d.contentText == q)
            bm25 := fun _ _ _ _ _ => 0 }
  inner := OrderBy.stable EntryRecord
  outer := OrderBy.stable JoinedRow

section page
variable {K : Type} [Field K] [LinearOrder K] (eng : Engine K) {params : FindParams}
  {hit : Int → Bool}

theorem matching_unique (params : FindParams) (hit : Int → Bool) (db : Database) :
    UniqueBy EntryRecord.id (matching params hit db.val) := db.property.entries.pk.filter _

theorem pageRows_sub (db : Db) {e : EntryRecord} (h : e ∈ Entries.pageRows eng params db hit) :
    e ∈ db.entries ∧ Passes params hit e := by
  rw [pageRows_eq] at h
  have hm := (eng.inner.perm _ _).mem_iff.mp ((pushLimit_sublist params _).subset h)
  obtain ⟨he, hp⟩ := List.mem_filter.mp hm
  exact ⟨he, of_decide_eq_true hp⟩

theorem pageRows_unique (db : Database) :
    UniqueBy EntryRecord.id (Entries.pageRows eng params db.val hit) := by
  rw [pageRows_eq]
  have harranged := (matching_unique params hit db).perm
    (eng.inner.perm (Entries.pushOrder eng params db.val) _)
  exact List.Nodup.sublist ((pushLimit_sublist params _).map _) harranged

theorem mem_rawRows {db : Db} {r : JoinedRow} : r ∈ Entries.rawRows eng params db hit ↔
    r ∈ joinTags db ∧ hit r.entry.id = true ∧
      ∃ e ∈ Entries.pageRows eng params db hit, e.id = r.entry.id := by
  rw [Entries.rawRows, (eng.outer.perm _ _).mem_iff, List.mem_filter]
  simp

theorem rawRows_entry {db : Database} {r : JoinedRow} :
    r ∈ Entries.rawRows eng params db.val hit ↔
      r ∈ joinTags db.val ∧ r.entry ∈ Entries.pageRows eng params db.val hit := by
  rw [mem_rawRows]
  constructor
  · rintro ⟨hr, -, e, he, hid⟩
    have heq : e = r.entry :=
      db.property.entries.pk.eq_of_key (pageRows_sub eng db.val he).1 (joinTags_entry hr) hid
    exact ⟨hr, heq ▸ he⟩
  · rintro ⟨hr, he⟩
    exact ⟨hr, (pageRows_sub eng db.val he).2.search, r.entry, he, rfl⟩

/-- The first rows of the groups hold the entries of the page, each once. -/
theorem leaders_page (db : Database) :
    ((leaders (fun r => r.entry.id) (Entries.rawRows eng params db.val hit)).map
      JoinedRow.entry).Perm (Entries.pageRows eng params db.val hit) := by
  have hnodup : ((leaders (fun r => r.entry.id) (Entries.rawRows eng params db.val hit)).map
      JoinedRow.entry).Nodup := by
    have hu := leaders_unique (fun r : JoinedRow => r.entry.id)
      (Entries.rawRows eng params db.val hit)
    refine List.Nodup.of_map EntryRecord.id ?_
    simpa [UniqueBy, Function.comp_def] using hu
  refine (List.perm_ext_iff_of_nodup hnodup (pageRows_unique eng db).nodup).mpr fun e => ?_
  constructor
  · intro he
    obtain ⟨l, hl, rfl⟩ := List.mem_map.mp he
    exact ((rawRows_entry eng).mp (mem_of_leader hl)).2
  · intro he
    obtain ⟨r, hr, rfl⟩ := exists_joinTags (pageRows_sub eng db.val he).1
    obtain ⟨l, hl, hid⟩ :=
      exists_leader (fun r : JoinedRow => r.entry.id) ((rawRows_entry eng).mpr ⟨hr, he⟩)
    have hl' := (rawRows_entry eng).mp (mem_of_leader hl)
    have heq : l.entry = r.entry := db.property.entries.pk.eq_of_key (joinTags_entry hl'.1)
      (joinTags_entry hr) hid
    exact List.mem_map.mpr ⟨l, hl, heq⟩

theorem leaders_ordered (db : Db) :
    ((leaders (fun r => r.entry.id) (Entries.rawRows eng params db hit)).map
      JoinedRow.entry).Pairwise fun a b => Entries.pushOrder eng params db a b = true := by
  have hrows := eng.outer.sorted (fun a b => Entries.pushOrder eng params db a.entry b.entry)
    ((joinTags db).filter fun r => hit r.entry.id &&
      ((Entries.pageRows eng params db hit).map EntryRecord.id).contains r.entry.id)
    (fun a b => pushOrder_total eng params db a.entry b.entry)
    (fun a b c => pushOrder_trans eng params db a.entry b.entry c.entry)
  rw [List.pairwise_map]
  exact hrows.sublist (leaders_sublist _ _)

theorem leaders_sorted (db : Db) :
    ((leaders (fun r => r.entry.id) (Entries.rawRows eng params db hit)).map
      JoinedRow.entry).Pairwise (InOrder params) :=
  (leaders_ordered eng db).imp (pushOrder_inOrder eng)

theorem leaders_isPage (db : Database) (hp : Pageable params) :
    IsPage params (matching params hit db.val)
      ((leaders (fun r => r.entry.id) (Entries.rawRows eng params db.val hit)).map
        JoinedRow.entry) := by
  have hperm : ((leaders (fun r => r.entry.id) (Entries.rawRows eng params db.val hit)).map
      JoinedRow.entry).Perm (Entries.pageRows eng params db.val hit) := leaders_page eng db
  refine ⟨⟨eng.inner.run (Entries.pushOrder eng params db.val) (matching params hit db.val),
    eng.inner.perm _ _, ?_, ?_⟩, ?_, leaders_sorted eng db.val⟩
  · exact (eng.inner.sorted _ _ (pushOrder_total eng params db.val)
      (pushOrder_trans eng params db.val)).imp (pushOrder_inOrder eng)
  · rw [← pushLimit_window params hp, ← pageRows_eq]
    exact hperm
  · exact (pageRows_unique eng db).perm hperm

theorem count_joined (params : FindParams) (hit : Int → Bool) (db : Database) :
    (((joinTags db.val).filter fun r => r.entry.userId == params.userId && hit r.entry.id &&
      Entries.predicates params r.entry).map fun r => r.entry.id).dedup.length =
        (matching params hit db.val).length := by
  have hlen : (matching params hit db.val).length =
      ((matching params hit db.val).map EntryRecord.id).length := (List.length_map _).symm
  rw [hlen]
  refine List.Perm.length_eq ?_
  refine (List.perm_ext_iff_of_nodup (List.nodup_dedup _) (matching_unique params hit db)).mpr ?_
  intro id
  rw [List.mem_dedup, List.mem_map, List.mem_map]
  constructor
  · rintro ⟨r, hr, rfl⟩
    obtain ⟨hj, hpass⟩ := List.mem_filter.mp hr
    exact ⟨r.entry, List.mem_filter.mpr ⟨joinTags_entry hj,
      decide_eq_true (predicates_iff.mp hpass)⟩, rfl⟩
  · rintro ⟨e, he, rfl⟩
    obtain ⟨hm, hpass⟩ := List.mem_filter.mp he
    obtain ⟨r, hr, rfl⟩ := exists_joinTags hm
    exact ⟨r, List.mem_filter.mpr ⟨hr, predicates_iff.mpr (of_decide_eq_true hpass)⟩, rfl⟩

variable {db : Database}

omit [Field K] [LinearOrder K] in
theorem ensureSupported_ok (htags : params.tags = none) (hdomain : params.domainName = none) :
    Entries.ensureSupported params = .ok () := by
  simp [Entries.ensureSupported, htags, hdomain]

omit [Field K] [LinearOrder K] in
theorem count_ok (htags : params.tags = none) (hdomain : params.domainName = none)
    (hs : Entries.searchMatch eng params db.val = .ok hit) :
    (Entries.count eng params : Run Db Error Int) db.val =
      (.ok (matching params hit db.val).length, db.val) := by
  rw [Entries.count, run_bind, run_ofExcept, ensureSupported_ok htags hdomain]
  simp only [run_query, hs, Except.map, count_joined]

theorem findAllRows_run {R : Type} (fromRow : EntryRecord → R) (htags : params.tags = none)
    (hdomain : params.domainName = none)
    (hs : Entries.searchMatch eng params db.val = .ok hit) :
    (Entries.findAllRows eng params fromRow : Run Db Error _) db.val =
      (Entries.gatherRows fromRow (Entries.rawRows eng params db.val hit), db.val) := by
  rw [Entries.findAllRows, run_bind, run_ofExcept, ensureSupported_ok htags hdomain]
  simp only [run_query, hs, Except.bind]

omit [Field K] [LinearOrder K] in
theorem ensureSupported_ok_iff :
    Entries.ensureSupported params = .ok () ↔ params.tags = none ∧ params.domainName = none := by
  unfold Entries.ensureSupported
  cases params.domainName <;> cases params.tags <;> simp

omit [Field K] [LinearOrder K] in
theorem count_inv {t : Db} {n : Int}
    (h : (Entries.count eng params : Run Db Error Int) db.val = (.ok n, t)) :
    params.tags = none ∧ params.domainName = none ∧
      ∃ hit, Entries.searchMatch eng params db.val = .ok hit ∧
        n = (matching params hit db.val).length := by
  obtain ⟨_, s, hsupported, hquery⟩ := bind_ok_inv h
  obtain ⟨hok, rfl⟩ := ofExcept_ok_iff.mp hsupported
  obtain ⟨htags, hdomain⟩ := ensureSupported_ok_iff.mp hok
  refine ⟨htags, hdomain, ?_⟩
  cases hs : Entries.searchMatch eng params db.val with
  | error e =>
    rw [run_query, hs] at hquery
    cases hquery
  | ok hit =>
    rw [count_ok eng htags hdomain hs] at h
    exact ⟨hit, rfl, (Except.ok.inj (Prod.mk.inj h).1).symm⟩

theorem findAllRows_gathered {R : Type} {fromRow : EntryRecord → R} {t : Db}
    {rows : List (R × List TagRow)}
    (h : (Entries.findAllRows eng params fromRow : Run Db Error _) db.val = (.ok rows, t)) :
    params.tags = none ∧ params.domainName = none ∧
      ∃ hit, Entries.searchMatch eng params db.val = .ok hit ∧
        Entries.gatherRows fromRow (Entries.rawRows eng params db.val hit) = .ok rows := by
  obtain ⟨_, s, hsupported, hquery⟩ := bind_ok_inv h
  obtain ⟨hok, rfl⟩ := ofExcept_ok_iff.mp hsupported
  obtain ⟨htags, hdomain⟩ := ensureSupported_ok_iff.mp hok
  refine ⟨htags, hdomain, ?_⟩
  cases hs : Entries.searchMatch eng params db.val with
  | error e =>
    rw [run_query, hs] at hquery
    cases hquery
  | ok hit =>
    rw [findAllRows_run eng fromRow htags hdomain hs] at h
    exact ⟨hit, rfl, (Prod.mk.inj h).1⟩

theorem findAllRows_of_fits {R : Type} (fromRow : EntryRecord → R)
    (htags : params.tags = none) (hdomain : params.domainName = none)
    (hs : Entries.searchMatch eng params db.val = .ok hit)
    (hfits : ∀ e ∈ Entries.pageRows eng params db.val hit, fitsI32 e.id = true) :
    (Entries.findAllRows eng params fromRow : Run Db Error _) db.val =
      (.ok ((leaders (fun r => r.entry.id) (Entries.rawRows eng params db.val hit)).map fun l =>
        (fromRow l.entry, ((Entries.rawRows eng params db.val hit).filter fun r =>
          r.entry.id = l.entry.id).map JoinedRow.tagRow)), db.val) := by
  have hrows : ∀ r ∈ Entries.rawRows eng params db.val hit, fitsI32 r.entry.id = true :=
    fun r hr => hfits r.entry ((rawRows_entry eng).mp hr).2
  rw [findAllRows_run eng fromRow htags hdomain hs, gatherRows_ok fromRow hrows]

theorem findAllRows_ok {R : Type} (fromRow : EntryRecord → R)
    (hids : ∀ e ∈ db.val.entries, -2 ^ 31 ≤ e.id ∧ e.id < 2 ^ 31)
    (htags : params.tags = none) (hdomain : params.domainName = none)
    (hs : Entries.searchMatch eng params db.val = .ok hit) :
    (Entries.findAllRows eng params fromRow : Run Db Error _) db.val =
      (.ok ((leaders (fun r => r.entry.id) (Entries.rawRows eng params db.val hit)).map fun l =>
        (fromRow l.entry, ((Entries.rawRows eng params db.val hit).filter fun r =>
          r.entry.id = l.entry.id).map JoinedRow.tagRow)), db.val) := by
  refine findAllRows_of_fits eng fromRow htags hdomain hs fun e he => ?_
  have := hids e (pageRows_sub eng db.val he).1
  simpa [fitsI32] using this

/-- The FTS match set of the request; without a search it is everything. -/
def IsMatchSet (params : FindParams) (db : Db) (hit : Int → Bool) : Prop :=
  match params.search with
  | none => hit = fun _ => true
  | some q => eng.fts5.query db.entriesFts q = some hit

omit [Field K] [LinearOrder K] in
theorem searchMatch_ok {db : Db} (h : IsMatchSet eng params db hit) :
    Entries.searchMatch eng params db = .ok hit := by
  unfold IsMatchSet at h
  unfold Entries.searchMatch
  cases hq : params.search with
  | none =>
    simp only [hq] at h
    rw [h]
  | some q =>
    simp only [hq] at h
    simp only [h, okOr]

/-- `count` counts the matching entries; the listings return the requested page of them. -/
theorem Entries.listing_correct
    (hids : ∀ e ∈ db.val.entries, -2 ^ 31 ≤ e.id ∧ e.id < 2 ^ 31)
    (htags : params.tags = none) (hdomain : params.domainName = none)
    (hhit : IsMatchSet eng params db.val hit) :
    (count eng params : Run Db Error Int) db.val =
        (.ok (matching params hit db.val).length, db.val) ∧
      (Pageable params →
        (∃ rows page, (findAll eng params : Run Db Error _) db.val = (.ok rows, db.val) ∧
          rows.map Prod.fst = page.map EntryRow.fromRow ∧
          IsPage params (matching params hit db.val) page) ∧
        ∃ rows page, (findAllMetadata eng params : Run Db Error _) db.val = (.ok rows, db.val) ∧
          rows.map Prod.fst = page.map EntryMetadataRow.fromRow ∧
          IsPage params (matching params hit db.val) page) := by
  have hs := searchMatch_ok eng hhit
  refine ⟨count_ok eng htags hdomain hs, fun hp => ⟨?_, ?_⟩⟩
  · refine ⟨_, _, findAllRows_ok eng EntryRow.fromRow hids htags hdomain hs, ?_,
      leaders_isPage eng db hp⟩
    simp [Function.comp_def]
  · refine ⟨_, _, findAllRows_ok eng EntryMetadataRow.fromRow hids htags hdomain hs, ?_,
      leaders_isPage eng db hp⟩
    simp [Function.comp_def]

end page

/-- The second page of one entry, by creation time. -/
def secondPage : FindParams :=
  { userId := 1, sort := some .created, page := some 2, perPage := some 1 }

theorem Entries.listing_correct_secondPage :
    (count plainEngine secondPage : Run Db Error Int) shelf.val = (.ok 2, shelf.val) ∧
      ∃ rows page,
        (findAllMetadata plainEngine secondPage : Run Db Error _) shelf.val =
          (.ok rows, shelf.val) ∧
        rows.map Prod.fst = page.map EntryMetadataRow.fromRow ∧
        IsPage secondPage (matching secondPage (fun _ => true) shelf.val) page := by
  have hhit : IsMatchSet plainEngine secondPage shelf.val fun _ => true := rfl
  have h := listing_correct plainEngine (by decide) rfl rfl hhit
  have hp : Pageable secondPage := by
    refine ⟨?_, ?_, ?_⟩ <;> simp [secondPage]
  exact ⟨h.1, (h.2 hp).2⟩

end Articler
