import Mathlib.Data.Int.Interval
import Articler.Api.Entries
import Articler.Lib.Paging
import Articler.ReadPaths

/-! The pages of `GET /api/entries`, taken together. Each request runs a query of its own,
and the engine may order entries with equal sort keys differently each time. -/
namespace Articler.Api
open Txn Rows
variable {Url : Type} [UrlCrate Url] {K : Type} [Field K] [LinearOrder K]

/-- May `a` stand before `b` on the pages? -/
def EntriesRequest.allows (request : EntriesRequest) (a b : EntryRecord) : Bool :=
  match request.order with
  | .asc => nullsFirst (request.sort.value a) (request.sort.value b)
  | .desc => nullsFirst (request.sort.value b) (request.sort.value a)

def EntriesRequest.rows (request : EntriesRequest) (userId : Int) (db : Db) : List EntryRecord :=
  matching (request.params userId) (fun _ => true) db

def EntriesRequest.atPage (request : EntriesRequest) (k : Nat) : EntriesRequest :=
  { request with page := k + 1 }

/-- The number of pages that every response reports. -/
def EntriesRequest.pages (request : EntriesRequest) (userId : Int) (db : Db) : Nat :=
  (pageCount (request.rows userId db).length request.perPage).toNat

/-- Whatever the engine does for each page, all pages are served and their items are
together every matching entry, once. -/
def PagesPartition (Url : Type) [UrlCrate Url] (K : Type) [Field K] [LinearOrder K]
    (request : EntriesRequest) (userId : Int) (db : Db) : Prop :=
  ∀ eng : Nat → Engine K, ∃ responses : Nat → Entries Url,
    (∀ k < request.pages userId db,
      (entries (eng k) (request.atPage k) userId : Run Db Error _) db = (.ok (responses k), db) ∧
        (responses k).pages = request.pages userId db) ∧
    (((List.range (request.pages userId db)).flatMap fun k => (responses k).items).map
      Entry.id).Perm ((request.rows userId db).map EntryRecord.id)

theorem pageCount_spec (total : Nat) {perPage : Int} (h : 1 ≤ perPage) :
    0 ≤ pageCount total perPage ∧ (total : Int) ≤ pageCount total perPage * perPage ∧
      ∀ k : Int, k < pageCount total perPage → k * perPage < total := by
  have hq : pageCount total perPage = -(-(total : Int) / perPage) := by
    rw [pageCount, if_neg (by omega), Int.fdiv_eq_ediv_of_nonneg _ (by omega)]
  have hlow := Int.ediv_mul_le (-(total : Int)) (b := perPage) (by omega)
  have hhigh := Int.lt_ediv_add_one_mul_self (-(total : Int)) (b := perPage) (by omega)
  generalize -(total : Int) / perPage = q at hq hlow hhigh
  rw [Int.add_mul, Int.one_mul] at hhigh
  rw [hq]
  refine ⟨?_, ?_, fun k hk => ?_⟩
  · by_contra hneg
    have : 1 * perPage ≤ q * perPage := Int.mul_le_mul_of_nonneg_right (by omega) (by omega)
    omega
  · rw [Int.neg_mul]
    omega
  · have : k * perPage ≤ (-q - 1) * perPage :=
      Int.mul_le_mul_of_nonneg_right (by omega) (by omega)
    rw [Int.sub_mul, Int.neg_mul, Int.one_mul] at this
    omega

section pages
variable {request : EntriesRequest} {userId : Int} {db : Database}

theorem pushOrder_allows (eng : Engine K) (request : EntriesRequest) (userId : Int) (db : Db) :
    Articler.Entries.pushOrder eng (request.params userId) db = request.allows := by
  funext a b
  unfold Articler.Entries.pushOrder EntriesRequest.allows
  dsimp only [EntriesRequest.params]
  cases request.order <;> rfl

theorem allows_total (request : EntriesRequest) (a b : EntryRecord) :
    request.allows a b = true ∨ request.allows b a = true := by
  have h := pushOrder_total plainEngine (request.params 0) {} a b
  rwa [pushOrder_allows] at h

theorem inner_arranged (eng : Engine K) (request : EntriesRequest) (rows : List EntryRecord) :
    Arranged request.allows rows (eng.inner.run request.allows rows) := by
  refine ⟨eng.inner.perm _ _, eng.inner.sorted _ _ (allows_total request) ?_⟩
  have h := pushOrder_trans eng (request.params 0) {}
  rwa [pushOrder_allows] at h

theorem rows_atPage (request : EntriesRequest) (k : Nat) (userId : Int) (db : Db) :
    (request.atPage k).rows userId db = request.rows userId db := by
  rw [EntriesRequest.rows, EntriesRequest.rows, ← filter_predicates, ← filter_predicates]
  rfl

theorem pageRows_pageAt (eng : Engine K) (hperPage : 1 ≤ request.perPage) {k : Nat}
    (hoffset : k * request.perPage < 2 ^ 63) :
    Articler.Entries.pageRows eng ((request.atPage k).params userId) db.val (fun _ => true) =
      pageAt request.perPage.toNat k
        (eng.inner.run request.allows (request.rows userId db.val)) := by
  have hp : Pageable ((request.atPage k).params userId) := by
    refine ⟨?_, ?_, ?_⟩
    · rintro pp ⟨⟩
      exact hperPage
    · rintro p ⟨⟩
      dsimp only [EntriesRequest.atPage]
      omega
    · rintro pp p ⟨⟩ ⟨⟩
      dsimp only [EntriesRequest.atPage]
      rw [Int.add_sub_cancel]
      exact hoffset
  rw [pageRows_eq, pushLimit_window _ hp, pushOrder_allows, ← rows_atPage request k]
  change ((_ : List EntryRecord).drop (((k : Int) + 1 - 1) * request.perPage).toNat).take
    request.perPage.toNat = _
  rw [Int.add_sub_cancel, Int.toNat_mul (by omega) (by omega), Int.toNat_natCast]
  rfl

end pages

def Listable (Url : Type) [UrlCrate Url] (e : EntryRecord) : Prop :=
  fitsI32 e.id = true ∧ e.Readable Url

def listed {R : Type} (eng : Engine K) (params : FindParams) (fromRow : EntryRecord → R)
    (convert : R × List TagRow → Except Error (Entry Url)) (db : Db) :
    Except Error (List (Entry Url)) :=
  (Articler.Entries.gatherRows fromRow
    (Articler.Entries.rawRows eng params db fun _ => true)).bind fun rows => rows.mapM convert

section listed
variable {R : Type} {fromRow : EntryRecord → R}
  {convert : R × List TagRow → Except Error (Entry Url)} {eng : Engine K} {params : FindParams}
  {db : Database}

theorem listed_ok (hread : ∀ e tags, (∃ a, convert (fromRow e, tags) = .ok a) ↔ e.Readable Url)
    (h : ∀ e ∈ Articler.Entries.pageRows eng params db.val fun _ => true, Listable Url e) :
    ∃ items, listed eng params fromRow convert db.val = .ok items := by
  have hrow {r : JoinedRow} (hr : r ∈ Articler.Entries.rawRows eng params db.val fun _ => true) :
      Listable Url r.entry := h _ ((rawRows_entry eng).mp hr).2
  rw [listed, gatherRows_ok fromRow fun r hr => (hrow hr).1]
  refine mapM_ok fun r hr => ?_
  obtain ⟨l, hl, rfl⟩ := List.mem_map.mp hr
  exact (hread _ _).mpr (hrow (mem_of_leader hl)).2

theorem listed_inv (hread : ∀ e tags, (∃ a, convert (fromRow e, tags) = .ok a) ↔ e.Readable Url)
    (hid : ∀ e tags a, convert (fromRow e, tags) = .ok a → a.id = e.id) {items : List (Entry Url)}
    (h : listed eng params fromRow convert db.val = .ok items) :
    (∀ e ∈ Articler.Entries.pageRows eng params db.val fun _ => true, Listable Url e) ∧
      (items.map Entry.id).Perm
        ((Articler.Entries.pageRows eng params db.val fun _ => true).map EntryRecord.id) := by
  obtain ⟨rows, hgather, hitems⟩ := bind_eq_ok.mp h
  have hfits := gatherRows_fits hgather
  rw [gatherRows_ok fromRow hfits] at hgather
  obtain rfl := Except.ok.inj hgather
  have hconverted := List.forall₂_map_left_iff.mp (mapM_inv hitems)
  refine ⟨fun e he => ?_, ?_⟩
  · obtain ⟨l, hl, rfl⟩ := List.mem_map.mp ((leaders_page eng db).mem_iff.mpr he)
    obtain ⟨a, -, ha⟩ := exists_new hconverted hl
    exact ⟨hfits l (mem_of_leader hl), (hread _ _).mp ⟨a, ha⟩⟩
  · have hids : items.map Entry.id = (leaders (fun r : JoinedRow => r.entry.id)
        (Articler.Entries.rawRows eng params db.val fun _ => true)).map fun l => l.entry.id := by
      rw [← List.forall₂_eq_eq_eq, List.forall₂_map_left_iff, List.forall₂_map_right_iff]
      exact (hconverted.imp fun l a ha => (hid _ _ a ha)).flip
    rw [hids, ← Function.comp_def, ← List.map_map]
    exact (leaders_page eng db).map EntryRecord.id

omit [UrlCrate Url] in
theorem listed_error (hconvert : ∀ r, Converts (convert r)) {db : Db} {e : Error}
    (h : listed eng params fromRow convert db = .error e) :
    e.OfConversion ∨ ∃ column, e = .sqlx (.decode column) := by
  rw [listed, Articler.Entries.gatherRows] at h
  split at h
  · exact .inl (mapM_converts hconvert _ e h)
  · cases h
    exact .inr ⟨_, rfl⟩

end listed

def EntriesRequest.items (Url : Type) [UrlCrate Url] (eng : Engine K) (request : EntriesRequest)
    (userId : Int) (db : Db) : Except Error (List (Entry Url)) :=
  match request.detail with
  | .full =>
    listed eng (request.params userId) Articler.EntryRow.fromRow Entry.tryFromFull db
  | .metadata =>
    listed eng (request.params userId) Articler.EntryMetadataRow.fromRow Entry.tryFromMetadata db

section served
variable {request : EntriesRequest} {userId : Int} {db : Database} {eng : Engine K}

theorem items_ok
    (h : ∀ e ∈ Articler.Entries.pageRows eng (request.params userId) db.val fun _ => true,
      Listable Url e) : ∃ items, request.items Url eng userId db.val = .ok items := by
  rw [EntriesRequest.items]
  cases request.detail with
  | full => exact listed_ok (fun _ _ => Entry.tryFromFull_ok_iff) h
  | metadata => exact listed_ok (fun _ _ => Entry.tryFromMetadata_ok_iff) h

theorem items_inv {items : List (Entry Url)}
    (h : request.items Url eng userId db.val = .ok items) :
    (∀ e ∈ Articler.Entries.pageRows eng (request.params userId) db.val fun _ => true,
      Listable Url e) ∧
      (items.map Entry.id).Perm
        ((Articler.Entries.pageRows eng (request.params userId) db.val fun _ => true).map
          EntryRecord.id) := by
  rw [EntriesRequest.items] at h
  cases hdetail : request.detail with
  | full =>
    rw [hdetail] at h
    exact listed_inv (fun _ _ => Entry.tryFromFull_ok_iff) (fun _ _ _ => Entry.tryFromRow_id) h
  | metadata =>
    rw [hdetail] at h
    exact listed_inv (fun _ _ => Entry.tryFromMetadata_ok_iff) (fun _ _ _ => Entry.tryFromRow_id) h

theorem items_error {db : Db} {e : Error} (h : request.items Url eng userId db = .error e) :
    e.OfConversion ∨ ∃ column, e = .sqlx (.decode column) := by
  rw [EntriesRequest.items] at h
  cases hdetail : request.detail with
  | full | metadata =>
    rw [hdetail] at h
    exact listed_error (fun r => Entry.tryFromRow_converts _ _ _) h

/-- What `GET /api/entries` answers, given the items of its page. -/
def EntriesRequest.answer (request : EntriesRequest) (total : Int) (items : List (Entry Url)) :
    Except Error (Entries Url) :=
  let pages := pageCount total request.perPage
  if request.page > pages then .error (.notFound "Page not found")
  else (parseUrl "http://example.com").map fun url =>
    { page := request.page, limit := request.perPage, pages, total, items
      links := { self := url, first := some url, last := some url, next := some url } }

theorem answer_inv {total : Int} {items : List (Entry Url)} {response : Entries Url}
    (h : request.answer total items = .ok response) :
    response.pages = pageCount total request.perPage ∧ response.items = items := by
  dsimp only [EntriesRequest.answer] at h
  split at h
  · cases h
  · rcases hurl : (parseUrl "http://example.com" : Except Error Url) with e | url
    · rw [hurl] at h
      cases h
    · rw [hurl] at h
      cases h
      exact ⟨rfl, rfl⟩

theorem not_notFound {e : Error} (h : e.OfConversion ∨ ∃ column, e = .sqlx (.decode column))
    (msg : String) : e ≠ .notFound msg := by
  rintro rfl
  rcases h with (hurl | ⟨_, htime⟩) | ⟨_, hdecode⟩
  · cases hurl
  · cases htime
  · cases hdecode

theorem answer_notFound {total : Int} {items : List (Entry Url)} {msg : String}
    (h : request.answer total items = .error (.notFound msg)) :
    pageCount total request.perPage < request.page := by
  dsimp only [EntriesRequest.answer] at h
  split at h
  · assumption
  · rcases hurl : (parseUrl "http://example.com" : Except Error Url) with e | url
    · rw [hurl] at h
      exact absurd (Except.error.inj h) (not_notFound (.inl (parseUrl_converts _ _ hurl)) msg)
    · rw [hurl] at h
      cases h

theorem respond_run {db : Db} {total : Int} {items : Except Error (List (Entry Url))}
    {listing : Run Db Error (Int × List (Entry Url))}
    {answer : Int × List (Entry Url) → Run Db Error (Entries Url)}
    (h : listing db = (items.map fun items => (total, items), db))
    (hanswer : ∀ items, answer (total, items) db = (request.answer total items, db)) :
    (transaction listing >>= answer) db = (items.bind (request.answer total), db) := by
  rw [run_bind, run_transaction, h]
  rcases items with e | items
  · rfl
  · exact hanswer items

theorem answer_run {db : Db} (total : Int) (items : List (Entry Url)) :
    (if request.page > pageCount total request.perPage then fail (.notFound "Page not found")
    else do
      let url ← ofExcept (parseUrl "http://example.com")
      pure { page := request.page, limit := request.perPage
             pages := pageCount total request.perPage, total, items
             links := { self := url, first := some url, last := some url, next := some url } } :
      Run Db Error (Entries Url)) db = (request.answer total items, db) := by
  dsimp only [EntriesRequest.answer]
  split
  · rfl
  · rw [run_bind, run_ofExcept]
    rcases (parseUrl "http://example.com" : Except Error Url) with e | url <;> rfl

variable (htags : request.tags = none) (hdomain : request.domainName = none)
include htags hdomain

/-- It converts its page, then looks whether there is one. -/
theorem entries_run : (entries eng request userId : Run Db Error (Entries Url)) db.val =
    ((request.items Url eng userId db.val).bind
      (request.answer (request.rows userId db.val).length), db.val) := by
  have hcount : (Articler.Entries.count eng (request.params userId) : Run Db Error Int) db.val =
      (.ok (request.rows userId db.val).length, db.val) := count_ok eng htags hdomain rfl
  have hlisting {R : Type} (fromRow : EntryRecord → R)
      (convert : R × List TagRow → Except Error (Entry Url)) :
      (do
        let count ← Articler.Entries.count eng (request.params userId)
        let rows ← Articler.Entries.findAllRows eng (request.params userId) fromRow
        let ents ← ofExcept (rows.mapM convert)
        pure (count, ents) : Run Db Error (Int × List (Entry Url))) db.val =
        ((listed eng (request.params userId) fromRow convert db.val).map fun items =>
          (((request.rows userId db.val).length : Int), items), db.val) := by
    rw [run_bind_ok hcount, run_bind, findAllRows_run eng fromRow htags hdomain rfl, listed]
    rcases Articler.Entries.gatherRows fromRow _ with e | rows
    · rfl
    · dsimp only [Except.bind]
      rw [run_bind, run_ofExcept]
      rcases rows.mapM convert with e | items <;> rfl
  refine respond_run ?_ fun items => answer_run _ items
  rw [EntriesRequest.items]
  cases request.detail with
  | full => exact hlisting Articler.EntryRow.fromRow Entry.tryFromFull
  | metadata => exact hlisting Articler.EntryMetadataRow.fromRow Entry.tryFromMetadata

theorem entries_ok (hexample : ParsesAs Url "http://example.com")
    (hpage : request.page ≤ pageCount (request.rows userId db.val).length request.perPage)
    (h : ∀ e ∈ Articler.Entries.pageRows eng (request.params userId) db.val fun _ => true,
      Listable Url e) :
    ∃ response : Entries Url,
      (entries eng request userId : Run Db Error _) db.val = (.ok response, db.val) := by
  obtain ⟨url, hurl⟩ := parseUrl_ok_iff.mpr hexample
  obtain ⟨items, hitems⟩ := items_ok h
  rw [entries_run htags hdomain, hitems]
  dsimp only [Except.bind, EntriesRequest.answer]
  rw [if_neg (Int.not_lt.mpr hpage), hurl]
  exact ⟨_, rfl⟩

theorem entries_inv {t : Db} {response : Entries Url}
    (h : (entries eng request userId : Run Db Error _) db.val = (.ok response, t)) :
    response.pages = pageCount (request.rows userId db.val).length request.perPage ∧
      (∀ e ∈ Articler.Entries.pageRows eng (request.params userId) db.val fun _ => true,
        Listable Url e) ∧
      (response.items.map Entry.id).Perm
        ((Articler.Entries.pageRows eng (request.params userId) db.val fun _ => true).map
          EntryRecord.id) := by
  rw [entries_run htags hdomain] at h
  obtain ⟨items, hitems, hanswer⟩ := bind_eq_ok.mp (Prod.mk.inj h).1
  obtain ⟨hpages, rfl⟩ := answer_inv hanswer
  exact ⟨hpages, items_inv hitems⟩

/-- `404` says that there is no such page. -/
theorem entries_notFound {t : Db} {msg : String}
    (h : (entries eng request userId : Run Db Error (Entries Url)) db.val =
      (.error (.notFound msg), t)) :
    pageCount (request.rows userId db.val).length request.perPage < request.page := by
  rw [entries_run htags hdomain] at h
  have h := (Prod.mk.inj h).1
  cases hitems : request.items Url eng userId db.val with
  | error e =>
    rw [hitems] at h
    exact absurd (Except.error.inj h) (not_notFound (items_error hitems) msg)
  | ok items =>
    rw [hitems] at h
    exact answer_notFound h

end served

section partition
variable {request : EntriesRequest} {userId : Int} {db : Database}

/-- An engine with the given choice of order. -/
def ordering (K : Type) [Field K] (inner : OrderBy EntryRecord) : Engine K where
  fts5 := { query := fun _ _ => none, bm25 := fun _ _ _ _ _ => 0 }
  inner := inner
  outer := .stable JoinedRow

theorem mem_rows {eng : Engine K} {k : Nat} {e : EntryRecord}
    (he : e ∈ Articler.Entries.pageRows eng ((request.atPage k).params userId) db.val
      fun _ => true) : e ∈ request.rows userId db.val := by
  rw [← rows_atPage request k]
  obtain ⟨hm, hp⟩ := pageRows_sub eng db.val he
  exact List.mem_filter.mpr ⟨hm, decide_eq_true hp⟩

theorem rows_length (h : ∀ e ∈ request.rows userId db.val, Listable Url e) :
    (request.rows userId db.val).length ≤ 2 ^ 32 := by
  have hunique : ((request.rows userId db.val).map EntryRecord.id).Nodup :=
    matching_unique (request.params userId) (fun _ => true) db
  have hrange : ((request.rows userId db.val).map EntryRecord.id).toFinset ⊆
      Finset.Ico (-2 ^ 31) (2 ^ 31) := by
    intro id hid
    obtain ⟨e, he, rfl⟩ := List.mem_map.mp (List.mem_toFinset.mp hid)
    have hfits := (h e he).1
    simp only [fitsI32, Bool.and_eq_true, decide_eq_true_eq] at hfits
    exact Finset.mem_Ico.mpr hfits
  have hcard := Finset.card_le_card hrange
  rw [List.toFinset_card_of_nodup hunique, List.length_map, Int.card_Ico] at hcard
  exact hcard

theorem page_offset (hperPage : 1 ≤ request.perPage)
    (h : ∀ e ∈ request.rows userId db.val, Listable Url e) {k : Nat}
    (hk : k < request.pages userId db.val) : k * request.perPage < 2 ^ 63 := by
  have hlength := rows_length h
  obtain ⟨hpos, -, hbelow⟩ := pageCount_spec (request.rows userId db.val).length hperPage
  have := hbelow k (by rw [EntriesRequest.pages] at hk; omega)
  omega

variable (htags : request.tags = none) (hdomain : request.domainName = none)
  (hperPage : 1 ≤ request.perPage)
include htags hdomain

theorem PagesPartition.exists_page (h : PagesPartition Url K request userId db.val)
    (eng : Nat → Engine K) {e : EntryRecord} (he : e ∈ request.rows userId db.val) :
    ∃ k < request.pages userId db.val, Listable Url e ∧
      e ∈ Articler.Entries.pageRows (eng k) ((request.atPage k).params userId) db.val
        fun _ => true := by
  obtain ⟨responses, hserved, hperm⟩ := h eng
  have hid := hperm.mem_iff.mpr (List.mem_map_of_mem he)
  simp only [List.map_flatMap, List.mem_flatMap, List.mem_range] at hid
  obtain ⟨k, hk, hid⟩ := hid
  have htags' : (request.atPage k).tags = none := htags
  obtain ⟨-, hlistable, hitems⟩ := entries_inv htags' hdomain (hserved k hk).1
  obtain ⟨d, hd, hde⟩ := List.mem_map.mp (hitems.mem_iff.mp hid)
  have hsame : d = e := (matching_unique (request.params userId) (fun _ => true) db).eq_of_key
    (mem_rows hd) he hde
  exact ⟨k, hk, hsame ▸ hlistable d hd, hsame ▸ hd⟩

theorem PagesPartition.listable (h : PagesPartition Url K request userId db.val) :
    ∀ e ∈ request.rows userId db.val, Listable Url e := by
  intro e he
  obtain ⟨k, -, hlistable, -⟩ :=
    h.exists_page htags hdomain (fun _ => ordering K (.stable EntryRecord)) he
  exact hlistable

include hperPage

/-- A class of equal keys across a boundary lets the engine hide an entry. -/
theorem PagesPartition.cut (h : PagesPartition Url K request userId db.val) (i : Nat) :
    Cut request.allows (request.rows userId db.val) (i * request.perPage.toNat) := by
  by_contra hcut
  have hunique := (matching_unique (request.params userId) (fun _ => true) db).nodup
  obtain ⟨a, ha, order, hmissing⟩ := exists_missing (allows_total request) hunique hcut
  obtain ⟨k, hk, -, hpage⟩ := h.exists_page htags hdomain (fun k => ordering K (order k)) ha
  rw [pageRows_pageAt _ hperPage
    (page_offset hperPage (h.listable htags hdomain) hk)] at hpage
  exact hmissing k hpage

theorem PagesPartition.of_cut (hexample : ParsesAs Url "http://example.com")
    (hlistable : ∀ e ∈ request.rows userId db.val, Listable Url e)
    (hcut : ∀ i : Nat,
      Cut request.allows (request.rows userId db.val) (i * request.perPage.toNat)) :
    PagesPartition Url K request userId db.val := by
  intro eng
  obtain ⟨hpos, htotal, -⟩ :=
    pageCount_spec (request.rows userId db.val).length hperPage
  have htags' (k : Nat) : (request.atPage k).tags = none := htags
  have hdomain' (k : Nat) : (request.atPage k).domainName = none := hdomain
  have hserved (k : Nat) : ∃ response : Entries Url, k < request.pages userId db.val →
      (entries (eng k) (request.atPage k) userId : Run Db Error _) db.val =
        (.ok response, db.val) := by
    by_cases hk : k < request.pages userId db.val
    · have hpage : (request.atPage k).page ≤
          pageCount ((request.atPage k).rows userId db.val).length (request.atPage k).perPage := by
        rw [EntriesRequest.pages] at hk
        rw [rows_atPage]
        dsimp only [EntriesRequest.atPage]
        omega
      obtain ⟨response, hresponse⟩ : ∃ response : Entries Url,
          (entries (eng k) (request.atPage k) userId : Run Db Error _) db.val =
            (.ok response, db.val) :=
        entries_ok (htags' k) (hdomain' k) hexample hpage fun e he => hlistable e (mem_rows he)
      exact ⟨response, fun _ => hresponse⟩
    · obtain ⟨url, -⟩ := parseUrl_ok_iff.mpr hexample
      exact ⟨⟨0, 0, 0, 0, [], { self := url }⟩, fun hk' => absurd hk' hk⟩
  choose responses hresponses using hserved
  have hinv (k : Nat) (hk : k < request.pages userId db.val) :=
    entries_inv (htags' k) (hdomain' k) (hresponses k hk)
  refine ⟨responses, fun k hk => ⟨hresponses k hk, ?_⟩, ?_⟩
  · rw [(hinv k hk).1, rows_atPage, EntriesRequest.pages, Int.toNat_of_nonneg hpos]
    rfl
  · have hlength : (request.rows userId db.val).length ≤
        request.pages userId db.val * request.perPage.toNat := by
      rw [EntriesRequest.pages, ← Int.toNat_mul hpos (by omega)]
      omega
    have hpages := pages_perm (allows_total request) hlength
      (fun k => inner_arranged (eng k) request _) hcut
    rw [List.map_flatMap]
    refine (List.Perm.flatMap_left _ fun k hk => ?_).trans
      (List.map_flatMap ▸ hpages.map EntryRecord.id)
    have hk := List.mem_range.mp hk
    rw [← pageRows_pageAt (eng k) hperPage (page_offset hperPage hlistable hk)]
    exact (hinv k hk).2.2

/-- The pages partition the collection exactly if every matching row is listable and no
class of equal sort keys lies across a page boundary. -/
theorem pages_partition_iff (hexample : ParsesAs Url "http://example.com") :
    PagesPartition Url K request userId db.val ↔
      (∀ e ∈ request.rows userId db.val, Listable Url e) ∧
        ∀ i : Nat, Cut request.allows (request.rows userId db.val) (i * request.perPage.toNat) :=
  ⟨fun h => ⟨h.listable htags hdomain, h.cut htags hdomain hperPage⟩,
    fun ⟨hlistable, hcut⟩ => .of_cut htags hdomain hperPage hexample hlistable hcut⟩

end partition

theorem shelf_listable : ∀ e ∈ shelf.val.entries, Listable HttpText e := by
  intro e he
  have hconverts : fitsI32 e.id = true ∧
      ∃ a : Entry HttpText, Entry.tryFromFull (EntryRow.fromRow e, []) = .ok a := by
    simp only [shelf, List.mem_cons, List.not_mem_nil, or_false] at he
    rcases he with rfl | rfl
    · exact ⟨rfl, _, rfl⟩
    · exact ⟨rfl, _, rfl⟩
  exact hconverts.imp_right Entry.tryFromFull_ok_iff.mp

/-- Two entries of different seconds, one on a page. -/
theorem pages_partition_shelf :
    PagesPartition HttpText ℚ { perPage := 1 } 1 shelf.val :=
  (pages_partition_iff rfl rfl (by decide) (by decide)).mpr
    ⟨fun e he => shelf_listable e (List.mem_filter.mp he).1, fun i => .of_upto (by decide) _⟩

/-- The shelf, had both entries been added in the same second. -/
def twins : Database where
  val := { shelf.val with entries := shelf.val.entries.map fun e => { e with createdAt := 10 } }
  property := by decide

/-- The first entry may be on neither page, or on both. -/
theorem twins_overlap : ¬ PagesPartition HttpText ℚ { perPage := 1 } 1 twins.val := by
  intro h
  exact absurd (h.cut rfl rfl (by decide) 1) (by decide)

end Articler.Api
