import Articler.Pages
import Mathlib.Algebra.Order.Field.Basic
import Mathlib.Data.Rat.Floor

/-! Which pages `GET /api/entries` serves, for all values of `page` and `perPage` that the
query string can carry. -/
namespace Articler.Api
open Txn Rows

def FitsI64 (n : Int) : Prop := -2 ^ 63 ≤ n ∧ n < 2 ^ 63

instance (n : Int) : Decidable (FitsI64 n) := inferInstanceAs (Decidable (_ ∧ _))

/-- The offset that `push_limit` computes, with what it computes on the way. -/
def EntriesRequest.OffsetFits (request : EntriesRequest) : Prop :=
  FitsI64 (request.page - 1) ∧ FitsI64 ((request.page - 1) * request.perPage)

instance (request : EntriesRequest) : Decidable request.OffsetFits :=
  inferInstanceAs (Decidable (_ ∧ _))

/-- The values of `page` and `perPage` are `i64`s. -/
structure EntriesRequest.Carried (request : EntriesRequest) : Prop where
  page : FitsI64 request.page
  perPage : FitsI64 request.perPage

/-- A page number from one on for pages of some size, or one that is turned down: beyond the
only page there is if pages are empty, or if their size is negative. -/
def EntriesRequest.Bounded (request : EntriesRequest) (total : Nat) : Prop :=
  1 ≤ request.perPage ∧ 1 ≤ request.page ∨
    request.perPage = 0 ∧ total = 0 ∧ 1 ≤ request.page ∨
    request.perPage < 0 ∧ (request.page - 1) * request.perPage ≤ total

instance (request : EntriesRequest) (total : Nat) : Decidable (request.Bounded total) :=
  inferInstanceAs (Decidable (_ ∨ _))

section arithmetic
variable {total : Nat} {page perPage : Int}

theorem le_pageCount_iff (h : 1 ≤ perPage) :
    page ≤ pageCount total perPage ↔ (page - 1) * perPage < total := by
  obtain ⟨-, htotal, hbelow⟩ := pageCount_spec total h
  constructor
  · exact fun hpage => hbelow (page - 1) (by omega)
  · intro hoffset
    by_contra hpage
    have : pageCount total perPage * perPage ≤ (page - 1) * perPage :=
      Int.mul_le_mul_of_nonneg_right (by omega) (by omega)
    omega

theorem le_ceil_iff (h : 1 ≤ perPage) :
    page ≤ ⌈(total : ℚ) / perPage⌉ ↔ page ≤ pageCount total perPage := by
  have hpos : (0 : ℚ) < perPage := by exact_mod_cast h
  rw [le_pageCount_iff h, Int.le_ceil_iff, lt_div_iff₀ hpos]
  exact_mod_cast Iff.rfl

theorem le_pageCount_zero_iff (hpage : FitsI64 page) :
    page ≤ pageCount total 0 ↔ total ≠ 0 ∨ page ≤ 0 := by
  obtain ⟨-, hpage⟩ := hpage
  rw [pageCount, if_pos rfl]
  split <;> omega

/-- A negative size counts pages from the other end. -/
theorem le_pageCount_neg_iff (h : perPage < 0) :
    page ≤ pageCount total perPage ↔ total < (page - 1) * perPage := by
  have hq : pageCount total perPage = -(total / -perPage) := by
    rw [pageCount, if_neg (by omega), ← Int.neg_fdiv_neg, Int.neg_neg,
      Int.fdiv_eq_ediv_of_nonneg _ (by omega)]
  have hlow := Int.ediv_mul_le (total : Int) (b := -perPage) (by omega)
  have hhigh := Int.lt_ediv_add_one_mul_self (total : Int) (b := -perPage) (by omega)
  generalize (total : Int) / -perPage = q at hq hlow hhigh
  rw [hq]
  constructor
  · intro hpage
    have : (q + 1) * -perPage ≤ (1 - page) * -perPage :=
      Int.mul_le_mul_of_nonneg_right (by omega) (by omega)
    have hneg : (1 - page) * -perPage = (page - 1) * perPage := by
      rw [Int.mul_neg, ← Int.neg_mul, Int.neg_sub]
    omega
  · intro hoffset
    by_contra hpage
    have : (1 - page) * -perPage ≤ q * -perPage :=
      Int.mul_le_mul_of_nonneg_right (by omega) (by omega)
    have hneg : (1 - page) * -perPage = (page - 1) * perPage := by
      rw [Int.mul_neg, ← Int.neg_mul, Int.neg_sub]
    omega

theorem bounded_of_le {request : EntriesRequest} (hc : request.Carried)
    (hpage : request.page ≤ pageCount total request.perPage) :
    request.Bounded total ↔ 1 ≤ request.perPage ∧ 1 ≤ request.page := by
  rcases Int.lt_trichotomy request.perPage 0 with hneg | hzero | hpos
  · have := (le_pageCount_neg_iff hneg).mp hpage
    simp only [EntriesRequest.Bounded]
    omega
  · rw [hzero, le_pageCount_zero_iff hc.page] at hpage
    simp only [EntriesRequest.Bounded]
    omega
  · simp only [EntriesRequest.Bounded]
    omega

theorem le_of_not_bounded {request : EntriesRequest} (hc : request.Carried)
    (h : ¬ request.Bounded total) : request.page ≤ pageCount total request.perPage := by
  simp only [EntriesRequest.Bounded] at h
  rcases Int.lt_trichotomy request.perPage 0 with hneg | hzero | hpos
  · exact (le_pageCount_neg_iff hneg).mpr (by omega)
  · rw [hzero, le_pageCount_zero_iff hc.page]
    omega
  · obtain ⟨hcount, -, -⟩ := pageCount_spec total (show 1 ≤ request.perPage by omega)
    omega

end arithmetic
section served
variable {Url : Type} [UrlCrate Url] {K : Type} [Field K] [LinearOrder K] {request : EntriesRequest}
  {userId : Int} {db : Database} {eng : Engine K}

theorem entries_supported {t : Db} {response : Entries Url}
    (h : (entries eng request userId : Run Db Error _) db.val = (.ok response, t)) :
    request.tags = none ∧ request.domainName = none := by
  obtain ⟨_, s, hlisting, -⟩ := bind_ok_inv h
  obtain ⟨count, u, hcount, -⟩ := bind_ok_inv (transaction_ok_iff.mp hlisting)
  obtain ⟨htags, hdomain, -⟩ := count_inv eng hcount
  exact ⟨htags, hdomain⟩

variable (htags : request.tags = none) (hdomain : request.domainName = none)

include htags hdomain in
theorem entries_le {t : Db} {response : Entries Url}
    (h : (entries eng request userId : Run Db Error _) db.val = (.ok response, t)) :
    request.page ≤ pageCount (request.rows userId db.val).length request.perPage ∧
      response.total = (request.rows userId db.val).length := by
  rw [entries_run htags hdomain] at h
  obtain ⟨items, -, hanswer⟩ := bind_eq_ok.mp (Prod.mk.inj h).1
  dsimp only [EntriesRequest.answer] at hanswer
  split at hanswer
  · cases hanswer
  · rename_i hpage
    rcases hurl : (parseUrl "http://example.com" : Except Error Url) with e | url
    · rw [hurl] at hanswer
      cases hanswer
    · rw [hurl] at hanswer
      cases hanswer
      exact ⟨Int.not_lt.mp hpage, rfl⟩

/-- A page that exists is cut at its offset. -/
theorem pageRows_length (hperPage : 1 ≤ request.perPage) (hpage : 1 ≤ request.page)
    (hoffset : (request.page - 1) * request.perPage < 2 ^ 63)
    (hlt : (request.page - 1) * request.perPage < (request.rows userId db.val).length) :
    ((Articler.Entries.pageRows eng (request.params userId) db.val fun _ => true).length : Int) =
      min request.perPage
        ((request.rows userId db.val).length - (request.page - 1) * request.perPage) := by
  obtain ⟨k, hk⟩ := Int.eq_ofNat_of_zero_le (show 0 ≤ request.page - 1 by omega)
  have hatPage : request.atPage k = request := by
    obtain ⟨archive, starred, sort, order, page, perPage, tags, since, isPublic, detail, domainName⟩ :=
      request
    dsimp only [EntriesRequest.atPage] at hk ⊢
    congr 1
    omega
  rw [hk] at hoffset hlt ⊢
  have hrows : Articler.Entries.pageRows eng ((request.atPage k).params userId) db.val
      (fun _ => true) = pageAt request.perPage.toNat k
        (eng.inner.run request.allows (request.rows userId db.val)) :=
    pageRows_pageAt eng hperPage hoffset
  rw [hatPage] at hrows
  have hlength := (eng.inner.perm request.allows (request.rows userId db.val)).length_eq
  have hsize : ((request.perPage.toNat : Nat) : Int) = request.perPage := Int.toNat_of_nonneg (by omega)
  have hskip : ((k * request.perPage.toNat : Nat) : Int) = k * request.perPage := by
    rw [Nat.cast_mul, hsize]
  rw [hrows, pageAt, List.length_take, List.length_drop, hlength]
  omega

end served

/-- What makes the answer to a page safe: the offset fits wherever it is computed, and a page
that is served is one of the pages, with all of its items. -/
structure PagingSafe (Url : Type) [UrlCrate Url] {K : Type} [Field K] [LinearOrder K] (eng : Engine K)
    (request : EntriesRequest) (userId : Int) (db : Db) : Prop where
  offset : request.tags = none → request.domainName = none → request.OffsetFits
  served : ∀ (response : Entries Url) (t : Db),
    (entries eng request userId : Run Db Error _) db = (.ok response, t) →
      1 ≤ request.perPage ∧ 1 ≤ request.page ∧
        request.page ≤ max 1 ⌈((request.rows userId db).length : ℚ) / request.perPage⌉ ∧
        (response.items.length : Int) = min request.perPage
          ((request.rows userId db).length - (request.page - 1) * request.perPage)

/-- A row that is read for the page cannot be listed, so that the answer is an error. -/
def Unlistable (Url : Type) [UrlCrate Url] {K : Type} [Field K] [LinearOrder K] (eng : Engine K)
    (request : EntriesRequest) (userId : Int) (db : Db) : Prop :=
  ∃ e ∈ Articler.Entries.pageRows eng (request.params userId) db fun _ => true, ¬ Listable Url e

section safe
variable {Url : Type} [UrlCrate Url] {K : Type} [Field K] [LinearOrder K] {request : EntriesRequest}
  {userId : Int} {db : Database} {eng : Engine K}

theorem paging_safe_iff (hexample : ParsesAs Url "http://example.com") (hc : request.Carried) :
    PagingSafe Url eng request userId db.val ↔
      (request.tags = none → request.domainName = none → request.OffsetFits ∧
        (request.Bounded (request.rows userId db.val).length ∨
          Unlistable Url eng request userId db.val)) := by
  constructor
  · intro h htags hdomain
    refine ⟨h.offset htags hdomain, ?_⟩
    by_contra hneither
    obtain ⟨hbounded, hlistable⟩ := not_or.mp hneither
    have hall : ∀ e ∈ Articler.Entries.pageRows eng (request.params userId) db.val fun _ => true,
        Listable Url e := by
      intro e he
      by_contra hnot
      exact hlistable ⟨e, he, hnot⟩
    have hpage := le_of_not_bounded hc hbounded
    obtain ⟨response, hresponse⟩ := entries_ok htags hdomain hexample hpage hall
    obtain ⟨hperPage, hfirst, -⟩ := h.served response _ hresponse
    exact hbounded (.inl ⟨hperPage, hfirst⟩)
  · intro h
    refine ⟨fun htags hdomain => (h htags hdomain).1, fun response t hresponse => ?_⟩
    obtain ⟨htags, hdomain⟩ := entries_supported hresponse
    obtain ⟨hoffset, hbounded⟩ := h htags hdomain
    obtain ⟨-, hlistable, hitems⟩ := entries_inv htags hdomain hresponse
    have hpage := (entries_le htags hdomain hresponse).1
    have hbounded := hbounded.resolve_right fun ⟨e, he, hnot⟩ => hnot (hlistable e he)
    obtain ⟨hperPage, hfirst⟩ := (bounded_of_le hc hpage).mp hbounded
    have hlt := (le_pageCount_iff hperPage).mp hpage
    have hlength := hitems.length_eq
    rw [List.length_map, List.length_map] at hlength
    refine ⟨hperPage, hfirst, ((le_ceil_iff hperPage).mpr hpage).trans (le_max_right 1 _), ?_⟩
    rw [hlength]
    exact pageRows_length hperPage hfirst hoffset.2.2 hlt

end safe

theorem paging_safe_shelf : PagingSafe HttpText plainEngine { perPage := 1 } 1 shelf.val :=
  (paging_safe_iff (by decide) ⟨by decide, by decide⟩).mpr
    fun _ _ => ⟨by decide, .inl (by decide)⟩

/-- Page 0 and pages of size 0 are served, and the offset of a page may not fit. -/
theorem shelf_unsafe : ¬ PagingSafe HttpText plainEngine { page := 0 } 1 shelf.val ∧
    ¬ PagingSafe HttpText plainEngine { perPage := 0 } 1 shelf.val ∧
    ¬ PagingSafe HttpText plainEngine { page := 3, perPage := 2 ^ 62 } 1 shelf.val :=
  ⟨fun h => absurd (h.served _ _ rfl).2.1 (by decide),
    fun h => absurd (h.served _ _ rfl).1 (by decide),
    fun h => absurd (h.offset rfl rfl) (by decide)⟩

def EntriesRequest.onPage (request : EntriesRequest) (page : Int) : EntriesRequest :=
  { request with page }

/-- Whatever page there is gets served, and the first one always; the others are not found. -/
structure PagesServed (Url : Type) [UrlCrate Url] {K : Type} [Field K] [LinearOrder K]
    (eng : Engine K) (request : EntriesRequest) (userId : Int) (db : Db) : Prop where
  found : ∀ page : Int, FitsI64 page →
    page = 1 ∨ 1 ≤ page ∧ page ≤ ⌈((request.rows userId db).length : ℚ) / request.perPage⌉ →
      ∃ response : Entries Url,
        (entries eng (request.onPage page) userId : Run Db Error _) db = (.ok response, db) ∧
          response.total = (request.rows userId db).length
  missing : ∀ page : Int, FitsI64 page → 2 ≤ page →
    ⌈((request.rows userId db).length : ℚ) / request.perPage⌉ < page →
      ∃ msg, (entries eng (request.onPage page) userId : Run Db Error (Entries Url)) db =
        (.error (.notFound msg), db)

section served
variable {Url : Type} [UrlCrate Url] {K : Type} [Field K] [LinearOrder K] {request : EntriesRequest}
  {userId : Int} {db : Database} {eng : Engine K}

theorem rows_onPage (request : EntriesRequest) (page : Int) (userId : Int) (db : Db) :
    (request.onPage page).rows userId db = request.rows userId db := by
  rw [EntriesRequest.rows, EntriesRequest.rows, ← filter_predicates, ← filter_predicates]
  rfl

/-- The pages are served as they should be exactly if there is anything to serve. -/
theorem pages_served_iff (hexample : ParsesAs Url "http://example.com")
    (htags : request.tags = none) (hdomain : request.domainName = none)
    (hperPage : 1 ≤ request.perPage)
    (hlistable : ∀ e ∈ request.rows userId db.val, Listable Url e) :
    PagesServed Url eng request userId db.val ↔ request.rows userId db.val ≠ [] := by
  have htags' (page : Int) : (request.onPage page).tags = none := htags
  have hdomain' (page : Int) : (request.onPage page).domainName = none := hdomain
  have hread (page : Int) : ∀ e ∈ Articler.Entries.pageRows eng ((request.onPage page).params userId)
      db.val fun _ => true, Listable Url e := by
    intro e he
    obtain ⟨hm, hp⟩ := pageRows_sub eng db.val he
    refine hlistable e (rows_onPage request page userId db.val ▸ ?_)
    exact List.mem_filter.mpr ⟨hm, decide_eq_true hp⟩
  constructor
  · intro h hempty
    obtain ⟨response, hresponse, -⟩ := h.found 1 (by decide) (.inl rfl)
    have hpage := (entries_le (htags' 1) (hdomain' 1) hresponse).1
    rw [rows_onPage, hempty] at hpage
    have := (le_pageCount_iff hperPage).mp hpage
    simp [EntriesRequest.onPage] at this
  · intro hrows
    have hpos := List.length_pos_iff.mpr hrows
    refine ⟨fun page _ hpage => ?_, fun page _ _ hpage => ?_⟩
    · have hle : page ≤ pageCount (request.rows userId db.val).length request.perPage := by
        rcases hpage with rfl | ⟨-, hpage⟩
        · exact (le_pageCount_iff hperPage).mpr (by omega)
        · exact (le_ceil_iff hperPage).mp hpage
      rw [← rows_onPage request page] at hle
      obtain ⟨response, hresponse⟩ := entries_ok (htags' page) (hdomain' page) hexample hle
        (hread page)
      have htotal := (entries_le (htags' page) (hdomain' page) hresponse).2
      exact ⟨response, hresponse, rows_onPage request page userId db.val ▸ htotal⟩
    · have hlt : pageCount (request.rows userId db.val).length request.perPage < page :=
        not_le.mp fun hle => not_le.mpr hpage ((le_ceil_iff hperPage).mpr hle)
      obtain ⟨items, hitems⟩ := items_ok (hread page)
      refine ⟨"Page not found", ?_⟩
      rw [entries_run (htags' page) (hdomain' page), hitems, rows_onPage]
      dsimp only [Except.bind, EntriesRequest.answer]
      exact congrArg (·, db.val) (if_pos hlt)

end served

theorem pages_served_shelf : PagesServed HttpText plainEngine { perPage := 1 } 1 shelf.val :=
  (pages_served_iff (by decide) rfl rfl (by decide)
    fun e he => shelf_listable e (List.mem_filter.mp he).1).mpr (by decide)

/-- Nothing is new: the first page is not found. -/
theorem shelf_unserved : ¬ PagesServed HttpText plainEngine { since := 1000 } 1 shelf.val := by
  intro h
  obtain ⟨response, hresponse, -⟩ := h.found 1 (by decide) (.inl rfl)
  have hnone : (entries plainEngine { since := 1000, page := 1 } 1 : Run Db Error (Entries HttpText))
      shelf.val = (.error (.notFound "Page not found"), shelf.val) := rfl
  cases (Prod.mk.inj (hresponse.symm.trans hnone)).1

end Articler.Api
