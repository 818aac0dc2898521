import Articler.Links
import Articler.ReadPaths
import Articler.Web.Ui

/-! The boolean filters of a listing: which entries a filter set to true and one set to
false leave out together. -/
namespace Articler
open Txn Rows

inductive Filter where
  | archive | starred | isPublic
deriving DecidableEq, Repr

def Filter.column (e : EntryRecord) : Filter → Option Bool
  | .archive => some e.isArchived
  | .starred => some e.isStarred
  | .isPublic => e.isPublic

def Filter.set (value : Option Bool) (params : FindParams) : Filter → FindParams
  | .archive => { params with archive := value }
  | .starred => { params with starred := value }
  | .isPublic => { params with isPublic := value }

theorem EntryRow.fromRow_injective : Function.Injective EntryRow.fromRow := by
  rintro ⟨⟩ ⟨⟩ h
  simpa [EntryRow.fromRow] using h

section listing
variable {K : Type} [Field K] [LinearOrder K] (eng : Engine K)

structure Lists (params : FindParams) (db : Db) (es : List EntryRecord) : Prop where
  full : ∃ rows, (Entries.findAll eng params : Run Db Error _) db = (.ok rows, db) ∧
    rows.map Prod.fst = es.map EntryRow.fromRow
  metadata : ∃ rows, (Entries.findAllMetadata eng params : Run Db Error _) db = (.ok rows, db) ∧
    rows.map Prod.fst = es.map EntryMetadataRow.fromRow

def Counts (params : FindParams) (db : Db) (n : Nat) : Prop :=
  (Entries.count eng params : Run Db Error Int) db = (.ok n, db)

/-- The two values of a filter split what is listed and counted without it. -/
structure Splits (filter : Filter) (params : FindParams) (db : Db) : Prop where
  listing : ∀ all, Lists eng (filter.set none params) db all →
    ∃ yes no, Lists eng (filter.set (some true) params) db yes ∧
      Lists eng (filter.set (some false) params) db no ∧ yes.Disjoint no ∧ (yes ++ no).Perm all
  count : ∀ n, Counts eng (filter.set none params) db n →
    ∃ yes no, Counts eng (filter.set (some true) params) db yes ∧
      Counts eng (filter.set (some false) params) db no ∧ yes + no = n

/-- They split the entries whose column is not NULL. -/
structure SplitsKnown (filter : Filter) (params : FindParams) (db : Db) : Prop where
  listing : ∀ all, Lists eng (filter.set none params) db all →
    ∃ yes no, Lists eng (filter.set (some true) params) db yes ∧
      Lists eng (filter.set (some false) params) db no ∧ yes.Disjoint no ∧
      (yes ++ no).Perm (all.filter fun e => (filter.column e).isSome)
  count : ∀ n, Counts eng (filter.set none params) db n →
    ∃ hit yes no, Entries.searchMatch eng params db = .ok hit ∧
      Counts eng (filter.set (some true) params) db yes ∧
      Counts eng (filter.set (some false) params) db no ∧
      yes + no + ((matching (filter.set none params) hit db).countP
        fun e => (filter.column e).isNone) = n

section split
variable {params : FindParams} {hit : Int → Bool}

omit [Field K] [LinearOrder K] in
theorem matching_set (filter : Filter) (b : Bool) (db : Db) :
    matching (filter.set (some b) params) hit db =
      (matching (filter.set none params) hit db).filter fun e => filter.column e = some b := by
  rw [matching, matching, List.filter_filter]
  refine List.filter_congr fun e _ => ?_
  rw [Bool.eq_iff_iff, Bool.and_eq_true, decide_eq_true_iff, decide_eq_true_iff, decide_eq_true_iff]
  constructor
  · rintro ⟨h1, h2, h3, h4, h5, h6⟩
    cases filter with
    | archive => exact ⟨congrArg some (h3 b rfl), h1, h2, nofun, h4, h5, h6⟩
    | starred => exact ⟨congrArg some (h4 b rfl), h1, h2, h3, nofun, h5, h6⟩
    | isPublic => exact ⟨h5 b rfl, h1, h2, h3, h4, nofun, h6⟩
  · rintro ⟨hcolumn, h1, h2, h3, h4, h5, h6⟩
    cases filter with
    | archive => exact ⟨h1, h2, by rintro _ ⟨⟩; exact Option.some.inj hcolumn, h4, h5, h6⟩
    | starred => exact ⟨h1, h2, h3, by rintro _ ⟨⟩; exact Option.some.inj hcolumn, h5, h6⟩
    | isPublic => exact ⟨h1, h2, h3, h4, by rintro _ ⟨⟩; exact hcolumn, h6⟩

def gatheredEntries (params : FindParams) (hit : Int → Bool) (db : Db) : List EntryRecord :=
  (leaders (fun r => r.entry.id) (Entries.rawRows eng params db hit)).map JoinedRow.entry

variable {db : Database}

theorem gatheredEntries_perm (hpage : params.perPage = none) :
    (gatheredEntries eng params hit db.val).Perm (matching params hit db.val) := by
  have hrows : Entries.pageRows eng params db.val hit =
      eng.inner.run (Entries.pushOrder eng params db.val) (matching params hit db.val) := by
    rw [pageRows_eq, Entries.pushLimit, hpage]
  exact (leaders_page eng db).trans (hrows ▸ eng.inner.perm _ _)

theorem Lists.inv {es : List EntryRecord} (h : Lists eng params db.val es) :
    params.tags = none ∧ params.domainName = none ∧
      ∃ hit, Entries.searchMatch eng params db.val = .ok hit ∧
        es = gatheredEntries eng params hit db.val ∧ ∀ e ∈ es, fitsI32 e.id = true := by
  obtain ⟨rows, hrows, hes⟩ := h.full
  obtain ⟨htags, hdomain, hit, hs, hgather⟩ := findAllRows_gathered eng hrows
  have hfits := gatherRows_fits hgather
  rw [gatherRows_ok _ hfits] at hgather
  obtain rfl := Except.ok.inj hgather
  have heq : es = gatheredEntries eng params hit db.val := by
    refine List.map_injective_iff.mpr EntryRow.fromRow_injective ?_
    rw [← hes, gatheredEntries, List.map_map, List.map_map]
    rfl
  refine ⟨htags, hdomain, hit, hs, heq, fun e he => ?_⟩
  obtain ⟨l, hl, rfl⟩ := List.mem_map.mp (heq ▸ he)
  exact hfits l (mem_of_leader hl)

theorem Lists.of_fits (htags : params.tags = none) (hdomain : params.domainName = none)
    (hs : Entries.searchMatch eng params db.val = .ok hit)
    (hfits : ∀ e ∈ gatheredEntries eng params hit db.val, fitsI32 e.id = true) :
    Lists eng params db.val (gatheredEntries eng params hit db.val) := by
  have hpage : ∀ e ∈ Entries.pageRows eng params db.val hit, fitsI32 e.id = true :=
    fun e he => hfits e ((leaders_page eng db).mem_iff.mpr he)
  refine ⟨⟨_, findAllRows_of_fits eng _ htags hdomain hs hpage, ?_⟩,
    ⟨_, findAllRows_of_fits eng _ htags hdomain hs hpage, ?_⟩⟩ <;>
  rw [gatheredEntries, List.map_map, List.map_map] <;> rfl

omit [Field K] [LinearOrder K] in
theorem searchMatch_set (filter : Filter) (value : Option Bool) (db : Db) :
    Entries.searchMatch eng (filter.set value params) db = Entries.searchMatch eng params db := by
  cases filter <;> rfl

theorem filter_column (filter : Filter) (es : List EntryRecord) :
    ((es.filter fun e => filter.column e = some true) ++
      es.filter fun e => filter.column e = some false).Perm
        (es.filter fun e => (filter.column e).isSome) := by
  have hsplit := List.filter_append_perm (fun e => decide (filter.column e = some true))
    (es.filter fun e => (filter.column e).isSome)
  rw [List.filter_filter, List.filter_filter] at hsplit
  have hyes : (es.filter fun e => decide (filter.column e = some true) &&
      (filter.column e).isSome) = es.filter fun e => filter.column e = some true :=
    List.filter_congr fun e _ => by rcases filter.column e with _ | _ | _ <;> rfl
  have hno : (es.filter fun e => !decide (filter.column e = some true) &&
      (filter.column e).isSome) = es.filter fun e => filter.column e = some false :=
    List.filter_congr fun e _ => by rcases filter.column e with _ | _ | _ <;> rfl
  rwa [hyes, hno] at hsplit

theorem Filter.set_tags (filter : Filter) (value : Option Bool) :
    (filter.set value params).tags = params.tags := by
  cases filter <;> rfl

theorem Filter.set_domainName (filter : Filter) (value : Option Bool) :
    (filter.set value params).domainName = params.domainName := by
  cases filter <;> rfl

theorem Filter.set_perPage (filter : Filter) (value : Option Bool) :
    (filter.set value params).perPage = params.perPage := by
  cases filter <;> rfl

theorem gatheredEntries_set (filter : Filter) (hit : Int → Bool) (db : Database)
    (hpage : params.perPage = none) (b : Bool) :
    (gatheredEntries eng (filter.set (some b) params) hit db.val).Perm
      ((gatheredEntries eng (filter.set none params) hit db.val).filter fun e =>
        filter.column e = some b) := by
  have hall (value : Option Bool) : (filter.set value params).perPage = none :=
    (filter.set_perPage value).trans hpage
  refine (gatheredEntries_perm eng (hall _)).trans ?_
  rw [matching_set]
  exact (gatheredEntries_perm eng (hall _)).symm.filter _

theorem lists_split (filter : Filter) (hpage : params.perPage = none) {all : List EntryRecord}
    (hall : Lists eng (filter.set none params) db.val all) :
    ∃ yes no, Lists eng (filter.set (some true) params) db.val yes ∧
      Lists eng (filter.set (some false) params) db.val no ∧ yes.Disjoint no ∧
      (yes ++ no).Perm (all.filter fun e => (filter.column e).isSome) := by
  obtain ⟨htags, hdomain, hit, hs, rfl, hfits⟩ := hall.inv eng
  rw [searchMatch_set] at hs
  rw [filter.set_tags] at htags
  rw [filter.set_domainName] at hdomain
  have hperm (b : Bool) := gatheredEntries_set eng filter hit db hpage b
  have hlists (b : Bool) : Lists eng (filter.set (some b) params) db.val
      (gatheredEntries eng (filter.set (some b) params) hit db.val) :=
    .of_fits eng ((filter.set_tags _).trans htags) ((filter.set_domainName _).trans hdomain)
      (by rw [searchMatch_set, hs]) fun e he =>
        hfits e (List.mem_filter.mp ((hperm b).mem_iff.mp he)).1
  have hcolumn (b : Bool) {e : EntryRecord}
      (he : e ∈ gatheredEntries eng (filter.set (some b) params) hit db.val) :
      filter.column e = some b :=
    of_decide_eq_true (List.mem_filter.mp ((hperm b).mem_iff.mp he)).2
  refine ⟨_, _, hlists true, hlists false, fun e hyes hno => ?_,
    ((hperm true).append (hperm false)).trans (filter_column filter _)⟩
  have hboth := (hcolumn true hyes).symm.trans (hcolumn false hno)
  cases hboth

omit [Field K] [LinearOrder K] in
theorem counts_split (filter : Filter) {n : Nat}
    (hn : Counts eng (filter.set none params) db.val n) :
    ∃ hit yes no, Entries.searchMatch eng params db.val = .ok hit ∧
      Counts eng (filter.set (some true) params) db.val yes ∧
      Counts eng (filter.set (some false) params) db.val no ∧
      yes + no + ((matching (filter.set none params) hit db.val).countP
        fun e => (filter.column e).isNone) = n := by
  obtain ⟨htags, hdomain, hit, hs, hlength⟩ := count_inv eng hn
  rw [searchMatch_set] at hs
  rw [filter.set_tags] at htags
  rw [filter.set_domainName] at hdomain
  have hcounts (b : Bool) : Counts eng (filter.set (some b) params) db.val
      (matching (filter.set (some b) params) hit db.val).length :=
    count_ok eng ((filter.set_tags _).trans htags) ((filter.set_domainName _).trans hdomain)
      (by rw [searchMatch_set, hs])
  refine ⟨hit, _, _, hs, hcounts true, hcounts false, ?_⟩
  have hknown := (filter_column filter (matching (filter.set none params) hit db.val)).length_eq
  have hall := List.length_eq_countP_add_countP (fun e => (filter.column e).isSome)
    (l := matching (filter.set none params) hit db.val)
  rw [List.length_append, ← matching_set, ← matching_set, ← List.countP_eq_length_filter] at hknown
  simp only [Bool.not_eq_true, Option.isSome_eq_false_iff, Bool.decide_eq_true] at hall
  omega

theorem splitsKnown (filter : Filter) (hpage : params.perPage = none) (db : Database) :
    SplitsKnown eng filter params db.val where
  listing _ hall := lists_split eng filter hpage hall
  count _ hn := counts_split eng filter hn

theorem SplitsKnown.splits {filter : Filter} {db : Db} (h : SplitsKnown eng filter params db)
    (hknown : ∀ e, (filter.column e).isSome = true) : Splits eng filter params db := by
  refine ⟨fun all hall => ?_, fun n hn => ?_⟩
  · obtain ⟨yes, no, hyes, hno, hdisjoint, hperm⟩ := h.listing all hall
    rw [List.filter_eq_self.mpr fun e _ => hknown e] at hperm
    exact ⟨yes, no, hyes, hno, hdisjoint, hperm⟩
  · obtain ⟨hit, yes, no, -, hyes, hno, hsum⟩ := h.count n hn
    have hnone : (matching (filter.set none params) hit db).countP
        (fun e => (filter.column e).isNone) = 0 :=
      List.countP_eq_zero.mpr fun e _ => by simpa using Option.isSome_iff_ne_none.mp (hknown e)
    exact ⟨yes, no, hyes, hno, by omega⟩

/-- The filters on NOT NULL columns split every listing and count; the filter on
`is_public` splits the entries that say whether they are public. -/
theorem Reachable.filters_split {db : Db} (h : Reachable db) (hpage : params.perPage = none) :
    Splits eng .archive params db ∧ Splits eng .starred params db ∧
      SplitsKnown eng .isPublic params db := by
  obtain ⟨db, rfl⟩ : ∃ d : Database, d.val = db := ⟨⟨db, h.written.valid⟩, rfl⟩
  exact ⟨(splitsKnown eng .archive hpage db).splits eng fun _ => rfl,
    (splitsKnown eng .starred hpage db).splits eng fun _ => rfl,
    splitsKnown eng .isPublic hpage db⟩

end split
end listing

theorem Reachable.filters_split_untagged :
    Splits plainEngine .archive { userId := 1 } (runCalls untagged {}) ∧
      Splits plainEngine .starred { userId := 1 } (runCalls untagged {}) ∧
      SplitsKnown plainEngine .isPublic { userId := 1 } (runCalls untagged {}) :=
  Reachable.filters_split plainEngine (Reachable.calls .refl untagged) rfl

def blankPage : Document HttpText where
  title := Title.default
  contentHtml := ⟨""⟩
  contentText := ""
  imageUrl := none
  mimeType := none
  language := none
  publishedAt := none
  readingTime := 0

/-- Somebody adds an article in the browser. -/
def browsing : List Call :=
  [.createUser "ada" "" "" "" 0 0,
    .create (Web.addedEntry plainCrates ⟨40, by decide⟩ 1 ⟨⟨"https://a.org/", rfl⟩, .inr rfl⟩
      blankPage) []]

/-- It is neither public nor not public. -/
theorem browsing_unsplit :
    Reachable (runCalls browsing {}) ∧
      ¬ Splits plainEngine .isPublic { userId := 1 } (runCalls browsing {}) := by
  refine ⟨Reachable.calls .refl browsing, fun h => ?_⟩
  obtain ⟨yes, no, hyes, hno, hsum⟩ := h.count 1 rfl
  have hyes0 : Counts plainEngine (Filter.isPublic.set (some true) { userId := 1 })
    (runCalls browsing {}) 0 := rfl
  have hno0 : Counts plainEngine (Filter.isPublic.set (some false) { userId := 1 })
    (runCalls browsing {}) 0 := rfl
  have h1 := hyes.symm.trans hyes0
  have h2 := hno.symm.trans hno0
  simp only [Prod.mk.injEq, Except.ok.injEq, Nat.cast_inj, and_true] at h1 h2
  omega

end Articler
