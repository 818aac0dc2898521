import Mathlib.Tactic.NormNum
import Articler.Listing
import Articler.Lib.Bm25

/-! The order of search results, with the score of FTS5 written out. The first sort key is the
sign of a score that weighs the title only. -/
namespace Articler
open Txn Rows Bm25

/-- The columns of `entries_fts`. -/
inductive IndexColumn where
  | title | contentText
deriving DecidableEq

instance : Fintype IndexColumn := ⟨{.title, .contentText}, by rintro (_ | _) <;> decide⟩

section order
variable {K : Type} [Field K] [LinearOrder K]

def weights (wTitle wBody : K) : IndexColumn → K
  | .title => wTitle
  | .contentText => wBody

/-- `bm25(entries_fts, …)` is the bm25 score of a row that the query matches. -/
def RanksByBm25 (eng : Engine K) (t : Tuning K)
    (rows : ContentIndex.Index FtsDoc → String → Int → Row K IndexColumn) : Prop :=
  ∀ index q hit id wTitle wBody, eng.fts5.query index q = some hit → hit id = true →
    eng.fts5.bm25 index q wTitle wBody id = (rows index q id).score t (weights wTitle wBody)

/-- Some phrase of the query hits the title. -/
def InTitle (r : Row K IndexColumn) : Prop := ∃ p ∈ r.phrases, 0 < p.hits .title

/-- The entries of the page, once each: those with a hit in the title first, and in each of the
two groups the better score first. -/
structure TitlesFirst (t : Tuning K) (row : Int → Row K IndexColumn) (page ids : List Int) :
    Prop where
  entries : ids.Perm page
  once : ids.Nodup
  titles : ids.Pairwise fun a b => InTitle (row b) → InTitle (row a)
  relevance : ids.Pairwise fun a b => (InTitle (row a) ↔ InTitle (row b)) →
    (row a).score t (weights 10 1) ≤ (row b).score t (weights 10 1)

variable [IsStrictOrderedRing K]

theorem titleScore_neg_iff (t : Tuning K) (r : Row K IndexColumn) :
    r.score t (weights 1 0) < 0 ↔ InTitle r := by
  have hw : ∀ i, 0 ≤ weights (1 : K) 0 i := by
    rintro (_ | _)
    · exact zero_le_one
    · exact le_rfl
  rw [r.score_neg_iff t hw]
  refine exists_congr fun p => and_congr_right fun _ => ?_
  constructor
  · rintro ⟨_ | _, hweight, hits⟩
    · exact hits
    · exact absurd hweight (lt_irrefl _)
  · exact fun hits => ⟨.title, zero_lt_one, hits⟩

variable {eng : Engine K} {t : Tuning K}
  {rows : ContentIndex.Index FtsDoc → String → Int → Row K IndexColumn} {params : FindParams}
  {q : String} {hit : Int → Bool}

/-- What `SEARCH_ORDER_BY` says of two rows that the query matches. -/
theorem pushOrder_search (hrank : RanksByBm25 eng t rows) {db : Db}
    (hsearch : params.search = some q) (hsort : params.sort = none)
    (hquery : eng.fts5.query db.entriesFts q = some hit) {a b : EntryRecord}
    (ha : hit a.id = true) (hb : hit b.id = true)
    (h : Entries.pushOrder eng params db a b = true) :
    (InTitle (rows db.entriesFts q b.id) → InTitle (rows db.entriesFts q a.id)) ∧
      ((InTitle (rows db.entriesFts q a.id) ↔ InTitle (rows db.entriesFts q b.id)) →
        (rows db.entriesFts q a.id).score t (weights 10 1) ≤
          (rows db.entriesFts q b.id).score t (weights 10 1)) := by
  have hscore {e : EntryRecord} (he : hit e.id = true) (wTitle wBody : K) :=
    hrank _ _ _ _ wTitle wBody hquery he
  unfold Entries.pushOrder at h
  simp only [hsort, hsearch, decide_eq_true_eq, hscore ha, hscore hb] at h
  simp only [← titleScore_neg_iff t]
  by_cases hta : (rows db.entriesFts q a.id).score t (weights 1 0) < 0
  · by_cases htb : (rows db.entriesFts q b.id).score t (weights 1 0) < 0
    · simpa [hta, htb] using h
    · simp [hta, htb]
  · by_cases htb : (rows db.entriesFts q b.id).score t (weights 1 0) < 0
    · simp [hta, htb] at h
    · simpa [hta, htb] using h

variable {db : Database}

theorem gathered_titlesFirst (hrank : RanksByBm25 eng t rows) (hsearch : params.search = some q)
    (hsort : params.sort = none) (hquery : eng.fts5.query db.val.entriesFts q = some hit) :
    TitlesFirst t (rows db.val.entriesFts q)
      ((Entries.pageRows eng params db.val hit).map EntryRecord.id)
      ((leaders (fun r => r.entry.id) (Entries.rawRows eng params db.val hit)).map
        fun l => l.entry.id) := by
  have hpage : ((leaders (fun r => r.entry.id) (Entries.rawRows eng params db.val hit)).map
      JoinedRow.entry).Perm (Entries.pageRows eng params db.val hit) := leaders_page eng db
  have hids : ((leaders (fun r => r.entry.id) (Entries.rawRows eng params db.val hit)).map
      fun l => l.entry.id) = ((leaders (fun r => r.entry.id)
        (Entries.rawRows eng params db.val hit)).map JoinedRow.entry).map EntryRecord.id := by
    rw [List.map_map]
    rfl
  have hhit {e : EntryRecord} (he : e ∈ (leaders (fun r => r.entry.id)
      (Entries.rawRows eng params db.val hit)).map JoinedRow.entry) : hit e.id = true :=
    (pageRows_sub eng db.val (hpage.mem_iff.mp he)).2.search
  have hordered := (leaders_ordered eng db.val).imp_of_mem fun {a b} ha hb h =>
    pushOrder_search hrank hsearch hsort hquery (hhit ha) (hhit hb) h
  rw [hids]
  exact {
    entries := hpage.map EntryRecord.id
    once := (pageRows_unique eng db).perm hpage
    titles := List.pairwise_map.mpr (hordered.imp And.left)
    relevance := List.pairwise_map.mpr (hordered.imp And.right) }

/-- A listing that succeeds has its titles first. -/
theorem findAllRows_titlesFirst {R : Type} (fromRow : EntryRecord → R) (idOf : R → Int)
    (hid : ∀ e, idOf (fromRow e) = e.id) (hrank : RanksByBm25 eng t rows)
    (hsearch : params.search = some q) (hsort : params.sort = none)
    {found : List (R × List TagRow)} {s : Db}
    (h : (Entries.findAllRows eng params fromRow : Run Db Error _) db.val = (.ok found, s)) :
    ∃ hit, eng.fts5.query db.val.entriesFts q = some hit ∧
      TitlesFirst t (rows db.val.entriesFts q)
        ((Entries.pageRows eng params db.val hit).map EntryRecord.id)
        (found.map fun e => idOf e.1) := by
  obtain ⟨-, -, hit, hmatch, hgather⟩ := findAllRows_gathered eng h
  rw [Entries.searchMatch, hsearch] at hmatch
  have hquery := okOr_eq_ok.mp hmatch
  rw [gatherRows_ok fromRow (gatherRows_fits hgather)] at hgather
  obtain rfl := Except.ok.inj hgather
  refine ⟨hit, hquery, ?_⟩
  have hfirst := gathered_titlesFirst hrank hsearch hsort hquery
  rw [List.map_map]
  simpa only [Function.comp_def, hid] using hfirst

/-- The results of a search without a sort column: entries with a hit in the title come first,
and in both groups the better score. -/
theorem search_titlesFirst (hrank : RanksByBm25 eng t rows) (db : Database) {params : FindParams}
    {q : String} (hsearch : params.search = some q) (hsort : params.sort = none) :
    (∀ found s, (Entries.findAll eng params : Run Db Error _) db.val = (.ok found, s) →
      ∃ hit, eng.fts5.query db.val.entriesFts q = some hit ∧
        TitlesFirst t (rows db.val.entriesFts q)
          ((Entries.pageRows eng params db.val hit).map EntryRecord.id)
          (found.map fun e => e.1.id)) ∧
    (∀ found s, (Entries.findAllMetadata eng params : Run Db Error _) db.val = (.ok found, s) →
      ∃ hit, eng.fts5.query db.val.entriesFts q = some hit ∧
        TitlesFirst t (rows db.val.entriesFts q)
          ((Entries.pageRows eng params db.val hit).map EntryRecord.id)
          (found.map fun e => e.1.id)) :=
  ⟨fun _ _ h => findAllRows_titlesFirst EntryRow.fromRow EntryRow.id (fun _ => rfl) hrank hsearch
      hsort h,
    fun _ _ h => findAllRows_titlesFirst EntryMetadataRow.fromRow EntryMetadataRow.id (fun _ => rfl)
      hrank hsearch hsort h⟩

end order

/-- How many trigrams a row has. -/
def FtsDoc.trigrams (d : FtsDoc) : Nat := (d.title.length - 2) + (d.contentText.length - 2)

/-- What the index knows of a word, for rows of one word in each column. -/
def wordRow (index : ContentIndex.Index FtsDoc) (q : String) (id : Int) : Row ℚ IndexColumn where
  phrases := [{
    idf := 1 / 10 ^ 6
    hits := fun
      | .title => index.docs.countP fun d => d.rowid == id && d.title == q
      | .contentText => index.docs.countP fun d => d.rowid == id && d.contentText == q
    idf_pos := by positivity }]
  length := ((index.docs.filter fun d => d.rowid == id).map FtsDoc.trigrams).sum
  average := (index.docs.map FtsDoc.trigrams).sum / index.docs.length
  length_nonneg := Nat.cast_nonneg _
  average_nonneg := div_nonneg (Nat.cast_nonneg _) (Nat.cast_nonneg _)

def fts5Tuning : Tuning ℚ where
  k1 := 6 / 5
  b := 3 / 4
  k1_pos := by norm_num
  b_nonneg := by positivity
  b_lt_one := by norm_num

/-- `plainEngine` with the score of FTS5. -/
def rankingEngine : Engine ℚ :=
  { plainEngine with fts5 := { plainEngine.fts5 with
      bm25 := fun index q wTitle wBody id =>
        (wordRow index q id).score fts5Tuning (weights wTitle wBody) } }

/-- Two entries with one word in each column; the second has two tags. -/
def herbarium : Database where
  val :=
    { users := [⟨1, "wallabag", "", "", "", 0, 0⟩]
      usersSeq := 1
      entries := [
        ⟨1, 1, "https://a.org/", "h1", "https://a.org/", "h1", "trees", "juniper", "juniper", false,
          none, false, none, 10, 10, none, none, 1, "a.org", none, none, none, none, none, none⟩,
        ⟨2, 1, "https://b.org/", "h2", "https://b.org/", "h2", "juniper", "heath", "heath", false,
          none, false, none, 20, 20, none, none, 1, "b.org", none, none, none, none, none, none⟩]
      entriesSeq := 2
      tags := [⟨1, 1, "tree", "tree"⟩, ⟨2, 1, "green", "green"⟩]
      tagsSeq := 2
      entryTags := [⟨2, 1⟩, ⟨2, 2⟩]
      entriesFts := { docs := [⟨1, "trees", "juniper"⟩, ⟨2, "juniper", "heath"⟩] } }
  property := by decide

def juniper : FindParams := { userId := 1, search := some "juniper" }

/-- A word that one entry has in its title and the other in its text. -/
theorem search_titlesFirst_juniper :
    ∃ found, (Entries.findAll rankingEngine juniper : Run Db Error _) herbarium.val =
        (.ok found, herbarium.val) ∧
      found.map (fun e => e.1.id) = [2, 1] ∧
      ∃ hit, TitlesFirst fts5Tuning (wordRow herbarium.val.entriesFts "juniper")
        ((Entries.pageRows rankingEngine juniper herbarium.val hit).map EntryRecord.id)
        (found.map fun e => e.1.id) := by
  have hrank : RanksByBm25 rankingEngine fts5Tuning wordRow := fun _ _ _ _ _ _ _ _ => rfl
  have hrun : (Entries.findAll rankingEngine juniper : Run Db Error _) herbarium.val = _ :=
    findAllRows_ok rankingEngine EntryRow.fromRow (by decide) rfl rfl rfl
  refine ⟨_, hrun, by decide +kernel, ?_⟩
  obtain ⟨hit, -, hfirst⟩ := (search_titlesFirst hrank herbarium rfl rfl).1 _ _ hrun
  exact ⟨hit, hfirst⟩

end Articler
