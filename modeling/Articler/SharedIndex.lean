import Articler.Filters
import Articler.Lib.Corpus
import Articler.Lib.Ties
import Articler.Ranking
import Articler.SearchIndex

/-! Search over one index for all users: what the entries of other users change for the results
of one is their order, by way of the statistics of the index. -/
namespace Articler
open Txn Rows Bm25

/-- How FTS5 reads a query and, for it, the documents. -/
structure Reading (K φ : Type) [Zero K] [LT K] where
  scheme : Scheme K FtsDoc φ IndexColumn
  phrases : String → Option (List φ)
  finds : String → FtsDoc → Bool

/-- Rows that the order leaves open come by id. -/
structure TiesById {K : Type} [Field K] [LinearOrder K] (eng : Engine K) (params : FindParams)
    (db : Db) : Prop where
  inner : eng.inner.TiesBy (Entries.pushOrder eng params db) EntryRecord.id
  outer : eng.outer.TiesBy (fun a b => Entries.pushOrder eng params db a.entry b.entry)
    fun r => r.entry.id

def SameEntries (userId : Int) (s s' : Db) : Prop :=
  ∀ e, e.userId = userId → (e ∈ s.entries ↔ e ∈ s'.entries)

theorem SameEntries.symm {userId : Int} {s s' : Db} (h : SameEntries userId s s') :
    SameEntries userId s' s := fun e he => (h e he).symm

section index
variable {db : Database} {e : EntryRecord}

theorem docs_unique (h : db.val.Indexed) : UniqueBy FtsDoc.rowid db.val.entriesFts.docs := by
  have hentries : UniqueBy FtsDoc.rowid (db.val.entries.map EntryRecord.ftsDoc) := by
    rw [UniqueBy, List.map_map]
    exact db.property.entries.pk
  exact hentries.perm h.docs

theorem ftsDoc_mem (h : db.val.Indexed) (he : e ∈ db.val.entries) :
    e.ftsDoc ∈ db.val.entriesFts.docs :=
  h.docs.mem_iff.mpr (List.mem_map.mpr ⟨e, he, rfl⟩)

end index

namespace Reading
variable {K φ : Type} [Field K] [LinearOrder K] (reading : Reading K φ) {db s s' : Database}
  {params : FindParams} {q : String} {e : EntryRecord}

def hit (index : ContentIndex.Index FtsDoc) (q : String) (id : Int) : Bool :=
  index.docs.any fun d => d.rowid == id && reading.finds q d

def TitleHit (q : String) (e : EntryRecord) : Prop :=
  ∃ p ∈ (reading.phrases q).getD [], 0 < reading.scheme.hits p e.ftsDoc .title

theorem hit_entry (h : db.val.Indexed) (he : e ∈ db.val.entries) :
    reading.hit db.val.entriesFts q e.id = reading.finds q e.ftsDoc := by
  rw [hit, Bool.eq_iff_iff, List.any_eq_true]
  constructor
  · rintro ⟨d, hd, hfound⟩
    obtain ⟨hid, hfinds⟩ := Bool.and_eq_true_iff.mp hfound
    rwa [← (docs_unique h).eq_of_key hd (ftsDoc_mem h he) (eq_of_beq hid)]
  · intro hfinds
    exact ⟨e.ftsDoc, ftsDoc_mem h he, Bool.and_eq_true_iff.mpr ⟨beq_self_eq_true e.id, hfinds⟩⟩

theorem mem_matching (hs : s.val.Indexed) (hs' : s'.val.Indexed)
    (hsame : SameEntries params.userId s.val s'.val)
    (he : e ∈ matching params (reading.hit s.val.entriesFts q) s.val) :
    e ∈ matching params (reading.hit s'.val.entriesFts q) s'.val := by
  obtain ⟨he, hpasses⟩ := List.mem_filter.mp he
  have hp := of_decide_eq_true hpasses
  have he' : e ∈ s'.val.entries := (hsame e hp.user).mp he
  have hhit : reading.hit s'.val.entriesFts q e.id = true := by
    rw [reading.hit_entry hs' he', ← reading.hit_entry hs he]
    exact hp.search
  exact List.mem_filter.mpr ⟨he', decide_eq_true { hp with search := hhit }⟩

theorem matching_perm (hs : s.val.Indexed) (hs' : s'.val.Indexed)
    (hsame : SameEntries params.userId s.val s'.val) :
    (matching params (reading.hit s.val.entriesFts q) s.val).Perm
      (matching params (reading.hit s'.val.entriesFts q) s'.val) :=
  (List.perm_ext_iff_of_nodup (matching_unique _ _ s).nodup (matching_unique _ _ s').nodup).mpr
    fun _ => ⟨reading.mem_matching hs hs' hsame, reading.mem_matching hs' hs hsame.symm⟩

variable [IsStrictOrderedRing K]

def row (index : ContentIndex.Index FtsDoc) (q : String) (id : Int) : Row K IndexColumn :=
  match index.docs.find? fun d => d.rowid == id with
  | some d => reading.scheme.row index.docs ((reading.phrases q).getD []) d
  | none => reading.scheme.row index.docs [] ⟨id, "", ""⟩

def statistics (index : ContentIndex.Index FtsDoc) (q : String) : List K × K :=
  reading.scheme.statistics index.docs ((reading.phrases q).getD [])

theorem row_entry (h : db.val.Indexed) (he : e ∈ db.val.entries) :
    reading.row db.val.entriesFts q e.id =
      reading.scheme.row db.val.entriesFts.docs ((reading.phrases q).getD []) e.ftsDoc := by
  have hfind : (db.val.entriesFts.docs.find? fun d => d.rowid == e.id) = some e.ftsDoc :=
    (docs_unique h).find_of_key (ftsDoc_mem h he) (beq_self_eq_true e.id) fun d hd => eq_of_beq hd
  rw [row, hfind]

theorem inTitle_iff (h : db.val.Indexed) (he : e ∈ db.val.entries) :
    InTitle (reading.row db.val.entriesFts q e.id) ↔ reading.TitleHit q e := by
  rw [InTitle, reading.row_entry h he]
  exact Scheme.exists_hit

end Reading

section sharing
variable {K φ : Type} [Field K] [LinearOrder K] [IsStrictOrderedRing K]

/-- A query finds rows by their own text, and ranks them by the statistics of all rows. -/
structure Shares (eng : Engine K) (t : Tuning K) (reading : Reading K φ) : Prop where
  query : ∀ index q, eng.fts5.query index q = (reading.phrases q).map fun _ => reading.hit index q
  bm25 : RanksByBm25 eng t reading.row

variable {eng : Engine K} {t : Tuning K} {reading : Reading K φ} {s s' : Database}
  {params : FindParams} {q : String}

theorem searchMatch_shared (h : Shares eng t reading) (hsearch : params.search = some q) {db : Db}
    {hit : Int → Bool} : Entries.searchMatch eng params db = .ok hit ↔
      (reading.phrases q).isSome ∧ hit = reading.hit db.entriesFts q := by
  rw [Entries.searchMatch, hsearch]
  dsimp only
  rw [okOr_eq_ok, h.query]
  cases reading.phrases q with
  | none => simp
  | some ps => simp [eq_comm]

theorem bm25_entry (h : Shares eng t reading) (hs : s.val.Indexed)
    (hphrases : (reading.phrases q).isSome) {e : EntryRecord}
    (he : e ∈ matching params (reading.hit s.val.entriesFts q) s.val) (wTitle wBody : K) :
    eng.fts5.bm25 s.val.entriesFts q wTitle wBody e.id =
      (reading.scheme.row s.val.entriesFts.docs ((reading.phrases q).getD []) e.ftsDoc).score t
        (weights wTitle wBody) := by
  obtain ⟨ps, hps⟩ := Option.isSome_iff_exists.mp hphrases
  obtain ⟨he, hpasses⟩ := List.mem_filter.mp he
  have hquery : eng.fts5.query s.val.entriesFts q = some (reading.hit s.val.entriesFts q) := by
    rw [h.query, hps, Option.map_some]
  rw [h.bm25 _ _ _ _ wTitle wBody hquery (of_decide_eq_true hpasses).search,
    reading.row_entry hs he]

omit [IsStrictOrderedRing K] in
theorem gatheredEntries_sub {hit : Int → Bool} {e : EntryRecord}
    (he : e ∈ gatheredEntries eng params hit s.val) : e ∈ s.val.entries ∧ Passes params hit e :=
  pageRows_sub eng s.val ((leaders_page eng s).mem_iff.mp he)

omit [IsStrictOrderedRing K] in
theorem gatheredEntries_tied {hit : Int → Bool} (hties : TiesById eng params s.val) :
    Tied (Entries.pushOrder eng params s.val) EntryRecord.id
      (gatheredEntries eng params hit s.val) :=
  List.pairwise_map.mpr ((hties.outer _).sublist (leaders_sublist _ _))

variable (params q) in
/-- The results are sorted by a column, or the statistics are the same. -/
def SameOrder (reading : Reading K φ) (s s' : Db) : Prop :=
  params.sort.isSome ∨
    reading.statistics s.entriesFts q = reading.statistics s'.entriesFts q

section sameOrder
variable (h : Shares eng t reading) (hs : s.val.Indexed) (hs' : s'.val.Indexed)
  (hsame : SameEntries params.userId s.val s'.val) (hsearch : params.search = some q)
  (hphrases : (reading.phrases q).isSome) (horder : SameOrder params q reading s.val s'.val)
include h hs hs' hsame hsearch hphrases horder

theorem pushOrder_shared {a b : EntryRecord}
    (ha : a ∈ matching params (reading.hit s.val.entriesFts q) s.val)
    (hb : b ∈ matching params (reading.hit s.val.entriesFts q) s.val) :
    Entries.pushOrder eng params s.val a b = Entries.pushOrder eng params s'.val a b := by
  unfold Entries.pushOrder
  cases hsort : params.sort with
  | some column => rfl
  | none =>
    have hstatistics := horder.resolve_left (by simp [hsort])
    have hscore {e : EntryRecord} (he : e ∈ matching params (reading.hit s.val.entriesFts q) s.val)
        (wTitle wBody : K) : eng.fts5.bm25 s.val.entriesFts q wTitle wBody e.id =
          eng.fts5.bm25 s'.val.entriesFts q wTitle wBody e.id := by
      rw [bm25_entry h hs hphrases he, Scheme.row_congr hstatistics,
        bm25_entry h hs' hphrases (reading.mem_matching hs hs' hsame he)]
    simp only [hsearch, hscore ha, hscore hb]

variable (hties : TiesById eng params s.val) (hties' : TiesById eng params s'.val)
include hties hties'

theorem pageRows_shared : Entries.pageRows eng params s.val (reading.hit s.val.entriesFts q) =
    Entries.pageRows eng params s'.val (reading.hit s'.val.entriesFts q) := by
  rw [pageRows_eq, pageRows_eq]
  congr 1
  exact OrderBy.run_congr hties.inner hties'.inner (matching_unique _ _ s)
    (reading.matching_perm hs hs' hsame) fun a ha b hb =>
      pushOrder_shared h hs hs' hsame hsearch hphrases horder ha hb

theorem gatheredEntries_shared :
    gatheredEntries eng params (reading.hit s.val.entriesFts q) s.val =
      gatheredEntries eng params (reading.hit s'.val.entriesFts q) s'.val := by
  have hpage : (gatheredEntries eng params (reading.hit s.val.entriesFts q) s.val).Perm
      (Entries.pageRows eng params s.val (reading.hit s.val.entriesFts q)) := leaders_page eng s
  have hpage' : (gatheredEntries eng params (reading.hit s'.val.entriesFts q) s'.val).Perm
      (Entries.pageRows eng params s'.val (reading.hit s'.val.entriesFts q)) := leaders_page eng s'
  rw [← pageRows_shared h hs hs' hsame hsearch hphrases horder hties hties'] at hpage'
  have hmatching {e : EntryRecord}
      (he : e ∈ gatheredEntries eng params (reading.hit s.val.entriesFts q) s.val) :
      e ∈ matching params (reading.hit s.val.entriesFts q) s.val := by
    obtain ⟨he, hpasses⟩ := gatheredEntries_sub he
    exact List.mem_filter.mpr ⟨he, decide_eq_true hpasses⟩
  refine Tied.eq_of_perm ((gatheredEntries_tied hties).congr fun a ha b hb => ?_)
    (gatheredEntries_tied hties') ((pageRows_unique eng s).perm hpage) (hpage.trans hpage'.symm)
  exact pushOrder_shared h hs hs' hsame hsearch hphrases horder (hmatching ha) (hmatching hb)

end sameOrder

/-- What the results of two states with the same entries of the user have in common. -/
structure SharedResults (eng : Engine K) (reading : Reading K φ) (params : FindParams) (q : String)
    (s s' : Db) : Prop where
  found : params.perPage = none → ∀ es, Lists eng params s es →
    ∃ es', Lists eng params s' es' ∧ es'.Perm es
  titles : params.sort = none → ∀ es, Lists eng params s es →
    es.Pairwise fun a b => reading.TitleHit q b → reading.TitleHit q a
  order : SameOrder params q reading s s' → ∀ es, Lists eng params s es → Lists eng params s' es

/-- The entries of other users change neither which entries are found nor that those with a hit
in the title come first; they change no order either, unless they change the statistics. -/
theorem search_shared (h : Shares eng t reading) (s s' : Database) (hs : s.val.Indexed)
    (hs' : s'.val.Indexed) (hsame : SameEntries params.userId s.val s'.val)
    (hsearch : params.search = some q) (hties : TiesById eng params s.val)
    (hties' : TiesById eng params s'.val) : SharedResults eng reading params q s.val s'.val := by
  have hgather {es : List EntryRecord} (hes : Lists eng params s.val es) :
      params.tags = none ∧ params.domainName = none ∧ (reading.phrases q).isSome ∧
        es = gatheredEntries eng params (reading.hit s.val.entriesFts q) s.val ∧
        ∀ e ∈ es, fitsI32 e.id = true := by
    obtain ⟨htags, hdomain, hit, hmatch, heq, hfits⟩ := hes.inv eng
    obtain ⟨hphrases, rfl⟩ := (searchMatch_shared h hsearch).mp hmatch
    exact ⟨htags, hdomain, hphrases, heq, hfits⟩
  constructor
  · intro hpage es hes
    obtain ⟨htags, hdomain, hphrases, rfl, hfits⟩ := hgather hes
    have hperm : (gatheredEntries eng params (reading.hit s'.val.entriesFts q) s'.val).Perm
        (gatheredEntries eng params (reading.hit s.val.entriesFts q) s.val) :=
      (gatheredEntries_perm eng hpage).trans ((reading.matching_perm hs hs' hsame).symm.trans
        (gatheredEntries_perm eng hpage).symm)
    exact ⟨_, Lists.of_fits eng htags hdomain ((searchMatch_shared h hsearch).mpr ⟨hphrases, rfl⟩)
      fun e he => hfits e (hperm.mem_iff.mp he), hperm⟩
  · intro hsort es hes
    obtain ⟨-, -, hphrases, rfl, -⟩ := hgather hes
    obtain ⟨ps, hps⟩ := Option.isSome_iff_exists.mp hphrases
    have hquery : eng.fts5.query s.val.entriesFts q = some (reading.hit s.val.entriesFts q) := by
      rw [h.query, hps, Option.map_some]
    refine List.Pairwise.imp_of_mem (fun {a b} ha hb hab => ?_) (leaders_ordered eng s.val)
    obtain ⟨ha, hpa⟩ := gatheredEntries_sub ha
    obtain ⟨hb, hpb⟩ := gatheredEntries_sub hb
    have hfirst := (pushOrder_search h.bm25 hsearch hsort hquery hpa.search hpb.search hab).1
    rwa [reading.inTitle_iff hs ha, reading.inTitle_iff hs hb] at hfirst
  · intro horder es hes
    obtain ⟨htags, hdomain, hphrases, rfl, hfits⟩ := hgather hes
    have heq := gatheredEntries_shared h hs hs' hsame hsearch hphrases horder hties hties'
    rw [heq] at hfits ⊢
    exact Lists.of_fits eng htags hdomain ((searchMatch_shared h hsearch).mpr ⟨hphrases, rfl⟩) hfits

end sharing

def occurrences (word : List Char) : List Char → Nat
  | [] => 0
  | c :: cs => (if word.isPrefixOf (c :: cs) then 1 else 0) + occurrences word cs

/-- Queries of one word in small letters, on texts in small letters. A phrase that more than half
of the rows have gets the least `idf`; the other rows are all alike. -/
def trigramReading : Reading ℚ String where
  scheme := {
    hits := fun word d column => match column with
      | .title => occurrences word.toList d.title.toList
      | .contentText => occurrences word.toList d.contentText.toList
    tokens := FtsDoc.trigrams
    idf := fun n found => if n ≤ 2 * found then 1 / 10 ^ 6 else 1
    idf_pos := fun n found => by split <;> positivity }
  phrases q := if 3 ≤ q.toList.length && q.toList.all Char.isLower then some [q] else none
  finds q d := 0 < occurrences q.toList d.title.toList + occurrences q.toList d.contentText.toList

def trigramEngine : Engine ℚ where
  fts5 := {
    query := fun index q => (trigramReading.phrases q).map fun _ => trigramReading.hit index q
    bm25 := fun index q wTitle wBody id =>
      (trigramReading.row index q id).score fts5Tuning (weights wTitle wBody) }
  inner := OrderBy.tied EntryRecord.id
  outer := OrderBy.tied fun r => r.entry.id

theorem trigram_shares : Shares trigramEngine fts5Tuning trigramReading :=
  ⟨fun _ _ => rfl, fun _ _ _ _ _ _ _ _ => rfl⟩

theorem trigram_tiesById (params : FindParams) (db : Db) : TiesById trigramEngine params db where
  inner := OrderBy.tied_tiesBy (pushOrder_total trigramEngine params db)
    (pushOrder_trans trigramEngine params db)
  outer := OrderBy.tied_tiesBy (fun a b => pushOrder_total trigramEngine params db a.entry b.entry)
    fun a b c => pushOrder_trans trigramEngine params db a.entry b.entry c.entry

def foxes : List Call :=
  [.createUser "ada" "" "" "" 0 0, .createUser "bob" "" "" "" 0 0,
    .create { note 1 "a" with contentText := "one fox" } [],
    .create { note 1 "b" with contentText := "a fox and another fox" } []]

def foreign (text : String) : List Call :=
  foxes ++ [.create { note 2 "c" with contentText := text } []]

def foxSearch : FindParams := { userId := 1, search := some "fox" }

def listedIds (params : FindParams) (db : Db) : Option (List Int) :=
  ((Entries.findAllMetadata trigramEngine params : Run Db Error _) db).1.toOption.map fun found =>
    found.map fun e => e.1.id

def reached (calls : List Call) : Database where
  val := runCalls calls {}
  property := (Reachable.calls .refl calls).written.valid

theorem reached_indexed (calls : List Call) : (reached calls).val.Indexed :=
  (Reachable.calls .refl calls).written.indexed

theorem foreign_sameEntries (text : String) :
    SameEntries 1 (reached foxes).val (reached (foreign text)).val := by
  have hentries : (reached (foreign text)).val.entries = (reached foxes).val.entries ++
      [CreateEntry.record { note 2 "c" with contentText := text } 3] := rfl
  intro e he
  rw [hentries, List.mem_append, List.mem_singleton]
  refine ⟨.inl, fun h => h.resolve_right ?_⟩
  rintro rfl
  cases he

/-- A foreign entry of average length leaves the statistics as they are. -/
theorem search_shared_foxes : SharedResults trigramEngine trigramReading foxSearch "fox"
    (reached foxes).val (reached (foreign "fourteen chars")).val ∧
    SameOrder foxSearch "fox" trigramReading (reached foxes).val
      (reached (foreign "fourteen chars")).val :=
  ⟨search_shared trigram_shares _ _ (reached_indexed _) (reached_indexed _)
    (foreign_sameEntries _) rfl (trigram_tiesById _ _) (trigram_tiesById _ _),
    .inr (by decide +kernel)⟩

/-- A longer one makes all entries of the user short, and turns their order around. -/
theorem search_foreign : ∃ s s' : Database, Reachable s.val ∧ Reachable s'.val ∧
    SameEntries foxSearch.userId s.val s'.val ∧ Shares trigramEngine fts5Tuning trigramReading ∧
    TiesById trigramEngine foxSearch s.val ∧ TiesById trigramEngine foxSearch s'.val ∧
    listedIds foxSearch s.val = some [1, 2] ∧ listedIds foxSearch s'.val = some [2, 1] :=
  ⟨reached foxes,
    reached (foreign "a long article of another user that has nothing to do with the search"),
    .calls .refl _, .calls .refl _, foreign_sameEntries _, trigram_shares, trigram_tiesById _ _,
    trigram_tiesById _ _, by decide +kernel, by decide +kernel⟩

end Articler
