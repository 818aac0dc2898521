import Articler.Grants
import Articler.Lib.Outcome
import Articler.ReadBack
import Articler.Repository.Columns
import Articler.Updates

/-! The repository on a database that is intact: what is asked of it is done or refused, and leaves
the database intact. -/
namespace Articler
open Txn Rows Relation

/-- The errors that tell of a fault of the server's, not of the request. -/
def Error.internal : Error → Bool
  | .sqlx _ | .unexpectedState _ | .urlFormat | .timestampToDateTime _ => true
  | _ => false

abbrev Error.Refusal (e : Error) : Prop := e.internal = false

/-- A database at the time `now`: constraints hold, rows can be read, none is from the future, and as
far as it does not give out too many ids, the listings decode them. -/
structure Db.Intact (Url : Type) [UrlCrate Url] (now : Int) (db : Db) : Prop where
  valid : db.Valid
  readable : db.Readable Url
  born : ∀ e ∈ db.entries, e.createdAt ≤ now
  times : ∀ e ∈ db.entries, fitsI32 e.readingTime = true
  ids : ∀ e ∈ db.entries, -2 ^ 31 ≤ e.id
  seq : -2 ^ 31 ≤ db.entriesSeq

/-- A database in which `u` has an account, and that has given out ids up to `last`. -/
structure Db.Serving (Url : Type) [UrlCrate Url] (now last u : Int) (db : Db) : Prop
    extends db.Intact Url now where
  user : db.hasUser u = true
  given : db.entriesSeq ≤ last

section statements
variable {Url : Type} [UrlCrate Url] {now last u : Int} {k : Statement} {s t : Db}

theorem Write.entriesSeq (hw : Write k s t) (hk : k ≠ .insertEntry) : t.entriesSeq = s.entriesSeq := by
  have hframe (h : DbTable.entries ∉ k.changes) : t.entriesSeq = s.entriesSeq := (hw.frame h).2.1
  cases hw with
  | insertEntry => exact absurd rfl hk
  | updateEntries hu =>
    obtain ⟨_, -, -, rfl⟩ := Db.updateEntries_ok hu
    rfl
  | deleteUsers | deleteEntries => rfl
  | _ => exact hframe (by decide)

theorem Later.entriesSeq (h : Later s t) : s.entriesSeq ≤ t.entriesSeq := by
  refine run_invariant (I := fun t => s.entriesSeq ≤ t.entriesSeq) (fun t v ht ⟨k, _, hw⟩ => ?_) le_rfl h
  by_cases hk : k = .insertEntry
  · subst hk
    cases hw with
    | insertEntry _ hi =>
      obtain ⟨-, -, -, rfl⟩ := Db.insertEntry_ok hi
      exact ht.trans (Int.le_add_one le_rfl)
  · exact hw.entriesSeq hk ▸ ht

theorem Db.Serving.listed (h : s.Serving Url now last u) (hlast : last < 2 ^ 31) {e : EntryRecord}
    (he : e ∈ s.entries) : fitsI32 e.id = true := by
  have hlow := h.ids e he
  have hseq := h.valid.entries.seq e he
  have hgiven := h.given
  simp only [fitsI32, Bool.and_eq_true, decide_eq_true_eq]
  omega

theorem Db.Intact.write (h : s.Intact Url now) (hw : Write k s t) (hk : k.LeavesRows) :
    t.Intact Url now where
  valid := hw.valid h.valid
  readable e he := h.readable e (hw.mem_entries hk he)
  born e he := h.born e (hw.mem_entries hk he)
  times e he := h.times e (hw.mem_entries hk he)
  ids e he := h.ids e (hw.mem_entries hk he)
  seq := hw.entriesSeq hk.1 ▸ h.seq

theorem Db.Intact.updateById (h : s.Intact Url now) {p : EntryRecord → Bool} {update : UpdateEntry}
    {n : Nat} (hparses : ∀ a ∈ update.assignments, a.Readable Url)
    (htime : ∀ time, update.readingTime = some (some time) → fitsI32 time = true)
    (hu : s.updateEntries p update.assignments = .ok (n, t)) : t.Intact Url now := by
  have hvalid := h.valid.updateEntries hu
  have hreadable := updateEntries_readable hparses hu h.readable
  obtain ⟨-, -, fts, rfl⟩ := Db.updateEntries_updated hu
  refine ⟨hvalid, hreadable, fun e he => ?_, fun e he => ?_, fun e he => ?_, h.seq⟩
  all_goals
    obtain ⟨d, hd, rfl⟩ := List.mem_map.mp he
    split
  · exact h.born d hd
  · exact h.born d hd
  · cases hset : update.readingTime with
    | none => simpa [UpdateEntry.updated, hset] using h.times d hd
    | some value =>
      cases value with
      | none => simpa [UpdateEntry.updated, hset] using h.times d hd
      | some time => simpa [UpdateEntry.updated, hset] using htime time hset
  · exact h.times d hd
  · exact h.ids d hd
  · exact h.ids d hd

theorem Later.hasUser (h : Later s t) (hu : s.hasUser u = true) : t.hasUser u = true := by
  obtain ⟨w, hw, hid⟩ := Db.hasUser_iff.mp hu
  exact Db.hasUser_iff.mpr ⟨w, h.users hw, hid⟩

theorem Db.Serving.write (h : s.Serving Url now last u) (hw : Write k s t) (hk : k.LeavesRows)
    (hkeep : k ≠ .deleteUsers) : t.Serving Url now last u :=
  ⟨h.toIntact.write hw hk, Later.hasUser (.single ⟨k, hkeep, hw⟩) h.user,
    (hw.entriesSeq hk.1).trans_le h.given⟩

theorem Db.Intact.mono (h : s.Intact Url now) {now' : Int} (hnow : now ≤ now') : s.Intact Url now' :=
  { h with born := fun e he => (h.born e he).trans hnow }

theorem Db.Serving.mono (h : s.Serving Url now last u) {now' : Int} (hnow : now ≤ now') :
    s.Serving Url now' (last + 1) u :=
  ⟨h.toIntact.mono hnow, h.user, h.given.trans (Int.le_add_one le_rfl)⟩

end statements

/-- A program for the user `u` that answers or refuses. -/
abbrev Serves (Url : Type) [UrlCrate Url] (now last u : Int) {α : Type} (Q : α → Prop)
    (x : Run Db Error α) : Prop :=
  Answers (fun db => db.Serving Url now last u) Error.Refusal Q x

section repository
variable {Url : Type} [UrlCrate Url] {now last u : Int} {K : Type} [Field K] [LinearOrder K]
  (eng : Engine K)

def FullEntry.Stored (Url : Type) [UrlCrate Url] (full : FullEntry) : Prop :=
  ∃ e : EntryRecord, e.Readable Url ∧ full.1 = EntryRow.fromRow e

def MetadataEntry.Stored (Url : Type) [UrlCrate Url] (listed : MetadataEntry) : Prop :=
  ∃ e : EntryRecord, e.Readable Url ∧ listed.1 = EntryMetadataRow.fromRow e

/-- FTS5 takes the text for a query. -/
def FindParams.Searchable (params : FindParams) : Prop :=
  ∀ q, params.search = some q → ∀ fts, (eng.fts5.query fts q).isSome = true

omit [Field K] [LinearOrder K] in
theorem FindParams.Searchable.unsearched {params : FindParams} (h : params.search = none) :
    params.Searchable eng := by
  intro q hq
  rw [h] at hq
  cases hq

omit [Field K] [LinearOrder K] in
theorem searchMatch_searchable {params : FindParams} (h : params.Searchable eng) (db : Db) :
    ∃ hit, Entries.searchMatch eng params db = .ok hit := by
  unfold Entries.searchMatch
  cases hq : params.search with
  | none => exact ⟨_, rfl⟩
  | some q =>
    obtain ⟨hit, hhit⟩ := Option.isSome_iff_exists.mp (h q hq db.entriesFts)
    exact ⟨hit, by dsimp only; rw [hhit]; rfl⟩

theorem ensureSupported_refuses {params : FindParams} {e : Error}
    (h : Entries.ensureSupported params = .error e) : e.Refusal := by
  unfold Entries.ensureSupported at h
  split at h
  · cases h
    rfl
  · split at h
    · cases h
      rfl
    · cases h

omit [Field K] [LinearOrder K] in
theorem count_serves {params : FindParams} (h : params.Searchable eng) :
    Serves Url now last u (fun _ => True) (Entries.count eng params) := by
  refine .bind (Q := fun _ => True) (.ofExcept (fun _ _ => trivial) fun _ => ensureSupported_refuses)
    fun _ _ => .query (fun _ _ _ _ => trivial) fun db e _ he => ?_
  obtain ⟨hit, hhit⟩ := searchMatch_searchable eng h db
  rw [hhit] at he
  cases he

section listing
variable (hlast : last < 2 ^ 31)
include hlast

theorem findAllRows_serves {params : FindParams} (h : params.Searchable eng) {R : Type}
    (fromRow : EntryRecord → R) :
    Serves Url now last u (fun rows => ∀ r ∈ rows, ∃ e : EntryRecord, e.Readable Url ∧ r.1 = fromRow e)
      (Entries.findAllRows eng params fromRow) := by
  intro db hdb
  cases hsupported : Entries.ensureSupported params with
  | error e =>
    rw [Entries.findAllRows, run_bind, run_ofExcept, hsupported]
    exact .failed hdb (ensureSupported_refuses hsupported)
  | ok _ =>
    obtain ⟨htags, hdomain⟩ := ensureSupported_ok_iff.mp hsupported
    obtain ⟨hit, hhit⟩ := searchMatch_searchable eng h db
    have hrun := @findAllRows_of_fits K _ _ eng params hit ⟨db, hdb.valid⟩ R fromRow htags hdomain hhit
      fun e he => hdb.listed hlast (pageRows_sub eng db he).1
    refine (congrArg _ hrun).mpr (.ok hdb fun r hr => ?_)
    obtain ⟨e, he, hrow⟩ := findAllRows_stored eng hdb.valid hrun hr
    exact ⟨e, hdb.readable e he, hrow⟩

theorem findAll_serves {params : FindParams} (h : params.Searchable eng) :
    Serves Url now last u (fun rows => ∀ full ∈ rows, full.Stored Url) (Entries.findAll eng params) :=
  findAllRows_serves eng hlast h EntryRow.fromRow

theorem findAllMetadata_serves {params : FindParams} (h : params.Searchable eng) :
    Serves Url now last u (fun rows => ∀ listed ∈ rows, listed.Stored Url)
      (Entries.findAllMetadata eng params) :=
  findAllRows_serves eng hlast h EntryMetadataRow.fromRow

end listing

omit [Field K] [LinearOrder K] in
theorem findById_serves (userId id : Int) :
    Serves Url now last u (fun found => ∀ full ∈ found, full.Stored Url)
      (Entries.findById userId id) := by
  intro db hdb
  rw [Entries.findById_run]
  refine .ok hdb fun full hfull => ?_
  obtain ⟨e, he, rfl⟩ := Option.map_eq_some_iff.mp hfull
  exact ⟨e, hdb.readable e (List.mem_of_find?_eq_some he), rfl⟩

/-- Reading the columns by their names finds nothing that does not decode. -/
theorem Db.Intact.findAllNamed {db : Db} (h : db.Intact Url now) (params : FindParams) :
    (Entries.findAllNamed eng params : Run Db Error _) db = (Entries.findAll eng params : Run Db Error _) db ∧
      (Entries.findAllMetadataNamed eng params : Run Db Error _) db =
        (Entries.findAllMetadata eng params : Run Db Error _) db :=
  ⟨Entries.findAllNamed_eq h.times, Entries.findAllMetadataNamed_eq h.times⟩

theorem stmt_serves {α : Type} {f : Db → α × Db} {k : Statement} (hk : k.LeavesRows)
    (hkeep : k ≠ .deleteUsers) (hw : ∀ s, Write k s (f s).2) :
    Serves Url now last u (fun _ => True) (stmt fun s => .ok (f s)) :=
  .update fun s hs => ⟨hs.write (hw s) hk hkeep, trivial⟩

theorem deleteById_serves (userId id : Int) :
    Serves Url now last u (fun _ => True) (Entries.deleteById userId id) :=
  stmt_serves (k := .deleteEntries) (by decide) (by decide) fun s => .deleteEntries s _

theorem deleteReturning_serves (p : TagRow → Bool) :
    Serves Url now last u (fun _ => True) (Tags.deleteReturning p) :=
  stmt_serves (k := .deleteTags) (by decide) (by decide) fun s => .deleteTags s _

theorem deleteClient_serves (userId id : Int) :
    Serves Url now last u (fun _ => True) (Clients.deleteById userId id) :=
  stmt_serves (k := .deleteClients) (by decide) (by decide) fun s => .deleteClients s _

/-- An update that names no NULL and nothing unreadable, made now or later. A reading time is an `i32`. -/
structure UpdateEntry.Proper (Url : Type) [UrlCrate Url] (now : Int) (update : UpdateEntry) :
    Prop where
  noNull : update.NoNull
  parses : ∀ a ∈ update.assignments, a.Readable Url
  time : ∀ time, update.readingTime = some (some time) → fitsI32 time = true
  later : now ≤ update.updatedAt

theorem updateById_serves {update : UpdateEntry} (h : update.Proper Url now) (userId id : Int) :
    Serves Url now last u (fun _ => True) (Entries.updateById userId id update) := by
  refine .bind (Q := fun _ => True) (.stmt (fun s n t hs hu => ?_) fun s e hs hu => ?_)
    fun _ _ => .pure trivial
  · have hw : Write .updateEntries s t := .updateEntries hu
    exact ⟨⟨hs.toIntact.updateById h.parses h.time hu,
      Later.hasUser (.single ⟨.updateEntries, by decide, hw⟩) hs.user,
      (hw.entriesSeq (by decide)).trans_le hs.given⟩, trivial⟩
  · obtain ⟨r, hr⟩ := Db.updateEntries_isOk.mpr fun d hd _ =>
      ⟨h.noNull, (hs.born d hd).trans h.later⟩
    rw [hr] at hu
    cases hu

theorem createAndLink_serves (entryId : Int) (tags : List Tags.CreateTag) :
    Serves Url now last u (fun _ => True) (Tags.createAndLink u entryId tags) := by
  unfold Tags.createAndLink
  split
  · exact .pure trivial
  split
  · exact .fail rfl
  refine .transaction (.bind (Q := fun _ => True) (.stmt (fun s a t hs hf => ?_) fun s e hs hf => ?_)
    fun _ _ => .bind (stmt_serves (k := .linkLabels) (by decide) (by decide) fun s =>
      .linkLabels s _ _ _) fun _ _ => .read fun _ _ => trivial)
  · split at hf
    · cases hf
      exact ⟨hs.write (.insertTags s u tags (.inl hs.user)) (by decide) (by decide), trivial⟩
    · cases hf
  · simp [hs.user] at hf

theorem updateTags_serves (entryId : Int) (tags : List Tags.CreateTag) :
    Serves Url now last u (fun _ => True) (Tags.updateTagsByEntryId u entryId tags) :=
  .bind (createAndLink_serves entryId tags) fun _ _ =>
    .bind (stmt_serves (k := .deleteEntryTags) (by decide) (by decide) fun s =>
      .deleteEntryTags s _) fun _ _ => .pure trivial

theorem FullEntry.Stored.converts {full : FullEntry} (h : full.Stored Url) :
    ∃ a : Entry Url, Entry.tryFromFull full = .ok a := by
  obtain ⟨e, he, hrow⟩ := h
  obtain ⟨row, tags⟩ := full
  cases hrow
  exact Entry.tryFromFull_ok_iff.mpr he

theorem MetadataEntry.Stored.converts {listed : MetadataEntry} (h : listed.Stored Url) :
    ∃ a : Entry Url, Entry.tryFromMetadata listed = .ok a := by
  obtain ⟨e, he, hrow⟩ := h
  obtain ⟨row, tags⟩ := listed
  cases hrow
  exact Entry.tryFromMetadata_ok_iff.mpr he

theorem insertEntry_serving {s t : Db} (hs : s.Serving Url now last u) {entry : CreateEntry} {id : Int}
    (hread : (entry.record id).Readable Url) (htime : fitsI32 entry.readingTime = true) {now' : Int}
    (hnow : now ≤ now') (hborn : entry.createdAt ≤ now')
    (hi : s.insertEntry entry.record = .ok (id, t)) : t.Serving Url now' (last + 1) u := by
  have hvalid := hs.valid.insertEntry (fun _ => rfl) hi
  obtain ⟨rfl, -, -, rfl⟩ := Db.insertEntry_ok hi
  have hseq : -2 ^ 31 ≤ s.entriesSeq + 1 := hs.seq.trans (Int.le_add_one le_rfl)
  refine ⟨⟨hvalid, ?_, ?_, ?_, ?_, hseq⟩, hs.user, Int.add_le_add_right hs.given 1⟩
  all_goals
    intro e he
    rcases List.mem_append.mp he with he | he
  · exact hs.readable e he
  · exact List.mem_singleton.mp he ▸ hread
  · exact (hs.born e he).trans hnow
  · rw [List.mem_singleton.mp he]
    exact hborn
  · exact hs.times e he
  · rw [List.mem_singleton.mp he]
    exact htime
  · exact hs.ids e he
  · rw [List.mem_singleton.mp he]
    exact hseq

theorem create_serves {s : Db} (hs : s.Serving Url now last u) {entry : CreateEntry}
    (huser : entry.userId = u) (hread : ∀ id, (entry.record id).Readable Url)
    (htime : fitsI32 entry.readingTime = true) (hupdated : entry.createdAt ≤ entry.updatedAt)
    {now' : Int} (hnow : now ≤ now') (hborn : entry.createdAt ≤ now') (tags : List Tags.CreateTag) :
    Answered (fun db => db.Serving Url now' (last + 1) u) Error.Refusal
      (fun full => full.Stored Url) ((Entries.create entry tags : Run Db Error FullEntry) s) := by
  have hbefore := hs.mono hnow
  have hinsert : ∃ p, s.insertEntry entry.record = .ok p := by
    have hhas : s.hasUser entry.userId = true := huser ▸ hs.user
    simp [Db.insertEntry, CreateEntry.record, not_lt.mpr hupdated, hhas]
  obtain ⟨⟨id, t⟩, hinsert⟩ := hinsert
  have ht := insertEntry_serving hs (hread id) htime hnow hborn hinsert
  have hstored : ∃ e ∈ t.entries, e.id = id := by
    obtain ⟨-, -, -, rfl⟩ := Db.insertEntry_ok hinsert
    exact ⟨entry.record id, by simp, rfl⟩
  refine Answered.transaction hbefore ?_
  rw [run_bind_ok (stmt_ok_iff.mpr hinsert)]
  -- the tags leave the entries alone
  have hlink : ∀ t' : Db, t'.entries = t.entries → t'.Serving Url now' (last + 1) u →
      Answered (fun db => db.Serving Url now' (last + 1) u) Error.Refusal (fun full => full.Stored Url)
        ((do
          let row ← query fun db => okOr (.sqlx .rowNotFound) (db.entries.find? fun e => e.id == id)
          let tagRows ← query fun db => .ok (linkedTags row.id db)
          pure (EntryRow.fromRow row, tagRows) : Run Db Error FullEntry) t') := by
    intro t' hentries ht'
    obtain ⟨e, he, hid⟩ := hstored
    have hfind : (t'.entries.find? fun e => e.id == id).isSome = true := by
      rw [List.find?_isSome]
      exact ⟨e, hentries ▸ he, by simp [hid]⟩
    obtain ⟨row, hrow⟩ := Option.isSome_iff_exists.mp hfind
    rw [run_bind, run_query, hrow]
    exact .ok ht' ⟨row, ht'.readable row (List.mem_of_find?_eq_some hrow), rfl⟩
  cases hempty : tags.isEmpty with
  | true => exact hlink t rfl ht
  | false =>
    have hlinked := createAndLink_serves id tags t ht
    simp only [Bool.false_eq_true, if_false, huser]
    rw [run_bind]
    rcases hrun : (Tags.createAndLink u id tags : Run Db Error _) t with ⟨e | rows, t'⟩
    · rw [hrun] at hlinked
      exact .failed hlinked.state (hlinked.error e rfl)
    · rw [hrun] at hlinked
      obtain ⟨-, rfl, -⟩ := Tags.createAndLink_ok hrun
      exact hlink _ (Tags.afterLink_entries ..) hlinked.state

end repository

end Articler
