import Articler.Access
import Articler.ReadPaths
import Articler.Repository.Columns
import Articler.Updates

/-! A reload is exact: every article of the user is replaced by what the scraper makes of its page
now, all of them or none, in whatever order the listing names them. -/
namespace Articler
open Txn Rows

/-- `reload_articles`, which lists the columns by their names. -/
def Cli.reloadArticlesNamed {Url : Type} [UrlCrate Url] {m : Type → Type} [Acquire Db Error m]
    {K : Type} [Field K] [LinearOrder K] (eng : Engine K) (now : Int → DateTime)
    (scraper : Option (ArticleUrl Url → Option (Document Url))) (username : String) : m Unit :=
  transaction do
    let found ← Users.findByUsername username
    let user ← ofExcept (okOr .userNotFound found)
    let rows ← Entries.findAllMetadataNamed eng { userId := user.id }
    let extract ← ofExcept (okOr .httpClientInit scraper)
    Cli.reloadEntries now extract user.id (rows.map Prod.fst)

/-- The listing decodes the id and the reading time of the row to an `i32`. -/
def EntryRecord.Listed (e : EntryRecord) : Prop :=
  fitsI32 e.id = true ∧ fitsI32 e.readingTime = true

/-- The url of the row, if its page can be asked for. -/
def EntryRecord.pageUrl (Url : Type) [UrlCrate Url] (e : EntryRecord) : Option (ArticleUrl Url) :=
  (UrlCrate.parse e.url).bind fun url => (ArticleUrl.tryFrom url).toOption

section reload
variable {Url : Type} [UrlCrate Url] (now : Int → DateTime)
  (extract : ArticleUrl Url → Option (Document Url))

/-- What the row is to become: it stays as it is where the scraper fails. -/
def EntryRecord.reloaded (e : EntryRecord) : EntryRecord :=
  match (e.pageUrl Url).bind extract with
  | some doc => (Cli.reloadUpdate (now e.id) doc).updated e
  | none => e

/-- Nothing about the row stops the reload: it can be listed, its url is one, and it is not from the
future where it is to be written. -/
structure EntryRecord.Reloads (e : EntryRecord) : Prop where
  listed : e.Listed
  page : ∃ url, e.pageUrl Url = some url ∧
    ((extract url).isSome = true → e.createdAt ≤ (now e.id).timestamp)

/-- One row, when the rows of these ids are reloaded. -/
def EntryRecord.reloadIn (ids : List Int) (e : EntryRecord) : EntryRecord :=
  if e.id ∈ ids then e.reloaded now extract else e

variable {now extract} {e d : EntryRecord}

theorem EntryRecord.reloaded_id : (e.reloaded now extract).id = e.id := by
  unfold reloaded
  split <;> rfl

theorem EntryRecord.reloadIn_id (ids : List Int) : (e.reloadIn now extract ids).id = e.id := by
  unfold reloadIn
  split
  · exact reloaded_id
  · rfl

theorem EntryRecord.reloadIn_cons {id : Int} {ids : List Int} (h : id ∉ ids) :
    (e.reloadIn now extract [id]).reloadIn now extract ids = e.reloadIn now extract (id :: ids) := by
  by_cases hid : e.id = id
  · have hfirst : e.reloadIn now extract [id] = e.reloaded now extract := by
      simp [reloadIn, hid]
    have hrest : (e.reloaded now extract).id ∉ ids := by
      rw [reloaded_id, hid]
      exact h
    rw [hfirst, reloadIn, if_neg hrest, reloadIn, if_pos (by simp [hid])]
  · have hfirst : e.reloadIn now extract [id] = e := by simp [reloadIn, hid]
    rw [hfirst]
    simp [reloadIn, hid]

theorem reloadIn_unique (ids : List Int) {entries : List EntryRecord}
    (h : UniqueBy EntryRecord.id entries) :
    UniqueBy EntryRecord.id (entries.map (EntryRecord.reloadIn now extract ids)) := by
  have hids : (entries.map (EntryRecord.reloadIn now extract ids)).map EntryRecord.id =
      entries.map EntryRecord.id := by
    rw [List.map_map]
    exact List.map_congr_left fun e _ => EntryRecord.reloadIn_id ids
  rw [UniqueBy, hids]
  exact h

variable {u : Int} {s : Db}

/-- The database after the rows of these ids are reloaded, but for the text index. -/
def Db.Reloaded (now : Int → DateTime) (extract : ArticleUrl Url → Option (Document Url))
    (ids : List Int) (s t : Db) : Prop :=
  t = { s with entries := s.entries.map (EntryRecord.reloadIn now extract ids)
               entriesFts := t.entriesFts }

theorem Cli.reloadEntry_none (h : d.pageUrl Url = none) :
    ∃ e, (Cli.reloadEntry now extract u (EntryMetadataRow.fromRow d) : Run Db Error Unit) s =
      (.error e, s) := by
  unfold EntryRecord.pageUrl at h
  cases hparsed : (UrlCrate.parse d.url : Option Url) with
  | none =>
    refine ⟨.urlFormat, ?_⟩
    rw [Cli.reloadEntry, EntryMetadataRow.fromRow, run_bind, run_ofExcept, hparsed]
    rfl
  | some parsed =>
    rw [hparsed, Option.bind_some] at h
    cases htry : ArticleUrl.tryFrom parsed with
    | ok url => simp [htry, Except.toOption] at h
    | error e =>
      refine ⟨e, ?_⟩
      rw [Cli.reloadEntry, EntryMetadataRow.fromRow, run_bind, run_ofExcept, hparsed]
      dsimp only [okOr]
      rw [run_bind, run_ofExcept, htry]

theorem Cli.reloadEntry_some {url : ArticleUrl Url} (h : d.pageUrl Url = some url) :
    (Cli.reloadEntry now extract u (EntryMetadataRow.fromRow d) : Run Db Error Unit) s =
      match extract url with
      | none => (.ok (), s)
      | some doc =>
        match s.updateEntries (fun e => e.id == d.id && e.userId == u)
          (Cli.reloadUpdate (now d.id) doc).assignments with
        | .error e => (.error e, s)
        | .ok (_, t) => (.ok (), t) := by
  obtain ⟨parsed, hparsed, harticle⟩ := Option.bind_eq_some_iff.mp h
  cases htry : ArticleUrl.tryFrom parsed with
  | error e => simp [htry, Except.toOption] at harticle
  | ok a =>
    obtain rfl : a = url := by simpa [htry, Except.toOption] using harticle
    rw [Cli.reloadEntry, EntryMetadataRow.fromRow, run_bind, run_ofExcept, hparsed]
    dsimp only [okOr]
    rw [run_bind, run_ofExcept, htry]
    dsimp only
    cases hdoc : extract a with
    | none => rfl
    | some doc =>
      dsimp only
      rw [run_bind, Entries.updateById, run_bind, run_stmt]
      cases s.updateEntries (fun e => e.id == d.id && e.userId == u)
          (Cli.reloadUpdate (now d.id) doc).assignments with
      | error e => rfl
      | ok r => rfl

/-- A row that nothing stops. -/
theorem Cli.reloadEntry_ok (hunique : UniqueBy EntryRecord.id s.entries) (hd : d ∈ s.entries)
    (howner : d.userId = u) (h : d.Reloads now extract) :
    ∃ t, (Cli.reloadEntry now extract u (EntryMetadataRow.fromRow d) : Run Db Error Unit) s = (.ok (), t) ∧
      s.Reloaded now extract [d.id] t := by
  obtain ⟨url, hurl, hborn⟩ := h.page
  have hsame {e : EntryRecord} (he : e ∈ s.entries) (hid : e.id = d.id) : e = d :=
    hunique.eq_of_key he hd hid
  rw [Cli.reloadEntry_some hurl]
  cases hdoc : extract url with
  | none =>
    refine ⟨s, rfl, ?_⟩
    have hstays : s.entries.map (EntryRecord.reloadIn now extract [d.id]) = s.entries := by
      refine (List.map_congr_left fun e he => ?_).trans (List.map_id _)
      by_cases hid : e.id = d.id
      · rw [hsame he hid]
        simp [EntryRecord.reloadIn, EntryRecord.reloaded, hurl, hdoc]
      · simp [EntryRecord.reloadIn, hid]
    rw [Db.Reloaded, hstays]
  | some doc =>
    have hallowed : ∀ e ∈ s.entries, (e.id == d.id && e.userId == u) = true →
        (Cli.reloadUpdate (now d.id) doc).NoNull ∧
          e.createdAt ≤ (Cli.reloadUpdate (now d.id) doc).updatedAt := by
      intro e he hp
      obtain rfl : e = d := hsame he (eq_of_beq (Bool.and_eq_true_iff.mp hp).1)
      exact ⟨⟨nofun, nofun, nofun, nofun, nofun, nofun⟩, hborn (by simp [hdoc])⟩
    obtain ⟨⟨n, t⟩, hupdate⟩ := Db.updateEntries_isOk.mpr hallowed
    dsimp only
    refine ⟨t, by rw [hupdate], ?_⟩
    obtain ⟨-, -, fts, rfl⟩ := Db.updateEntries_updated hupdate
    have hrows : (s.entries.map fun e => if (e.id == d.id && e.userId == u) = true then
        (Cli.reloadUpdate (now d.id) doc).updated e else e) =
          s.entries.map (EntryRecord.reloadIn now extract [d.id]) := by
      refine List.map_congr_left fun e he => ?_
      by_cases hid : e.id = d.id
      · rw [hsame he hid]
        simp [EntryRecord.reloadIn, EntryRecord.reloaded, hurl, hdoc, howner]
      · simp [EntryRecord.reloadIn, hid]
    rw [Db.Reloaded, hrows]

theorem Cli.reloadEntry_fails (hd : d ∈ s.entries) (howner : d.userId = u)
    (hlisted : d.Listed) (h : ¬ d.Reloads now extract) :
    ∃ e t, (Cli.reloadEntry now extract u (EntryMetadataRow.fromRow d) : Run Db Error Unit) s =
      (.error e, t) := by
  cases hurl : d.pageUrl Url with
  | none =>
    obtain ⟨e, hrun⟩ := Cli.reloadEntry_none hurl
    exact ⟨e, s, hrun⟩
  | some url =>
    rw [Cli.reloadEntry_some hurl]
    cases hdoc : extract url with
    | none => exact absurd ⟨hlisted, url, hurl, by simp [hdoc]⟩ h
    | some doc =>
      dsimp only
      cases hupdate : s.updateEntries (fun e => e.id == d.id && e.userId == u)
          (Cli.reloadUpdate (now d.id) doc).assignments with
      | error e => exact ⟨e, s, rfl⟩
      | ok r =>
        have hborn := (Db.updateEntries_isOk.mp ⟨r, hupdate⟩ d hd (by simp [howner])).2
        exact absurd ⟨hlisted, url, hurl, fun _ => hborn⟩ h

theorem Db.Reloaded.rest {t : Db} (ht : s.Reloaded now extract [d.id] t) {rows : List EntryRecord}
    (hrows : UniqueBy EntryRecord.id (d :: rows)) (hunique : UniqueBy EntryRecord.id s.entries)
    (hstored : ∀ e ∈ d :: rows, e ∈ s.entries ∧ e.userId = u) :
    UniqueBy EntryRecord.id t.entries ∧ ∀ e ∈ rows, e ∈ t.entries ∧ e.userId = u := by
  have hentries : t.entries = s.entries.map (EntryRecord.reloadIn now extract [d.id]) := by
    rw [ht]
  rw [hentries]
  refine ⟨reloadIn_unique [d.id] hunique, fun e he => ?_⟩
  obtain ⟨hstays, hu⟩ := hstored e (List.mem_cons_of_mem d he)
  have hother : e.id ≠ d.id :=
    fun hid => (List.nodup_cons.mp hrows).1 (hid ▸ List.mem_map_of_mem he)
  exact ⟨List.mem_map.mpr ⟨e, hstays, by simp [EntryRecord.reloadIn, hother]⟩, hu⟩

/-- The loop over rows that nothing stops. -/
theorem Cli.reloadEntries_ok {rows : List EntryRecord} (hrows : UniqueBy EntryRecord.id rows)
    (hunique : UniqueBy EntryRecord.id s.entries) (hstored : ∀ d ∈ rows, d ∈ s.entries ∧ d.userId = u)
    (h : ∀ d ∈ rows, d.Reloads now extract) :
    ∃ t, (Cli.reloadEntries now extract u (rows.map EntryMetadataRow.fromRow) : Run Db Error Unit) s =
        (.ok (), t) ∧ s.Reloaded now extract (rows.map EntryRecord.id) t := by
  induction rows generalizing s with
  | nil =>
    refine ⟨s, rfl, ?_⟩
    have hstays : s.entries.map (EntryRecord.reloadIn now extract []) = s.entries := by
      refine (List.map_congr_left fun e _ => ?_).trans (List.map_id _)
      simp [EntryRecord.reloadIn]
    rw [List.map_nil, Db.Reloaded, hstays]
  | cons d rows ih =>
    obtain ⟨hnew, hrest⟩ := List.nodup_cons.mp hrows
    obtain ⟨hd, howner⟩ := hstored d List.mem_cons_self
    obtain ⟨t, hrun, ht⟩ := Cli.reloadEntry_ok hunique hd howner (h d List.mem_cons_self)
    obtain ⟨hunique', hstored'⟩ := ht.rest hrows hunique hstored
    obtain ⟨t', hloop, ht'⟩ := ih hrest hunique' hstored' fun e he => h e (List.mem_cons_of_mem d he)
    refine ⟨t', ?_, ?_⟩
    · rw [List.map_cons, Cli.reloadEntries, run_bind, hrun]
      exact hloop
    · have hboth : t.entries.map (EntryRecord.reloadIn now extract (rows.map EntryRecord.id)) =
          s.entries.map (EntryRecord.reloadIn now extract ((d :: rows).map EntryRecord.id)) := by
        rw [ht, List.map_map, List.map_cons]
        exact List.map_congr_left fun e _ => EntryRecord.reloadIn_cons hnew
      rw [Db.Reloaded, hboth, ht] at ht'
      exact ht'

/-- The loop fails at the first row that something stops. -/
theorem Cli.reloadEntries_fails {rows : List EntryRecord} (hrows : UniqueBy EntryRecord.id rows)
    (hunique : UniqueBy EntryRecord.id s.entries) (hstored : ∀ d ∈ rows, d ∈ s.entries ∧ d.userId = u)
    (hlisted : ∀ d ∈ rows, d.Listed) (h : ∃ d ∈ rows, ¬ d.Reloads now extract) :
    ∃ e t, (Cli.reloadEntries now extract u (rows.map EntryMetadataRow.fromRow) : Run Db Error Unit) s =
      (.error e, t) := by
  induction rows generalizing s with
  | nil =>
    obtain ⟨d, hd, -⟩ := h
    exact absurd hd List.not_mem_nil
  | cons d rows ih =>
    obtain ⟨hd, howner⟩ := hstored d List.mem_cons_self
    rw [List.map_cons, Cli.reloadEntries, run_bind]
    by_cases hgoes : d.Reloads now extract
    · obtain ⟨t, hrun, ht⟩ := Cli.reloadEntry_ok hunique hd howner hgoes
      obtain ⟨hunique', hstored'⟩ := ht.rest hrows hunique hstored
      obtain ⟨stopped, hmem, hstops⟩ := h
      have hlater : stopped ∈ rows := by
        rcases List.mem_cons.mp hmem with rfl | hlater
        · exact absurd hgoes hstops
        · exact hlater
      rw [hrun]
      exact ih (List.nodup_cons.mp hrows).2 hunique' hstored'
        (fun e he => hlisted e (List.mem_cons_of_mem d he)) ⟨stopped, hlater, hstops⟩
    · obtain ⟨e, t, hrun⟩ := Cli.reloadEntry_fails hd howner (hlisted d List.mem_cons_self) hgoes
      exact ⟨e, t, by rw [hrun]⟩

section listing
variable {K : Type} [Field K] [LinearOrder K] (eng : Engine K)

/-- The rows that a reload lists, in the order that the engine gives them. -/
def reloadRows (u : Int) (db : Db) : List EntryRecord :=
  (leaders (fun r => r.entry.id) (Entries.rawRows eng { userId := u } db fun _ => true)).map
    JoinedRow.entry

theorem reloadRows_unique (db : Database) (u : Int) :
    UniqueBy EntryRecord.id (reloadRows eng u db.val) :=
  (pageRows_unique eng db).perm (leaders_page eng db)

theorem mem_reloadRows (db : Database) {u : Int} {e : EntryRecord} :
    e ∈ reloadRows eng u db.val ↔ e ∈ db.val.entries ∧ e.userId = u := by
  rw [reloadRows, (leaders_page eng db).mem_iff, pageRows_eq]
  change e ∈ eng.inner.run _ _ ↔ _
  rw [(eng.inner.perm _ _).mem_iff, matching, List.mem_filter, decide_eq_true_eq]
  constructor
  · rintro ⟨he, hpasses⟩
    exact ⟨he, hpasses.1⟩
  · rintro ⟨he, howner⟩
    exact ⟨he, ⟨howner, rfl, nofun, nofun, nofun, nofun⟩⟩

omit [Field K] [LinearOrder K] in
/-- A listing that succeeds has read the id and the reading time of every entry. -/
theorem gather_listed {rows : List JoinedRow} {listed : List MetadataEntry}
    (h : SqliteRow.gather (rows.map (JoinedRow.select Entries.findAllMetadataSelect)) = .ok listed)
    {l : JoinedRow} (hl : l ∈ leaders (fun r => r.entry.id) rows) : l.entry.Listed := by
  rw [gather_select (by decide) Entries.tagRow_metadata fromRow_metadata] at h
  split at h
  · rename_i hids
    have hgroup := entryGroups_eq rows ▸ List.mem_map_of_mem hl
    obtain ⟨_, -, hread⟩ := exists_new (mapM_inv h) hgroup
    refine ⟨List.all_eq_true.mp hids l (mem_of_leader hl), ?_⟩
    by_contra hfits
    simp [readEntry, hfits, Except.map] at hread
  · cases h

theorem findAllMetadataNamed_reload (db : Database) {u : Int}
    (hlisted : ∀ e ∈ db.val.entries, e.userId = u → e.Listed) :
    ∃ rows, (Entries.findAllMetadataNamed eng { userId := u } : Run Db Error _) db.val =
        (.ok rows, db.val) ∧
      rows.map Prod.fst = (reloadRows eng u db.val).map EntryMetadataRow.fromRow := by
  have hraw : ∀ r ∈ Entries.rawRows eng { userId := u } db.val (fun _ => true), r.entry.Listed := by
    intro r hr
    obtain ⟨hstored, hpasses⟩ := pageRows_sub eng db.val ((rawRows_entry eng).mp hr).2
    exact hlisted r.entry hstored hpasses.1
  have hgather := gather_gatherRows (by decide) Entries.tagRow_metadata fromRow_metadata
    fun r hr => (hraw r hr).2
  rw [gatherRows_ok EntryMetadataRow.fromRow fun r hr => (hraw r hr).1] at hgather
  rw [Entries.findAllMetadataNamed, Entries.findAllRowsNamed_run _ rfl rfl rfl, hgather]
  exact ⟨_, rfl, by simp [reloadRows, Function.comp_def]⟩

theorem findAllMetadataNamed_listed (db : Database) {u : Int} {rows : List MetadataEntry} {t : Db}
    (h : (Entries.findAllMetadataNamed eng { userId := u } : Run Db Error _) db.val = (.ok rows, t))
    {e : EntryRecord} (he : e ∈ db.val.entries) (howner : e.userId = u) : e.Listed := by
  rw [Entries.findAllMetadataNamed, Entries.findAllRowsNamed_run _ rfl rfl rfl] at h
  obtain ⟨l, hl, rfl⟩ := List.mem_map.mp ((mem_reloadRows eng db).mpr ⟨he, howner⟩)
  exact gather_listed (congrArg Prod.fst h) hl

theorem Cli.reloadArticlesNamed_run (scraper : Option (ArticleUrl Url → Option (Document Url)))
    (username : String) (s : Db) :
    (Cli.reloadArticlesNamed eng now scraper username : Run Db Error Unit) s =
      match s.users.find? fun w => w.username == username with
      | none => (.error .userNotFound, s)
      | some w => (Txn.transaction (do
          let rows ← Entries.findAllMetadataNamed eng { userId := w.id }
          let extract ← ofExcept (okOr .httpClientInit scraper)
          Cli.reloadEntries now extract w.id (rows.map Prod.fst)) : Run Db Error Unit) s := by
  rw [Cli.reloadArticlesNamed, run_transaction, Users.findByUsername, run_bind, run_query]
  cases s.users.find? fun w => w.username == username <;> rfl

/-- Where the reading times are `i32`s, this is the reload over the stored rows. -/
theorem Cli.reloadArticlesNamed_eq (db : Database)
    (scraper : Option (ArticleUrl Url → Option (Document Url))) (username : String)
    (h : ∀ e ∈ db.val.entries, fitsI32 e.readingTime = true) :
    (Cli.reloadArticlesNamed eng now scraper username : Run Db Error Unit) db.val =
      (Cli.reloadArticles eng now scraper username : Run Db Error Unit) db.val := by
  rw [Cli.reloadArticlesNamed_run, Cli.reloadArticles_run]
  cases db.val.users.find? fun w => w.username == username with
  | none => rfl
  | some w =>
    dsimp only
    rw [run_transaction, run_transaction, run_bind, run_bind, Entries.findAllMetadataNamed_eq h]

/-- The work of a reload that nothing stops. -/
theorem Cli.reloadUser_ok (db : Database) (hall : ∀ e ∈ db.val.entries, e.userId = u →
      e.Reloads now extract) :
    ∃ t, (do
        let rows ← Entries.findAllMetadataNamed eng { userId := u }
        let extract ← ofExcept (okOr .httpClientInit (some extract))
        Cli.reloadEntries now extract u (rows.map Prod.fst) : Run Db Error Unit) db.val = (.ok (), t) ∧
      t = { db.val with
        entries := db.val.entries.map fun e => if e.userId = u then e.reloaded now extract else e
        entriesFts := t.entriesFts } := by
  have hstored : ∀ d ∈ reloadRows eng u db.val, d ∈ db.val.entries ∧ d.userId = u :=
    fun d hd => (mem_reloadRows eng db).mp hd
  obtain ⟨rows, hlist, hrows⟩ :=
    findAllMetadataNamed_reload eng db fun e he hu => (hall e he hu).listed
  obtain ⟨t, hloop, ht⟩ := Cli.reloadEntries_ok (reloadRows_unique eng db u)
    db.property.entries.pk hstored fun d hd => hall d (hstored d hd).1 (hstored d hd).2
  refine ⟨t, ?_, ?_⟩
  · rw [run_bind, hlist]
    dsimp only
    rw [hrows]
    exact hloop
  · have hmine : db.val.entries.map (EntryRecord.reloadIn now extract
        ((reloadRows eng u db.val).map EntryRecord.id)) =
          db.val.entries.map fun e => if e.userId = u then e.reloaded now extract else e := by
      refine List.map_congr_left fun e he => ?_
      have hids : e.id ∈ (reloadRows eng u db.val).map EntryRecord.id ↔ e.userId = u := by
        constructor
        · intro hid
          obtain ⟨d, hd, heq⟩ := List.mem_map.mp hid
          rw [← db.property.entries.pk.eq_of_key (hstored d hd).1 he heq]
          exact (hstored d hd).2
        · intro hu
          exact List.mem_map_of_mem ((mem_reloadRows eng db).mpr ⟨he, hu⟩)
      simp only [EntryRecord.reloadIn, hids]
    rw [Db.Reloaded, hmine] at ht
    exact ht

/-- A row that cannot be listed or reloaded, or a scraper that cannot be set up, stops all of it. -/
theorem Cli.reloadUser_fails (scraper : Option (ArticleUrl Url → Option (Document Url)))
    (db : Database) (h : ¬ ∃ extract, scraper = some extract ∧
      ∀ e ∈ db.val.entries, e.userId = u → e.Reloads now extract) :
    ∃ e t, (do
        let rows ← Entries.findAllMetadataNamed eng { userId := u }
        let extract ← ofExcept (okOr .httpClientInit scraper)
        Cli.reloadEntries now extract u (rows.map Prod.fst) : Run Db Error Unit) db.val =
      (.error e, t) := by
  by_cases hlisted : ∀ e ∈ db.val.entries, e.userId = u → e.Listed
  · obtain ⟨rows, hlist, hrows⟩ := findAllMetadataNamed_reload eng db hlisted
    rw [run_bind, hlist]
    dsimp only
    cases scraper with
    | none => exact ⟨.httpClientInit, db.val, rfl⟩
    | some extract =>
      have hstored : ∀ d ∈ reloadRows eng u db.val, d ∈ db.val.entries ∧ d.userId = u :=
        fun d hd => (mem_reloadRows eng db).mp hd
      have hstopped : ∃ d ∈ reloadRows eng u db.val, ¬ d.Reloads now extract := by
        by_contra hnone
        push Not at hnone
        exact h ⟨extract, rfl, fun e he hu => hnone e ((mem_reloadRows eng db).mpr ⟨he, hu⟩)⟩
      rw [hrows]
      exact Cli.reloadEntries_fails (reloadRows_unique eng db u) db.property.entries.pk hstored
        (fun d hd => hlisted d (hstored d hd).1 (hstored d hd).2) hstopped
  · rw [run_bind]
    rcases hlist : (Entries.findAllMetadataNamed eng { userId := u } : Run Db Error _) db.val
      with ⟨e | rows, t⟩
    · exact ⟨e, t, rfl⟩
    · exact absurd (fun e he howner => findAllMetadataNamed_listed eng db hlist he howner) hlisted

variable (now) in
/-- A reload of a user's articles succeeds exactly where the scraper can be set up and nothing stops
any of the articles. Then each of them is what the scraper makes of its page now, and all else is as
before; otherwise all is. -/
theorem Cli.reload_exact (scraper : Option (ArticleUrl Url → Option (Document Url))) (db : Database)
    {w : UserRow} (hw : w ∈ db.val.users) :
    let run := (Cli.reloadArticlesNamed eng now scraper w.username : Run Db Error Unit) db.val
    (run.1 = .ok () ↔ ∃ extract, scraper = some extract ∧
      ∀ e ∈ db.val.entries, e.userId = w.id → e.Reloads now extract) ∧
      (∀ extract, scraper = some extract → run.1 = .ok () → run.2 = { db.val with
        entries := db.val.entries.map fun e => if e.userId = w.id then e.reloaded now extract else e
        entriesFts := run.2.entriesFts }) ∧
      (run.1 ≠ .ok () → run.2 = db.val) := by
  have hfind : db.val.users.find? (fun u => u.username == w.username) = some w :=
    db.property.usernames.find_of_key hw (by simp) fun u hu => beq_iff_eq.mp hu
  dsimp only
  rw [Cli.reloadArticlesNamed_run, hfind]
  dsimp only
  rw [run_transaction]
  by_cases hgoes : ∃ extract, scraper = some extract ∧
      ∀ e ∈ db.val.entries, e.userId = w.id → e.Reloads now extract
  · obtain ⟨extract, rfl, hall⟩ := hgoes
    obtain ⟨t, hrun, ht⟩ := Cli.reloadUser_ok eng db hall
    rw [hrun]
    refine ⟨iff_of_true rfl ⟨extract, rfl, hall⟩, fun d hd _ => ?_, fun h => absurd rfl h⟩
    cases hd
    exact ht
  · obtain ⟨e, t, hrun⟩ := Cli.reloadUser_fails eng scraper db hgoes
    rw [hrun]
    dsimp only
    exact ⟨iff_of_false nofun hgoes, fun _ _ => nofun, fun _ => rfl⟩

end listing

end reload

/-- Of the two pages on the shelf only the first is still there. -/
def reprinted (url : ArticleUrl HttpText) : Option (Document HttpText) :=
  if url.url.val = "https://a.org/" then
    some ⟨Title.default, ⟨"<p>a</p>"⟩, "a", none, none, none, none, 1⟩
  else none

/-- The second article is ahead of the clock, which does not matter as nothing is written to it. -/
theorem Cli.reload_exact_reprinted :
    let run := (Cli.reloadArticlesNamed plainEngine (fun _ => ⟨15, by decide⟩) (some reprinted)
      "wallabag" : Run Db Error Unit) shelf.val
    run.1 = .ok () ∧ run.2.entries.map EntryRecord.title = [Title.default.val, "B"] := by
  have hw : (⟨1, "wallabag", "", "", "", 0, 0⟩ : UserRow) ∈ shelf.val.users := List.mem_cons_self
  obtain ⟨hsucceeds, hrows, -⟩ := Cli.reload_exact (fun _ => ⟨15, by decide⟩)
    plainEngine (some reprinted) shelf hw
  have hdone := hsucceeds.mpr ⟨reprinted, rfl, fun e he _ => by
    rcases List.mem_pair.mp he with rfl | rfl
    · exact ⟨⟨rfl, rfl⟩, _, rfl, fun _ => by decide⟩
    · exact ⟨⟨rfl, rfl⟩, _, rfl, nofun⟩⟩
  refine ⟨hdone, ?_⟩
  rw [hrows reprinted rfl hdone]
  rfl

end Articler
