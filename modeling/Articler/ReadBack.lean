import Articler.ReadPaths
import Articler.Requests

/-! Reading back through the API what requests stored. -/
namespace Articler
open Txn Rows Relation

section keeping
variable (Url : Type) [UrlCrate Url]

/-- Every stored row converts to an entry of the API. -/
def Db.Readable (db : Db) : Prop := ∀ e ∈ db.entries, e.Readable Url

/-- A program that writes by statements of the repository and leaves readable rows. -/
abbrev Keeps {α : Type} (x : Run Db Error α) : Prop :=
  Obeys (fun db => db.Valid ∧ db.Readable Url) (ReflTransGen AnyWrite)
    (fun _ => True) x

theorem Keeps.of_built {Url : Type} [UrlCrate Url] {α : Type} {x : Run Db Error α}
    (hx : Built (fun s t => ReflTransGen AnyWrite s t ∧ (s.Readable Url → t.Readable Url)) x) :
    Keeps Url x := by
  intro s hs
  obtain ⟨hi, hr, -⟩ := hx.obeys (I := fun db => db.Valid ∧ db.Readable Url)
    (fun s t hst hs => ⟨valid_of_writes hst.1 hs.1, hst.2 hs.2⟩) s hs
  have hmoves := ReflTransGen.mono (fun _ _ h => h.1) _ _ hr
  rw [reflTransGen_eq_self] at hmoves
  exact ⟨hi, hmoves, fun _ _ => trivial⟩

/-- The value an UPDATE assigns is one the conversion accepts. -/
def Assign.Readable : Assign → Prop
  | .previewPicture v | .originUrl v => ∀ s, v = some s → ParsesAs Url s
  | .archivedAt v | .starredAt v | .publishedAt v => ∀ t, v = some t → InDateTime t
  | .updatedAt v => InDateTime v
  | _ => True

variable {Url}

theorem Assign.apply_readable {e e' : EntryRecord} {a : Assign} (ha : a.Readable Url)
    (he : e.Readable Url) (h : a.apply e = .ok e') : e'.Readable Url := by
  cases a <;> simp only [Assign.apply, notNull] at h
  case archivedAt =>
    cases h
    exact { he with archivedAt := ha }
  case starredAt =>
    cases h
    exact { he with starredAt := ha }
  case publishedAt =>
    cases h
    exact { he with publishedAt := ha }
  case previewPicture =>
    cases h
    exact { he with previewPicture := ha }
  case originUrl =>
    cases h
    exact { he with originUrl := ha }
  case updatedAt =>
    cases h
    exact { he with updatedAt := ha }
  case language | publishedBy | isPublic | uid =>
    cases h
    exact { he with url := he.url }
  all_goals
    rename_i v
    cases v with
    | none => cases h
    | some v =>
      cases h
      exact { he with url := he.url }

theorem EntryRecord.assignAll_readable {e e' : EntryRecord} {as : List Assign}
    (ha : ∀ a ∈ as, a.Readable Url) (he : e.Readable Url) (h : e.assignAll as = .ok e') :
    e'.Readable Url := by
  induction as generalizing e with
  | nil =>
    cases h
    exact he
  | cons a as ih =>
    rw [assignAll] at h
    cases hd : a.apply e with
    | error x =>
      rw [hd] at h
      cases h
    | ok d =>
      rw [hd] at h
      exact ih (fun b hb => ha b (List.mem_cons_of_mem a hb))
        (Assign.apply_readable (ha a List.mem_cons_self) he hd) h

theorem updateEntries_readable {s t : Db} {p : EntryRecord → Bool} {as : List Assign} {n : Nat}
    (ha : ∀ a ∈ as, a.Readable Url) (h : s.updateEntries p as = .ok (n, t))
    (hs : s.Readable Url) : t.Readable Url := by
  obtain ⟨entries', hall, -, rfl⟩ := Db.updateEntries_ok h
  intro e' he'
  obtain ⟨e, he, hr⟩ := exists_old hall he'
  split at hr
  · exact EntryRecord.assignAll_readable ha (hs e he) (EntryRecord.update_ok hr).1
  · cases hr
    exact hs _ he

theorem updatedRow_readable {s t : Db} (hv : s.Valid) (hs : s.Readable Url) {id userId : Int}
    {as : List Assign} {n : Nat}
    (h : s.updateEntries (fun e => e.id == id && e.userId == userId) as = .ok (n, t))
    {row : EntryRecord} (hrow : row ∈ t.entries) (hid : row.id = id) (hr : row.Readable Url) :
    t.Readable Url := by
  have hpk := (hv.updateEntries h).entries.pk
  obtain ⟨entries', hall, -, rfl⟩ := Db.updateEntries_ok h
  intro e' he'
  obtain ⟨e, he, hupdate⟩ := exists_old hall he'
  split at hupdate
  · rename_i hp
    simp only [Bool.and_eq_true, beq_iff_eq] at hp
    have hkey : e'.id = row.id := by rw [(EntryRecord.update_ok hupdate).2.1, hp.1, hid]
    rw [hpk.eq_of_key he' hrow hkey]
    exact hr
  · cases hupdate
    exact hs _ he

theorem archiveUpdate_readable (now updated : DateTime) (archived : Bool) :
    ∀ a ∈ (Web.archiveUpdate now updated archived).assignments, a.Readable Url := by
  cases archived <;>
    simp [Web.archiveUpdate, UpdateEntry.assignments, Assign.Readable, DateTime.inDateTime]

theorem favouriteUpdate_readable (now updated : DateTime) (starred : Bool) :
    ∀ a ∈ (Web.favouriteUpdate now updated starred).assignments, a.Readable Url := by
  cases starred <;>
    simp [Web.favouriteUpdate, UpdateEntry.assignments, Assign.Readable, DateTime.inDateTime]

theorem titleUpdate_readable (now : DateTime) (title : Title) :
    ∀ a ∈ UpdateEntry.assignments { title := some (some title), updatedAt := now.timestamp },
      a.Readable Url := by
  simp [UpdateEntry.assignments, Assign.Readable, DateTime.inDateTime]

section handlers
variable (hurl : ∀ u : Url, ParsesAs Url (UrlCrate.asStr u)) (crates : Crates)
include hurl

theorem imageUrl_parses {u : Option Url} {s : String} (h : u.map UrlCrate.asStr = some s) :
    ParsesAs Url s := by
  obtain ⟨v, -, rfl⟩ := Option.map_eq_some_iff.mp h
  exact hurl v

omit hurl in
theorem publishedAt_inDateTime {d : Option DateTime} {t : Int}
    (h : d.map DateTime.timestamp = some t) : InDateTime t := by
  obtain ⟨v, -, rfl⟩ := Option.map_eq_some_iff.mp h
  exact v.inDateTime

omit hurl in
theorem stamp_inDateTime {now : DateTime} {b : Bool} {t : Int}
    (h : (if b then some now.timestamp else none) = some t) : InDateTime t := by
  split at h
  · cases h
    exact now.inDateTime
  · cases h

theorem createEntry_readable {addEntry : Api.AddEntry Url}
    (ho : ∀ s, addEntry.originUrl = some s → ParsesAs Url s) (now : DateTime) (uid : String)
    (userId : Int) (url : ArticleUrl Url) (document : Document Url) (id : Int) :
    ((addEntry.createEntry crates now uid userId url document).record id).Readable Url where
  url := hurl url.url
  givenUrl := hurl url.url
  previewPicture := fun _ => imageUrl_parses hurl
  originUrl := ho
  archivedAt := fun _ => stamp_inDateTime
  starredAt := fun _ => stamp_inDateTime
  createdAt := now.inDateTime
  updatedAt := now.inDateTime
  publishedAt := fun _ => publishedAt_inDateTime

theorem addedEntry_readable (now : DateTime) (userId : Int) (url : ArticleUrl Url)
    (document : Document Url) (id : Int) :
    ((Web.addedEntry crates now userId url document).record id).Readable Url where
  url := hurl url.url
  givenUrl := hurl url.url
  previewPicture := fun _ => imageUrl_parses hurl
  originUrl := nofun
  archivedAt := nofun
  starredAt := nofun
  createdAt := now.inDateTime
  updatedAt := now.inDateTime
  publishedAt := fun _ => publishedAt_inDateTime

theorem reloadUpdate_readable (now : DateTime) (doc : Document Url) :
    ∀ a ∈ (Cli.reloadUpdate now doc).assignments, a.Readable Url := by
  simp only [Cli.reloadUpdate, UpdateEntry.assignments, Option.map_some, Option.map_none,
    Option.toList_some, Option.toList_none, List.nil_append, List.append_nil, List.cons_append,
    List.mem_cons, List.not_mem_nil, or_false, forall_eq_or_imp, forall_eq]
  exact ⟨trivial, trivial, trivial, trivial, fun _ => imageUrl_parses hurl,
    fun _ => publishedAt_inDateTime, now.inDateTime⟩

omit hurl

/-- A patch that fails, for whatever reason, leaves the database alone. -/
theorem patchEntry_error {now : DateTime} {uid : String} {entryId : Int}
    {request : Api.UpdateEntry Url} {userId : Int} {s t : Db} {e : Error}
    (h : (Api.patchEntry crates now uid entryId request userId : Run Db Error _) s =
      (.error e, t)) : t = s := by
  rw [Api.patchEntry, run_bind, run_ofExcept] at h
  cases hupdate : request.repoUpdate crates now uid with
  | error x =>
    rw [hupdate] at h
    exact (Prod.mk.inj h).2.symm
  | ok update =>
    rw [hupdate] at h
    have herror := congrArg Prod.fst h
    rw [← transaction_error herror]
    exact (congrArg Prod.snd h).symm

/-- `patch_entry` reads the row back and converts it before it commits. -/
theorem patchEntry_keeps (now : DateTime) (uid : String) (entryId : Int)
    (request : Api.UpdateEntry Url) (userId : Int) :
    Keeps Url (Api.patchEntry crates now uid entryId request userId) := by
  intro s hs
  have hw : Writes (fun _ => True) (Api.patchEntry crates now uid entryId request userId) :=
    .of_built (patchEntry_built crates (fun _ => .refl)
      (fun k _ _ _ hw => .single ⟨k, trivial, hw⟩) now uid entryId request userId
      fun _ _ _ _ _ _ h => .single ⟨_, trivial, .updateEntries h⟩)
  refine ⟨⟨hw.valid hs.1, ?_⟩, (hw s trivial).2.1, fun _ _ => trivial⟩
  rcases hrun : (Api.patchEntry crates now uid entryId request userId : Run Db Error _) s
    with ⟨r, t⟩
  cases r with
  | error e =>
    rw [patchEntry_error crates hrun]
    exact hs.2
  | ok response =>
    obtain ⟨update, n, s', -, hupdate, hentries, d, hd, hid, -, hread⟩ := Api.patchEntry_entries hrun
    -- the row that was patched is the row that was converted
    have hpatched : s'.Readable Url :=
      updatedRow_readable hs.1 hs.2 hupdate (hentries ▸ hd) hid hread
    intro e he
    exact hpatched e (hentries ▸ he)

end handlers

variable {crates : Crates}

theorem Request.inserts_readable (hurl : ∀ u : Url, ParsesAs Url (UrlCrate.asStr u))
    {r : Request Url} (hr : r.OriginParses) {entry : CreateEntry} (h : r.Inserts crates entry)
    (id : Int) : (entry.record id).Readable Url := by
  cases r with
  | postEntries now uid extract userId addEntry =>
    obtain ⟨url, -, rfl⟩ := h
    exact createEntry_readable hurl crates hr now uid userId url _ id
  | doAdd now extract _ userId =>
    obtain ⟨url, rfl⟩ := h
    exact addedEntry_readable hurl crates now userId url _ id
  | _ => exact h.elim

theorem Request.updates_readable (hurl : ∀ u : Url, ParsesAs Url (UrlCrate.asStr u))
    {r : Request Url} {update : UpdateEntry} (h : r.Updates crates update)
    (hpatch : ∀ now uid id request userId, r ≠ .patchEntry now uid id request userId) :
    ∀ a ∈ update.assignments, a.Readable Url := by
  cases r with
  | patchEntry now uid id request userId => exact absurd rfl (hpatch now uid id request userId)
  | doArchive now updated =>
    obtain rfl := h
    exact archiveUpdate_readable now updated _
  | doFavourite now updated =>
    obtain rfl := h
    exact favouriteUpdate_readable now updated _
  | doEditTitle now =>
    obtain ⟨title, rfl⟩ := h
    exact titleUpdate_readable now title
  | reloadArticles now =>
    obtain ⟨-, id, -, doc, -, -, rfl⟩ := h
    exact reloadUpdate_readable hurl (now id) doc
  | _ => exact h.elim

variable {K : Type} [Field K] [LinearOrder K]

theorem Request.run_keeps (hurl : ∀ u : Url, ParsesAs Url (UrlCrate.asStr u)) (crates : Crates)
    (eng : Engine K) (r : Request Url) (hr : r.OriginParses) :
    Keeps Url (r.run crates eng) := by
  by_cases hpatch : ∀ now uid id request userId, r ≠ .patchEntry now uid id request userId
  · refine .of_built (Request.built crates (fun _ => ⟨.refl, id⟩)
      (fun k hk s t hw => ?_) eng r (fun entry hi s id t h => ?_) fun update hu s p n t h => ?_)
    · exact ⟨.single ⟨k, trivial, hw⟩, fun hs e he => hs e (hw.mem_entries hk.1 he)⟩
    · refine ⟨.single ⟨_, trivial, .insertEntry (fun _ => rfl) h⟩, fun hs => ?_⟩
      obtain ⟨-, -, -, rfl⟩ := Db.insertEntry_ok h
      intro e hm
      rcases List.mem_append.mp hm with hm | hm
      · exact hs e hm
      · rw [List.mem_singleton.mp hm]
        exact inserts_readable hurl hr hi _
    · exact ⟨.single ⟨_, trivial, .updateEntries h⟩,
        updateEntries_readable (updates_readable hurl hu hpatch) h⟩
  · simp only [not_forall, not_not] at hpatch
    obtain ⟨now, uid, id, request, userId, rfl⟩ := hpatch
    exact Obeys.bind (fun _ _ _ => .trans) (patchEntry_keeps crates now uid id request userId)
      fun _ _ => Obeys.pure (fun _ => .refl) trivial

theorem readable_of_run (hurl : ∀ u : Url, ParsesAs Url (UrlCrate.asStr u)) (crates : Crates)
    (eng : Engine K) {db : Db}
    (h : ReflTransGen (Request.Step crates eng fun r : Request Url => r.OriginParses) {} db) :
    db.Valid ∧ db.Readable Url := by
  refine run_invariant (I := fun db => db.Valid ∧ db.Readable Url) (fun s t hs hst => ?_) ?_ h
  · obtain ⟨r, hr, rfl⟩ := hst
    exact (Request.run_keeps hurl crates eng r hr s hs).1
  · exact ⟨Db.valid_empty, fun e he => absurd he List.not_mem_nil⟩

end keeping

/-- What is stored can be read back: every row converts in both ways, whatever its tags,
and so does every row that a listing returns. -/
structure ReadsBack (Url : Type) [UrlCrate Url] (db : Db) : Prop where
  full : ∀ e ∈ db.entries, ∀ tags,
    ∃ a : Entry Url, Entry.tryFromFull (EntryRow.fromRow e, tags) = .ok a
  metadata : ∀ e ∈ db.entries, ∀ tags,
    ∃ a : Entry Url, Entry.tryFromMetadata (EntryMetadataRow.fromRow e, tags) = .ok a
  listed : ∀ {K : Type} [Field K] [LinearOrder K] (eng : Engine K) (params : FindParams) (rows),
    (Entries.findAll eng params : Run Db Error _) db = (.ok rows, db) →
      ∃ items : List (Entry Url), rows.mapM Entry.tryFromFull = .ok items
  listedMetadata : ∀ {K : Type} [Field K] [LinearOrder K] (eng : Engine K) (params : FindParams)
    (rows), (Entries.findAllMetadata eng params : Run Db Error _) db = (.ok rows, db) →
      ∃ items : List (Entry Url), rows.mapM Entry.tryFromMetadata = .ok items

/-- In every run of requests whose origin urls are urls, everything stored reads back. -/
theorem reads_back {Url : Type} [UrlCrate Url] {K : Type} [Field K] [LinearOrder K]
    (crates : Crates) (eng : Engine K)
    (hurl : ∀ u : Url, (UrlCrate.parse (UrlCrate.asStr u) : Option Url).isSome = true) {db : Db}
    (h : ReflTransGen (Request.Step crates eng fun r : Request Url => r.OriginParses) {} db) :
    ReadsBack Url db := by
  obtain ⟨hv, hr⟩ := readable_of_run hurl crates eng h
  have hfull : ∀ e ∈ db.entries, ∀ tags,
      ∃ a : Entry Url, Entry.tryFromFull (EntryRow.fromRow e, tags) = .ok a :=
    fun e he tags => Entry.tryFromFull_ok_iff.mpr (hr e he)
  have hmetadata : ∀ e ∈ db.entries, ∀ tags,
      ∃ a : Entry Url, Entry.tryFromMetadata (EntryMetadataRow.fromRow e, tags) = .ok a :=
    fun e he tags => Entry.tryFromMetadata_ok_iff.mpr (hr e he)
  refine ⟨hfull, hmetadata, fun eng params rows hrows => ?_, fun eng params rows hrows => ?_⟩
  · refine mapM_ok fun r hm => ?_
    obtain ⟨e, he, hrow⟩ := findAllRows_stored eng hv hrows hm
    rw [← Prod.eta r, hrow]
    exact hfull e he _
  · refine mapM_ok fun r hm => ?_
    obtain ⟨e, he, hrow⟩ := findAllRows_stored eng hv hrows hm
    rw [← Prod.eta r, hrow]
    exact hmetadata e he _

theorem httpText_parses (u : HttpText) :
    (UrlCrate.parse (UrlCrate.asStr u) : Option HttpText).isSome = true := by
  simp [UrlCrate.parse, UrlCrate.asStr, u.property]

def page (url : HttpText) : Document HttpText where
  title := ⟨url.val⟩
  contentHtml := ⟨""⟩
  contentText := ""
  imageUrl := none
  mimeType := none
  language := none
  publishedAt := none
  readingTime := 0

/-- One user posts one url, with an origin url. -/
def posting (originUrl : Option String) : List (Request HttpText) :=
  [.createUser "ada" "" "" "" 0 0,
    .postEntries ⟨10, by decide⟩ "" (fun url => page url.url) 1
      { url := ⟨"https://a.org/", by decide⟩, originUrl }]

theorem reads_back_posting :
    ReadsBack HttpText
      (serve plainCrates plainEngine (posting (some "https://b.org/")) {}) := by
  refine reads_back plainCrates plainEngine httpText_parses (serve_run _ _ (fun r hr => ?_) _)
  simp only [posting, List.mem_cons, List.not_mem_nil, or_false] at hr
  rcases hr with rfl | rfl
  · trivial
  · rintro s ⟨⟩
    exact httpText_parses ⟨"https://b.org/", by decide⟩

/-- The entry is stored before it is converted, and spoils the listing of its user. -/
theorem stray_origin_spoils_listing :
    ReflTransGen (Request.Step plainCrates plainEngine fun _ : Request HttpText => True) {}
        (serve plainCrates plainEngine (posting (some "not a url")) {}) ∧
      ¬ ReadsBack HttpText (serve plainCrates plainEngine (posting (some "not a url")) {}) ∧
      ((Api.entries plainEngine {} 1 : Run Db Error (Api.Entries HttpText))
        (serve plainCrates plainEngine (posting (some "not a url")) {})).1 = .error .urlFormat := by
  refine ⟨serve_run _ _ (fun _ _ => trivial) _, fun h => ?_, rfl⟩
  obtain ⟨items, hitems⟩ := h.listed plainEngine { userId := 1 } _ rfl
  cases hitems

end Articler
