import Articler.Links
import Articler.Pages
import Articler.ReadBack
import Articler.Stamping

/-! Incremental reading: a client that asks for the entries updated since what it has seen,
page by page, while other requests write. -/
namespace Articler
open Txn Rows Relation

section requests
variable {Url : Type} [UrlCrate Url]

/-- What a request of the two has read from the clock. -/
def Request.reading : Request Url → Option DateTime
  | .postEntries clock .. | .patchEntry clock .. => some clock
  | _ => none

def Request.target (s : Db) : Request Url → Int
  | .patchEntry _ _ entryId .. => entryId
  | _ => s.entriesSeq + 1

def Request.served {K : Type} [Field K] [LinearOrder K] (crates : Crates) (eng : Engine K)
    (r : Request Url) (s : Database) : Database where
  val := ((r.run crates eng : Run Db Error Unit) s.val).2
  property := (r.run_writes crates eng).valid s.property

end requests

/-- An entry of `t` has the `created_at` it had in `s`, or an id that `s` had not given out. -/
def CreatedKept (s t : Db) : Prop :=
  s.entriesSeq ≤ t.entriesSeq ∧ ∀ e ∈ t.entries,
    (∃ d ∈ s.entries, d.id = e.id ∧ d.createdAt = e.createdAt) ∨ s.entriesSeq < e.id

namespace CreatedKept
variable {s t u : Db}

theorem refl (s : Db) : CreatedKept s s := ⟨le_rfl, fun e he => .inl ⟨e, he, rfl, rfl⟩⟩

theorem trans (h : CreatedKept s t) (h' : CreatedKept t u) : CreatedKept s u := by
  refine ⟨h.1.trans h'.1, fun e he => ?_⟩
  rcases h'.2 e he with ⟨d, hd, hid, hcreated⟩ | hnew
  · rw [← hid, ← hcreated]
    exact h.2 d hd
  · exact .inr (h.1.trans_lt hnew)

theorem seq_of_write {k : Statement} (hw : Write k s t) : s.entriesSeq ≤ t.entriesSeq := by
  have hframe (h : DbTable.entries ∉ k.changes) : t.entriesSeq = s.entriesSeq := (hw.frame h).2.1
  cases hw with
  | insertEntry _ h =>
    obtain ⟨-, -, -, rfl⟩ := Db.insertEntry_ok h
    exact Int.le_add_one le_rfl
  | updateEntries h =>
    obtain ⟨_, -, -, rfl⟩ := Db.updateEntries_ok h
    exact le_rfl
  | deleteUsers | deleteEntries => exact le_rfl
  | _ => exact (hframe (by decide)).ge

theorem of_insert {entry : CreateEntry} {id : Int} (h : s.insertEntry entry.record = .ok (id, t)) :
    CreatedKept s t := by
  obtain ⟨rfl, -, -, rfl⟩ := Db.insertEntry_ok h
  refine ⟨Int.le_add_one le_rfl, fun e he => ?_⟩
  rcases List.mem_append.mp he with he | he
  · exact .inl ⟨e, he, rfl, rfl⟩
  · rw [List.mem_singleton.mp he]
    exact .inr (Int.lt_add_one_of_le le_rfl)

theorem of_update {p : EntryRecord → Bool} {u : UpdateEntry} {n : Nat}
    (h : s.updateEntries p u.assignments = .ok (n, t)) : CreatedKept s t := by
  obtain ⟨-, -, fts, rfl⟩ := Db.updateEntries_updated h
  refine ⟨le_rfl, fun e he => .inl ?_⟩
  obtain ⟨d, hd, rfl⟩ := List.mem_map.mp he
  refine ⟨d, hd, ?_⟩
  split <;> exact ⟨rfl, rfl⟩

theorem of_run {Url : Type} [UrlCrate Url] {K : Type} [Field K] [LinearOrder K] (crates : Crates)
    (eng : Engine K) (r : Request Url) (s : Db) :
    CreatedKept s ((r.run crates eng : Run Db Error Unit) s).2 := by
  have hbuilt : Built CreatedKept (r.run crates eng : Run Db Error Unit) := by
    refine Request.built crates refl (fun k hk s t hw => ?_) eng r
      (fun _ _ _ _ _ h => .of_insert h) fun _ _ _ _ _ _ h => .of_update h
    exact ⟨seq_of_write hw, fun e he => .inl ⟨e, hw.mem_entries hk.1 he, rfl, rfl⟩⟩
  have hrun := ((hbuilt.obeys (I := fun _ => True) fun _ _ _ _ => trivial) s trivial).2.1
  exact run_invariant (fun _ _ h hst => h.trans hst) (refl s) hrun

end CreatedKept

/-- Where anything changed, the target carries the time `now`, and no other entry changed. -/
def Retouched (now target : Int) (s t : Db) : Prop :=
  t = s ∨ ∀ e ∈ t.entries, (e.id = target → e.updatedAt = now) ∧ (e.id ≠ target → e ∈ s.entries)

section retouched
variable {Url : Type} [UrlCrate Url] {K : Type} [Field K] [LinearOrder K] {crates : Crates}
  {s t : Db}

theorem create_retouched (hv : s.Valid) {entry : CreateEntry} {tags : List Tags.CreateTag}
    {full : FullEntry} (h : (Entries.create entry tags : Run Db Error _) s = (.ok full, t)) :
    Retouched entry.updatedAt (s.entriesSeq + 1) s t := by
  obtain ⟨id, s', hinsert, rfl, -⟩ := Entries.create_ok h
  obtain ⟨rfl, -, -, rfl⟩ := Db.insertEntry_ok hinsert
  refine .inr fun e he => ?_
  rw [Tags.afterLink_entries] at he
  rcases List.mem_append.mp he with hold | hnew
  · refine ⟨fun hid => ?_, fun _ => hold⟩
    have hle := hv.entries.seq e hold
    omega
  · rw [List.mem_singleton.mp hnew]
    exact ⟨fun _ => rfl, fun hid => absurd rfl hid⟩

/-- Whether the post reports an entry or fails: it created the entry, or wrote nothing. -/
theorem postEntries_retouched (hv : s.Valid) {now : DateTime} {uid : String}
    {extract : ArticleUrl Url → Document Url} {userId : Int} {addEntry : Api.AddEntry Url}
    {x : Except Error (Api.AddEntryResponse Url)}
    (h : (Api.postEntries crates now uid extract userId addEntry : Run Db Error _) s = (x, t)) :
    Retouched now.timestamp (s.entriesSeq + 1) s t := by
  unfold Api.postEntries at h
  split at h
  · exact .inl (Prod.mk.inj h).2.symm
  rw [run_bind, run_ofExcept] at h
  cases hurl : ArticleUrl.tryFrom addEntry.url with
  | error e =>
    rw [hurl] at h
    exact .inl (Prod.mk.inj h).2.symm
  | ok url =>
    rw [hurl] at h
    dsimp only at h
    rw [run_bind] at h
    rcases hcreate : (Entries.create (addEntry.createEntry crates now uid userId url (extract url))
      ((addEntry.tags.map fun tags => tags.map (Api.toCreateTag crates)).getD []) :
        Run Db Error _) s with ⟨result, u⟩
    rw [hcreate] at h
    cases result with
    | error e =>
      have hback := transaction_error (congrArg Prod.fst hcreate)
      obtain rfl : u = t := (Prod.mk.inj h).2
      exact .inl ((congrArg Prod.snd hcreate).symm.trans hback)
    | ok full =>
      have htail : Built Eq (do
          let selfUrl ← ofExcept (parseUrl "https://example.com")
          let entry ← ofExcept (Entry.tryFromFull full)
          pure { entry, links := { self := selfUrl } } : Run Db Error (Api.AddEntryResponse Url)) :=
        .bind (.ofExcept _) fun _ => .bind (.ofExcept _) fun _ => .pure _
      obtain rfl : t = u := (congrArg Prod.snd h).symm.trans (htail.reads u)
      exact create_retouched hv hcreate

theorem patchEntry_retouched (ht : t.Valid) {now : DateTime} {uid : String}
    {entryId userId : Int} {request : Api.UpdateEntry Url} {x : Except Error (Entry Url)}
    (h : (Api.patchEntry crates now uid entryId request userId : Run Db Error _) s = (x, t)) :
    Retouched now.timestamp entryId s t := by
  cases x with
  | error e => exact .inl (patchEntry_error crates h)
  | ok response =>
    obtain ⟨update, n, s', hrepo, hupdate, hentries, d, hd, hkey, huser, -⟩ :=
      Api.patchEntry_entries h
    refine .inr fun e he => ?_
    rw [← Api.repoUpdate_updatedAt hrepo]
    rcases update_rows hupdate (hentries ▸ he) with ⟨hnow, c, -, hc, hp⟩ | ⟨hold, hother⟩
    · refine ⟨fun _ => hnow, fun hid => absurd ?_ hid⟩
      simp only [Bool.and_eq_true, beq_iff_eq] at hp
      exact hc.symm.trans hp.1
    · refine ⟨fun hid => ?_, fun _ => hold⟩
      -- the owner's entry was found
      obtain rfl : e = d := ht.entries.pk.eq_of_key he hd (hid.trans hkey.symm)
      simp [hkey, huser] at hother

theorem Request.served_retouched (crates : Crates) (eng : Engine K) {r : Request Url}
    {now : DateTime} (hr : r.reading = some now) (s : Database) :
    Retouched now.timestamp (r.target s.val) s.val (r.served crates eng s).val := by
  cases r with
  | postEntries clock uid extract userId addEntry =>
    obtain rfl := Option.some.inj hr
    change Retouched _ _ s.val (Prod.snd _)
    rw [Request.run, run_discard]
    exact postEntries_retouched s.property rfl
  | patchEntry clock uid entryId request userId =>
    obtain rfl := Option.some.inj hr
    have ht := (Request.served crates eng (.patchEntry clock uid entryId request userId) s).property
    change Retouched _ _ s.val (Prod.snd _)
    change (Prod.snd _ : Db).Valid at ht
    rw [Request.run, run_discard] at ht ⊢
    exact patchEntry_retouched ht rfl
  | _ => cases hr

end retouched

namespace Sync

/-- A client reads the entries of one user, so many on a page. -/
structure Client where
  userId : Int
  perPage : Int
  positive : 1 ≤ perPage
  order : SortOrder := .asc
  detail : Api.Detail := .full

def Client.request (c : Client) (since : Int) : Api.EntriesRequest where
  order := c.order
  perPage := c.perPage
  since := since
  detail := c.detail

def Client.rows (c : Client) (since : Int) (db : Db) : List EntryRecord :=
  (c.request since).rows c.userId db

/-- A fetch under way: since when, and which page comes next, counted from zero. To speak
about it: the database, the versions of the entries and those that the client had when it
began, whether nothing had escaped the client until then, whether its pages fit together,
and the stamps of the versions that were committed during it. -/
structure Fetch where
  since : Int
  page : Nat
  start : Db
  begun : Int → Nat
  had : Int → Nat
  timely : Bool
  orderly : Bool
  stamps : List Int

/-- A write during the fetch: no entry may drop out of what the fetch is about. -/
def Fetch.commit (c : Client) (now : DateTime) (s t : Db) (f : Fetch) : Fetch :=
  { f with
    orderly := f.orderly && ((c.rows f.since s).map EntryRecord.id).all fun id =>
      ((c.rows f.since t).map EntryRecord.id).contains id
    stamps := if t = s then f.stamps else now.timestamp :: f.stamps }

/-- A page is read: the one before it may not end between entries that tie, and its offset
has to fit. -/
def Fetch.read (c : Client) (db : Db) (f : Fetch) : Fetch :=
  { f with
    page := f.page + 1
    orderly := f.orderly && decide (f.page * c.perPage < 2 ^ 63) &&
      decide (Cut (c.request f.since).allows (c.rows f.since db) (f.page * c.perPage.toNat)) }

section system
variable {Url : Type} [UrlCrate Url] {K : Type} [Field K] [LinearOrder K]

/-- The database, the requests that have read the clock and not committed, and the client:
the largest `updated_at` it has received, and its fetch. To speak about runs: how many
versions of each entry were committed, which of them the client has, the fetches that are
over, with what the client had at their end, and whether all was timely so far: the pages
of every fetch fit together, and every version has a later stamp than all that the client
received by the end of the fetch it was committed in. -/
structure Sys (Url : Type) [UrlCrate Url] where
  db : Database
  clock : DateTime
  calls : Nat → Option (Request Url)
  best : Int
  fetch : Option Fetch
  versions : Int → Nat
  got : Int → Nat
  finished : List (Fetch × (Int → Nat))
  timely : Bool

namespace Sys
variable (s : Sys Url)

def commit (c : Client) (i : Nat) (r : Request Url) (now : DateTime) (t : Database) : Sys Url :=
  let target := r.target s.db.val
  { s with
    db := t
    calls := Function.update s.calls i none
    fetch := s.fetch.map (Fetch.commit c now s.db.val t.val)
    versions := if t.val = s.db.val then s.versions
      else Function.update s.versions target (s.versions target + 1)
    timely := s.timely && (s.fetch.isSome || decide (t.val = s.db.val ∨ s.best < now.timestamp)) }

def received (items : List (Int × Int)) : Int → Nat :=
  fun id => if (items.map Prod.fst).contains id then s.versions id else s.got id

def finish (f : Fetch) : Sys Url :=
  { s with
    fetch := none
    finished := (f, s.got) :: s.finished
    timely := s.timely && f.orderly && f.stamps.all fun stamp => s.best < stamp }

/-- A page arrives, with the id and `updated_at` of each entry; the last one ends the fetch. -/
def receive (c : Client) (f : Fetch) (pages : Int) (items : List (Int × Int)) : Sys Url :=
  let f' := f.read c s.db.val
  let s' := { s with
    best := items.foldl (fun best e => max best e.2) s.best
    fetch := some f'
    got := s.received items }
  if pages ≤ f'.page then s'.finish f' else s'

end Sys

/-- Some entries, no request and no reading yet. -/
def start (Url : Type) [UrlCrate Url] (clock : DateTime) (db : Database) : Sys Url where
  db := db
  clock := clock
  calls := fun _ => none
  best := 0
  fetch := none
  versions := fun id => if (db.val.entries.map EntryRecord.id).contains id then 1 else 0
  got := fun _ => 0
  finished := []
  timely := db.val.entries.all fun e => 0 < e.updatedAt

/-- What the client keeps of the entries in a response. -/
def kept (items : List (Entry Url)) : List (Int × Int) :=
  items.map fun e => (e.id, e.updatedAt.timestamp)

/-- One step of a request or of the client. A page that fails is asked for again. -/
inductive Step (K : Type) [Field K] [LinearOrder K] (c : Client) (crates : Crates) (s : Sys Url) :
    Sys Url → Prop where
  | tick {clock : DateTime} (h : s.clock.timestamp ≤ clock.timestamp) :
      Step K c crates s { s with clock := clock }
  | readClock (i : Nat) (r : Request Url) (h : s.calls i = none)
      (hr : r.reading = some s.clock) :
      Step K c crates s { s with calls := Function.update s.calls i (some r) }
  | commit (i : Nat) (r : Request Url) (now : DateTime) (eng : Engine K)
      (h : s.calls i = some r) (hr : r.reading = some now) :
      Step K c crates s (s.commit c i r now (r.served crates eng s.db))
  | abort (i : Nat) : Step K c crates s { s with calls := Function.update s.calls i none }
  | fetch (h : s.fetch = none) :
      Step K c crates s { s with
        fetch := some ⟨s.best, 0, s.db.val, s.versions, s.got, s.timely, true, []⟩ }
  | read {f : Fetch} {response : Api.Entries Url} (eng : Engine K) (h : s.fetch = some f)
      (hread : (Api.entries eng ((c.request f.since).atPage f.page) c.userId :
        Run Db Error (Api.Entries Url)) s.db.val = (.ok response, s.db.val)) :
      Step K c crates s (s.receive c f response.pages (kept response.items))
  | finish {f : Fetch} (eng : Engine K) (h : s.fetch = some f)
      (hread : (Api.entries eng ((c.request f.since).atPage f.page) c.userId :
        Run Db Error (Api.Entries Url)) s.db.val =
          (.error (.notFound "Page not found"), s.db.val)) :
      Step K c crates s (s.finish f)

def Reached (K : Type) [Field K] [LinearOrder K] (c : Client) (crates : Crates) (s : Sys Url) :
    Prop :=
  ∃ clock db, ReflTransGen (Step K c crates) (start Url clock db) s

theorem Reached.step {c : Client} {crates : Crates} {s s' : Sys Url} (h : Reached K c crates s)
    (hs : Step K c crates s s') : Reached K c crates s' := by
  obtain ⟨clock, db, hrun⟩ := h
  exact ⟨clock, db, hrun.tail hs⟩

theorem Reached.page {c : Client} {crates : Crates} {s : Sys Url} (h : Reached K c crates s)
    {f : Fetch} (eng : Engine K) (pages : Int) (items : List (Int × Int)) (hf : s.fetch = some f)
    (hread : ∃ response : Api.Entries Url,
      (Api.entries eng ((c.request f.since).atPage f.page) c.userId : Run Db Error _) s.db.val =
        (.ok response, s.db.val) ∧ response.pages = pages ∧ kept response.items = items) :
    Reached K c crates (s.receive c f pages items) := by
  obtain ⟨response, hread, rfl, rfl⟩ := hread
  exact h.step (.read eng hf hread)

section fetching
variable {c : Client} {since : Int} {db : Database}

theorem mem_rows {e : EntryRecord} : e ∈ c.rows since db.val ↔
    e ∈ db.val.entries ∧ e.userId = c.userId ∧ since < e.updatedAt := by
  have hpass : Passes ((c.request since).params c.userId) (fun _ => true) e ↔
      e.userId = c.userId ∧ since < e.updatedAt := by
    constructor
    · rintro ⟨huser, -, -, -, -, hsince⟩
      exact ⟨huser, hsince _ rfl⟩
    · rintro ⟨huser, hsince⟩
      exact ⟨huser, rfl, nofun, nofun, nofun, fun d hd => (Option.some.inj hd) ▸ hsince⟩
  rw [Client.rows, Api.EntriesRequest.rows, matching, List.mem_filter, decide_eq_true_eq, hpass]

theorem rows_unique : UniqueBy EntryRecord.id (c.rows since db.val) :=
  matching_unique ((c.request since).params c.userId) (fun _ => true) db

theorem allows_congr {a a' b b' : EntryRecord} (ha : a.createdAt = a'.createdAt)
    (hb : b.createdAt = b'.createdAt) :
    (c.request since).allows a b = (c.request since).allows a' b' := by
  cases horder : c.order <;>
    simp [Client.request, Api.EntriesRequest.allows, SortColumn.value, horder, ha, hb]

/-- Rows that stay are never moved to an earlier place. -/
theorem upto_commit {t : Database} (hkept : CreatedKept db.val t.val)
    (hstay : ∀ e ∈ c.rows since db.val, ∃ d ∈ c.rows since t.val, d.id = e.id) {e d : EntryRecord}
    (he : e ∈ c.rows since db.val) (hd : d ∈ c.rows since t.val) (hid : d.id = e.id) :
    upto (c.request since).allows (c.rows since db.val) e ≤
      upto (c.request since).allows (c.rows since t.val) d := by
  have hcreated {a b : EntryRecord} (ha : a ∈ c.rows since db.val) (hb : b ∈ c.rows since t.val)
      (hba : b.id = a.id) : b.createdAt = a.createdAt := by
    have ha' := (mem_rows.mp ha).1
    rcases hkept.2 b (mem_rows.mp hb).1 with ⟨a', hmem, hid', hsame⟩ | hnew
    · rw [← hsame, db.property.entries.pk.eq_of_key hmem ha' (hid'.trans hba)]
    · have := db.property.entries.seq a ha'
      omega
  refine upto_mono (fun e => (e.id, e.createdAt)) (fun a a' b b' h h' => ?_) ?_ (fun a ha => ?_) ?_
  · exact allows_congr (Prod.mk.inj h).2 (Prod.mk.inj h').2
  · have hids : ((c.rows since db.val).map EntryRecord.id).Nodup := rows_unique
    exact List.Nodup.of_map Prod.fst (by rwa [List.map_map])
  · obtain ⟨b, hb, hba⟩ := hstay a ha
    exact ⟨b, hb, Prod.ext hba (hcreated ha hb hba)⟩
  · exact Prod.ext hid (hcreated he hd hid)

end fetching

section invariant
variable {c : Client}

/-- What holds of a fetch under way. A version that it owes the client is there already, or
will be on a later page; an entry that changed since carries one of the stamps. -/
structure Fetch.Ok (c : Client) (s : Sys Url) (f : Fetch) : Prop where
  begun : ∀ id, f.begun id ≤ s.versions id
  had : ∀ id, f.had id ≤ s.got id
  changed : ∀ e ∈ s.db.val.entries,
    e.updatedAt ∈ f.stamps ∨ e ∈ f.start.entries ∧ s.versions e.id = f.begun e.id
  still : s.timely = true → f.timely = true
  timely : f.timely = true → ∀ e ∈ f.start.entries, e.userId = c.userId →
    f.begun e.id ≤ f.had e.id ∨ f.since < e.updatedAt
  pending : f.orderly = true → ∀ e ∈ f.start.entries, e.userId = c.userId → f.since < e.updatedAt →
    f.begun e.id ≤ s.got e.id ∨ ∃ d ∈ c.rows f.since s.db.val, d.id = e.id ∧
      f.page * c.perPage.toNat < upto (c.request f.since).allows (c.rows f.since s.db.val) d

/-- All versions it owed were delivered. -/
def Fetch.Delivered (c : Client) (f : Fetch) (got : Int → Nat) : Prop :=
  f.orderly = true → ∀ e ∈ f.start.entries, e.userId = c.userId →
    (f.timely = true ∨ f.begun e.id ≤ f.had e.id ∨ f.since < e.updatedAt) → f.begun e.id ≤ got e.id

/-- Between two fetches of a timely run, what the client does not have is later than all that
it has. -/
structure Sys.Inv (c : Client) (s : Sys Url) : Prop where
  got : ∀ id, s.got id ≤ s.versions id
  fetch : ∀ f, s.fetch = some f → f.Ok c s
  finished : ∀ d ∈ s.finished, d.1.Delivered c d.2
  caught : s.fetch = none → s.timely = true → ∀ e ∈ s.db.val.entries, e.userId = c.userId →
    s.versions e.id ≤ s.got e.id ∨ s.best < e.updatedAt

variable {s : Sys Url}

theorem Fetch.Ok.delivered {f : Fetch} (h : f.Ok c s)
    (hover : (c.rows f.since s.db.val).length ≤ f.page * c.perPage.toNat) :
    f.Delivered c s.got := by
  intro horderly e he huser howed
  have howed' : f.begun e.id ≤ f.had e.id ∨ f.since < e.updatedAt :=
    howed.elim (fun htimely => h.timely htimely e he huser) id
  rcases howed' with hhad | hsince
  · exact hhad.trans (h.had e.id)
  · refine (h.pending horderly e he huser hsince).resolve_right ?_
    rintro ⟨d, hd, -, hbehind⟩
    have : upto (c.request f.since).allows (c.rows f.since s.db.val) d ≤ _ := List.countP_le_length
    omega

section commit
variable {i : Nat} {r : Request Url} {now : DateTime} {t : Database}

theorem Sys.versions_commit (id : Int) : s.versions id ≤ (s.commit c i r now t).versions id := by
  dsimp only [Sys.commit]
  split
  · exact le_rfl
  · by_cases hid : id = r.target s.db.val
    · subst hid
      rw [Function.update_self]
      exact Nat.le_succ _
    · rw [Function.update_of_ne hid]

theorem Sys.commit_entry (hwrite : Retouched now.timestamp (r.target s.db.val) s.db.val t.val)
    {e : EntryRecord} (he : e ∈ t.val.entries) :
    (e.updatedAt = now.timestamp ∧ t.val ≠ s.db.val) ∨
      (e ∈ s.db.val.entries ∧ (s.commit c i r now t).versions e.id = s.versions e.id) := by
  by_cases hsame : t.val = s.db.val
  · refine .inr ⟨hsame ▸ he, ?_⟩
    dsimp only [Sys.commit]
    rw [if_pos hsame]
  · obtain ⟨htarget, hother⟩ := hwrite.resolve_left hsame e he
    by_cases hid : e.id = r.target s.db.val
    · exact .inl ⟨htarget hid, hsame⟩
    · refine .inr ⟨hother hid, ?_⟩
      dsimp only [Sys.commit]
      rw [if_neg hsame, Function.update_of_ne hid]

theorem Fetch.Ok.commit {f : Fetch} (h : f.Ok c s) (hkept : CreatedKept s.db.val t.val)
    (hwrite : Retouched now.timestamp (r.target s.db.val) s.db.val t.val) :
    (f.commit c now s.db.val t.val).Ok c (s.commit c i r now t) := by
  refine ⟨fun id => (h.begun id).trans (Sys.versions_commit id), h.had, fun e he => ?_,
    fun htimely => h.still ?_, h.timely, fun horderly e he huser hsince => ?_⟩
  · rcases Sys.commit_entry (c := c) (i := i) hwrite he with ⟨hnow, hsame⟩ | ⟨hold, hversions⟩
    · dsimp only [Fetch.commit]
      rw [if_neg hsame, hnow]
      exact .inl List.mem_cons_self
    · rw [hversions]
      refine (h.changed e hold).imp (fun hstamp => ?_) id
      dsimp only [Fetch.commit]
      split
      · exact hstamp
      · exact List.mem_cons_of_mem _ hstamp
  · simp only [Sys.commit, Bool.and_eq_true] at htimely
    exact htimely.1
  · simp only [Fetch.commit, Bool.and_eq_true, List.all_eq_true, List.contains_iff_mem] at horderly
    obtain ⟨horderly, hstay⟩ := horderly
    have hstay' : ∀ e ∈ c.rows f.since s.db.val, ∃ d ∈ c.rows f.since t.val, d.id = e.id :=
      fun e he => List.mem_map.mp (hstay e.id (List.mem_map_of_mem he))
    refine (h.pending horderly e he huser hsince).imp id ?_
    rintro ⟨d, hd, hid, hbehind⟩
    obtain ⟨d', hd', hid'⟩ := hstay' d hd
    exact ⟨d', hd', hid'.trans hid, hbehind.trans_le (upto_commit hkept hstay' hd hd' hid')⟩

theorem Sys.Inv.commit (h : s.Inv c) (hkept : CreatedKept s.db.val t.val)
    (hwrite : Retouched now.timestamp (r.target s.db.val) s.db.val t.val) :
    (s.commit c i r now t).Inv c := by
  refine ⟨fun id => (h.got id).trans (versions_commit id), fun f' hf' => ?_, h.finished,
    fun hnone htimely e he huser => ?_⟩
  · obtain ⟨f, hf, rfl⟩ := Option.map_eq_some_iff.mp hf'
    exact (h.fetch f hf).commit hkept hwrite
  · have hnone' : s.fetch = none := Option.map_eq_none_iff.mp hnone
    simp only [Sys.commit, hnone', Option.isSome_none, Bool.false_or, Bool.and_eq_true,
      decide_eq_true_eq] at htimely
    rcases commit_entry (c := c) (i := i) hwrite he with ⟨hnow, hsame⟩ | ⟨hold, hversions⟩
    · exact .inr (hnow ▸ htimely.2.resolve_left hsame)
    · rw [hversions]
      exact h.caught hnone' htimely.1 e hold huser

end commit

theorem rows_length_le {since pages : Int} {db : Db} {k : Nat}
    (hpages : pages = Api.pageCount (c.rows since db).length c.perPage) (hle : pages ≤ k) :
    (c.rows since db).length ≤ k * c.perPage.toNat := by
  obtain ⟨-, htotal, -⟩ := Api.pageCount_spec (c.rows since db).length c.positive
  rw [← hpages] at htotal
  have hmul : pages * c.perPage ≤ k * c.perPage :=
    Int.mul_le_mul_of_nonneg_right hle (Int.le_trans (by decide) c.positive)
  have hperPage : (c.perPage.toNat : Int) = c.perPage :=
    Int.toNat_of_nonneg (Int.le_trans (by decide) c.positive)
  refine Int.ofNat_le.mp ?_
  rw [Int.natCast_mul, hperPage]
  exact htotal.trans hmul

/-- After a fetch that was timely the client has all but what was stamped later. -/
theorem Sys.Inv.finish (h : s.Inv c) {f : Fetch} (hf : s.fetch = some f)
    (hover : (c.rows f.since s.db.val).length ≤ f.page * c.perPage.toNat) :
    (s.finish f).Inv c := by
  have hok := h.fetch f hf
  have hdelivered := hok.delivered hover
  refine ⟨h.got, fun _ hf' => (Option.some_ne_none _ hf'.symm).elim, fun d hd => ?_,
    fun _ htimely e he huser => ?_⟩
  · rcases List.mem_cons.mp hd with rfl | hd
    · exact hdelivered
    · exact h.finished d hd
  · simp only [Sys.finish, Bool.and_eq_true, List.all_eq_true, decide_eq_true_eq] at htimely
    obtain ⟨⟨htimely, horderly⟩, hlater⟩ := htimely
    rcases hok.changed e he with hstamp | ⟨hstart, hversions⟩
    · exact .inr (hlater _ hstamp)
    · exact .inl (hversions.trans_le
        (hdelivered horderly e hstart huser (.inl (hok.still htimely))))

theorem Sys.Inv.got_received (h : s.Inv c) (items : List (Int × Int)) (id : Int) :
    s.got id ≤ s.received items id ∧ s.received items id ≤ s.versions id := by
  rw [received]
  split
  · exact ⟨h.got id, le_rfl⟩
  · exact ⟨le_rfl, h.got id⟩

theorem Fetch.page_or {f : Fetch} {eng : Engine K} {response : Api.Entries Url}
    (hread : (Api.entries eng ((c.request f.since).atPage f.page) c.userId :
      Run Db Error (Api.Entries Url)) s.db.val = (.ok response, s.db.val))
    (horderly : (f.read c s.db.val).orderly = true) {d : EntryRecord}
    (hd : d ∈ c.rows f.since s.db.val) (hbehind : f.page * c.perPage.toNat <
      upto (c.request f.since).allows (c.rows f.since s.db.val) d) :
    s.received (kept response.items) d.id = s.versions d.id ∨ (f.page + 1) * c.perPage.toNat <
      upto (c.request f.since).allows (c.rows f.since s.db.val) d := by
  obtain ⟨-, -, hitems⟩ := Api.entries_inv rfl rfl hread
  simp only [Fetch.read, Bool.and_eq_true, decide_eq_true_eq] at horderly
  obtain ⟨⟨-, hoffset⟩, hcut⟩ := horderly
  refine ((Api.inner_arranged eng (c.request f.since) (c.rows f.since s.db.val)).mem_page_or
    (Api.allows_total _) hcut hd hbehind).imp (fun hpage => ?_) id
  have hids : (kept response.items).map Prod.fst = response.items.map Entry.id := by
    rw [kept, List.map_map, Function.comp_def]
  have hmem : d.id ∈ (kept response.items).map Prod.fst := by
    rw [hids, hitems.mem_iff, Api.pageRows_pageAt eng c.positive hoffset]
    exact List.mem_map_of_mem hpage
  rw [Sys.received, if_pos (List.contains_iff_mem.mpr hmem)]

/-- A page brings the versions of the rows on it. -/
theorem Sys.Inv.receive (h : s.Inv c) {f : Fetch} (hf : s.fetch = some f) {eng : Engine K}
    {response : Api.Entries Url}
    (hread : (Api.entries eng ((c.request f.since).atPage f.page) c.userId :
      Run Db Error (Api.Entries Url)) s.db.val = (.ok response, s.db.val)) :
    (s.receive c f response.pages (kept response.items)).Inv c := by
  obtain ⟨hpages, -, -⟩ := Api.entries_inv rfl rfl hread
  rw [Api.rows_atPage] at hpages
  have hok := h.fetch f hf
  have hgot := h.got_received (kept response.items)
  have hinv : Sys.Inv c { s with
      best := (kept response.items).foldl (fun best e => max best e.2) s.best
      fetch := some (f.read c s.db.val)
      got := s.received (kept response.items) } := by
    refine ⟨fun id => (hgot id).2, fun f' hf' => ?_, h.finished,
      fun hnone => (Option.some_ne_none _ hnone).elim⟩
    obtain rfl := Option.some.inj hf'
    refine ⟨hok.begun, fun id => (hok.had id).trans (hgot id).1, hok.changed, hok.still, hok.timely,
      fun horderly e he huser hsince => ?_⟩
    have horderly' : f.orderly = true := by
      simp only [Fetch.read, Bool.and_eq_true] at horderly
      exact horderly.1.1
    rcases hok.pending horderly' e he huser hsince with hgone | ⟨d, hd, hid, hbehind⟩
    · exact .inl (hgone.trans (hgot e.id).1)
    · refine (Fetch.page_or hread horderly hd hbehind).imp (fun hpage => ?_) fun hlater =>
        ⟨d, hd, hid, hlater⟩
      rw [hid] at hpage
      exact (hok.begun e.id).trans hpage.ge
  rw [Sys.receive]
  split
  · rename_i hover
    exact hinv.finish rfl (rows_length_le hpages hover)
  · exact hinv

theorem Step.inv {crates : Crates} {s' : Sys Url} (hs : Step K c crates s s') (h : s.Inv c) :
    s'.Inv c := by
  cases hs with
  | tick | readClock | abort =>
    refine ⟨h.got, fun f hf => ?_, h.finished, h.caught⟩
    obtain ⟨hbegun, hhad, hchanged, hstill, htimely, hpending⟩ := h.fetch f hf
    exact ⟨hbegun, hhad, hchanged, hstill, htimely, hpending⟩
  | commit _ _ _ eng hc hr =>
    exact h.commit (.of_run crates eng _ _) (Request.served_retouched crates eng hr s.db)
  | fetch hnone =>
    refine ⟨h.got, fun f hf => ?_, h.finished, fun hnone' => (Option.some_ne_none _ hnone').elim⟩
    obtain rfl := Option.some.inj hf
    refine ⟨fun _ => le_rfl, fun _ => le_rfl, fun e he => .inr ⟨he, rfl⟩, id, h.caught hnone,
      fun _ e he huser hsince => .inr ⟨e, mem_rows.mpr ⟨he, huser, hsince⟩, rfl, ?_⟩⟩
    dsimp only
    rw [Nat.zero_mul]
    exact List.countP_pos_iff.mpr
      ⟨e, mem_rows.mpr ⟨he, huser, hsince⟩, le_self (Api.allows_total _) e⟩
  | read eng hf hread => exact h.receive hf hread
  | finish eng hf hread =>
    have hpage := Api.entries_notFound rfl rfl hread
    rw [Api.rows_atPage] at hpage
    exact h.finish hf (rows_length_le rfl (Int.lt_add_one_iff.mp hpage))

theorem start_inv (clock : DateTime) (db : Database) : (start Url clock db).Inv c := by
  refine ⟨fun _ => Nat.zero_le _, fun f hf => (Option.some_ne_none _ hf.symm).elim,
    fun d hd => absurd hd List.not_mem_nil, fun _ htimely e he _ => .inr ?_⟩
  simpa [start] using List.all_eq_true.mp htimely e he

end invariant

/-- In every run, however the requests and the client interleave, by the end of a fetch whose
pages fit together the client has every version that was committed when the fetch began, or
a later one, if it had the version already, or `since` is earlier than its stamp; and that is
so for all of them if the run was timely until then. -/
theorem Reached.fetched {c : Client} {crates : Crates} {s : Sys Url} (h : Reached K c crates s) :
    ∀ d ∈ s.finished, d.1.orderly = true → ∀ e ∈ d.1.start.entries, e.userId = c.userId →
      (d.1.timely = true ∨ d.1.begun e.id ≤ d.1.had e.id ∨ d.1.since < e.updatedAt) →
        d.1.begun e.id ≤ d.2 e.id := by
  obtain ⟨clock, db, hrun⟩ := h
  have hinv : s.Inv c := run_invariant (fun _ _ hi hs => hs.inv hi) (start_inv clock db) hrun
  exact hinv.finished

end system

/-- A client that reads thirty entries of the first user at a time. -/
def reader : Client where
  userId := 1
  perPage := 30
  positive := by decide

/-- The same client, with one entry on a page. -/
def pager : Client := { reader with perPage := 1, positive := by decide }

/-- The time of the last update on the shelf, and the second after it. -/
def latest : DateTime := ⟨30, by decide⟩

def after : DateTime := ⟨31, by decide⟩

def archiving (now : DateTime) (entryId : Int) : Request HttpText :=
  .patchEntry now "" entryId { archive := some true } 1

theorem Reached.fetched_reader : ∃ s : Sys HttpText, Reached ℚ reader plainCrates s ∧
    ∃ d ∈ s.finished, 2 ≤ d.2 1 := by
  have hstart : Reached ℚ reader plainCrates (start HttpText latest shelf) := ⟨_, _, .refl⟩
  have hfetched := (hstart.step (.fetch rfl)).page plainEngine 1 [(1, 10), (2, 30)] rfl
    ⟨_, rfl, rfl, rfl⟩
  have htick := hfetched.step (.tick (by decide : latest.timestamp ≤ after.timestamp))
  have hcalled := htick.step (.readClock 0 (archiving after 1) rfl rfl)
  have hwritten := hcalled.step (.commit 0 _ after plainEngine rfl rfl)
  have hagain := (hwritten.step (.fetch rfl)).page plainEngine 1 [(1, 31)] rfl ⟨_, rfl, rfl, rfl⟩
  refine ⟨_, hagain, _, List.mem_cons_self, ?_⟩
  exact hagain.fetched _ List.mem_cons_self (by decide) _ (List.head_mem (by decide)) (by decide)
    (.inl (by decide))

/-- The client has the entry of the second 30. In the same second the first entry is archived,
and no later fetch is about that. -/
theorem update_lost : ∃ s : Sys HttpText, Reached ℚ reader plainCrates s ∧ ∃ d ∈ s.finished,
    d.1.orderly = true ∧ ∃ e ∈ d.1.start.entries, e.userId = reader.userId ∧
      d.2 e.id < d.1.begun e.id := by
  have hstart : Reached ℚ reader plainCrates (start HttpText latest shelf) := ⟨_, _, .refl⟩
  have hfetched := (hstart.step (.fetch rfl)).page plainEngine 1 [(1, 10), (2, 30)] rfl
    ⟨_, rfl, rfl, rfl⟩
  have hcalled := hfetched.step (.readClock 0 (archiving latest 1) rfl rfl)
  have hwritten := hcalled.step (.commit 0 _ latest plainEngine rfl rfl)
  have hagain := (hwritten.step (.fetch rfl)).step (.finish plainEngine rfl rfl)
  refine ⟨_, hagain, _, List.mem_cons_self, by decide, ?_⟩
  exact ⟨_, List.head_mem (by decide), by decide, by decide⟩

/-- Two entries tie, and each page puts the other one first. -/
theorem tie_lost : ∃ s : Sys HttpText, Reached ℚ pager plainCrates s ∧ ∃ d ∈ s.finished,
    d.1.timely = true ∧ ∃ e ∈ d.1.start.entries, e.userId = pager.userId ∧
      d.1.since < e.updatedAt ∧ d.2 e.id < d.1.begun e.id := by
  have hstart : Reached ℚ pager plainCrates (start HttpText latest Api.twins) := ⟨_, _, .refl⟩
  let first := Api.twins.val.entries.head (by decide)
  have hfirst := (hstart.step (.fetch rfl)).page (Api.ordering ℚ (.placing false first)) 2
    [(2, 30)] rfl ⟨_, rfl, rfl, rfl⟩
  have hsecond := hfirst.page (Api.ordering ℚ (.placing true first)) 2 [(2, 30)] rfl
    ⟨_, rfl, rfl, rfl⟩
  refine ⟨_, hsecond, _, List.mem_cons_self, by decide, ?_⟩
  exact ⟨first, List.head_mem _, by decide, by decide, by decide⟩

/-- Both entries are archived in the second 31. Between the two pages a patch commits that has
read the clock a second before: the first entry drops out of the fetch, and the second moves to
the page that was read. -/
theorem shift_lost : ∃ s : Sys HttpText, Reached ℚ pager plainCrates s ∧ ∃ d ∈ s.finished,
    d.1.timely = true ∧ ∃ e ∈ d.1.start.entries, e.userId = pager.userId ∧
      d.1.since < e.updatedAt ∧ d.2 e.id < d.1.begun e.id := by
  have hstart : Reached ℚ pager plainCrates (start HttpText latest shelf) := ⟨_, _, .refl⟩
  have hfirst := (hstart.step (.fetch rfl)).page plainEngine 2 [(1, 10)] rfl ⟨_, rfl, rfl, rfl⟩
  have hsecond := hfirst.page plainEngine 2 [(2, 30)] rfl ⟨_, rfl, rfl, rfl⟩
  have hslow := hsecond.step (.readClock 0 (archiving latest 1) rfl rfl)
  have htick := hslow.step (.tick (by decide : latest.timestamp ≤ after.timestamp))
  have hcalled := (htick.step (.readClock 1 (archiving after 1) rfl rfl)).step
    (.readClock 2 (archiving after 2) rfl rfl)
  have hwritten := (hcalled.step (.commit 1 _ after plainEngine rfl rfl)).step
    (.commit 2 _ after plainEngine rfl rfl)
  have hpage := (hwritten.step (.fetch rfl)).page plainEngine 2 [(1, 31)] rfl ⟨_, rfl, rfl, rfl⟩
  have hshifted := hpage.step (.commit 0 _ latest plainEngine rfl rfl)
  have hmissing := hshifted.step (.finish plainEngine rfl rfl)
  refine ⟨_, hmissing, _, List.mem_cons_self, by decide, ?_⟩
  exact ⟨_, List.getLast_mem (by decide), by decide, by decide, by decide⟩

end Sync
end Articler
