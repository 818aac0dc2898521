import Articler.Repository.Entries

/-! `wallabag_api::models`, and the conversion of the database rows to them. -/
namespace Articler

structure Tag where
  id : Int
  label : String
  slug : String
deriving DecidableEq, Repr

def Tag.from (value : TagRow) : Tag := { value with }

structure Entry (Url : Type) where
  id : Int
  url : Url
  hashedUrl : Option String
  givenUrl : Option Url
  hashedGivenUrl : Option String
  title : String
  content : Option String
  isArchived : Bool
  archivedAt : Option DateTime
  isStarred : Bool
  starredAt : Option DateTime
  tags : List Tag
  createdAt : DateTime
  updatedAt : DateTime
  annotations : List String
  mimetype : String
  language : Option String
  readingTime : Int
  domainName : String
  previewPicture : Option Url
  originUrl : Option Url
  publishedAt : Option DateTime
  publishedBy : Option (List String)
  isPublic : Option Bool
  uid : Option String

def EntryRow.metadata (e : EntryRow) : EntryMetadataRow := { e with }

section conversion
variable {Url : Type} [UrlCrate Url]

def parseUrl (s : String) : Except Error Url := okOr .urlFormat (UrlCrate.parse s)

def tryParseUrl : Option String → Except Error (Option Url)
  | none => .ok none
  | some u => (parseUrl u).map some

def tryParseTimestamp (t : Int) : Except Error DateTime :=
  okOr (.timestampToDateTime t) (DateTime.fromTimestampSecs t)

def tryParseTimestampOpt : Option Int → Except Error (Option DateTime)
  | none => .ok none
  | some t => (tryParseTimestamp t).map some

/-- `str::split` at a comma. -/
def splitComma (s : String) : List String := (s.toList.splitOn ',').map String.ofList

/-- The two conversions differ in where the content comes from. -/
def Entry.tryFromRow (content : Option String) (e : EntryMetadataRow) (tagRows : List TagRow) :
    Except Error (Entry Url) := do
  let url ← parseUrl e.url
  let givenUrl ← tryParseUrl e.givenUrl
  let archivedAt ← tryParseTimestampOpt e.archivedAt
  let starredAt ← tryParseTimestampOpt e.starredAt
  let createdAt ← tryParseTimestamp e.createdAt
  let updatedAt ← tryParseTimestamp e.updatedAt
  let previewPicture ← tryParseUrl e.previewPicture
  let originUrl ← tryParseUrl e.originUrl
  let publishedAt ← tryParseTimestampOpt e.publishedAt
  pure { e with
    url, givenUrl, content, archivedAt, starredAt, createdAt, updatedAt, previewPicture, originUrl,
    publishedAt
    tags := tagRows.map Tag.from
    annotations := []
    mimetype := e.mimetype.getD ""
    publishedBy := e.publishedBy.map splitComma }

def Entry.tryFromFull (entry : FullEntry) : Except Error (Entry Url) :=
  Entry.tryFromRow (some entry.1.content) entry.1.metadata entry.2

def Entry.tryFromMetadata (entry : MetadataEntry) : Except Error (Entry Url) :=
  Entry.tryFromRow none entry.1 entry.2

/-- The text of a url column. -/
def ParsesAs (Url : Type) [UrlCrate Url] (s : String) : Prop :=
  (UrlCrate.parse s : Option Url).isSome = true

instance (s : String) : Decidable (ParsesAs Url s) := inferInstanceAs (Decidable (_ = true))

/-- The seconds of a `DateTime<Utc>`. -/
def InDateTime (t : Int) : Prop := -8334601228800 ≤ t ∧ t ≤ 8210266876799

theorem DateTime.inDateTime (d : DateTime) : InDateTime d.timestamp := d.inRange

/-- What the conversion looks at in a stored row. -/
structure EntryRecord.Readable (Url : Type) [UrlCrate Url] (e : EntryRecord) : Prop where
  url : ParsesAs Url e.url
  givenUrl : ParsesAs Url e.givenUrl
  previewPicture : ∀ s, e.previewPicture = some s → ParsesAs Url s
  originUrl : ∀ s, e.originUrl = some s → ParsesAs Url s
  archivedAt : ∀ t, e.archivedAt = some t → InDateTime t
  starredAt : ∀ t, e.starredAt = some t → InDateTime t
  createdAt : InDateTime e.createdAt
  updatedAt : InDateTime e.updatedAt
  publishedAt : ∀ t, e.publishedAt = some t → InDateTime t

theorem parseUrl_ok_iff {s : String} :
    (∃ u : Url, parseUrl s = .ok u) ↔ ParsesAs Url s := by
  unfold parseUrl ParsesAs
  cases (UrlCrate.parse s : Option Url) <;> simp [okOr]

theorem tryParseUrl_ok_iff {s : Option String} :
    (∃ u : Option Url, tryParseUrl s = .ok u) ↔ ∀ v, s = some v → ParsesAs Url v := by
  cases s with
  | none => simp [tryParseUrl]
  | some v =>
    simp only [Option.some.injEq, forall_eq']
    rw [← parseUrl_ok_iff, tryParseUrl]
    cases (parseUrl v : Except Error Url) <;> simp [Except.map]

theorem tryParseTimestamp_ok_iff {t : Int} :
    (∃ d, tryParseTimestamp t = .ok d) ↔ InDateTime t := by
  unfold tryParseTimestamp DateTime.fromTimestampSecs InDateTime
  split <;> simp_all [okOr]

theorem tryParseTimestampOpt_ok_iff {t : Option Int} :
    (∃ d, tryParseTimestampOpt t = .ok d) ↔ ∀ v, t = some v → InDateTime v := by
  cases t with
  | none => simp [tryParseTimestampOpt]
  | some v =>
    simp only [Option.some.injEq, forall_eq']
    rw [← tryParseTimestamp_ok_iff, tryParseTimestampOpt]
    cases tryParseTimestamp v <;> simp [Except.map]

theorem bind_ok_iff {α β : Type} {x : Except Error α} {f : α → Except Error β} :
    (∃ b, (x >>= f) = .ok b) ↔ ∃ a, x = .ok a ∧ ∃ b, f a = .ok b := by
  cases x <;> simp [bind, Except.bind]

theorem bind_eq_ok {α β : Type} {x : Except Error α} {f : α → Except Error β} {b : β} :
    (x >>= f) = .ok b ↔ ∃ a, x = .ok a ∧ f a = .ok b := by
  cases x <;> simp [bind, Except.bind]

theorem mapM_ok {α β : Type} {f : α → Except Error β} {rows : List α}
    (h : ∀ a ∈ rows, ∃ b, f a = .ok b) : ∃ items, rows.mapM f = .ok items := by
  induction rows with
  | nil => exact ⟨[], rfl⟩
  | cons a rows ih =>
    obtain ⟨b, hb⟩ := h a List.mem_cons_self
    obtain ⟨items, hitems⟩ := ih fun c hc => h c (List.mem_cons_of_mem a hc)
    refine ⟨b :: items, ?_⟩
    rw [List.mapM_cons, hb, hitems]
    rfl

theorem mapM_inv {α β : Type} {f : α → Except Error β} {rows : List α} {items : List β}
    (h : rows.mapM f = .ok items) : List.Forall₂ (fun a b => f a = .ok b) rows items := by
  induction rows generalizing items with
  | nil =>
    cases h
    exact .nil
  | cons a rows ih =>
    rw [List.mapM_cons] at h
    obtain ⟨b, hb, h⟩ := bind_eq_ok.mp h
    obtain ⟨rest, hrest, h⟩ := bind_eq_ok.mp h
    cases h
    exact .cons hb (ih hrest)

/-- The conversion of a stored row succeeds exactly if the row is readable. -/
theorem Entry.tryFromRow_ok_iff {content : Option String} {e : EntryRecord}
    {tagRows : List TagRow} :
    (∃ a : Entry Url, Entry.tryFromRow content (EntryMetadataRow.fromRow e) tagRows = .ok a) ↔
      e.Readable Url := by
  unfold Entry.tryFromRow
  simp only [bind_ok_iff, pure, Except.pure, Except.ok.injEq, exists_eq', and_true]
  constructor
  · rintro ⟨u, hu, g, hg, a, ha, st, hst, c, hc, up, hup, p, hp, o, ho, pub, hpub⟩
    exact {
      url := parseUrl_ok_iff.mp ⟨u, hu⟩
      givenUrl := tryParseUrl_ok_iff.mp ⟨g, hg⟩ _ rfl
      archivedAt := tryParseTimestampOpt_ok_iff.mp ⟨a, ha⟩
      starredAt := tryParseTimestampOpt_ok_iff.mp ⟨st, hst⟩
      createdAt := tryParseTimestamp_ok_iff.mp ⟨c, hc⟩
      updatedAt := tryParseTimestamp_ok_iff.mp ⟨up, hup⟩
      previewPicture := tryParseUrl_ok_iff.mp ⟨p, hp⟩
      originUrl := tryParseUrl_ok_iff.mp ⟨o, ho⟩
      publishedAt := tryParseTimestampOpt_ok_iff.mp ⟨pub, hpub⟩ }
  · intro h
    obtain ⟨u, hu⟩ := parseUrl_ok_iff.mpr h.url
    have hgiven : ∀ v, (EntryMetadataRow.fromRow e).givenUrl = some v → ParsesAs Url v := by
      rintro v ⟨⟩
      exact h.givenUrl
    obtain ⟨g, hg⟩ := tryParseUrl_ok_iff.mpr hgiven
    obtain ⟨a, ha⟩ := tryParseTimestampOpt_ok_iff.mpr h.archivedAt
    obtain ⟨st, hst⟩ := tryParseTimestampOpt_ok_iff.mpr h.starredAt
    obtain ⟨c, hc⟩ := tryParseTimestamp_ok_iff.mpr h.createdAt
    obtain ⟨up, hup⟩ := tryParseTimestamp_ok_iff.mpr h.updatedAt
    obtain ⟨p, hp⟩ := tryParseUrl_ok_iff.mpr h.previewPicture
    obtain ⟨o, ho⟩ := tryParseUrl_ok_iff.mpr h.originUrl
    obtain ⟨pub, hpub⟩ := tryParseTimestampOpt_ok_iff.mpr h.publishedAt
    exact ⟨u, hu, g, hg, a, ha, st, hst, c, hc, up, hup, p, hp, o, ho, pub, hpub⟩

theorem Entry.tryFromRow_carries {content : Option String} {e : EntryMetadataRow}
    {tagRows : List TagRow} {a : Entry Url} (h : Entry.tryFromRow content e tagRows = .ok a) :
    a.id = e.id ∧ a.publishedBy = e.publishedBy.map splitComma := by
  obtain ⟨_, -, h⟩ := bind_eq_ok.mp h
  obtain ⟨_, -, h⟩ := bind_eq_ok.mp h
  obtain ⟨_, -, h⟩ := bind_eq_ok.mp h
  obtain ⟨_, -, h⟩ := bind_eq_ok.mp h
  obtain ⟨_, -, h⟩ := bind_eq_ok.mp h
  obtain ⟨_, -, h⟩ := bind_eq_ok.mp h
  obtain ⟨_, -, h⟩ := bind_eq_ok.mp h
  obtain ⟨_, -, h⟩ := bind_eq_ok.mp h
  obtain ⟨_, -, h⟩ := bind_eq_ok.mp h
  cases h
  exact ⟨rfl, rfl⟩

theorem Entry.tryFromRow_id {content : Option String} {e : EntryMetadataRow}
    {tagRows : List TagRow} {a : Entry Url} (h : Entry.tryFromRow content e tagRows = .ok a) :
    a.id = e.id := (Entry.tryFromRow_carries h).1

/-- What a conversion may complain about. -/
def Error.OfConversion (e : Error) : Prop := e = .urlFormat ∨ ∃ t, e = .timestampToDateTime t

/-- The conversion fails in no other way. -/
def Converts {α : Type} (x : Except Error α) : Prop := ∀ e, x = .error e → e.OfConversion

theorem Converts.pure {α : Type} (a : α) : Converts (.ok a : Except Error α) := nofun

theorem Converts.bind {α β : Type} {x : Except Error α} {f : α → Except Error β} (hx : Converts x)
    (hf : ∀ a, Converts (f a)) : Converts (x >>= f) := by
  cases x with
  | ok a => exact hf a
  | error e =>
    rintro _ ⟨⟩
    exact hx e rfl

theorem Converts.map {α β : Type} {x : Except Error α} (hx : Converts x) (f : α → β) :
    Converts (x.map f) := by
  cases x with
  | ok a => exact nofun
  | error e =>
    rintro _ ⟨⟩
    exact hx e rfl

theorem Converts.okOr {α : Type} {e : Error} (he : e.OfConversion) (o : Option α) :
    Converts (Articler.okOr e o) := by
  cases o with
  | none =>
    rintro _ ⟨⟩
    exact he
  | some a => exact nofun

theorem parseUrl_converts (s : String) : Converts (parseUrl s : Except Error Url) :=
  .okOr (.inl rfl) _

theorem tryParseUrl_converts (s : Option String) :
    Converts (tryParseUrl s : Except Error (Option Url)) := by
  cases s with
  | none => exact nofun
  | some s =>
    have hparse : Converts (parseUrl s : Except Error Url) := parseUrl_converts s
    exact hparse.map some

theorem tryParseTimestamp_converts (t : Int) : Converts (tryParseTimestamp t) :=
  .okOr (.inr ⟨t, rfl⟩) _

theorem tryParseTimestampOpt_converts (t : Option Int) : Converts (tryParseTimestampOpt t) := by
  cases t with
  | none => exact nofun
  | some t => exact (tryParseTimestamp_converts t).map _

theorem Entry.tryFromRow_converts (content : Option String) (e : EntryMetadataRow)
    (tagRows : List TagRow) : Converts (Entry.tryFromRow content e tagRows : Except Error (Entry Url)) :=
  .bind (parseUrl_converts _) fun _ => .bind (tryParseUrl_converts _) fun _ =>
    .bind (tryParseTimestampOpt_converts _) fun _ => .bind (tryParseTimestampOpt_converts _) fun _ =>
    .bind (tryParseTimestamp_converts _) fun _ => .bind (tryParseTimestamp_converts _) fun _ =>
    .bind (tryParseUrl_converts _) fun _ => .bind (tryParseUrl_converts _) fun _ =>
    .bind (tryParseTimestampOpt_converts _) fun _ => .pure _

theorem mapM_converts {α β : Type} {f : α → Except Error β} (hf : ∀ a, Converts (f a))
    (rows : List α) : Converts (rows.mapM f) := by
  induction rows with
  | nil => exact .pure _
  | cons a rows ih =>
    rw [List.mapM_cons]
    exact .bind (hf a) fun _ => .bind ih fun _ => .pure _

theorem Entry.tryFromFull_ok_iff {e : EntryRecord} {tagRows : List TagRow} :
    (∃ a : Entry Url, Entry.tryFromFull (EntryRow.fromRow e, tagRows) = .ok a) ↔
      e.Readable Url := Entry.tryFromRow_ok_iff

theorem Entry.tryFromMetadata_ok_iff {e : EntryRecord} {tagRows : List TagRow} :
    (∃ a : Entry Url, Entry.tryFromMetadata (EntryMetadataRow.fromRow e, tagRows) = .ok a) ↔
      e.Readable Url := Entry.tryFromRow_ok_iff

end conversion
end Articler
