import Articler.Runs

/-! Links between entries and tags: every link that a run leaves joins an entry and a
tag of one user, once. -/
namespace Articler
open Txn Rows Relation

theorem Write.valid {k : Statement} {s t : Db} (hw : Write k s t) (h : s.Valid) : t.Valid := by
  cases hw with
  | insertUser hid hi => exact h.insertUser hid hi
  | deleteUsers _ p => exact h.deleteUsers p
  | insertEntry hid hi => exact h.insertEntry hid hi
  | updateEntries hu => exact h.updateEntries hu
  | deleteEntries _ p => exact h.deleteEntries p
  | insertTags _ userId tags hguard => exact Tags.insertTags_valid h hguard
  | deleteTags _ p => exact h.deleteTags p
  | linkLabels _ userId entryId labels => exact Tags.linkLabels_valid h
  | deleteEntryTags _ p => exact h.deleteEntryTags p
  | insertClient hid hi => exact h.insertClient hid hi
  | deleteClients _ p => exact h.deleteClients p
  | insertToken hid hi => exact h.insertToken hid hi
  | deleteTokens _ p => exact h.deleteTokens p

theorem valid_of_writes {K : Statement → Prop} {s t : Db} (h : ReflTransGen (WriteIn K) s t)
    (hs : s.Valid) : t.Valid :=
  run_invariant (I := Db.Valid) (fun _ _ hv ⟨_, _, hw⟩ => hw.valid hv) hs h

theorem Written.valid {db : Db} (h : Written db) : db.Valid := valid_of_writes h Db.valid_empty

theorem allows_valid (k : Statement) : Allows (fun s t : Db => s.Valid → t.Valid) k :=
  fun _ _ hw => hw.valid

theorem Writes.valid {K : Statement → Prop} {α : Type} {x : Run Db Error α} (h : Writes K x)
    {s : Db} (hs : s.Valid) : (x s).2.Valid := h.keeps (fun _ _ _ _ hw hv => hw.valid hv) hs

/-- Every link names an existing entry and an existing tag of the same user. -/
def Db.LinksOwned (db : Db) : Prop :=
  ∀ l ∈ db.entryTags, ∃ e ∈ db.entries, ∃ t ∈ db.tags,
    e.id = l.entryId ∧ t.id = l.tagId ∧ e.userId = t.userId

namespace Db.LinksOwned
variable {db db' : Db}

theorem insertEntry (h : db.LinksOwned) {row : Int → EntryRecord} {id : Int}
    (hi : db.insertEntry row = .ok (id, db')) : db'.LinksOwned := by
  obtain ⟨-, -, -, rfl⟩ := Db.insertEntry_ok hi
  intro l hl
  obtain ⟨e, he, t, ht, hrest⟩ := h l hl
  exact ⟨e, List.mem_append_left _ he, t, ht, hrest⟩

theorem updateEntries (h : db.LinksOwned) {p : EntryRecord → Bool} {as : List Assign} {n : Nat}
    (hu : db.updateEntries p as = .ok (n, db')) : db'.LinksOwned := by
  obtain ⟨-, htags, hlinks⟩ := Db.updateEntries_frame hu
  intro l hl
  rw [hlinks] at hl
  rw [htags]
  obtain ⟨e, he, t, ht, hid, htag, huser⟩ := h l hl
  obtain ⟨e', he', h1, h2⟩ := Db.updateEntries_keeps hu he
  exact ⟨e', he', t, ht, h1.trans hid, htag, h2.trans huser⟩

theorem deleteEntries (h : db.LinksOwned) (p : EntryRecord → Bool) :
    (db.deleteEntries p).LinksOwned := by
  intro l hl
  obtain ⟨hl, hkept⟩ := List.mem_filter.mp hl
  obtain ⟨e, he, t, ht, hid, hrest⟩ := h l hl
  have hall : ∀ d ∈ db.entries, p d = true → d.id ≠ l.entryId := by simpa using hkept
  have hstays : (!p e) = true := by simpa using fun hp => hall e he hp hid
  exact ⟨e, List.mem_filter.mpr ⟨he, hstays⟩, t, ht, hid, hrest⟩

theorem deleteTags (h : db.LinksOwned) (p : TagRow → Bool) : (db.deleteTags p).LinksOwned := by
  intro l hl
  obtain ⟨hl, hkept⟩ := List.mem_filter.mp hl
  obtain ⟨e, he, t, ht, hid, htag, huser⟩ := h l hl
  have hall : ∀ s ∈ db.tags, p s = true → s.id ≠ l.tagId := by simpa using hkept
  have hstays : (!p t) = true := by simpa using fun hp => hall t ht hp htag
  exact ⟨e, he, t, List.mem_filter.mpr ⟨ht, hstays⟩, hid, htag, huser⟩

theorem insertTags (h : db.LinksOwned) (userId : Int) (tags : List Tags.CreateTag) :
    (Tags.insertTags userId tags db).LinksOwned := by
  obtain ⟨new, heq, -⟩ := Tags.insertTags_shape db userId tags
  rw [heq]
  intro l hl
  obtain ⟨e, he, t, ht, hrest⟩ := h l hl
  exact ⟨e, he, t, List.mem_append_left _ ht, hrest⟩

theorem linkLabels (h : db.LinksOwned) (userId entryId : Int) (labels : List String) :
    (db.insertEntryTags (Tags.labelLinks userId entryId labels db)).LinksOwned := by
  intro l hl
  rcases mem_addMissing.mp hl with hl | hl
  · exact h l hl
  · obtain ⟨e, he, -, heu, t, ht, htu, -, rfl⟩ := Tags.mem_labelLinks.mp hl
    exact ⟨e, he, t, ht, rfl, rfl, heu.trans htu.symm⟩

theorem deleteEntryTags (h : db.LinksOwned) (p : EntryTag → Bool) :
    (db.deleteEntryTags p).LinksOwned := fun l hl => h l (List.mem_filter.mp hl).1

theorem deleteUsers (h : db.LinksOwned) (p : UserRow → Bool) : (db.deleteUsers p).LinksOwned :=
  (h.deleteEntries _).deleteTags _

end Db.LinksOwned

theorem Write.linksOwned {k : Statement} {s t : Db} (hw : Write k s t) (h : s.LinksOwned) :
    t.LinksOwned := by
  have hframe (hk : ∀ table ∈ [DbTable.entries, .tags, .entryTags], table ∉ k.changes) :
      t.LinksOwned := by
    rw [Db.LinksOwned, (hw.frame (hk .entries (by decide))).1, (hw.frame (hk .tags (by decide))).1,
      hw.frame (hk .entryTags (by decide))]
    exact h
  cases hw with
  | deleteUsers _ p => exact h.deleteUsers p
  | insertEntry hid hi => exact h.insertEntry hi
  | updateEntries hu => exact h.updateEntries hu
  | deleteEntries _ p => exact h.deleteEntries p
  | insertTags _ userId tags hguard => exact h.insertTags userId tags
  | deleteTags _ p => exact h.deleteTags p
  | linkLabels _ userId entryId labels => exact h.linkLabels userId entryId labels
  | deleteEntryTags _ p => exact h.deleteEntryTags p
  | insertUser | insertClient | deleteClients | insertToken | deleteTokens =>
    exact hframe (by decide)

theorem Written.linksOwned {db : Db} (h : Written db) : db.LinksOwned :=
  run_invariant (I := Db.LinksOwned) (fun _ _ hs ⟨_, _, hw⟩ => hw.linksOwned hs)
    (fun _ hl => absurd hl List.not_mem_nil) h

/-- In every state a run reaches, links stay within one user and are there once, and a
user's labels and slugs are unique. -/
theorem Reachable.links {db : Db} (h : Reachable db) :
    (∀ l ∈ db.entryTags, ∃ e ∈ db.entries, ∃ t ∈ db.tags,
      e.id = l.entryId ∧ t.id = l.tagId ∧ e.userId = t.userId) ∧
    db.entryTags.Nodup ∧
    ∀ s ∈ db.tags, ∀ t ∈ db.tags, s.userId = t.userId →
      s.label = t.label ∨ s.slug = t.slug → s = t := by
  have hv := h.written.valid
  refine ⟨h.written.linksOwned, hv.entryTags, fun s hs t ht huser hsame => ?_⟩
  rcases hsame with hlabel | hslug
  · exact hv.tagLabels.eq_of_key hs ht (by rw [huser, hlabel])
  · exact hv.tagSlugs.eq_of_key hs ht (by rw [huser, hslug])

def note (userId : Int) (title : String) : CreateEntry where
  userId := userId
  url := "https://a.org/"
  hashedUrl := ""
  givenUrl := "https://a.org/"
  hashedGivenUrl := ""
  title := ⟨title⟩
  content := ⟨""⟩
  contentText := title
  isArchived := false
  archivedAt := none
  isStarred := false
  starredAt := none
  createdAt := 10
  updatedAt := 10
  mimetype := none
  language := none
  readingTime := 1
  domainName := "a.org"
  previewPicture := none
  originUrl := none
  publishedAt := none
  publishedBy := none
  isPublic := none
  uid := none

/-- Two users with the same label; the second one also tries to tag the entry of the first. -/
def crossing : List Call :=
  [.createUser "ada" "" "" "" 0 0, .createUser "bob" "" "" "" 0 0,
    .create (note 1 "A") [⟨"Rust", "rust"⟩], .create (note 2 "B") [⟨"Rust", "rust"⟩],
    .createAndLink 2 1 [⟨"Rust", "rust"⟩, ⟨"Lean", "lean"⟩]]

theorem Reachable.links_crossing :
    (runCalls crossing {}).entryTags = [⟨1, 1⟩, ⟨2, 2⟩] ∧
      ∀ l ∈ (runCalls crossing {}).entryTags, ∃ e ∈ (runCalls crossing {}).entries,
        ∃ t ∈ (runCalls crossing {}).tags,
          e.id = l.entryId ∧ t.id = l.tagId ∧ e.userId = t.userId := by
  have hr : Reachable (runCalls crossing {}) := Reachable.calls .refl crossing
  exact ⟨by decide, hr.links.1⟩

end Articler
