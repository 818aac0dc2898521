import Articler.Api.Models

/-! The handlers of `wallabag_api::wallabag`. A handler takes what its request carries,
the clock, and what it generates or fetches as arguments. -/
namespace Articler.Api
open Txn

structure AddEntry (Url : Type) where
  title : Option String := none
  content : Option String := none
  tags : Option (List String) := none
  archive : Option Bool := none
  starred : Option Bool := none
  url : Url
  language : Option String := none
  publishedAt : Option DateTime := none
  previewPicture : Option Url := none
  authors : Option (List String) := none
  isPublic : Option Bool := none
  originUrl : Option String := none

structure UpdateEntry (Url : Type) where
  title : Option String := none
  content : Option String := none
  tags : Option (List String) := none
  archive : Option Bool := none
  starred : Option Bool := none
  language : Option String := none
  publishedAt : Option DateTime := none
  previewPicture : Option Url := none
  authors : Option (List String) := none
  isPublic : Option Bool := none
  originUrl : Option String := none

inductive Detail where
  | metadata | full
deriving DecidableEq, Repr

structure EntriesRequest where
  archive : Option Bool := none
  starred : Option Bool := none
  sort : SortColumn := .created
  order : SortOrder := .asc
  page : Int := 1
  perPage : Int := 30
  tags : Option (List String) := none
  since : Int := 0
  isPublic : Option Bool := none
  detail : Detail := .full
  domainName : Option String := none

inductive Expect where
  | id | full
deriving DecidableEq, Repr

inductive DeleteEntryResponse (Url : Type) where
  | id (id : Int)
  | full (entry : Entry Url)

structure Links (Url : Type) where
  self : Url
  first : Option Url := none
  last : Option Url := none
  next : Option Url := none

structure AddEntryResponse (Url : Type) where
  entry : Entry Url
  links : Links Url

structure Entries (Url : Type) where
  page : Int
  limit : Int
  pages : Int
  total : Int
  items : List (Entry Url)
  links : Links Url

def EntriesRequest.params (request : EntriesRequest) (userId : Int) : FindParams where
  userId := userId
  archive := request.archive
  starred := request.starred
  sort := some request.sort
  order := some request.order
  page := some request.page
  perPage := some request.perPage
  tags := request.tags
  since := some request.since
  isPublic := request.isPublic
  domainName := request.domainName
  search := none

/-- The quotient rounded up; the cast from `f64` makes of a division by zero the largest
`i64`, or zero for zero by zero. -/
def pageCount (total perPage : Int) : Int :=
  if perPage = 0 then if total = 0 then 0 else 2 ^ 63 - 1
  else -Int.fdiv (-total) perPage

section handlers
variable {Url : Type} [UrlCrate Url] {m : Type → Type} [Acquire Db Error m] (crates : Crates)

def toCreateTag (label : String) : Tags.CreateTag := ⟨label, crates.slugify label⟩

/-- The row that `post_entries` stores for an article url and what was scraped there. -/
def AddEntry.createEntry (addEntry : AddEntry Url) (now : DateTime) (uid : String) (userId : Int)
    (url : ArticleUrl Url) (document : Document Url) : CreateEntry :=
  let archived := addEntry.archive.getD false
  let starred := addEntry.starred.getD false
  { userId
    url := UrlCrate.asStr url.url
    hashedUrl := hashUrl crates url.url
    givenUrl := UrlCrate.asStr url.url
    hashedGivenUrl := hashUrl crates url.url
    title := document.title
    content := document.contentHtml
    contentText := document.contentText
    isArchived := archived
    archivedAt := if archived then some now.timestamp else none
    isStarred := starred
    starredAt := if starred then some now.timestamp else none
    createdAt := now.timestamp
    updatedAt := now.timestamp
    mimetype := document.mimeType
    language := document.language
    readingTime := document.readingTime
    domainName := ((UrlCrate.domain url.url).or (UrlCrate.hostStr url.url)).getD ""
    previewPicture := document.imageUrl.map UrlCrate.asStr
    originUrl := addEntry.originUrl
    publishedAt := document.publishedAt.map DateTime.timestamp
    publishedBy := addEntry.authors.map (String.intercalate ",")
    isPublic := addEntry.isPublic
    uid := (addEntry.isPublic.filter id).map fun _ => uid }

def postEntries (now : DateTime) (uid : String) (extractOrFallback : ArticleUrl Url → Document Url)
    (userId : Int) (addEntry : AddEntry Url) : m (AddEntryResponse Url) :=
  if addEntry.title.isSome && addEntry.content.isSome then
    fail (.notImplemented "Title and content fields is not supported yet")
  else do
    let url ← ofExcept (ArticleUrl.tryFrom addEntry.url)
    let createEntry := addEntry.createEntry crates now uid userId url (extractOrFallback url)
    let createTags := (addEntry.tags.map fun tags => tags.map (toCreateTag crates)).getD []
    let full ← Articler.Entries.create createEntry createTags
    let selfUrl ← ofExcept (parseUrl "https://example.com")
    let entry ← ofExcept (Entry.tryFromFull full)
    pure { entry, links := { self := selfUrl } }

def entries {K : Type} [Field K] [LinearOrder K] (eng : Engine K) (request : EntriesRequest)
    (userId : Int) : m (Entries Url) := do
  let params := request.params userId
  let (count, ents) ← transaction do
    let count ← Articler.Entries.count eng params
    match request.detail with
    | .full => do
      let rows ← Articler.Entries.findAll eng params
      let ents ← ofExcept (rows.mapM Entry.tryFromFull)
      pure (count, ents)
    | .metadata => do
      let rows ← Articler.Entries.findAllMetadata eng params
      let ents ← ofExcept (rows.mapM Entry.tryFromMetadata)
      pure (count, ents)
  let pages := pageCount count request.perPage
  if request.page > pages then fail (.notFound "Page not found")
  else do
    let url ← ofExcept (parseUrl "http://example.com")
    pure { page := request.page, limit := request.perPage, pages, total := count, items := ents
           links := { self := url, first := some url, last := some url, next := some url } }

def getTagsByEntry (entryId userId : Int) : m (List Tag) := do
  let result ← transaction do
    let found ← Articler.Entries.existsById userId entryId
    if found then do
      let rows ← Tags.findByEntryId userId entryId
      pure (.ok (rows.map Tag.from))
    else pure (.error (.notFound "Entry not found"))
  ofExcept result

def deleteTagFromEntry (entryId tagId userId : Int) : m (Entry Url) := do
  let result ← transaction do
    let found ← Articler.Entries.existsById userId entryId
    if found then do
      let _ ← Articler.Entries.deleteTagByTagId userId entryId tagId
      let full ← Articler.Entries.findById userId entryId
      match full with
      | some full => do
        let entry ← ofExcept (Entry.tryFromFull full)
        pure (.ok entry)
      | none => pure (.error (.unexpectedState "Can't find entry by id"))
    else pure (.error (.notFound "Entry not found"))
  ofExcept result

def deleteEntry (entryId : Int) (expect : Expect) (userId : Int) : m (DeleteEntryResponse Url) :=
  transaction do
    match expect with
    | .id => do
      let deleted ← Articler.Entries.deleteById userId entryId
      if deleted then pure (.id entryId) else fail (.notFound "Entry not found")
    | .full => do
      let found ← Articler.Entries.findById userId entryId
      let full ← ofExcept (okOr (.notFound "Entry not found") found)
      let deleted ← Articler.Entries.deleteById userId entryId
      if deleted then do
        let entry ← ofExcept (Entry.tryFromFull full)
        pure (.full entry)
      else fail (.notFound "Entry not found")

def postEntryTags (entryId : Int) (labels : List String) (userId : Int) : m (Entry Url) := do
  let result ← transaction do
    let found ← Articler.Entries.findById userId entryId
    if found.isSome then do
      let _ ← Tags.updateTagsByEntryId userId entryId (labels.map (toCreateTag crates))
      let found ← Articler.Entries.findById userId entryId
      let full ← ofExcept (okOr (.notFound "Entry not found") found)
      let entry ← ofExcept (Entry.tryFromFull full)
      pure (.ok entry)
    else pure (.error (.notFound "Entry not found"))
  ofExcept result

/-- `Some(true)` stamps the time, `Some(false)` clears it. -/
def stamp (now : DateTime) : Option Bool → UpdateField Int
  | some true => some (some now.timestamp)
  | some false => some none
  | none => none

def UpdateEntry.repoUpdate (request : UpdateEntry Url) (now : DateTime) (uid : String) :
    Except Error Articler.UpdateEntry := do
  let title ← match request.title with
    | some t => (Title.tryFrom t).map fun t => some (some t)
    | none => pure none
  pure
    { title
      content := request.content.map fun c => some (SafeHtml.ofStr crates c)
      contentText := none
      isArchived := request.archive.map some
      archivedAt := stamp now request.archive
      isStarred := request.starred.map some
      starredAt := stamp now request.starred
      updatedAt := now.timestamp
      language := request.language.map some
      readingTime := none
      previewPicture := request.previewPicture.map fun u => some (UrlCrate.asStr u)
      originUrl := request.originUrl.map some
      publishedAt := request.publishedAt.map fun d => some d.timestamp
      publishedBy := request.authors.map fun a => some (String.intercalate "," a)
      isPublic := request.isPublic.map some
      uid := match request.isPublic with
        | some true => some (some uid)
        | some false => some none
        | none => none }

def patchEntry (now : DateTime) (uid : String) (entryId : Int) (request : UpdateEntry Url)
    (userId : Int) : m (Entry Url) := do
  let repoUpdate ← ofExcept (request.repoUpdate crates now uid)
  transaction do
    let updated ← Articler.Entries.updateById userId entryId repoUpdate
    if updated then do
      let _ ← (match request.tags with
        | some labels => Tags.updateTagsByEntryId userId entryId (labels.map (toCreateTag crates))
        | none => pure [])
      let found ← Articler.Entries.findById userId entryId
      let full ← ofExcept (okOr (.notFound "Entry not found") found)
      ofExcept (Entry.tryFromFull full)
    else fail (.notFound "Entry not found")

def getTags (userId : Int) : m (List Tag) := do
  let rows ← Tags.getAll userId
  pure (rows.map Tag.from)

def deleteTagsByLabel (labels : List String) (userId : Int) : m (List Tag) := do
  let rows ← Tags.deleteAllByLabel userId labels
  pure (rows.map Tag.from)

def deleteTagById (tagId userId : Int) : m Tag := do
  let row ← Tags.deleteById userId tagId
  ofExcept (okOr (.notFound "Tag not found") (row.map Tag.from))

def deleteTagByLabel (label : String) (userId : Int) : m Tag := do
  let row ← Tags.deleteByLabel userId label
  ofExcept (okOr (.notFound "Tag not found") (row.map Tag.from))

end handlers

section specs
variable {Url : Type} [UrlCrate Url] {crates : Crates} {s t : Db}

theorem postEntries_created {now : DateTime} {uid : String} {extract : ArticleUrl Url → Document Url}
    {userId : Int} {addEntry : AddEntry Url} {response : AddEntryResponse Url}
    (h : (postEntries crates now uid extract userId addEntry : Run Db Error _) s =
      (.ok response, t)) :
    ∃ url full, ArticleUrl.tryFrom addEntry.url = .ok url ∧
      (Articler.Entries.create (addEntry.createEntry crates now uid userId url (extract url))
        ((addEntry.tags.map fun tags => tags.map (toCreateTag crates)).getD []) :
          Run Db Error _) s = (.ok full, t) ∧ Entry.tryFromFull full = .ok response.entry := by
  unfold postEntries at h
  split at h
  · cases h
  obtain ⟨url, s1, hparse, h⟩ := bind_ok_inv h
  obtain ⟨hurl, rfl⟩ := ofExcept_ok_iff.mp hparse
  obtain ⟨full, s2, hcreate, h⟩ := bind_ok_inv h
  obtain ⟨_, s3, hself, h⟩ := bind_ok_inv h
  obtain ⟨-, rfl⟩ := ofExcept_ok_iff.mp hself
  obtain ⟨entry, s4, hentry, h⟩ := bind_ok_inv h
  obtain ⟨hconverts, rfl⟩ := ofExcept_ok_iff.mp hentry
  cases h
  exact ⟨url, full, hurl, hcreate, hconverts⟩

theorem postEntries_ok {now : DateTime} {uid : String} {extract : ArticleUrl Url → Document Url}
    {userId : Int} {addEntry : AddEntry Url} {response : AddEntryResponse Url}
    (h : (postEntries crates now uid extract userId addEntry : Run Db Error _) s =
      (.ok response, t)) :
    ∃ url full, ArticleUrl.tryFrom addEntry.url = .ok url ∧
      (Articler.Entries.create (addEntry.createEntry crates now uid userId url (extract url))
        ((addEntry.tags.map fun tags => tags.map (toCreateTag crates)).getD []) :
          Run Db Error _) s = (.ok full, t) := by
  obtain ⟨url, full, hurl, hcreate, -⟩ := postEntries_created h
  exact ⟨url, full, hurl, hcreate⟩

theorem postEntryTags_ok {entryId userId : Int} {labels : List String} {response : Entry Url}
    (h : (postEntryTags crates entryId labels userId : Run Db Error _) s = (.ok response, t)) :
    t = Tags.afterUpdate userId entryId (labels.map (toCreateTag crates)) s := by
  obtain ⟨result, s1, h1, h2⟩ := bind_ok_inv h
  obtain ⟨rfl, rfl⟩ := ofExcept_ok_iff.mp h2
  rw [transaction_ok_iff] at h1
  obtain ⟨found, s2, hfound, h1⟩ := bind_ok_inv h1
  obtain ⟨-, rfl⟩ := Articler.Entries.findById_ok_iff.mp hfound
  split at h1
  · obtain ⟨_, s3, hupdate, h1⟩ := bind_ok_inv h1
    obtain ⟨-, rfl⟩ := Tags.updateTagsByEntryId_ok hupdate
    obtain ⟨found', s4, hfound', h1⟩ := bind_ok_inv h1
    obtain ⟨-, rfl⟩ := Articler.Entries.findById_ok_iff.mp hfound'
    obtain ⟨full, s5, hfull, h1⟩ := bind_ok_inv h1
    obtain ⟨-, rfl⟩ := ofExcept_ok_iff.mp hfull
    obtain ⟨entry, s6, hentry, h1⟩ := bind_ok_inv h1
    obtain ⟨-, rfl⟩ := ofExcept_ok_iff.mp hentry
    exact (Prod.mk.inj h1).2.symm
  · cases h1

theorem deleteTagFromEntry_ok {entryId tagId userId : Int} {response : Entry Url}
    (h : (deleteTagFromEntry entryId tagId userId : Run Db Error _) s = (.ok response, t)) :
    t = s.deleteEntryTags fun l => l.tagId == tagId &&
      s.entries.any fun e => e.id == entryId && e.userId == userId && e.id == l.entryId := by
  obtain ⟨result, s1, h1, h2⟩ := bind_ok_inv h
  obtain ⟨rfl, rfl⟩ := ofExcept_ok_iff.mp h2
  rw [transaction_ok_iff] at h1
  obtain ⟨found, s2, hfound, h1⟩ := bind_ok_inv h1
  obtain ⟨-, rfl⟩ := query_ok_iff.mp hfound
  split at h1
  · obtain ⟨_, s3, hdelete, h1⟩ := bind_ok_inv h1
    obtain ⟨full, s4, hfull, h1⟩ := bind_ok_inv h1
    obtain ⟨-, rfl⟩ := Articler.Entries.findById_ok_iff.mp hfull
    have hdeleted : s3 = s.deleteEntryTags _ := (Prod.mk.inj (Except.ok.inj
      (stmt_ok_iff.mp hdelete))).2.symm
    split at h1
    · obtain ⟨entry, s5, hentry, h1⟩ := bind_ok_inv h1
      obtain ⟨-, rfl⟩ := ofExcept_ok_iff.mp hentry
      exact (Prod.mk.inj h1).2.symm.trans hdeleted
    · cases h1
  · cases h1

theorem UpdateEntry.repoUpdate_ok {now : DateTime} {uid : String} {request : UpdateEntry Url}
    {update : Articler.UpdateEntry} (h : request.repoUpdate crates now uid = .ok update) :
    ∃ title rest, UpdateEntry.repoUpdate crates { request with title := none } now uid =
      .ok rest ∧ update = { rest with title } := by
  unfold repoUpdate at h
  cases htitle : request.title with
  | none =>
    rw [htitle] at h
    cases h
    exact ⟨_, _, rfl, rfl⟩
  | some t =>
    rw [htitle] at h
    obtain ⟨title, -, h⟩ := bind_eq_ok.mp h
    cases h
    exact ⟨title, _, rfl, rfl⟩

theorem repoUpdate_updatedAt {now : DateTime} {uid : String} {request : UpdateEntry Url}
    {update : Articler.UpdateEntry} (h : request.repoUpdate crates now uid = .ok update) :
    update.updatedAt = now.timestamp := by
  obtain ⟨title, rest, hrest, rfl⟩ := UpdateEntry.repoUpdate_ok h
  cases hrest
  rfl

/-- A patch that succeeds updated the entry, set the tags if there were any, and read
back an entry that converts. -/
theorem patchEntry_ok {now : DateTime} {uid : String} {entryId userId : Int}
    {request : UpdateEntry Url} {response : Entry Url}
    (h : (patchEntry crates now uid entryId request userId : Run Db Error _) s =
      (.ok response, t)) :
    ∃ update n s', request.repoUpdate crates now uid = .ok update ∧
      s.updateEntries (fun e => e.id == entryId && e.userId == userId) update.assignments =
        .ok (n, s') ∧
      t = (match request.tags with
        | some labels => Tags.afterUpdate userId entryId (labels.map (toCreateTag crates)) s'
        | none => s') ∧
      ∃ e, (t.entries.find? fun e => e.userId == userId && e.id == entryId) = some e ∧
        Entry.tryFromFull (EntryRow.fromRow e, linkedTags entryId t) = .ok response := by
  obtain ⟨update, s1, hrepo, h⟩ := bind_ok_inv h
  obtain ⟨hparsed, rfl⟩ := ofExcept_ok_iff.mp hrepo
  rw [transaction_ok_iff] at h
  obtain ⟨updated, s2, hupdated, h⟩ := bind_ok_inv h
  obtain ⟨n, hn, -⟩ := Articler.Entries.updateById_ok hupdated
  split at h
  · obtain ⟨_, s3, htags, h⟩ := bind_ok_inv h
    obtain ⟨found, s4, hfound, h⟩ := bind_ok_inv h
    obtain ⟨rfl, rfl⟩ := Articler.Entries.findById_ok_iff.mp hfound
    obtain ⟨full, s5, hfull, h⟩ := bind_ok_inv h
    obtain ⟨hsome, rfl⟩ := ofExcept_ok_iff.mp hfull
    obtain ⟨hentry, rfl⟩ := ofExcept_ok_iff.mp h
    rw [okOr_eq_ok, Option.map_eq_some_iff] at hsome
    obtain ⟨e, he, rfl⟩ := hsome
    refine ⟨update, n, s2, hparsed, hn, ?_, e, he, hentry⟩
    cases hlabels : request.tags with
    | none =>
      rw [hlabels] at htags
      exact (Prod.mk.inj htags).2.symm
    | some labels =>
      rw [hlabels] at htags
      exact (Tags.updateTagsByEntryId_ok htags).2
  · cases h

theorem patchEntry_entries {now : DateTime} {uid : String} {entryId userId : Int}
    {request : UpdateEntry Url} {response : Entry Url}
    (h : (patchEntry crates now uid entryId request userId : Run Db Error _) s =
      (.ok response, t)) :
    ∃ update n s', request.repoUpdate crates now uid = .ok update ∧
      s.updateEntries (fun e => e.id == entryId && e.userId == userId) update.assignments =
        .ok (n, s') ∧ t.entries = s'.entries ∧
      ∃ e ∈ t.entries, e.id = entryId ∧ e.userId = userId ∧ e.Readable Url := by
  obtain ⟨update, n, s', hrepo, hupdate, ht, e, hfound, hconverts⟩ := patchEntry_ok h
  have hkey := List.find?_some hfound
  simp only [Bool.and_eq_true, beq_iff_eq] at hkey
  refine ⟨update, n, s', hrepo, hupdate, ?_, e, List.mem_of_find?_eq_some hfound, hkey.2, hkey.1,
    Entry.tryFromFull_ok_iff.mp ⟨response, hconverts⟩⟩
  rw [ht]
  split
  · exact Tags.afterUpdate_entries _ _ _ _
  · rfl

theorem patchEntry_tags {now : DateTime} {uid : String} {entryId userId : Int}
    {request : UpdateEntry Url} {response : Entry Url}
    (h : (patchEntry crates now uid entryId request userId : Run Db Error _) s =
      (.ok response, t)) {labels : List String} (hlabels : request.tags = some labels) :
    labels.length ≤ Tags.sqliteLimitVariableNumber / 3 := by
  obtain ⟨update, s1, hrepo, h⟩ := bind_ok_inv h
  obtain ⟨-, rfl⟩ := ofExcept_ok_iff.mp hrepo
  rw [transaction_ok_iff] at h
  obtain ⟨updated, s2, -, h⟩ := bind_ok_inv h
  split at h
  · obtain ⟨_, s3, htags, -⟩ := bind_ok_inv h
    rw [hlabels] at htags
    simpa using Tags.updateTagsByEntryId_length htags
  · cases h

end specs
end Articler.Api
