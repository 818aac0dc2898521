import Articler.PageBounds
import Articler.ReadBack
import Articler.Updates

/-! The authors of an entry: a list in the request and in the answer, joined with commas in the
database. -/
namespace Articler
open Txn Rows

/-- `StringWithSeparator<CommaSeparator, String>`: the empty text has no parts. -/
def separated (s : String) : List String := if s.toList.isEmpty then [] else splitComma s

/-- What the field can decode to. -/
def Decoded (authors : List String) : Prop := ∃ s, authors = separated s

section texts

theorem splitOn_mem {cs w : List Char} (h : w ∈ cs.splitOn ',') : ',' ∉ w := by
  induction cs generalizing w with
  | nil =>
    rw [List.splitOn_nil, List.mem_singleton] at h
    simp [h]
  | cons c cs ih =>
    rw [List.splitOn_cons_eq_if_modifyHead] at h
    split at h
    · rcases List.mem_cons.mp h with rfl | h
      · exact List.not_mem_nil
      · exact ih h
    · rename_i hc
      obtain ⟨v, vs, hsplit⟩ := List.exists_cons_of_ne_nil (List.splitOn_ne_nil ',' cs)
      rw [hsplit, List.modifyHead_cons] at h
      rcases List.mem_cons.mp h with rfl | h
      · rw [List.mem_cons, not_or]
        exact ⟨fun heq => hc (beq_iff_eq.mpr heq.symm), ih (hsplit ▸ List.mem_cons_self)⟩
      · exact ih (hsplit ▸ List.mem_cons_of_mem v h)

theorem splitComma_join {authors : List String} (hne : authors ≠ [])
    (h : ∀ a ∈ authors, ',' ∉ a.toList) :
    splitComma (String.intercalate "," authors) = authors := by
  have hsplit : (List.intercalate [','] (authors.map String.toList)).splitOn ',' =
      authors.map String.toList :=
    List.splitOn_intercalate ',' (by simpa using h) (by simpa using hne)
  rw [splitComma, String.toList_intercalate]
  refine (congrArg (List.map String.ofList) hsplit).trans ?_
  rw [List.map_map]
  exact List.map_id'' (fun a => String.ofList_toList) authors

theorem join_splitComma (s : String) : String.intercalate "," (splitComma s) = s := by
  have hid : String.toList ∘ String.ofList = id := funext fun _ => String.toList_ofList
  rw [← String.toList_inj, String.toList_intercalate, splitComma, List.map_map, hid, List.map_id]
  exact List.intercalate_splitOn ','

/-- The lists of names without commas, except for the empty name alone. -/
theorem decoded_iff {authors : List String} :
    Decoded authors ↔ authors ≠ [""] ∧ ∀ a ∈ authors, ',' ∉ a.toList := by
  constructor
  · rintro ⟨s, rfl⟩
    rw [separated]
    split
    · exact ⟨by decide, fun a ha => absurd ha List.not_mem_nil⟩
    · rename_i hs
      refine ⟨fun hempty => hs ?_, fun a ha => ?_⟩
      · rw [← join_splitComma s, hempty]
        rfl
      · obtain ⟨w, hw, rfl⟩ := List.mem_map.mp ha
        rw [String.toList_ofList]
        exact splitOn_mem hw
  · rintro ⟨hne, hcomma⟩
    by_cases hnil : authors = []
    · exact ⟨"", hnil⟩
    · refine ⟨String.intercalate "," authors, ?_⟩
      have hsplit := splitComma_join hnil hcomma
      rw [separated, if_neg, hsplit]
      intro hempty
      have htext : String.intercalate "," authors = "" :=
        String.toList_inj.mp (List.isEmpty_iff.mp hempty)
      rw [htext] at hsplit
      exact hne hsplit.symm

theorem splitComma_join_iff {authors : List String} (h : Decoded authors) :
    splitComma (String.intercalate "," authors) = authors ↔ authors ≠ [] := by
  refine ⟨?_, fun hne => splitComma_join hne (decoded_iff.mp h).2⟩
  rintro hsplit rfl
  exact absurd hsplit (by decide)

end texts

section shown
variable {Url : Type} [UrlCrate Url] {K : Type} [Field K] [LinearOrder K] {eng : Engine K}
  {crates : Crates} {authors : List String}

/-- The API shows these authors: in the answer with the entry, and wherever a list of entries from
the same state has it, in full or as metadata. -/
structure ShowsAuthors (eng : Engine K) (authors : List String) (entry : Entry Url) (db : Db) :
    Prop where
  answer : entry.publishedBy = some authors
  listed : ∀ request userId (page : Api.Entries Url) t,
    (Api.entries eng request userId : Run Db Error _) db = (.ok page, t) →
      ∀ item ∈ page.items, item.id = entry.id → item.publishedBy = some authors

/-- An item of a list is a stored row, converted. -/
theorem Api.items_row {request : Api.EntriesRequest} {userId : Int} {db : Database}
    {items : List (Entry Url)} (h : request.items Url eng userId db.val = .ok items)
    {item : Entry Url} (hitem : item ∈ items) : ∃ e ∈ db.val.entries, ∃ content tags,
      Entry.tryFromRow content (EntryMetadataRow.fromRow e) tags = .ok item := by
  have hrow {R : Type} {fromRow : EntryRecord → R}
      {convert : R × List TagRow → Except Error (Entry Url)}
      (h : Api.listed eng (request.params userId) fromRow convert db.val = .ok items) :
      ∃ e ∈ db.val.entries, ∃ tags, convert (fromRow e, tags) = .ok item := by
    obtain ⟨rows, hgather, hitems⟩ := bind_eq_ok.mp h
    rw [gatherRows_ok fromRow (gatherRows_fits hgather)] at hgather
    obtain rfl := Except.ok.inj hgather
    obtain ⟨r, hr, hconvert⟩ := exists_old (mapM_inv hitems) hitem
    obtain ⟨l, hl, rfl⟩ := List.mem_map.mp hr
    exact ⟨l.entry, joinTags_entry ((rawRows_entry eng).mp (mem_of_leader hl)).1, _, hconvert⟩
  rw [Api.EntriesRequest.items] at h
  cases hdetail : request.detail with
  | full =>
    rw [hdetail] at h
    obtain ⟨e, he, tags, hconvert⟩ := hrow h
    exact ⟨e, he, _, tags, hconvert⟩
  | metadata =>
    rw [hdetail] at h
    obtain ⟨e, he, tags, hconvert⟩ := hrow h
    exact ⟨e, he, _, tags, hconvert⟩

theorem showsAuthors_iff (hdecoded : Decoded authors) {db : Database} {e : EntryRecord}
    (he : e ∈ db.val.entries) (hstored : e.publishedBy = some (String.intercalate "," authors))
    {tags : List TagRow} {entry : Entry Url}
    (h : Entry.tryFromFull (EntryRow.fromRow e, tags) = .ok entry) :
    ShowsAuthors eng authors entry db.val ↔ authors ≠ [] := by
  have hshown {content : Option String} {tags : List TagRow} {a : Entry Url}
      (h : Entry.tryFromRow content (EntryMetadataRow.fromRow e) tags = .ok a) :
      a.publishedBy = some authors ↔ authors ≠ [] := by
    have hread : (EntryMetadataRow.fromRow e).publishedBy = some (String.intercalate "," authors) :=
      hstored
    rw [(Entry.tryFromRow_carries h).2, hread, Option.map_some, Option.some.injEq,
      splitComma_join_iff hdecoded]
  refine ⟨fun hshows => (hshown h).mp hshows.answer, fun hne => ⟨(hshown h).mpr hne, ?_⟩⟩
  intro request userId page t hpage item hitem hid
  obtain ⟨htags, hdomain⟩ := Api.entries_supported hpage
  rw [Api.entries_run htags hdomain] at hpage
  obtain ⟨items, hitems, hanswer⟩ := bind_eq_ok.mp (Prod.mk.inj hpage).1
  obtain ⟨-, rfl⟩ := Api.answer_inv hanswer
  obtain ⟨d, hd, content, tags', hconvert⟩ := Api.items_row hitems hitem
  have hsame : d.id = e.id :=
    (Entry.tryFromRow_id hconvert).symm.trans (hid.trans (Entry.tryFromRow_id h))
  obtain rfl := db.property.entries.pk.eq_of_key hd he hsame
  exact (hshown hconvert).mpr hne

/-- The answer is with a row of the state left, and the row holds the joined authors. -/
def Stores (authors : List String) (entry : Entry Url) (t : Db) : Prop :=
  ∃ db : Database, db.val = t ∧ ∃ e ∈ t.entries,
    e.publishedBy = some (String.intercalate "," authors) ∧
      ∃ tags, Entry.tryFromFull (EntryRow.fromRow e, tags) = .ok entry

theorem Stores.shows_iff {entry : Entry Url} {t : Db} (h : Stores authors entry t)
    (hdecoded : Decoded authors) : ShowsAuthors eng authors entry t ↔ authors ≠ [] := by
  obtain ⟨db, rfl, e, he, hstored, tags, hconvert⟩ := h
  exact showsAuthors_iff hdecoded he hstored hconvert

theorem postEntries_stores {now : DateTime} {uid : String}
    {extract : ArticleUrl Url → Document Url} {userId : Int} {addEntry : Api.AddEntry Url}
    (hauthors : addEntry.authors = some authors) {db : Database} {t : Db}
    {response : Api.AddEntryResponse Url}
    (h : (Api.postEntries crates now uid extract userId addEntry : Run Db Error _) db.val =
      (.ok response, t)) : Stores authors response.entry t := by
  have hbuilt : Built (fun s t => s.Valid → t.Valid)
      (Api.postEntries crates now uid extract userId addEntry : Run Db Error _) :=
    postEntries_built crates (fun _ hv => hv) (fun k _ => allows_valid k) now uid extract userId
      addEntry fun _ _ _ _ _ hinsert hv => hv.insertEntry (fun _ => rfl) hinsert
  have ht : t.Valid := by
    have hkept := hbuilt.invariant db.property
    rwa [h] at hkept
  obtain ⟨url, ⟨row, tagRows⟩, -, hcreate, hconvert⟩ := Api.postEntries_created h
  obtain ⟨id, s', hinsert, hlinked, e, hfound, rfl, -⟩ := Entries.create_ok hcreate
  have he := List.mem_of_find?_eq_some hfound
  refine ⟨⟨t, ht⟩, rfl, e, he, ?_, tagRows, hconvert⟩
  obtain ⟨-, -, -, rfl⟩ := Db.insertEntry_ok hinsert
  have hnew : (addEntry.createEntry crates now uid userId url (extract url)).record id ∈ t.entries := by
    rw [hlinked, Tags.afterLink_entries]
    exact List.mem_append_right _ (List.mem_singleton_self _)
  have hid : e.id = id := by simpa using List.find?_some hfound
  obtain rfl := ht.entries.pk.eq_of_key he hnew hid
  exact congrArg (Option.map (String.intercalate ",")) hauthors

theorem repoUpdate_publishedBy {now : DateTime} {uid : String} {request : Api.UpdateEntry Url}
    {update : UpdateEntry} (h : request.repoUpdate crates now uid = .ok update) :
    update.publishedBy = request.authors.map fun a => some (String.intercalate "," a) := by
  obtain ⟨title, rest, hrest, rfl⟩ := Api.UpdateEntry.repoUpdate_ok h
  cases hrest
  rfl

theorem patchEntry_stores {now : DateTime} {uid : String} {entryId userId : Int}
    {request : Api.UpdateEntry Url} (hauthors : request.authors = some authors) {db : Database}
    {t : Db} {response : Entry Url}
    (h : (Api.patchEntry crates now uid entryId request userId : Run Db Error _) db.val =
      (.ok response, t)) : Stores authors response t := by
  have hbuilt : Built (fun s t => s.Valid → t.Valid)
      (Api.patchEntry crates now uid entryId request userId : Run Db Error (Entry Url)) :=
    patchEntry_built crates (fun _ hv => hv) (fun k _ => allows_valid k) now uid entryId request
      userId fun _ _ _ _ _ _ hupdate hv => hv.updateEntries hupdate
  have ht : t.Valid := by
    have hkept := hbuilt.invariant db.property
    rwa [h] at hkept
  obtain ⟨update, n, s', hrepo, hupdate, hs', e, hfound, hconvert⟩ := Api.patchEntry_ok h
  have he := List.mem_of_find?_eq_some hfound
  refine ⟨⟨t, ht⟩, rfl, e, he, ?_, _, hconvert⟩
  have hentries : t.entries = s'.entries := by
    rw [hs']
    split
    · exact Tags.afterUpdate_entries _ _ _ _
    · rfl
  obtain ⟨-, -, fts, rfl⟩ := Db.updateEntries_updated hupdate
  obtain ⟨d, -, rfl⟩ := List.mem_map.mp (hentries ▸ he)
  have hkey := List.find?_some hfound
  split at hkey
  · rename_i hp
    rw [if_pos hp, UpdateEntry.updated, repoUpdate_publishedBy hrepo, hauthors]
    rfl
  · rename_i hp
    -- the row that was found is one that was updated
    rw [Bool.and_comm] at hkey
    exact absurd hkey hp

/-- The authors that a request can carry are shown again exactly if there are any. -/
theorem authors_shown_iff (hdecoded : Decoded authors) (db : Database) :
    (∀ now uid extract userId (addEntry : Api.AddEntry Url) response t,
      addEntry.authors = some authors →
      (Api.postEntries crates now uid extract userId addEntry : Run Db Error _) db.val =
        (.ok response, t) → (ShowsAuthors eng authors response.entry t ↔ authors ≠ [])) ∧
    (∀ now uid entryId userId (request : Api.UpdateEntry Url) response t,
      request.authors = some authors →
      (Api.patchEntry crates now uid entryId request userId : Run Db Error _) db.val =
        (.ok response, t) → (ShowsAuthors eng authors response t ↔ authors ≠ [])) :=
  ⟨fun _ _ _ _ _ _ _ hauthors h => (postEntries_stores hauthors h).shows_iff hdecoded,
    fun _ _ _ _ _ _ _ hauthors h => (patchEntry_stores hauthors h).shows_iff hdecoded⟩

end shown

/-- An article whose authors are given as this text. -/
def authored (text : String) : Api.AddEntry HttpText :=
  { url := ⟨"https://d.org/", by decide⟩, authors := some (separated text) }

theorem authors_shown_three : ∃ response t,
    (Api.postEntries plainCrates ⟨40, by decide⟩ "" (fun url => page url.url) 1
      (authored "Ada,,Bob") : Run Db Error _) shelf.val = (.ok response, t) ∧
      ShowsAuthors plainEngine ["Ada", "", "Bob"] response.entry t := by
  have hdecoded : Decoded ["Ada", "", "Bob"] := ⟨"Ada,,Bob", by decide⟩
  have hauthors : (authored "Ada,,Bob").authors = some ["Ada", "", "Bob"] := by decide
  obtain ⟨response, t, hpost⟩ : ∃ response t, (Api.postEntries plainCrates ⟨40, by decide⟩ ""
    (fun url => page url.url) 1 (authored "Ada,,Bob") : Run Db Error _) shelf.val =
      (.ok response, t) := ⟨_, _, rfl⟩
  exact ⟨response, t, hpost,
    ((authors_shown_iff hdecoded shelf).1 _ _ _ _ _ _ _ hauthors hpost).mpr (by decide)⟩

/-- No authors become one author without a name, by a post and by a patch. -/
theorem authors_of_none : Decoded [] ∧
    (∃ response t, (Api.postEntries plainCrates ⟨40, by decide⟩ "" (fun url => page url.url) 1
      (authored "") : Run Db Error _) shelf.val = (.ok response, t) ∧
        response.entry.publishedBy = some [""]) ∧
    ∃ (response : Entry HttpText) (t : Db),
      (Api.patchEntry plainCrates ⟨40, by decide⟩ "" 1 { authors := some (separated "") } 1 :
        Run Db Error _) shelf.val = (.ok response, t) ∧ response.publishedBy = some [""] :=
  ⟨⟨"", rfl⟩, ⟨_, _, rfl, rfl⟩, _, _, rfl, rfl⟩

end Articler
