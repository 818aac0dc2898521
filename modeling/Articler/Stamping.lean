import Articler.Requests
import Articler.Tagging
import Articler.Updates

/-! Which changes of an entry are stamped: `updated_at` after each operation that changes
what a listing shows of an entry, its columns or its tags. -/
namespace Articler
open Txn Rows Tags

/-- The entry as it stands in `t` was not in `s` with these columns and these tags. -/
def Changed (s t : Db) (e : EntryRecord) : Prop :=
  ¬ (e ∈ s.entries ∧ ∀ tag, Linked s e tag ↔ Linked t e tag)

/-- Whatever entry changed has the time of the operation in `updated_at`. -/
def Stamped (now : Int) (s t : Db) : Prop := ∀ e ∈ t.entries, Changed s t e → e.updatedAt = now

def SameLinks (s t : Db) (e : EntryRecord) : Prop :=
  ∀ id, (⟨e.id, id⟩ : EntryTag) ∈ s.entryTags ↔ ⟨e.id, id⟩ ∈ t.entryTags

/-- No id stands for one tag in `s` and for another in `t`. -/
def SameTags (s t : Db) : Prop := ∀ a ∈ s.tags, ∀ b ∈ t.tags, a.id = b.id → a = b

section links
variable {s t : Db} {e : EntryRecord} {now : Int}

theorem SameTags.symm (h : SameTags s t) : SameTags t s :=
  fun a ha b hb hid => (h b hb a ha hid.symm).symm

theorem SameTags.of_subset (ht : t.Valid) (h : s.tags ⊆ t.tags) : SameTags s t :=
  fun _ ha _ hb hid => ht.tags.pk.eq_of_key (h ha) hb hid

theorem SameTags.refl (hs : s.Valid) : SameTags s s := .of_subset hs fun _ h => h

theorem Linked.of_links (ht : t.Valid) (htags : SameTags s t)
    (h : ∀ id, (⟨e.id, id⟩ : EntryTag) ∈ s.entryTags → ⟨e.id, id⟩ ∈ t.entryTags) {tag : Tag}
    (hlinked : Linked s e tag) : Linked t e tag := by
  obtain ⟨r, hr, hlink, rfl⟩ := hlinked
  have hlink' := h r.id hlink
  obtain ⟨r', hr', hid⟩ := ht.entryTagsTag _ hlink'
  obtain rfl : r = r' := htags r hr r' hr' hid.symm
  exact ⟨r, hr', hlink', rfl⟩

theorem link_of_linked (hs : s.Valid) (h : ∀ tag, Linked s e tag → Linked t e tag) {id : Int}
    (hlink : (⟨e.id, id⟩ : EntryTag) ∈ s.entryTags) : (⟨e.id, id⟩ : EntryTag) ∈ t.entryTags := by
  obtain ⟨r, hr, hid⟩ := hs.entryTagsTag _ hlink
  obtain ⟨r', -, hlink', htag⟩ := h _ ⟨r, hr, hid.symm ▸ hlink, rfl⟩
  have hid' : r'.id = r.id := congrArg Tag.id htag
  have heq : r'.id = id := hid'.trans hid
  exact heq ▸ hlink'

theorem linked_iff (hs : s.Valid) (ht : t.Valid) (htags : SameTags s t) :
    (∀ tag, Linked s e tag ↔ Linked t e tag) ↔ SameLinks s t e := by
  constructor
  · intro h id
    exact ⟨link_of_linked hs fun tag => (h tag).mp, link_of_linked ht fun tag => (h tag).mpr⟩
  · intro h tag
    exact ⟨.of_links ht htags fun id => (h id).mp, .of_links hs htags.symm fun id => (h id).mpr⟩

theorem exists_linked (hs : s.Valid) :
    (∃ l ∈ s.entryTags, l.entryId = e.id) ↔ ∃ tag, Linked s e tag := by
  constructor
  · rintro ⟨⟨entryId, tagId⟩, hl, hid⟩
    obtain ⟨r, hr, rfl⟩ := hs.entryTagsTag _ hl
    dsimp only at hid
    exact ⟨Tag.from r, r, hr, hid ▸ hl, rfl⟩
  · rintro ⟨tag, r, -, hl, -⟩
    exact ⟨_, hl, rfl⟩

/-- An entry that did not change is listed with the tags it was listed with. -/
theorem listed_alike {K : Type} [Field K] [LinearOrder K] (eng : Engine K) {params : FindParams}
    {hit hit' : Int → Bool} {s t : Database}
    (he : e ∈ Entries.pageRows eng params s.val hit)
    (he' : e ∈ Entries.pageRows eng params t.val hit') (h : ¬ Changed s.val t.val e) (tag : Tag) :
    tag ∈ (gathered eng params hit s.val e.id).map Tag.from ↔
      tag ∈ (gathered eng params hit' t.val e.id).map Tag.from := by
  have hlinked := (not_not.mp h).2
  have hlink := (exists_linked s.property).trans
    ((exists_congr hlinked).trans (exists_linked t.property).symm)
  by_cases hs : ∃ l ∈ s.val.entryTags, l.entryId = e.id
  · rw [(gathered_showsLinked eng he).mpr hs tag, hlinked tag,
      (gathered_showsLinked eng he').mpr (hlink.mp hs) tag]
  · rw [gathered_unlinked eng he hs, gathered_unlinked eng he' (hlink.not.mp hs)]

theorem stamped_of (hs : s.Valid) (ht : t.Valid) (htags : SameTags s t)
    (h : ∀ e ∈ t.entries, e.updatedAt = now ∨ e ∈ s.entries ∧ SameLinks s t e) :
    Stamped now s t := by
  intro e he hchanged
  rcases h e he with hnow | ⟨hmem, hsame⟩
  · exact hnow
  · exact absurd ⟨hmem, (linked_iff hs ht htags).mpr hsame⟩ hchanged

theorem stamped_iff_links (hs : s.Valid) (ht : t.Valid) (htags : SameTags s t)
    (hentries : t.entries = s.entries) :
    Stamped now s t ↔ ∀ e ∈ s.entries, ¬ SameLinks s t e → e.updatedAt = now := by
  rw [Stamped, hentries]
  refine forall₂_congr fun e he => ?_
  rw [Changed, linked_iff hs ht htags, and_iff_right he]

end links

section tags
variable {db : Db} {u entryId : Int} {e : EntryRecord} {tags : List CreateTag}

theorem sameTags_insert (hv : (insertTags u tags db).Valid) : SameTags db (insertTags u tags db) :=
  .of_subset hv fun _ ht => insertTags_mono ht tags

theorem afterLink_other (hv : db.Valid) (he : e ∈ db.entries)
    (hother : ¬ (e.id = entryId ∧ e.userId = u)) : SameLinks db (afterLink u entryId tags db) e := by
  intro id
  obtain ⟨new, heq, -⟩ := insertTags_shape db u tags
  have hlinks : (insertTags u tags db).entryTags = db.entryTags := by rw [heq]
  have hentries : (insertTags u tags db).entries = db.entries := by rw [heq]
  have hmem : (⟨e.id, id⟩ : EntryTag) ∈ (afterLink u entryId tags db).entryTags ↔ _ :=
    mem_addMissing
  rw [hmem, mem_labelLinks, hlinks, hentries]
  refine ⟨.inl, fun h => h.resolve_right ?_⟩
  rintro ⟨d, hd, hid, hu, t, -, -, -, heq⟩
  obtain rfl : d = e := hv.entries.pk.eq_of_key hd he (EntryTag.mk.inj heq).1.symm
  exact hother ⟨hid, hu⟩

theorem afterUpdate_other (hv : db.Valid) (he : e ∈ db.entries)
    (hother : ¬ (e.id = entryId ∧ e.userId = u)) :
    SameLinks db (afterUpdate u entryId tags db) e := by
  intro id
  have hstale : staleLink u entryId (tags.map (·.label)) (afterLink u entryId tags db) ⟨e.id, id⟩ =
      false := by
    rw [staleLink, afterLink_entries, Bool.and_eq_false_iff]
    refine .inl (List.any_eq_false.mpr fun d hd hmatch => ?_)
    simp only [Bool.and_eq_true, beq_iff_eq] at hmatch
    obtain rfl : d = e := hv.entries.pk.eq_of_key hd he hmatch.2
    exact hother hmatch.1
  have hmem : (⟨e.id, id⟩ : EntryTag) ∈ (afterUpdate u entryId tags db).entryTags ↔
      ⟨e.id, id⟩ ∈ (afterLink u entryId tags db).entryTags := by
    simp [afterUpdate, Db.deleteEntryTags, hstale]
  rw [hmem]
  exact afterLink_other hv he hother id

theorem insertTags_covered_tags (h : ∀ tag ∈ tags, ∃ t ∈ db.tags,
    t.userId = u ∧ (t.label = tag.label ∨ t.slug = tag.slug)) :
    (insertTags u tags db).tags = db.tags := by
  induction tags generalizing db with
  | nil => rfl
  | cons first tags ih =>
    have hfirst : (db.insertTag u first.label first.slug).tags = db.tags := by
      obtain ⟨t, ht, hu, hor⟩ := h first List.mem_cons_self
      rw [Db.insertTag, if_pos]
      exact List.any_eq_true.mpr ⟨t, ht, by simpa [hu] using hor⟩
    have hstep : insertTags u (first :: tags) db =
        insertTags u tags (db.insertTag u first.label first.slug) := rfl
    rw [hstep, ih, hfirst]
    rw [hfirst]
    exact fun tag htag => h tag (List.mem_cons_of_mem first htag)

/-- `update_tags_by_entry_id` leaves an entry as it was exactly if every label has a tag
already and the linked tags are those with a label of the list. -/
theorem afterUpdate_sameLinks_iff (slugify : String → String) (labels : List String)
    (hv : db.Valid) (he : e ∈ db.entries) (heu : e.userId = u) :
    SameLinks db (afterUpdate u e.id (labels.map fun l => ⟨l, slugify l⟩) db) e ↔
      (∀ l ∈ labels, ∃ t ∈ db.tags, t.userId = u ∧ (t.label = l ∨ t.slug = slugify l)) ∧
      ∀ t ∈ db.tags, ⟨e.id, t.id⟩ ∈ db.entryTags ↔ t.userId = u ∧ t.label ∈ labels := by
  have huser := hasUser_of_entry hv he heu
  have hvalid : (insertTags u (labels.map fun l => ⟨l, slugify l⟩) db).Valid :=
    insertTags_valid_of_user hv huser
  have hafter : ∀ t ∈ (insertTags u (labels.map fun l => ⟨l, slugify l⟩) db).tags,
      (⟨e.id, t.id⟩ ∈ (afterUpdate u e.id (labels.map fun l => ⟨l, slugify l⟩) db).entryTags ↔
        t.userId = u ∧ t.label ∈ labels) := by
    intro t ht
    rw [mem_afterUpdate hvalid ht he heu, map_label]
  constructor
  · intro hsame
    have hold : ∀ t ∈ (insertTags u (labels.map fun l => ⟨l, slugify l⟩) db).tags,
        t.userId = u → t.label ∈ labels → t ∈ db.tags := by
      intro t ht htu hl
      have hlink := (hsame t.id).mpr ((hafter t ht).mpr ⟨htu, hl⟩)
      obtain ⟨r, hr, hid⟩ := hv.entryTagsTag _ hlink
      exact sameTags_insert hvalid r hr t ht hid ▸ hr
    refine ⟨fun l hl => ?_, fun t ht => (hsame t.id).trans (hafter t (insertTags_mono ht _))⟩
    obtain ⟨t, ht, htu, hor⟩ : ∃ t ∈ (insertTags u _ db).tags, t.userId = u ∧
        (t.label = l ∨ t.slug = slugify l) :=
      insertTags_covered (labels.map fun l => ⟨l, slugify l⟩) (List.mem_map_of_mem hl)
    refine ⟨t, ?_, htu, hor⟩
    rcases insertTags_requested hv huser ht with hmem | ⟨hreq, -, -⟩
    · exact hmem
    · exact hold t ht htu hreq
  · rintro ⟨hcovered, hlinked⟩ id
    have htags : (insertTags u (labels.map fun l => ⟨l, slugify l⟩) db).tags = db.tags := by
      refine insertTags_covered_tags fun tag htag => ?_
      obtain ⟨l, hl, rfl⟩ := List.mem_map.mp htag
      exact hcovered l hl
    rw [htags] at hafter
    have hvafter : (afterUpdate u e.id (labels.map fun l => ⟨l, slugify l⟩) db).Valid :=
      (linkLabels_valid hvalid).deleteEntryTags _
    constructor
    · intro hlink
      obtain ⟨t, ht, rfl⟩ := hv.entryTagsTag _ hlink
      exact (hafter t ht).mpr ((hlinked t ht).mp hlink)
    · intro hlink
      obtain ⟨t, ht, rfl⟩ := hvafter.entryTagsTag _ hlink
      have ht' : t ∈ db.tags := htags ▸ ht
      exact (hlinked t ht').mpr ((hafter t ht').mp hlink)

end tags

section operations
variable {Url : Type} [UrlCrate Url] {K : Type} [Field K] [LinearOrder K] (crates : Crates)
  (eng : Engine K)

/-- The request changes entries or tags, at the time `now`: the last reading of the clock
that it makes. The operations on tags make none. -/
def Request.MutatesAt (now : Int) : Request Url → Prop
  | .postEntries clock .. | .patchEntry clock .. | .doEditTitle clock .. => clock.timestamp = now
  | .doArchive _ updated .. | .doFavourite _ updated .. => updated.timestamp = now
  | .postEntryTags .. | .deleteTagFromEntry .. | .deleteTagById .. | .deleteTagByLabel ..
  | .deleteTagsByLabel .. => True
  | _ => False

def LosesTag (s : Db) (e : EntryRecord) (p : TagRow → Bool) : Prop :=
  ∃ t ∈ s.tags, p t = true ∧ ⟨e.id, t.id⟩ ∈ s.entryTags

/-- The request changes the tags of the entry without an update of its row. -/
def Request.Retags (s : Db) (e : EntryRecord) : Request Url → Prop
  | .postEntryTags entryId labels userId => (e.id = entryId ∧ e.userId = userId) ∧
    ¬ ((∀ l ∈ labels, ∃ t ∈ s.tags,
        t.userId = userId ∧ (t.label = l ∨ t.slug = crates.slugify l)) ∧
      ∀ t ∈ s.tags, ⟨e.id, t.id⟩ ∈ s.entryTags ↔ t.userId = userId ∧ t.label ∈ labels)
  | .deleteTagFromEntry entryId tagId userId => (e.id = entryId ∧ e.userId = userId) ∧
    ⟨e.id, tagId⟩ ∈ s.entryTags
  | .deleteTagById tagId userId => LosesTag s e fun t => t.userId == userId && t.id == tagId
  | .deleteTagByLabel label userId => LosesTag s e fun t => t.userId == userId && t.label == label
  | .deleteTagsByLabel labels userId =>
    LosesTag s e fun t => t.userId == userId && labels.contains t.label
  | _ => False

section steps
variable {s t : Db} {now : Int}

theorem sameLinks_deleteTags (p : TagRow → Bool) (e : EntryRecord) :
    ¬ SameLinks s (s.deleteTags p) e ↔ LosesTag s e p := by
  have hmem (id : Int) : (⟨e.id, id⟩ : EntryTag) ∈ (s.deleteTags p).entryTags ↔
      ⟨e.id, id⟩ ∈ s.entryTags ∧ ∀ t ∈ s.tags, p t = true → t.id ≠ id := by
    simp [Db.deleteTags]
  rw [SameLinks, not_forall]
  constructor
  · rintro ⟨id, hid⟩
    rw [hmem] at hid
    by_contra hkeeps
    refine hid ⟨fun hlink => ⟨hlink, fun t ht hp heq => ?_⟩, And.left⟩
    exact hkeeps ⟨t, ht, hp, heq ▸ hlink⟩
  · rintro ⟨t, ht, hp, hlink⟩
    refine ⟨t.id, fun hiff => ?_⟩
    exact ((hmem t.id).mp (hiff.mp hlink)).2 t ht hp rfl

theorem deleteTags_stamped_iff (hv : s.Valid) (p : TagRow → Bool) :
    Stamped now s (s.deleteTags p) ↔ ∀ e ∈ s.entries, LosesTag s e p → e.updatedAt = now := by
  have htags : SameTags (s.deleteTags p) s :=
    .of_subset hv fun t ht => (List.mem_filter.mp ht).1
  rw [stamped_iff_links hv (hv.deleteTags p) htags.symm rfl]
  exact forall₂_congr fun e _ => imp_congr_left (sameLinks_deleteTags p e)

theorem deleteTagFromEntry_stamped_iff (hv : s.Valid) (entryId tagId userId : Int) :
    Stamped now s (s.deleteEntryTags fun l => l.tagId == tagId && s.entries.any fun e =>
        e.id == entryId && e.userId == userId && e.id == l.entryId) ↔
      ∀ e ∈ s.entries, (e.id = entryId ∧ e.userId = userId) ∧ ⟨e.id, tagId⟩ ∈ s.entryTags →
        e.updatedAt = now := by
  rw [stamped_iff_links hv (hv.deleteEntryTags _) (.refl hv) rfl]
  refine forall₂_congr fun e he => imp_congr_left ?_
  have howner : (∃ d ∈ s.entries, (d.id = entryId ∧ d.userId = userId) ∧ d.id = e.id) ↔
      e.id = entryId ∧ e.userId = userId := by
    constructor
    · rintro ⟨d, hd, hown, hid⟩
      exact hv.entries.pk.eq_of_key hd he hid ▸ hown
    · exact fun hown => ⟨e, he, hown, rfl⟩
  have hmem (id : Int) : (⟨e.id, id⟩ : EntryTag) ∈ (s.deleteEntryTags fun l => l.tagId == tagId &&
      s.entries.any fun e => e.id == entryId && e.userId == userId && e.id == l.entryId).entryTags ↔
      ⟨e.id, id⟩ ∈ s.entryTags ∧ ¬ (id = tagId ∧ e.id = entryId ∧ e.userId = userId) := by
    rw [← howner, Db.deleteEntryTags, List.mem_filter, Bool.not_eq_true', ← Bool.not_eq_true]
    simp only [Bool.and_eq_true, beq_iff_eq, List.any_eq_true]
  rw [SameLinks, not_forall]
  constructor
  · rintro ⟨id, hid⟩
    rw [hmem] at hid
    by_contra hkeeps
    refine hid ⟨fun hlink => ⟨hlink, ?_⟩, And.left⟩
    rintro ⟨rfl, hown⟩
    exact hkeeps ⟨hown, hlink⟩
  · rintro ⟨hown, hlink⟩
    exact ⟨tagId, fun hiff => ((hmem tagId).mp (hiff.mp hlink)).2 ⟨rfl, hown⟩⟩

theorem tags_afterLink (userId entryId : Int) (tags : List CreateTag) (s : Db) :
    s.tags ⊆ (afterLink userId entryId tags s).tags := fun _ h => insertTags_mono h tags

theorem tags_afterUpdate (userId entryId : Int) (tags : List CreateTag) (s : Db) :
    s.tags ⊆ (afterUpdate userId entryId tags s).tags := fun _ h => insertTags_mono h tags

theorem create_stamped (hv : s.Valid) (ht : t.Valid) {entry : CreateEntry} {tags : List CreateTag}
    {full : FullEntry} (h : (Entries.create entry tags : Run Db Error _) s = (.ok full, t)) :
    Stamped entry.updatedAt s t := by
  obtain ⟨id, s', hinsert, rfl, -⟩ := Entries.create_ok h
  have hv' := hv.insertEntry (fun _ => rfl) hinsert
  obtain ⟨rfl, -, -, rfl⟩ := Db.insertEntry_ok hinsert
  refine stamped_of hv ht (.of_subset ht fun _ h => tags_afterLink _ _ _ _ h) fun e he => ?_
  rw [afterLink_entries] at he
  rcases List.mem_append.mp he with hold | hnew
  · refine .inr ⟨hold, afterLink_other hv' he fun hown => ?_⟩
    have hle := hv.entries.seq e hold
    omega
  · rw [List.mem_singleton.mp hnew]
    exact .inl rfl

theorem update_rows {p : EntryRecord → Bool} {u : UpdateEntry} {n : Nat}
    (h : s.updateEntries p u.assignments = .ok (n, t)) {e : EntryRecord} (he : e ∈ t.entries) :
    (e.updatedAt = u.updatedAt ∧ ∃ d ∈ s.entries, d.id = e.id ∧ p d = true) ∨
      e ∈ s.entries ∧ p e = false := by
  obtain ⟨-, -, fts, rfl⟩ := Db.updateEntries_updated h
  obtain ⟨d, hd, rfl⟩ := List.mem_map.mp he
  cases hp : p d with
  | true => exact .inl ⟨rfl, d, hd, rfl, hp⟩
  | false => exact .inr ⟨hd, hp⟩

theorem update_stamped (hv : s.Valid) {p : EntryRecord → Bool} {u : UpdateEntry} {n : Nat}
    (h : s.updateEntries p u.assignments = .ok (n, t)) : Stamped u.updatedAt s t := by
  have ht := hv.updateEntries h
  obtain ⟨-, htags, hlinks⟩ := Db.updateEntries_frame h
  refine stamped_of hv ht (.of_subset ht fun _ h => htags ▸ h) fun e he => ?_
  refine (update_rows h he).imp And.left fun hold => ⟨hold.1, fun id => ?_⟩
  rw [hlinks]

theorem updateAndRender_stamped (hv : s.Valid) {update : UpdateEntry}
    {source : Option Web.HxSource} {userId articleId : Int} {category : Web.Category}
    {response : Web.Response}
    (h : (Entries.updateById userId articleId update >>= fun _ =>
      Web.renderSource eng source userId articleId category : Run Db Error _) s =
        (.ok response, t)) : Stamped update.updatedAt s t := by
  obtain ⟨_, s', hupdate, hrender⟩ := bind_ok_inv h
  obtain ⟨n, hn, -⟩ := Entries.updateById_ok hupdate
  have hreads := (renderSource_built (m := Run Db Error) (fun _ => rfl) eng source userId articleId
    category).reads s'
  rw [hrender] at hreads
  obtain rfl : t = s' := hreads
  exact update_stamped hv hn

/-- A title that is no title is answered before anything is written. -/
theorem doEditTitle_stamped (hv : s.Valid) {now : DateTime} {articleId userId : Int} {title : String}
    {source : Option Web.HxSource} {category : Web.Category} {response : Web.Response}
    (h : (Web.doEditTitle eng now articleId title source userId category : Run Db Error _) s =
      (.ok response, t)) : Stamped now.timestamp s t := by
  rw [Web.doEditTitle] at h
  rcases htitle : Title.tryFrom title with e | title
  · rw [htitle] at h
    cases e with
    | validation message =>
      obtain rfl : s = t := (Prod.mk.inj h).2
      exact stamped_of hv hv (.refl hv) fun e he => .inr ⟨he, fun _ => .rfl⟩
    | _ => cases h
  · rw [htitle] at h
    exact updateAndRender_stamped eng hv h

theorem patchEntry_stamped (hv : s.Valid) (ht : t.Valid) {clock : DateTime} {uid : String}
    {entryId userId : Int} {request : Api.UpdateEntry Url} {response : Entry Url}
    (h : (Api.patchEntry crates clock uid entryId request userId : Run Db Error _) s =
      (.ok response, t)) : Stamped clock.timestamp s t := by
  obtain ⟨update, n, s', hrepo, hupdate, rfl, -⟩ := Api.patchEntry_ok h
  rw [← Api.repoUpdate_updatedAt hrepo]
  cases hlabels : request.tags with
  | none => exact update_stamped hv hupdate
  | some labels =>
    simp only [hlabels] at ht ⊢
    obtain ⟨-, htags, hlinks⟩ := Db.updateEntries_frame hupdate
    refine stamped_of hv ht (.of_subset ht fun _ h => tags_afterUpdate _ _ _ _ (htags ▸ h))
      fun e he => ?_
    rw [afterUpdate_entries] at he
    refine (update_rows hupdate he).imp And.left fun hold => ⟨hold.1, fun id => ?_⟩
    have hne : ¬ (e.id = entryId ∧ e.userId = userId) := by simpa using hold.2
    rw [← hlinks]
    exact afterUpdate_other (hv.updateEntries hupdate) he hne id

theorem postEntryTags_stamped_iff (hv : s.Valid) (ht : t.Valid) {entryId userId : Int}
    {labels : List String} {response : Entry Url}
    (h : (Api.postEntryTags crates entryId labels userId : Run Db Error _) s = (.ok response, t)) :
    Stamped now s t ↔ ∀ e ∈ s.entries,
      (Request.postEntryTags entryId labels userId : Request Url).Retags crates s e →
        e.updatedAt = now := by
  obtain rfl := Api.postEntryTags_ok h
  rw [stamped_iff_links hv ht (.of_subset ht (tags_afterUpdate _ _ _ _)) (afterUpdate_entries _ _ _ _)]
  refine forall₂_congr fun e he => imp_congr_left ?_
  by_cases hown : e.id = entryId ∧ e.userId = userId
  · obtain ⟨rfl, hu⟩ := hown
    rw [Request.Retags, and_iff_right ⟨rfl, hu⟩]
    exact not_congr (afterUpdate_sameLinks_iff crates.slugify labels hv he hu)
  · exact iff_of_false (not_not_intro (afterUpdate_other hv he hown)) fun hr => hown hr.1

end steps

/-- A successful operation stamps every entry it changes exactly if no entry whose tags it
changes on their own has another time in `updated_at`: the updates of a row stamp it, the
operations on tags stamp nothing. -/
theorem Request.stamped_iff (s : Database) {now : Int} {r : Request Url} (hr : r.MutatesAt now)
    {t : Db} (h : (r.run crates eng : Run Db Error Unit) s.val = (.ok (), t)) :
    Stamped now s.val t ↔ ∀ e ∈ s.val.entries, r.Retags crates s.val e → e.updatedAt = now := by
  have hv := s.property
  have ht : t.Valid := by
    have hkept := (r.run_writes crates eng).valid hv
    rwa [h] at hkept
  have hnone (hstamped : Stamped now s.val t) (hfree : ∀ e, ¬ r.Retags crates s.val e) :
      Stamped now s.val t ↔ ∀ e ∈ s.val.entries, r.Retags crates s.val e → e.updatedAt = now :=
    iff_of_true hstamped fun e _ hretags => absurd hretags (hfree e)
  cases r with
  | postEntries clock uid extract userId addEntry =>
    obtain ⟨response, hpost⟩ := mapped_ok h
    obtain ⟨url, full, -, hcreate⟩ := Api.postEntries_ok hpost
    exact hnone (hr ▸ create_stamped hv ht hcreate) fun _ => id
  | patchEntry clock uid entryId request userId =>
    obtain ⟨response, hpatch⟩ := mapped_ok h
    exact hnone (hr ▸ patchEntry_stamped crates hv ht hpatch) fun _ => id
  | doArchive clock updated articleId archived source userId category =>
    obtain ⟨response, hform⟩ := mapped_ok h
    exact hnone (hr ▸ updateAndRender_stamped eng hv hform) fun _ => id
  | doFavourite clock updated articleId starred source userId category =>
    obtain ⟨response, hform⟩ := mapped_ok h
    exact hnone (hr ▸ updateAndRender_stamped eng hv hform) fun _ => id
  | doEditTitle clock articleId title source userId category =>
    obtain ⟨response, hform⟩ := mapped_ok h
    exact hnone (hr ▸ doEditTitle_stamped eng hv hform) fun _ => id
  | postEntryTags entryId labels userId =>
    obtain ⟨response, htags⟩ := mapped_ok h
    exact postEntryTags_stamped_iff crates hv ht htags
  | deleteTagFromEntry entryId tagId userId =>
    obtain ⟨response, htag⟩ := mapped_ok h
    obtain rfl := Api.deleteTagFromEntry_ok htag
    exact deleteTagFromEntry_stamped_iff hv entryId tagId userId
  | deleteTagById tagId userId =>
    obtain ⟨_, htag⟩ := mapped_ok h
    obtain ⟨row, s', hdelete, htag⟩ := bind_ok_inv htag
    obtain ⟨-, rfl⟩ := ofExcept_ok_iff.mp htag
    obtain ⟨rows, hdelete⟩ := mapped_ok hdelete
    cases hdelete
    exact deleteTags_stamped_iff hv _
  | deleteTagByLabel label userId =>
    obtain ⟨_, htag⟩ := mapped_ok h
    obtain ⟨row, s', hdelete, htag⟩ := bind_ok_inv htag
    obtain ⟨-, rfl⟩ := ofExcept_ok_iff.mp htag
    obtain ⟨rows, hdelete⟩ := mapped_ok hdelete
    cases hdelete
    exact deleteTags_stamped_iff hv _
  | deleteTagsByLabel labels userId =>
    obtain ⟨_, htags⟩ := mapped_ok h
    obtain ⟨rows, hall⟩ := mapped_ok htags
    obtain ⟨_, s', hprepare, hdelete⟩ := bind_ok_inv hall
    obtain ⟨-, rfl⟩ := ofExcept_ok_iff.mp hprepare
    cases hdelete
    exact deleteTags_stamped_iff hv _
  | createUser | deleteEntry | doAdd | doDelete | reloadArticles => exact hr.elim

end operations

theorem Request.stamped_shelf : ∃ t,
    ((Request.deleteTagById 1 1 : Request HttpText).run plainCrates plainEngine :
      Run Db Error Unit) shelf.val = (.ok (), t) ∧ Stamped 10 shelf.val t := by
  refine ⟨_, rfl, ?_⟩
  refine (Request.stamped_iff plainCrates plainEngine shelf
    (r := (.deleteTagById 1 1 : Request HttpText)) trivial rfl).mpr ?_
  have hlinked : ∀ e ∈ shelf.val.entries, (∃ l ∈ shelf.val.entryTags, l.entryId = e.id) →
      e.updatedAt = 10 := by decide
  rintro e he ⟨t, -, -, hlink⟩
  exact hlinked e he ⟨_, hlink, rfl⟩

/-- The tag is deleted at the time 50; the entry that carried it keeps the time 10. -/
theorem shelf_unstamped : ∃ t,
    (Request.deleteTagById 1 1 : Request HttpText).MutatesAt 50 ∧
      ((Request.deleteTagById 1 1 : Request HttpText).run plainCrates plainEngine :
        Run Db Error Unit) shelf.val = (.ok (), t) ∧ ¬ Stamped 50 shelf.val t := by
  obtain ⟨e, he, hid, htime⟩ : ∃ e ∈ shelf.val.entries, e.id = 1 ∧ e.updatedAt ≠ 50 := by decide
  refine ⟨_, trivial, rfl, fun h => htime (h e he fun hsame => ?_)⟩
  have hlinked : Linked shelf.val e ⟨1, "rust", "rust"⟩ :=
    ⟨⟨1, 1, "rust", "rust"⟩, by decide, by rw [hid]; decide, rfl⟩
  obtain ⟨r, hr, -⟩ := (hsame.2 _).mp hlinked
  exact List.not_mem_nil hr

end Articler
