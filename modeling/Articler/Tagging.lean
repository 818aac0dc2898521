import Articler.Api.Entries
import Articler.ReadPaths

/-! Setting the tags of an entry: which of the requested labels it is left with. -/
namespace Articler
open Txn Rows Tags

def LabelsAre (db : Db) (entryId : Int) (labels : List String) : Prop :=
  ∀ l, (∃ t ∈ db.tags, ⟨entryId, t.id⟩ ∈ db.entryTags ∧ t.label = l) ↔ l ∈ labels

def HasLabel (db : Db) (u : Int) (l : String) : Prop := ∃ t ∈ db.tags, t.userId = u ∧ t.label = l

/-- Every requested label is one the user already has, or its slug is that of no tag of
the user and of no other new label. -/
def SlugsFree (slugify : String → String) (db : Db) (u : Int) (labels : List String) : Prop :=
  ∀ l ∈ labels, HasLabel db u l ∨
    (∀ t ∈ db.tags, t.userId = u → t.slug ≠ slugify l) ∧
    ∀ l' ∈ labels, ¬ HasLabel db u l' → slugify l' = slugify l → l' = l

section inserting
variable {db : Db} {u : Int}

theorem insertTag_mono {t : TagRow} (ht : t ∈ db.tags) (label slug : String) :
    t ∈ (db.insertTag u label slug).tags := by
  obtain ⟨new, heq, -⟩ := insertTag_shape db u label slug
  rw [heq]
  exact List.mem_append_left _ ht

theorem insertTags_mono {t : TagRow} (ht : t ∈ db.tags) (tags : List CreateTag) :
    t ∈ (insertTags u tags db).tags := by
  obtain ⟨new, heq, -⟩ := insertTags_shape db u tags
  rw [heq]
  exact List.mem_append_left _ ht

/-- No requested tag is skipped but for a tag of the user with its label or its slug. -/
theorem insertTags_covered (tags : List CreateTag) {tag : CreateTag} (htag : tag ∈ tags) :
    ∃ t ∈ (insertTags u tags db).tags,
      t.userId = u ∧ (t.label = tag.label ∨ t.slug = tag.slug) := by
  induction tags generalizing db with
  | nil => simp at htag
  | cons first tags ih =>
    have hstep : insertTags u (first :: tags) db =
        insertTags u tags (db.insertTag u first.label first.slug) := rfl
    rw [hstep]
    rcases List.mem_cons.mp htag with rfl | htag
    · by_cases hfree : db.tags.any fun t =>
        t.userId == u && (t.label == tag.label || t.slug == tag.slug)
      · obtain ⟨t, ht, hconflict⟩ := List.any_eq_true.mp hfree
        refine ⟨t, insertTags_mono (insertTag_mono ht _ _) tags, ?_⟩
        simpa using hconflict
      · refine ⟨⟨db.tagsSeq + 1, u, tag.label, tag.slug⟩, insertTags_mono ?_ tags, rfl, .inl rfl⟩
        rw [Db.insertTag, if_neg hfree]
        exact List.mem_append_right _ List.mem_cons_self
    · exact ih htag

theorem insertTags_requested {slugify : String → String} {labels : List String} (hv : db.Valid)
    (huser : db.hasUser u = true) {t : TagRow}
    (ht : t ∈ (insertTags u (labels.map fun l => ⟨l, slugify l⟩) db).tags) :
    t ∈ db.tags ∨ t.label ∈ labels ∧ t.slug = slugify t.label ∧ ¬ HasLabel db u t.label := by
  by_cases hold : t ∈ db.tags
  · exact .inl hold
  have hvalid : (insertTags u (labels.map fun l => ⟨l, slugify l⟩) db).Valid :=
    insertTags_valid_of_user hv huser
  obtain ⟨new, heq, hnew⟩ := insertTags_shape db u (labels.map fun l => ⟨l, slugify l⟩)
  have hmem := ht
  rw [heq] at hmem
  obtain ⟨hu, hreq⟩ := hnew t ((List.mem_append.mp hmem).resolve_left hold)
  obtain ⟨l, hl, hlt⟩ := List.mem_map.mp hreq
  simp only [CreateTag.mk.injEq] at hlt
  obtain ⟨rfl, hslug⟩ := hlt
  refine .inr ⟨hl, hslug.symm, ?_⟩
  rintro ⟨s, hs, hsu, hsl⟩
  have hst : s = t :=
    hvalid.tagLabels.eq_of_key (insertTags_mono hs _) ht (by simp [hsu, hu, hsl])
  exact hold (hst ▸ hs)

theorem insertTags_slug {slugify : String → String} {labels : List String} (hv : db.Valid)
    (huser : db.hasUser u = true) {t : TagRow}
    (ht : t ∈ (insertTags u (labels.map fun l => ⟨l, slugify l⟩) db).tags) (htu : t.userId = u)
    (hnot : ¬ HasLabel db u t.label) : t.slug = slugify t.label := by
  rcases insertTags_requested hv huser ht with hold | ⟨-, hslug, -⟩
  · exact absurd ⟨t, hold, htu, rfl⟩ hnot
  · exact hslug

/-- The insert leaves the user with all requested labels exactly if no slug is in the way. -/
theorem insertTags_hasLabel_iff (slugify : String → String) (labels : List String)
    (hv : db.Valid) (huser : db.hasUser u = true) :
    (∀ l ∈ labels, HasLabel (insertTags u (labels.map fun l => ⟨l, slugify l⟩) db) u l) ↔
      SlugsFree slugify db u labels := by
  have hvalid : (insertTags u (labels.map fun l => ⟨l, slugify l⟩) db).Valid :=
    insertTags_valid_of_user hv huser
  constructor
  · intro hall l hl
    by_cases hhas : HasLabel db u l
    · exact .inl hhas
    obtain ⟨t, ht, htu, rfl⟩ := hall l hl
    have hslug : t.slug = slugify t.label := insertTags_slug hv huser ht htu hhas
    refine .inr ⟨fun s hs hsu hss => ?_, fun l' hl' hnot hsame => ?_⟩
    · -- an old tag with the slug is the linked tag itself, so the label was there
      have hst : s = t := hvalid.tagSlugs.eq_of_key (insertTags_mono hs _) ht
        (by simp [hsu, htu, hss, hslug])
      exact hhas ⟨s, hs, hsu, by rw [hst]⟩
    · obtain ⟨t', ht', htu', rfl⟩ := hall l' hl'
      have hslug' : t'.slug = slugify t'.label := insertTags_slug hv huser ht' htu' hnot
      have htt : t' = t := hvalid.tagSlugs.eq_of_key ht' ht
        (by simp [htu, htu', hslug, hslug', hsame])
      rw [htt]
  · intro hfree l hl
    have htag : (⟨l, slugify l⟩ : CreateTag) ∈ labels.map fun l => ⟨l, slugify l⟩ :=
      List.mem_map_of_mem hl
    obtain ⟨t, ht, htu, hor⟩ : ∃ t ∈ (insertTags u _ db).tags, t.userId = u ∧
        (t.label = l ∨ t.slug = slugify l) := insertTags_covered _ htag
    rcases hor with htl | hslug
    · exact ⟨t, ht, htu, htl⟩
    rcases hfree l hl with ⟨s, hs, hsu, hsl⟩ | ⟨hold, hothers⟩
    · exact ⟨s, insertTags_mono hs _, hsu, hsl⟩
    rcases insertTags_requested hv huser ht with hmem | ⟨hreq, hts, hnot⟩
    · exact absurd hslug (hold t hmem htu)
    · exact ⟨t, ht, htu, hothers t.label hreq hnot (hts.symm.trans hslug)⟩

end inserting

section linking
variable {db : Db} {u : Int} {e : EntryRecord} {tags : List CreateTag}

theorem mem_afterLink {t : TagRow} (hv : (insertTags u tags db).Valid)
    (ht : t ∈ (insertTags u tags db).tags) (he : e ∈ db.entries) (heu : e.userId = u) :
    ⟨e.id, t.id⟩ ∈ (afterLink u e.id tags db).entryTags ↔
      ⟨e.id, t.id⟩ ∈ db.entryTags ∨ t.userId = u ∧ t.label ∈ tags.map (·.label) := by
  obtain ⟨new, heq, -⟩ := insertTags_shape db u tags
  have hlinks : (insertTags u tags db).entryTags = db.entryTags := by rw [heq]
  have hentries : (insertTags u tags db).entries = db.entries := by rw [heq]
  have hmem : ⟨e.id, t.id⟩ ∈ (afterLink u e.id tags db).entryTags ↔ _ := mem_addMissing
  rw [hmem, mem_labelLinks, hlinks, hentries]
  refine or_congr Iff.rfl ⟨?_, ?_⟩
  · rintro ⟨d, hd, hdid, -, s, hs, hsu, hsl, heq⟩
    have hid : t.id = s.id := (EntryTag.mk.inj heq).2
    have hst : s = t := hv.tags.pk.eq_of_key hs ht hid.symm
    exact hst ▸ ⟨hsu, hsl⟩
  · rintro ⟨htu, htl⟩
    exact ⟨e, he, rfl, heu, t, ht, htu, htl, rfl⟩

theorem mem_afterUpdate {t : TagRow} (hv : (insertTags u tags db).Valid)
    (ht : t ∈ (insertTags u tags db).tags) (he : e ∈ db.entries) (heu : e.userId = u) :
    ⟨e.id, t.id⟩ ∈ (afterUpdate u e.id tags db).entryTags ↔
      t.userId = u ∧ t.label ∈ tags.map (·.label) := by
  have hmem : ⟨e.id, t.id⟩ ∈ (afterUpdate u e.id tags db).entryTags ↔
      ⟨e.id, t.id⟩ ∈ (afterLink u e.id tags db).entryTags ∧
        staleLink u e.id (tags.map (·.label)) (afterLink u e.id tags db) ⟨e.id, t.id⟩ = false := by
    simp [afterUpdate, Db.deleteEntryTags]
  have howner : ((afterLink u e.id tags db).entries.any fun d =>
      d.id == e.id && d.userId == u && d.id == e.id) = true := by
    rw [afterLink_entries, List.any_eq_true]
    exact ⟨e, he, by simp [heu]⟩
  rw [hmem, mem_afterLink hv ht he heu, staleLink]
  dsimp only
  rw [howner, Bool.true_and, Bool.not_eq_false', List.any_eq_true]
  constructor
  · rintro ⟨-, s, hs, hp⟩
    simp only [Bool.and_eq_true, beq_iff_eq, List.contains_iff_mem] at hp
    obtain ⟨⟨hsu, hsl⟩, hid⟩ := hp
    have hst : s = t := hv.tags.pk.eq_of_key hs ht hid
    exact hst ▸ ⟨hsu, hsl⟩
  · rintro ⟨htu, htl⟩
    refine ⟨.inr ⟨htu, htl⟩, t, ht, ?_⟩
    simp only [Bool.and_eq_true, beq_iff_eq, List.contains_iff_mem]
    exact ⟨⟨htu, htl⟩, trivial⟩

theorem labelsAre_iff {id : Int} {labels : List String}
    (h : ∀ t ∈ db.tags, ⟨id, t.id⟩ ∈ db.entryTags ↔ t.userId = u ∧ t.label ∈ labels) :
    LabelsAre db id labels ↔ ∀ l ∈ labels, HasLabel db u l := by
  constructor
  · intro hare l hl
    obtain ⟨t, ht, hlink, htl⟩ := (hare l).mpr hl
    exact ⟨t, ht, ((h t ht).mp hlink).1, htl⟩
  · intro hall l
    constructor
    · rintro ⟨t, ht, hlink, rfl⟩
      exact ((h t ht).mp hlink).2
    · intro hl
      obtain ⟨t, ht, htu, rfl⟩ := hall l hl
      exact ⟨t, ht, (h t ht).mpr ⟨htu, hl⟩, rfl⟩

end linking

section setting
variable {db : Db} {u : Int} {e : EntryRecord} (slugify : String → String) (labels : List String)

theorem map_label : (labels.map fun l => (⟨l, slugify l⟩ : CreateTag)).map (·.label) = labels := by
  simp [Function.comp_def]

theorem hasUser_of_entry (hv : db.Valid) (he : e ∈ db.entries) (heu : e.userId = u) :
    db.hasUser u = true := heu ▸ hv.entriesUser e he

/-- What `update_tags_by_entry_id` leaves. -/
theorem afterUpdate_labelsAre (hv : db.Valid) (he : e ∈ db.entries) (heu : e.userId = u) :
    LabelsAre (afterUpdate u e.id (labels.map fun l => ⟨l, slugify l⟩) db) e.id labels ↔
      SlugsFree slugify db u labels := by
  have huser := hasUser_of_entry hv he heu
  have hvalid : (insertTags u (labels.map fun l => ⟨l, slugify l⟩) db).Valid :=
    insertTags_valid_of_user hv huser
  rw [← insertTags_hasLabel_iff slugify labels hv huser]
  refine labelsAre_iff (u := u) fun t ht => ?_
  have hmem := mem_afterUpdate hvalid ht he heu
  rwa [map_label] at hmem

theorem afterLink_labelsAre (hv : db.Valid) (he : e ∈ db.entries) (heu : e.userId = u)
    (hnew : ∀ l ∈ db.entryTags, l.entryId ≠ e.id) :
    LabelsAre (afterLink u e.id (labels.map fun l => ⟨l, slugify l⟩) db) e.id labels ↔
      SlugsFree slugify db u labels := by
  have huser := hasUser_of_entry hv he heu
  have hvalid : (insertTags u (labels.map fun l => ⟨l, slugify l⟩) db).Valid :=
    insertTags_valid_of_user hv huser
  rw [← insertTags_hasLabel_iff slugify labels hv huser]
  refine labelsAre_iff (u := u) fun t ht => ?_
  have hmem := mem_afterLink hvalid ht he heu
  rw [map_label] at hmem
  rw [hmem]
  constructor
  · rintro (hold | hreq)
    · exact absurd rfl (hnew _ hold)
    · exact hreq
  · exact .inr

theorem slugsFree_congr {s t : Db} (h : t.tags = s.tags) :
    SlugsFree slugify t u labels ↔ SlugsFree slugify s u labels := by
  unfold SlugsFree HasLabel
  rw [h]

theorem created_labelsAre (db : Database) {row : Int → EntryRecord} (hid : ∀ i, (row i).id = i)
    {id : Int} {s : Db} (h : db.val.insertEntry row = .ok (id, s)) :
    LabelsAre (afterLink (row id).userId id (labels.map fun l => ⟨l, slugify l⟩) s) id labels ↔
      SlugsFree slugify db.val (row id).userId labels := by
  have hv := db.property.insertEntry hid h
  obtain ⟨hseq, -, -, rfl⟩ := Db.insertEntry_ok h
  have hlinks : ∀ l ∈ db.val.entryTags, l.entryId ≠ (row id).id := by
    intro l hl heq
    obtain ⟨d, hd, hdl⟩ := db.property.entryTagsEntry l hl
    have hle := db.property.entries.seq d hd
    have hrow := hid id
    omega
  have hout := afterLink_labelsAre slugify labels hv
    (List.mem_append_right _ List.mem_cons_self) rfl hlinks
  rwa [hid] at hout

end setting

/-- After a successful `post_entry_tags`, `patch_entry` with tags or `create`, the entry is
linked to exactly the requested labels if and only if their slugs were free. -/
theorem labels_set_iff (Url : Type) [UrlCrate Url] (crates : Crates) (db : Database) (u : Int)
    (labels : List String) :
    (∀ e ∈ db.val.entries, e.userId = u →
      (∀ (response : Entry Url) t,
        (Api.postEntryTags crates e.id labels u : Run Db Error _) db.val = (.ok response, t) →
        (LabelsAre t e.id labels ↔ SlugsFree crates.slugify db.val u labels)) ∧
      ∀ now uid (request : Api.UpdateEntry Url) response t, request.tags = some labels →
        (Api.patchEntry crates now uid e.id request u : Run Db Error _) db.val =
          (.ok response, t) →
        (LabelsAre t e.id labels ↔ SlugsFree crates.slugify db.val u labels)) ∧
    ∀ entry full t, entry.userId = u →
      (Entries.create entry (labels.map (Api.toCreateTag crates)) : Run Db Error _) db.val =
        (.ok full, t) →
      (LabelsAre t full.1.id labels ↔ SlugsFree crates.slugify db.val u labels) := by
  refine ⟨fun e he heu => ⟨fun response t h => ?_, fun now uid request response t htags h => ?_⟩,
    fun entry full t heu h => ?_⟩
  · rw [Api.postEntryTags_ok h]
    exact afterUpdate_labelsAre crates.slugify labels db.property he heu
  · obtain ⟨update, n, s', -, hupdate, ht, -⟩ := Api.patchEntry_ok h
    simp only [htags] at ht
    obtain ⟨e', he', hid, huser⟩ := Db.updateEntries_keeps hupdate he
    rw [ht, ← hid, ← slugsFree_congr _ _ (Db.updateEntries_frame hupdate).2.1]
    exact afterUpdate_labelsAre crates.slugify labels (db.property.updateEntries hupdate) he'
      (huser.trans heu)
  · obtain ⟨row, tagRows⟩ := full
    obtain ⟨id, s', hinsert, rfl, e, hfound, rfl, -⟩ := Entries.create_ok h
    have heid : e.id = id := by simpa using List.find?_some hfound
    rw [← heu]
    exact heid ▸ created_labelsAre crates.slugify labels db (fun _ => rfl) hinsert

theorem labels_set_shelf :
    ∃ (response : Entry HttpText) (t : Db),
      (Api.postEntryTags plainCrates 2 ["rust", "Lean", "Lean"] 1 : Run Db Error _) shelf.val =
        (.ok response, t) ∧ LabelsAre t 2 ["rust", "Lean", "Lean"] := by
  obtain ⟨e, he, hid, heu⟩ : ∃ e ∈ shelf.val.entries, e.id = 2 ∧ e.userId = 1 := by decide
  have hset := ((labels_set_iff HttpText plainCrates shelf 1 ["rust", "Lean", "Lean"]).1 e he heu).1
  have hfree : SlugsFree plainCrates.slugify shelf.val 1 ["rust", "Lean", "Lean"] := by
    unfold SlugsFree HasLabel
    decide
  rw [hid] at hset
  exact ⟨_, _, rfl, (hset _ _ rfl).mpr hfree⟩

/-- Two labels with one slug: the second one gets no tag. -/
theorem labels_lost :
    ∃ (response : Entry HttpText) (t : Db), Reachable (runCalls untagged {}) ∧
      (note 1 "A").record 1 ∈ (runCalls untagged {}).entries ∧
      (Api.postEntryTags plainCrates 1 ["C++", "C"] 1 : Run Db Error _)
        (runCalls untagged {}) = (.ok response, t) ∧ ¬ LabelsAre t 1 ["C++", "C"] := by
  refine ⟨_, _, Reachable.calls .refl untagged, by decide, rfl, fun h => ?_⟩
  obtain ⟨t, ht, -, hl⟩ := (h "C").mpr (by decide)
  revert t
  decide

end Articler
