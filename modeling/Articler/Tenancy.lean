import Articler.ReadPaths

/-! Tenants: a call made for one user leaves the rows of all others as they are and
returns rows of that user only. -/
namespace Articler
open Txn Rows

/-- The link belongs to an entry of someone else than `u`. -/
def foreignLink (u : Int) (db : Db) (l : EntryTag) : Bool :=
  db.entries.any fun e => e.userId != u && e.id == l.entryId

/-- Entries, tags, clients and links of everyone but `u` are the same rows, in order. -/
structure OthersSame (u : Int) (s t : Db) : Prop where
  entries : (t.entries.filter fun e => e.userId != u) = s.entries.filter fun e => e.userId != u
  tags : (t.tags.filter fun r => r.userId != u) = s.tags.filter fun r => r.userId != u
  clients : (t.clients.filter fun c => c.userId != u) = s.clients.filter fun c => c.userId != u
  links : t.entryTags.filter (foreignLink u t) = s.entryTags.filter (foreignLink u s)

/-- What isolation rests on: the declared constraints, and links within one user. -/
structure Db.Sound (db : Db) : Prop where
  valid : db.Valid
  owned : db.LinksOwned

theorem Write.sound {k : Statement} {s t : Db} (hw : Write k s t) (h : s.Sound) : t.Sound :=
  ⟨hw.valid h.valid, hw.linksOwned h.owned⟩

section statements
variable {u : Int} {db db' : Db}

theorem OthersSame.refl (u : Int) (db : Db) : OthersSame u db db := ⟨rfl, rfl, rfl, rfl⟩

theorem OthersSame.trans {s t r : Db} (h : OthersSame u s t) (h' : OthersSame u t r) :
    OthersSame u s r :=
  ⟨h'.entries.trans h.entries, h'.tags.trans h.tags, h'.clients.trans h.clients,
    h'.links.trans h.links⟩

theorem foreignLink_iff {l : EntryTag} :
    foreignLink u db l = true ↔ ∃ e ∈ db.entries, e.userId ≠ u ∧ e.id = l.entryId := by
  simp [foreignLink]

theorem foreignLink_eq_any (u : Int) (db : Db) (l : EntryTag) : foreignLink u db l =
    (db.entries.filter fun e => e.userId != u).any fun e => e.id == l.entryId := by
  rw [foreignLink, List.any_filter]

theorem foreignLink_congr {s t : Db}
    (h : (t.entries.filter fun e => e.userId != u) = s.entries.filter fun e => e.userId != u) :
    foreignLink u t = foreignLink u s := by
  funext l
  rw [foreignLink_eq_any, foreignLink_eq_any, h]

theorem filter_others {α : Type} (userId : α → Int) {p : α → Bool} {rows : List α}
    (hp : ∀ a ∈ rows, p a = true → userId a = u) :
    ((rows.filter fun a => !p a).filter fun a => userId a != u) =
      rows.filter fun a => userId a != u := by
  rw [List.filter_filter]
  refine List.filter_congr fun a ha => ?_
  cases hpa : p a with
  | false => simp
  | true => simp [hp a ha hpa]

theorem not_foreignLink (hv : db.Valid) {e : EntryRecord} (he : e ∈ db.entries)
    (hu : e.userId = u) {l : EntryTag} (hl : l.entryId = e.id) : foreignLink u db l = false := by
  rw [← Bool.not_eq_true, foreignLink_iff]
  rintro ⟨d, hd, hdu, hid⟩
  have hde : d = e := hv.entries.pk.eq_of_key hd he (hid.trans hl)
  exact hdu (hde ▸ hu)

theorem filter_foreign {s t : Db} (hf : foreignLink u t = foreignLink u s)
    {kept : EntryTag → Bool} (ht : t.entryTags = s.entryTags.filter kept)
    (hk : ∀ l ∈ s.entryTags, foreignLink u s l = true → kept l = true) :
    t.entryTags.filter (foreignLink u t) = s.entryTags.filter (foreignLink u s) := by
  rw [hf, ht, List.filter_filter]
  refine List.filter_congr fun l hl => ?_
  cases hfl : foreignLink u s l with
  | false => simp
  | true => simp [hk l hl hfl]

theorem insertEntry_others {row : Int → EntryRecord} {id : Int} (hu : ∀ i, (row i).userId = u)
    (h : db.insertEntry row = .ok (id, db')) : OthersSame u db db' := by
  obtain ⟨-, -, -, rfl⟩ := Db.insertEntry_ok h
  have he : ((db.entries ++ [row id]).filter fun e => e.userId != u) =
      db.entries.filter fun e => e.userId != u := by
    simp [List.filter_append, hu]
  exact ⟨he, rfl, rfl, congrArg (fun f => db.entryTags.filter f) (foreignLink_congr he)⟩

theorem updateEntries_others {p : EntryRecord → Bool} {as : List Assign} {n : Nat}
    (hp : ∀ e, p e = true → e.userId = u) (h : db.updateEntries p as = .ok (n, db')) :
    OthersSame u db db' := by
  obtain ⟨entries', hall, -, rfl⟩ := Db.updateEntries_ok h
  have he : (entries'.filter fun e => e.userId != u) =
      db.entries.filter fun e => e.userId != u := by
    refine filter_updated (fun e e' hr => ?_) hall
    have huser := (Db.update_step hr).2.1
    refine ⟨by rw [huser], fun hother => ?_⟩
    split at hr
    · rename_i hpe
      simp [hp e hpe] at hother
    · cases hr
      rfl
  exact ⟨he, rfl, rfl, congrArg (fun f => db.entryTags.filter f) (foreignLink_congr he)⟩

theorem deleteEntries_others (hv : db.Valid) {p : EntryRecord → Bool}
    (hp : ∀ e, p e = true → e.userId = u) : OthersSame u db (db.deleteEntries p) := by
  have he : ((db.deleteEntries p).entries.filter fun e => e.userId != u) =
      db.entries.filter fun e => e.userId != u := filter_others _ fun e _ => hp e
  refine ⟨he, rfl, rfl, filter_foreign (foreignLink_congr he) rfl fun l _ hfl => ?_⟩
  simp only [Bool.not_eq_true', List.any_eq_false, Bool.and_eq_true, beq_iff_eq, not_and]
  intro e hem hpe hid
  have hnot := not_foreignLink hv hem (hp e hpe) hid.symm
  rw [hfl] at hnot
  cases hnot

/-- A foreign link has a foreign tag, so the cascade from a tag of `u` spares it. -/
theorem deleteTags_others (hs : db.Sound) {p : TagRow → Bool}
    (hp : ∀ t, p t = true → t.userId = u) : OthersSame u db (db.deleteTags p) := by
  refine ⟨rfl, filter_others _ fun t _ => hp t, rfl,
    filter_foreign (foreignLink_congr rfl) rfl fun l hl hfl => ?_⟩
  simp only [Bool.not_eq_true', List.any_eq_false, Bool.and_eq_true, beq_iff_eq, not_and]
  intro t htm hpt hid
  obtain ⟨e, hem, s, hsm, heid, hsid, huser⟩ := hs.owned l hl
  have hst : s = t := hs.valid.tags.pk.eq_of_key hsm htm (hsid.trans hid.symm)
  have hnot := not_foreignLink hs.valid hem (huser.trans (hst ▸ hp t hpt)) heid.symm
  rw [hfl] at hnot
  cases hnot

theorem insertTags_others (tags : List Tags.CreateTag) :
    OthersSame u db (Tags.insertTags u tags db) := by
  obtain ⟨new, heq, hnew⟩ := Tags.insertTags_shape db u tags
  rw [heq]
  refine ⟨rfl, ?_, rfl, rfl⟩
  have hnone : (new.filter fun t => t.userId != u) = [] := by
    rw [List.filter_eq_nil_iff]
    intro t ht
    simp [(hnew t ht).1]
  rw [List.filter_append, hnone, List.append_nil]

theorem linkLabels_others (hv : db.Valid) (entryId : Int) (labels : List String) :
    OthersSame u db (db.insertEntryTags (Tags.labelLinks u entryId labels db)) := by
  refine ⟨rfl, rfl, rfl, filter_addMissing fun l hl => ?_⟩
  obtain ⟨e, he, -, heu, t, -, -, -, rfl⟩ := Tags.mem_labelLinks.mp hl
  exact not_foreignLink hv he heu rfl

theorem deleteEntryTags_others (hv : db.Valid) {p : EntryTag → Bool}
    (hp : ∀ l, p l = true → ∃ e ∈ db.entries, e.userId = u ∧ e.id = l.entryId) :
    OthersSame u db (db.deleteEntryTags p) := by
  refine ⟨rfl, rfl, rfl, filter_foreign (foreignLink_congr rfl) rfl fun l _ hfl => ?_⟩
  rw [Bool.not_eq_true', ← Bool.not_eq_true]
  intro hpl
  obtain ⟨e, he, heu, hid⟩ := hp l hpl
  rw [not_foreignLink hv he heu hid.symm] at hfl
  cases hfl

theorem deleteClients_others {p : ClientRow → Bool} (hp : ∀ c, p c = true → c.userId = u) :
    OthersSame u db (db.deleteClients p) :=
  ⟨rfl, rfl, filter_others _ fun c _ => hp c, rfl⟩

end statements

/-- A program that keeps to the rows of `u`, and whose results satisfy `Q`. -/
abbrev Isolated {α : Type} (u : Int) (Q : α → Prop) (x : Run Db Error α) : Prop :=
  Obeys Db.Sound (OthersSame u) Q x

namespace Isolated
variable {α β : Type} {u : Int} {Q : α → Prop} {P : β → Prop}

theorem pure {a : α} (ha : Q a) : Isolated u Q (Pure.pure a : Run Db Error α) :=
  Obeys.pure (OthersSame.refl u) ha

theorem query {f : Db → Except Error α} (hf : ∀ s a, s.Sound → f s = .ok a → Q a) :
    Isolated u Q (Txn.query f : Run Db Error α) := Obeys.query (OthersSame.refl u) hf

theorem stmt (k : Statement) {f : Db → Except Error (α × Db)}
    (hf : ∀ s a t, s.Sound → f s = .ok (a, t) → Write k s t ∧ OthersSame u s t ∧ Q a) :
    Isolated u Q (Txn.stmt f : Run Db Error α) := by
  refine Obeys.stmt (OthersSame.refl u) fun s a t hs h => ?_
  obtain ⟨hw, hr, hq⟩ := hf s a t hs h
  exact ⟨hw.sound hs, hr, hq⟩

theorem bind {x : Run Db Error α} {f : α → Run Db Error β} (hx : Isolated u Q x)
    (hf : ∀ a, Q a → Isolated u P (f a)) : Isolated u P (x >>= f) :=
  Obeys.bind (fun _ _ _ h h' => h.trans h') hx hf

theorem transaction {x : Run Db Error α} (hx : Isolated u Q x) :
    Isolated u Q (Txn.transaction x : Run Db Error α) := Obeys.transaction (OthersSame.refl u) hx

theorem ofExcept (r : Except Error α) :
    Isolated u (fun _ => True) (Txn.ofExcept r : Run Db Error α) :=
  Obeys.ofExcept (OthersSame.refl u) r

end Isolated

section operations
variable (u : Int)

def TagsOf (rows : List TagRow) : Prop := ∀ t ∈ rows, t.userId = u

theorem createAndLink_isolated (entryId : Int) (tags : List Tags.CreateTag) :
    Isolated u (TagsOf u) (Tags.createAndLink u entryId tags) := by
  unfold Tags.createAndLink
  split
  · exact .pure (by simp [TagsOf])
  split
  · exact Obeys.fail (OthersSame.refl u) _
  refine .transaction (.bind (Q := fun _ => True) (.stmt .insertTags fun s _ _ hs h => ?_)
    fun _ _ => .bind (Q := fun _ => True) (.stmt .linkLabels fun s _ _ hs h => ?_) fun _ _ =>
      .query fun s rows hs h => ?_)
  · split at h
    · rename_i hguard
      cases h
      exact ⟨.insertTags s u tags (by simpa using hguard), insertTags_others tags, trivial⟩
    · cases h
  · cases h
    exact ⟨.linkLabels s u entryId _, linkLabels_others hs.valid entryId _, trivial⟩
  · cases h
    intro t ht
    obtain ⟨-, hp⟩ := List.mem_filter.mp ht
    simp only [Bool.and_eq_true, beq_iff_eq] at hp
    exact hp.1

theorem updateTagsByEntryId_isolated (entryId : Int) (tags : List Tags.CreateTag) :
    Isolated u (TagsOf u) (Tags.updateTagsByEntryId u entryId tags) := by
  refine .bind (createAndLink_isolated u entryId tags) fun rows hrows =>
    .bind (Q := fun _ => True) (.stmt .deleteEntryTags fun s _ _ hs h => ?_) fun _ _ => .pure hrows
  cases h
  refine ⟨.deleteEntryTags s _, deleteEntryTags_others hs.valid fun l hl => ?_, trivial⟩
  simp only [Tags.staleLink, Bool.and_eq_true, List.any_eq_true, beq_iff_eq] at hl
  obtain ⟨⟨e, he, ⟨-, heu⟩, hid⟩, -⟩ := hl
  exact ⟨e, he, heu, hid⟩

theorem deleteReturning_isolated {p : TagRow → Bool} (hp : ∀ t, p t = true → t.userId = u) :
    Isolated u (TagsOf u) (Tags.deleteReturning p) := by
  refine .stmt .deleteTags fun s _ _ hs h => ?_
  cases h
  exact ⟨.deleteTags s p, deleteTags_others hs hp, fun t ht => hp t (List.mem_filter.mp ht).2⟩

theorem head_isolated {x : Run Db Error (List TagRow)} (hx : Isolated u (TagsOf u) x) :
    Isolated u (fun r => TagsOf u r.toList) (x >>= fun rows => pure rows.head?) :=
  .bind hx fun rows hrows => .pure fun t ht => hrows t (List.mem_of_head? (by simpa using ht))

theorem linkedTags_owner {db : Db} (hs : db.Sound) {e : EntryRecord} (he : e ∈ db.entries) :
    TagsOf e.userId (linkedTags e.id db) := by
  intro r hr
  obtain ⟨hrm, hl⟩ := (mem_linkedTags hs.valid).mp hr
  obtain ⟨d, hd, t, ht, hdid, htid, huser⟩ := hs.owned _ hl
  have hde : d = e := hs.valid.entries.pk.eq_of_key hd he hdid
  have htr : t = r := hs.valid.tags.pk.eq_of_key ht hrm htid
  rw [← htr, ← huser, hde]

theorem findById_isolated (id : Int) :
    Isolated u (fun r => ∀ e ∈ r, e.1.userId = u ∧ TagsOf u e.2) (Entries.findById u id) := by
  intro s hs
  rw [Entries.findById_run]
  refine ⟨hs, OthersSame.refl u s, fun r hr => ?_⟩
  cases hr
  intro d hd
  obtain ⟨e, hf, rfl⟩ := Option.map_eq_some_iff.mp hd
  have hp := List.find?_some hf
  simp only [Bool.and_eq_true, beq_iff_eq] at hp
  obtain ⟨heu, hid⟩ := hp
  have howner := linkedTags_owner hs (List.mem_of_find?_eq_some hf)
  rw [heu, hid] at howner
  exact ⟨heu, howner⟩

/-- A tag that a listing shows to `u`: one of his, or the NULLs of an entry without tags. -/
def ListsTag (db : Db) (t : TagRow) : Prop :=
  t = { TagRow.ofNullable none with userId := u } ∨ t ∈ db.tags ∧ t.userId = u

theorem joinTags_lists {db : Db} (hs : db.Sound) {r : JoinedRow} (hr : r ∈ joinTags db) :
    ListsTag r.entry.userId db r.tagRow := by
  cases htag : r.tag with
  | none => exact .inl (by rw [JoinedRow.tagRow, htag])
  | some t =>
    obtain ⟨he, l, hl, ht⟩ := mem_joinTags.mp hr
    rw [htag] at ht
    obtain ⟨htm, hon⟩ := some_mem_partners.mp ht
    obtain ⟨l, rfl, htl⟩ := (Option.any_eq_true ..).mp hon
    obtain ⟨hlm, hle⟩ := some_mem_partners.mp hl
    rw [beq_iff_eq] at htl hle
    obtain ⟨e, hem, d, hdm, hel, hdl, huser⟩ := hs.owned l hlm
    obtain rfl : e = r.entry := hs.valid.entries.pk.eq_of_key hem he (hel.trans hle)
    obtain rfl : d = t := hs.valid.tags.pk.eq_of_key hdm htm (hdl.trans htl.symm)
    have hsame : r.tagRow = d := by
      rw [JoinedRow.tagRow, htag, huser]
      rfl
    rw [hsame]
    exact .inr ⟨htm, huser.symm⟩

theorem findAllRows_owns {K R : Type} [Field K] [LinearOrder K] (eng : Engine K)
    (params : FindParams) (hu : params.userId = u) {fromRow : EntryRecord → R} (userId : R → Int)
    (hrow : ∀ e, userId (fromRow e) = e.userId) {s : Db} (hs : s.Sound)
    {rows : List (R × List TagRow)}
    (h : ((Entries.findAllRows eng params fromRow : Run Db Error _) s).1 = .ok rows) :
    ∀ r ∈ rows, userId r.1 = u ∧ ∀ t ∈ r.2, ListsTag u s t := by
  obtain ⟨db, rfl⟩ : ∃ d : Database, d.val = s := ⟨⟨s, hs.valid⟩, rfl⟩
  obtain ⟨hit, rfl⟩ := findAllRows_inv eng (Prod.ext h rfl)
  intro r hr
  obtain ⟨l, hl, rfl⟩ := List.mem_map.mp hr
  have howner {r : JoinedRow} (hr : r ∈ Entries.rawRows eng params db.val hit) :
      r.entry.userId = u :=
    (pageRows_sub eng db.val ((rawRows_entry eng).mp hr).2).2.user.trans hu
  refine ⟨(hrow _).trans (howner (mem_of_leader hl)), fun t ht => ?_⟩
  obtain ⟨r, hr, rfl⟩ := List.mem_map.mp ht
  have hraw := (List.mem_filter.mp hr).1
  exact howner hraw ▸ joinTags_lists hs ((rawRows_entry eng).mp hraw).1

theorem create_isolated (entry : CreateEntry) (hu : entry.userId = u) (tags : List Tags.CreateTag) :
    Isolated u (fun r => r.1.userId = u ∧ TagsOf u r.2) (Entries.create entry tags) := by
  subst hu
  have hstate : Isolated entry.userId (fun _ => True) (Entries.create entry tags) := by
    refine .transaction (.bind (Q := fun _ => True) (.stmt .insertEntry fun s _ t hs h => ?_)
      fun id _ => .bind (Q := fun _ => True) ?_ fun _ _ => .bind (Q := fun _ => True)
        (.query fun _ _ _ _ => trivial) fun _ _ => .bind (Q := fun _ => True)
          (.query fun _ _ _ _ => trivial) fun _ _ => .pure trivial)
    · exact ⟨.insertEntry (fun _ => rfl) h, insertEntry_others (fun _ => rfl) h, trivial⟩
    · split
      · exact .pure trivial
      · exact (createAndLink_isolated entry.userId id tags).mono fun _ _ => trivial
  intro s hs
  obtain ⟨hi, hr, -⟩ := hstate s hs
  refine ⟨hi, hr, fun r hok => ?_⟩
  obtain ⟨row, tagRows⟩ := r
  obtain ⟨id, s', hinsert, heq, e, hfound, rfl, rfl⟩ :=
    Entries.create_ok (t := ((Entries.create entry tags : Run Db Error _) s).2) (Prod.ext hok rfl)
  have hem := List.mem_of_find?_eq_some hfound
  have heid : e.id = id := by simpa using List.find?_some hfound
  have heu : e.userId = entry.userId := by
    rw [heq, Tags.afterLink_entries] at hem
    obtain ⟨rfl, -, -, rfl⟩ := Db.insertEntry_ok hinsert
    rcases List.mem_append.mp hem with hold | hnew
    · have := hs.valid.entries.seq e hold
      omega
    · rw [List.mem_singleton.mp hnew]
      rfl
  have howner := linkedTags_owner hi hem
  rw [heu] at howner
  exact ⟨heu, howner⟩

section reads
variable {K : Type} [Field K] [LinearOrder K] (eng : Engine K) (params : FindParams)

theorem findAllRows_isolated {R : Type} (fromRow : EntryRecord → R) :
    Isolated u (fun _ => True) (Entries.findAllRows eng params fromRow) :=
  .bind (.ofExcept _) fun _ _ => .query fun _ _ _ _ => trivial

omit [Field K] [LinearOrder K] in
theorem count_isolated : Isolated u (fun _ => True) (Entries.count eng params) :=
  .bind (.ofExcept _) fun _ _ => .query fun _ _ _ _ => trivial

theorem existsById_isolated (id : Int) : Isolated u (fun _ => True) (Entries.existsById u id) :=
  .query fun _ _ _ _ => trivial

theorem findByEntryId_isolated (entryId : Int) :
    Isolated u (TagsOf u) (Tags.findByEntryId u entryId) := by
  refine .query fun s rows _ h => ?_
  cases h
  intro t ht
  obtain ⟨r, hr, hm⟩ := List.mem_flatMap.mp ht
  obtain ⟨-, -, rfl⟩ := List.mem_map.mp hm
  simpa using (List.mem_filter.mp hr).2

theorem getAll_isolated : Isolated u (TagsOf u) (Tags.getAll u) := by
  refine .query fun s rows _ h => ?_
  cases h
  exact fun t ht => by simpa using (List.mem_filter.mp ht).2

theorem findClientsByUserId_isolated :
    Isolated u (fun rows => ∀ c ∈ rows, c.userId = u) (Clients.findByUserId u) := by
  refine .query fun s rows _ h => ?_
  cases h
  intro c hc
  have hm := ((Rows.OrderBy.stable ClientRow).perm _ _).mem_iff.mp hc
  simpa using (List.mem_filter.mp hm).2

end reads

theorem updateById_isolated (id : Int) (update : UpdateEntry) :
    Isolated u (fun _ => True) (Entries.updateById u id update) := by
  refine .bind (Q := fun _ => True) (.stmt .updateEntries fun s n t _ h => ?_)
    fun _ _ => .pure trivial
  exact ⟨.updateEntries h, updateEntries_others (fun e he => by simp_all) h, trivial⟩

theorem deleteById_isolated (id : Int) :
    Isolated u (fun _ => True) (Entries.deleteById u id) := by
  refine .stmt .deleteEntries fun s _ t hs h => ?_
  cases h
  exact ⟨.deleteEntries s _, deleteEntries_others hs.valid fun e he => by simp_all, trivial⟩

theorem deleteTagByTagId_isolated (id tagId : Int) :
    Isolated u (fun _ => True) (Entries.deleteTagByTagId u id tagId) := by
  refine .stmt .deleteEntryTags fun s _ t hs h => ?_
  cases h
  refine ⟨.deleteEntryTags s _, deleteEntryTags_others hs.valid fun l hl => ?_, trivial⟩
  simp only [Bool.and_eq_true, List.any_eq_true, beq_iff_eq] at hl
  obtain ⟨-, e, he, ⟨-, heu⟩, hid⟩ := hl
  exact ⟨e, he, heu, hid⟩

theorem deleteClientById_isolated (id : Int) :
    Isolated u (fun _ => True) (Clients.deleteById u id) := by
  refine .stmt .deleteClients fun s _ t hs h => ?_
  cases h
  exact ⟨.deleteClients s _, deleteClients_others fun c hc => by simp_all, trivial⟩

end operations

/-- The functions of the repositories that act for a user, with what they return. -/
inductive UserOp (K : Type) : Type → Type where
  | findAll (params : FindParams) : UserOp K (List FullEntry)
  | findAllMetadata (params : FindParams) : UserOp K (List MetadataEntry)
  | count (params : FindParams) : UserOp K Int
  | existsById (id : Int) : UserOp K Bool
  | findById (id : Int) : UserOp K (Option FullEntry)
  | create (entry : CreateEntry) (tags : List Tags.CreateTag) : UserOp K FullEntry
  | updateById (id : Int) (update : UpdateEntry) : UserOp K Bool
  | deleteById (id : Int) : UserOp K Bool
  | deleteTagByTagId (id tagId : Int) : UserOp K Bool
  | createAndLink (entryId : Int) (tags : List Tags.CreateTag) : UserOp K (List TagRow)
  | updateTagsByEntryId (entryId : Int) (tags : List Tags.CreateTag) : UserOp K (List TagRow)
  | findByEntryId (entryId : Int) : UserOp K (List TagRow)
  | getAll : UserOp K (List TagRow)
  | deleteByLabel (label : String) : UserOp K (Option TagRow)
  | deleteAllByLabel (labels : List String) : UserOp K (List TagRow)
  | deleteTagById (id : Int) : UserOp K (Option TagRow)
  | deleteClientById (id : Int) : UserOp K Bool
  | findClientsByUserId : UserOp K (List ClientRow)

section isolation
variable {K : Type} [Field K] [LinearOrder K]

def UserOp.run (eng : Engine K) (u : Int) : {α : Type} → UserOp K α → Run Db Error α
  | _, .findAll params => Entries.findAll eng { params with userId := u }
  | _, .findAllMetadata params => Entries.findAllMetadata eng { params with userId := u }
  | _, .count params => Entries.count eng { params with userId := u }
  | _, .existsById id => Entries.existsById u id
  | _, .findById id => Entries.findById u id
  | _, .create entry tags => Entries.create { entry with userId := u } tags
  | _, .updateById id update => Entries.updateById u id update
  | _, .deleteById id => Entries.deleteById u id
  | _, .deleteTagByTagId id tagId => Entries.deleteTagByTagId u id tagId
  | _, .createAndLink entryId tags => Tags.createAndLink u entryId tags
  | _, .updateTagsByEntryId entryId tags => Tags.updateTagsByEntryId u entryId tags
  | _, .findByEntryId entryId => Tags.findByEntryId u entryId
  | _, .getAll => Tags.getAll u
  | _, .deleteByLabel label => Tags.deleteByLabel u label
  | _, .deleteAllByLabel labels => Tags.deleteAllByLabel u labels
  | _, .deleteTagById id => Tags.deleteById u id
  | _, .deleteClientById id => Clients.deleteById u id
  | _, .findClientsByUserId => Clients.findByUserId u

/-- Every row of the result belongs to `u`, when the call is made on `db`. -/
def UserOp.Owns (u : Int) (db : Db) : {α : Type} → UserOp K α → α → Prop
  | _, .findAll _, rows => ∀ r ∈ rows, r.1.userId = u ∧ ∀ t ∈ r.2, ListsTag u db t
  | _, .findAllMetadata _, rows => ∀ r ∈ rows, r.1.userId = u ∧ ∀ t ∈ r.2, ListsTag u db t
  | _, .findById _, r => ∀ e ∈ r, e.1.userId = u ∧ TagsOf u e.2
  | _, .create _ _, r => r.1.userId = u ∧ TagsOf u r.2
  | _, .createAndLink _ _, rows => TagsOf u rows
  | _, .updateTagsByEntryId _ _, rows => TagsOf u rows
  | _, .findByEntryId _, rows => TagsOf u rows
  | _, .getAll, rows => TagsOf u rows
  | _, .deleteByLabel _, r => TagsOf u r.toList
  | _, .deleteAllByLabel _, rows => TagsOf u rows
  | _, .deleteTagById _, r => TagsOf u r.toList
  | _, .findClientsByUserId, rows => ∀ c ∈ rows, c.userId = u
  | _, .count _, _ => True
  | _, .existsById _, _ => True
  | _, .updateById _ _, _ => True
  | _, .deleteById _, _ => True
  | _, .deleteTagByTagId _ _, _ => True
  | _, .deleteClientById _, _ => True

theorem UserOp.run_isolated (eng : Engine K) (u : Int) {α : Type} (op : UserOp K α) (s : Db)
    (hs : s.Sound) : (op.run eng u s).2.Sound ∧ OthersSame u s (op.run eng u s).2 ∧
      ∀ a, (op.run eng u s).1 = .ok a → op.Owns u s a := by
  cases op with
  | findAll params =>
    obtain ⟨hi, hothers, -⟩ := findAllRows_isolated u eng { params with userId := u } _ s hs
    exact ⟨hi, hothers, fun rows hrows =>
      findAllRows_owns u eng { params with userId := u } rfl EntryRow.userId (fun _ => rfl) hs hrows⟩
  | findAllMetadata params =>
    obtain ⟨hi, hothers, -⟩ := findAllRows_isolated u eng { params with userId := u } _ s hs
    exact ⟨hi, hothers, fun rows hrows => findAllRows_owns u eng { params with userId := u } rfl
      EntryMetadataRow.userId (fun _ => rfl) hs hrows⟩
  | count params => exact count_isolated u eng _ s hs
  | existsById id => exact existsById_isolated u id s hs
  | findById id => exact findById_isolated u id s hs
  | create entry tags => exact create_isolated u { entry with userId := u } rfl tags s hs
  | updateById id update => exact updateById_isolated u id update s hs
  | deleteById id => exact deleteById_isolated u id s hs
  | deleteTagByTagId id tagId => exact deleteTagByTagId_isolated u id tagId s hs
  | createAndLink entryId tags => exact createAndLink_isolated u entryId tags s hs
  | updateTagsByEntryId entryId tags => exact updateTagsByEntryId_isolated u entryId tags s hs
  | findByEntryId entryId => exact findByEntryId_isolated u entryId s hs
  | getAll => exact getAll_isolated u s hs
  | deleteByLabel label | deleteTagById id =>
    exact head_isolated u (deleteReturning_isolated u fun t ht => by simp_all) s hs
  | deleteAllByLabel labels =>
    exact Isolated.bind (Isolated.ofExcept _)
      (fun _ _ => deleteReturning_isolated u fun t ht => by simp_all) s hs
  | deleteClientById id => exact deleteClientById_isolated u id s hs
  | findClientsByUserId => exact findClientsByUserId_isolated u s hs

/-- A call for `u` leaves every entry, tag and client of anyone else, and the links of
their entries, as they were, and returns rows of `u` only. -/
theorem UserOp.isolation (eng : Engine K) (u : Int) {α : Type} (op : UserOp K α)
    (db : Database) (howned : db.val.LinksOwned) :
    OthersSame u db.val (op.run eng u db.val).2 ∧
      ∀ a, (op.run eng u db.val).1 = .ok a → op.Owns u db.val a :=
  (op.run_isolated eng u db.val ⟨db.property, howned⟩).2

end isolation

theorem UserOp.isolation_crossing :
    OthersSame 2 (runCalls crossing {})
      ((UserOp.deleteTagById 1 : UserOp ℚ _).run plainEngine 2 (runCalls crossing {})).2 := by
  have hr : Reachable (runCalls crossing {}) := Reachable.calls .refl crossing
  exact (UserOp.isolation plainEngine 2 (.deleteTagById 1) ⟨_, hr.written.valid⟩
    hr.written.linksOwned).1

end Articler
