import Articler.Lib.Sequence
import Articler.Migrations
import Mathlib.Tactic.FinCases

/-! The migration that makes labels and slugs unique per user: it rebuilds `tags`, drops the
links that were wrong, and carries over the sequence of the tag ids. -/
namespace Articler.Migrations
open Sqlite

/-- The tables after `20260313102652_fts5_add_title`. -/
def schema20260313102652 : List Table :=
  [users, tags, entryTags, annotations, annotationRanges, tokens,
    { entriesNew with name := "entries" }, { clientsNew with name := "clients" }]

def tagsNew : Table where
  name := "tags_new"
  columns := ["id", "user_id", "label", "slug"]
  notNull := ["id", "user_id", "label", "slug"]
  uniques := [["id"], ["user_id", "label"], ["user_id", "slug"]]
  foreignKeys := [⟨"user_id", "users"⟩]

def tagsSelect : List (String × Expr) :=
  [("id", .column "id"), ("user_id", .column "user_id"), ("label", .column "label"),
    ("slug", .column "slug")]

/-- `COALESCE((SELECT seq FROM sqlite_sequence WHERE name = 'tags'), 0)`. -/
def tagsSeq (rows : Rows) : Value :=
  match seqOf rows "tags" with
  | none | some .null => .int 0
  | some v => v

/-- `SELECT seq FROM tags_seq_backup`. -/
def backupSeq (rows : Rows) : Value :=
  ((rows "tags_seq_backup").head?.map fun r => r "seq").getD .null

/-- The links that go: an end is missing, or the ends have different users. -/
def stale (rows : Rows) (l : Row) : Bool :=
  !((rows "entries").any fun e => Value.same (e "id") (l "entry_id")) ||
  !((rows "tags").any fun t => Value.same (t "id") (l "tag_id")) ||
  (rows "entries").any fun e => (rows "tags").any fun t =>
    Value.same (t "id") (l "tag_id") && Value.same (e "id") (l "entry_id") &&
      Value.differs (e "user_id") (t "user_id")

/-- `20260728120000_per_user_tag_uniqueness`, which runs without a transaction of the
migrator and opens its own. -/
def perUserTagUniqueness : List Stmt := [
  .sql (.pragmaForeignKeys false),
  .beginTransaction,
  .createAs "tags_seq_backup" "seq" tagsSeq,
  .createAutoincrement tagsNew,
  .sql (.insertSelect "tags_new" tagsSelect "tags"),
  .sql (.dropTable "tags"),
  .sql (.renameTable "tags_new" "tags"),
  .deleteFrom "entry_tags" stale,
  .update "sqlite_sequence" "seq" backupSeq fun rows r =>
    named "tags" r && Value.less (r "seq") (backupSeq rows),
  .sql (.dropTable "tags_seq_backup"),
  .commit,
  .sql (.pragmaForeignKeys true)]

/-- A database of that schema; all its tables count but `entry_tags`. -/
def countedTags (rows : Rows) : Store :=
  { opened schema20260313102652 rows with
    counted := ["users", "tags", "annotations", "annotation_ranges", "tokens", "entries",
      "clients"] }

/-- A state of the old schema: its constraints hold, though links may dangle or cross users,
and the ids of the tags have the history `c`. -/
structure OldTags (rows : Rows) (c : Counter) : Prop where
  accepts : ∀ t ∈ schema20260313102652, Accepts false rows t
  history : c.Reached
  ids : (rows "tags").map (fun r => r "id") = c.inUse.map Value.int
  seq : seqOf rows "tags" = c.seq.map Value.int
  sequences : ∀ r ∈ rows "sqlite_sequence", ∃ t ∈ (countedTags rows).counted, r "name" = .text t

def copiedTags (rows : Rows) : List Row := (rows "tags").map (select tagsSelect)

section run
variable {rows : Rows}

theorem tagsNew_accepts (h : Accepts false rows tags) (rows' : Rows)
    (hcopy : rows' "tags_new" = copiedTags rows) : Accepts false rows' tagsNew := by
  obtain ⟨hnotNull, -, huniques, -⟩ := h
  have hsame {x : String} (hx : x ∈ tagsNew.columns) : tagsSelect.lookup x = some (.column x) := by
    fin_cases hx <;> rfl
  have hunique {key key' : List String} (hkey : key ∈ tags.uniques) (hsub : ∀ x ∈ key, x ∈ key')
      (hcolumns : ∀ x ∈ key', x ∈ tagsNew.columns) :
      (copiedTags rows).Pairwise fun r s => key'.map r ≠ key'.map s := by
    rw [copiedTags, List.pairwise_map]
    refine (huniques key hkey).imp fun {r s} hne heq => hne (List.map_congr_left fun x hx => ?_)
    have hx' := List.map_inj_left.mp heq x (hsub x hx)
    rwa [select_column (hsame (hcolumns x (hsub x hx))),
      select_column (hsame (hcolumns x (hsub x hx)))] at hx'
  refine ⟨fun r hr x hx => ?_, nofun, fun key hkey => ?_, nofun⟩
  · obtain ⟨s, hs, rfl⟩ := List.mem_map.mp (hcopy ▸ hr)
    rw [select_column (hsame hx)]
    exact hnotNull s hs x hx
  · rw [show rows' tagsNew.name = copiedTags rows from hcopy]
    fin_cases hkey
    · exact hunique (show ["id"] ∈ tags.uniques by decide) (by decide) (by decide)
    · exact hunique (show ["label"] ∈ tags.uniques by decide) (by decide) (by decide)
    · exact hunique (show ["slug"] ∈ tags.uniques by decide) (by decide) (by decide)

theorem select_tag {x : String} (hx : x ∈ tags.columns) (r : Row) : select tagsSelect r x = r x :=
  select_column (by fin_cases hx <;> rfl) r

/-- What `CREATE TEMP TABLE tags_seq_backup AS` makes. -/
def seqBackup : Table := ⟨"tags_seq_backup", ["seq"], [], [], [], []⟩

def backedUp (rows : Rows) : Store :=
  quiet (schema20260313102652 ++ [seqBackup])
    (Function.update rows "tags_seq_backup"
      [Function.update (fun _ => .null) "seq" (tagsSeq rows)]) (countedTags rows).counted

theorem run_prologue (rows : Rows) :
    runStmts (perUserTagUniqueness.take 3) (countedTags rows) = some (backedUp rows) := by
  have hcreate := quiet_createAs schema20260313102652 rows (countedTags rows).counted "seq" tagsSeq
    (show (countedTags rows).hasTable "tags_seq_backup" = false from rfl)
  rw [perUserTagUniqueness, List.take_succ_cons, runStmts, run_pragma rfl, Option.bind_some]
  exact (Option.bind_some _ _).trans (hcreate ▸ rfl)

def recountedSchema : List Table :=
  ((schema20260313102652 ++ [seqBackup] ++ [tagsNew]).filter fun u => u.name != "tags").map
    (Table.renamed "tags_new" "tags")

structure Finished (rows after : Rows) : Prop where
  entryTags : after "entry_tags" = (rows "entry_tags").filter fun l => !stale rows l
  sequence : (after "sqlite_sequence").find? (named "tags") =
    ((rows "sqlite_sequence").find? (named "tags")).map fun r =>
      if Value.less (r "seq") (backupSeq rows) then Function.update r "seq" (backupSeq rows) else r
  others : ∀ u, u ≠ "entry_tags" → u ≠ "sqlite_sequence" → u ≠ "tags_seq_backup" →
    after u = rows u

theorem run_epilogue (rows : Rows) (counted : List String) :
    ∃ s, runStmts (perUserTagUniqueness.drop 7) (quiet recountedSchema rows counted) = some s ∧
      Finished rows s.rows := by
  have hdelete : (Stmt.deleteFrom "entry_tags" stale).run (quiet recountedSchema rows counted) =
    some (quiet recountedSchema (Function.update rows "entry_tags"
      ((rows "entry_tags").filter fun r => !stale rows r)) counted) := rfl
  set rows1 := Function.update rows "entry_tags"
    ((rows "entry_tags").filter fun r => !stale rows r) with hrows1
  have hupdate := quiet_update recountedSchema rows1 counted "seq" backupSeq
    (fun rows r => named "tags" r && Value.less (r "seq") (backupSeq rows))
    (show (recountedSchema.find? fun t => t.name == "sqlite_sequence") = none from rfl)
  set rows2 := Function.update rows1 "sqlite_sequence" _ with hrows2
  have hdrop := quiet_dropTable recountedSchema rows2 counted
    (show (quiet recountedSchema rows2 counted).hasTable "tags_seq_backup" = true from rfl)
    (by decide)
  set rows3 := Function.update (Function.update rows2 "tags_seq_backup" []) "sqlite_sequence" _
    with hrows3
  have hcommit : Stmt.commit.run (quiet (recountedSchema.filter fun t => t.name != "tags_seq_backup")
      rows3 (counted.filter (· ≠ "tags_seq_backup"))) =
    some ⟨⟨recountedSchema.filter fun t => t.name != "tags_seq_backup", rows3, false, false⟩,
      counted.filter (· ≠ "tags_seq_backup")⟩ := rfl
  have hbackup : backupSeq rows1 = backupSeq rows := by
    rw [backupSeq, hrows1, Function.update_of_ne (by decide), backupSeq]
  have hsequence : rows1 "sqlite_sequence" = rows "sqlite_sequence" :=
    Function.update_of_ne (by decide) ..
  refine ⟨⟨⟨recountedSchema.filter fun t => t.name != "tags_seq_backup", rows3, true, false⟩,
    counted.filter (· ≠ "tags_seq_backup")⟩, ?_, ?_⟩
  · simp only [perUserTagUniqueness, List.drop_succ_cons, List.drop_zero, runStmts, hdelete, hupdate,
      hdrop, hcommit, Option.bind_some, run_pragma]
  change Finished rows rows3
  refine ⟨by simp [hrows3, hrows2, hrows1], ?_, fun u hue hus hub => ?_⟩
  · rw [hrows3, Function.update_self, find_dropped (by decide), hrows2, Function.update_self, find_set,
      hsequence, hbackup]
    refine Option.map_congr fun r hr => ?_
    rw [List.find?_some hr, Bool.true_and]
  · simp only [hrows3, hrows2, hrows1, Function.update_of_ne hue, Function.update_of_ne hus,
      Function.update_of_ne hub]

/-- The whole script. -/
theorem run_perUserTagUniqueness (h : Accepts false rows tags) :
    ∃ s rows', runStmts perUserTagUniqueness (countedTags rows) = some s ∧
      Recounted tagsNew tagsSelect "tags" (backedUp rows).rows rows' ∧ Finished rows' s.rows := by
  obtain ⟨rows', counted', hrecount, hcopied⟩ := runStmts_recount
    (schema20260313102652 ++ [seqBackup]) (backedUp rows).rows (countedTags rows).counted tagsSelect
    (show tags ∈ schema20260313102652 ++ [seqBackup] by decide)
    (show (backedUp rows).hasTable tagsNew.name = false from rfl)
    (fun rows1 hcopy => tagsNew_accepts h rows1 hcopy) (by decide) (by decide)
  obtain ⟨s, hend, hfinished⟩ := run_epilogue rows' counted'
  refine ⟨s, rows', ?_, hcopied, hfinished⟩
  have hscript : perUserTagUniqueness = perUserTagUniqueness.take 3 ++
      (recount tagsNew tagsSelect "tags" ++ perUserTagUniqueness.drop 7) := rfl
  rw [hscript, runStmts_append, run_prologue, Option.bind_some, runStmts_append]
  exact (congrArg (Option.bind · _) hrecount).trans hend

end run

/-- Both ends of the link are there, and have the same user. -/
def Linked (rows : Rows) (l : Row) : Prop :=
  ∃ e ∈ rows "entries", ∃ t ∈ rows "tags", e "id" = l "entry_id" ∧ t "id" = l "tag_id" ∧
    e "user_id" = t "user_id"

instance (rows : Rows) : DecidablePred (Linked rows) := fun _ =>
  inferInstanceAs (Decidable (∃ e ∈ _, ∃ t ∈ _, _))

def SameTags (rows after : Rows) : Prop :=
  List.Forall₂ (fun r r' => ∀ x ∈ tags.columns, r' x = r x) (rows "tags") (after "tags")

def LinksCleaned (rows rows' : Rows) : Prop :=
  rows' "entry_tags" = (rows "entry_tags").filter fun l => Linked rows l

/-- The next tag gets an id that no tag ever had. -/
def IdsFresh (s : Store) (c : Counter) : Prop :=
  ∀ id, s.nextId "tags" = some id → ∀ old ∈ c.handed, old < id

section old
variable {rows : Rows} {c : Counter}

theorem OldTags.tag_id (h : OldTags rows c) {s t : Row} (hs : s ∈ rows "tags") (ht : t ∈ rows "tags")
    (hid : s "id" = t "id") : s = t :=
  (h.accepts tags (by decide)).eq_of_key (show ["id"] ∈ tags.uniques by decide) hs ht
    (congrArg (fun v => [v]) hid)

theorem OldTags.entry_id (h : OldTags rows c) {d e : Row} (hd : d ∈ rows "entries")
    (he : e ∈ rows "entries") (hid : d "id" = e "id") : d = e :=
  (h.accepts { entriesNew with name := "entries" } (by decide)).eq_of_key
    (show ["id"] ∈ entriesNew.uniques by decide) hd he (congrArg (fun v => [v]) hid)

/-- The links that go are those that are not right. -/
theorem OldTags.stale_iff (h : OldTags rows c) {rows' : Rows}
    (hcopied : rows' "tags" = copiedTags rows) (hentries : rows' "entries" = rows "entries")
    (l : Row) : stale rows' l = false ↔ Linked rows l := by
  have htag {t : Row} (ht : t ∈ rows "tags") {x : String} (hx : x ∈ tags.columns) : t x ≠ .null :=
    (h.accepts tags (by decide)).1 t ht x (by fin_cases hx <;> decide)
  have hentry {e : Row} (he : e ∈ rows "entries") {x : String} (hx : x ∈ entriesNew.notNull) :
      e x ≠ .null := (h.accepts { entriesNew with name := "entries" } (by decide)).1 e he x hx
  have hselect {t : Row} {x : String} (hx : x ∈ tags.columns) : select tagsSelect t x = t x :=
    select_tag hx t
  simp only [stale, hcopied, hentries, copiedTags, List.any_map, Function.comp_def,
    Bool.or_eq_false_iff, Bool.not_eq_false', Bool.and_eq_true, List.any_eq_true,
    List.any_eq_false,
    hselect (x := "id") (by decide), hselect (x := "user_id") (by decide)]
  constructor
  · rintro ⟨⟨⟨e, he, hle⟩, t, ht, hlt⟩, hdiffers⟩
    refine ⟨e, he, t, ht, (same_iff (hentry he (by decide))).mp hle,
      (same_iff (htag ht (by decide))).mp hlt, ?_⟩
    by_contra huser
    exact hdiffers e he ⟨t, ht, ⟨hlt, hle⟩,
      (differs_iff (hentry he (by decide)) (htag ht (by decide))).mpr huser⟩
  · rintro ⟨e, he, t, ht, hle, hlt, huser⟩
    refine ⟨⟨⟨e, he, (same_iff (hentry he (by decide))).mpr hle⟩, t, ht,
      (same_iff (htag ht (by decide))).mpr hlt⟩, fun d hd => ?_⟩
    rintro ⟨s, hs, ⟨hls, hld⟩, hdiffer⟩
    rw [same_iff (htag hs (by decide))] at hls
    rw [same_iff (hentry hd (by decide))] at hld
    obtain rfl := h.entry_id hd he (hld.trans hle.symm)
    obtain rfl := h.tag_id hs ht (hls.trans hlt.symm)
    exact (differs_iff (hentry hd (by decide)) (htag hs (by decide))).mp hdiffer huser

theorem OldTags.tagsSeq (h : OldTags rows c) : tagsSeq rows = .int (c.seq.getD 0) := by
  rw [Migrations.tagsSeq, h.seq]
  cases c.seq <;> rfl

theorem OldTags.copied_ids (h : OldTags rows c) :
    (rows "tags").map (fun r => (select tagsSelect r "id").toInt) = c.inUse := by
  have hids := congrArg (List.map Value.toInt) h.ids
  rw [List.map_map, List.map_map] at hids
  have hid : (fun r : Row => (select tagsSelect r "id").toInt) = Value.toInt ∘ fun r => r "id" := by
    funext r
    rw [select_tag (by decide)]
    rfl
  rw [hid, hids]
  exact List.map_id _

/-- The tags end up with the sequence they had. -/
theorem OldTags.seqOf_final (h : OldTags rows c) {rows' rows'' : Rows}
    (hcopied : Recounted tagsNew tagsSelect "tags" (backedUp rows).rows rows')
    (hfinished : Finished rows' rows'') : seqOf rows'' "tags" = some (.int (c.seq.getD 0)) := by
  have hbackup : backupSeq rows' = .int (c.seq.getD 0) := by
    rw [← h.tagsSeq, backupSeq, hcopied.others _ (by decide) (by decide) (by decide)]
    rfl
  have hnew : ∀ r ∈ rows "sqlite_sequence", named "tags_new" r = false := by
    intro r hr
    obtain ⟨t, ht, hname⟩ := h.sequences r hr
    fin_cases ht <;> simp [named, Value.same, hname]
  have hfind := find_recounted "tags" hnew (by decide) c.inUse
  have hsequence : rows' "sqlite_sequence" =
      recounted "tags_new" "tags" c.inUse (rows "sqlite_sequence") :=
    hcopied.sequence.trans (h.copied_ids ▸ rfl)
  have hle : c.inUse.foldl max 0 ≤ c.seq.getD 0 := foldl_max_le h.history.inv.seq h.history.inv.inUse_le
  have hseq : seqRow "tags" (c.inUse.foldl max 0) "seq" = .int (c.inUse.foldl max 0) := rfl
  rw [seqOf, hfinished.sequence, hsequence, hfind, hbackup]
  simp only [Option.map_some, hseq, Value.less, decide_eq_true_eq]
  split
  · rw [Function.update_self]
  · rw [hseq]
    congr 2
    omega

theorem OldTags.idsFresh (h : OldTags rows c) {rows' : Rows} {s : Store}
    (hcopied : Recounted tagsNew tagsSelect "tags" (backedUp rows).rows rows')
    (hfinished : Finished rows' s.rows) (htags : s.rows "tags" = copiedTags rows) :
    IdsFresh s c := by
  have hids : (s.rows "tags").map (fun r => (r "id").toInt) = c.inUse := by
    rw [htags, copiedTags, List.map_map]
    exact h.copied_ids
  have hinv := h.history.inv
  intro id hid old hold
  rw [Store.nextId, hids, h.seqOf_final hcopied hfinished] at hid
  have hnext := nextOf_inv hid
  simp only [Option.map_some, Option.getD_some, Value.toInt] at hnext
  rw [foldl_max_of_le hinv.inUse_le] at hnext
  have := hinv.top old hold
  omega

/-- The migration succeeds, keeps the tags, cleans the links, and no tag that comes later gets an
id that another one had. -/
theorem perUserTagUniqueness_correct (h : OldTags rows c) :
    ∃ s, runStmts perUserTagUniqueness (countedTags rows) = some s ∧ SameTags rows s.rows ∧
      LinksCleaned rows s.rows ∧ IdsFresh s c := by
  obtain ⟨s, rows', hrun, hcopied, hfinished⟩ :=
    run_perUserTagUniqueness (h.accepts tags (by decide))
  have htags : s.rows "tags" = copiedTags rows :=
    (hfinished.others _ (by decide) (by decide) (by decide)).trans hcopied.copy
  have hentries : rows' "entries" = rows "entries" :=
    (hcopied.others _ (by decide) (by decide) (by decide)).trans rfl
  have hlinks : rows' "entry_tags" = rows "entry_tags" :=
    (hcopied.others _ (by decide) (by decide) (by decide)).trans rfl
  refine ⟨s, hrun, ?_, ?_, h.idsFresh hcopied hfinished htags⟩
  · rw [SameTags, htags, copiedTags, List.forall₂_map_right_iff, List.forall₂_same]
    exact fun r _ x hx => select_tag hx r
  · rw [LinksCleaned, hfinished.entryTags, hlinks]
    refine List.filter_congr fun l _ => ?_
    rw [Bool.eq_iff_iff, Bool.not_eq_true', h.stale_iff hcopied.copy hentries, decide_eq_true_iff]

end old

/-- An account whose first tag was deleted by hand; the links to it were left, and the second
tag is still there. -/
def relabelled : Rows := fun table =>
  if table = "tags" then
    [row [("id", .int 2), ("user_id", .int 1), ("label", .text "lean"), ("slug", .text "lean")]]
  else if table = "sqlite_sequence" then [seqRow "tags" 2]
  else account [link, row [("entry_id", .int 1), ("tag_id", .int 2)]] []
    [("content_text", .text "a")] table

theorem relabelled_old : OldTags relabelled ⟨[2], some 2, [1, 2]⟩ where
  accepts := by decide
  history := by
    have h : Counter.Reached ⟨[1, 2], some 2, [1, 2]⟩ :=
      (Relation.ReflTransGen.single (@Counter.Step.insert {} 1 rfl)).tail (.insert rfl)
    exact h.tail (.delete _ fun id => id != 1)
  ids := rfl
  seq := rfl
  sequences := by
    intro r hr
    rw [List.mem_singleton.mp hr]
    exact ⟨"tags", by decide, rfl⟩

theorem perUserTagUniqueness_relabelled :
    ∃ s, runStmts perUserTagUniqueness (countedTags relabelled) = some s ∧
      s.rows "entry_tags" = [row [("entry_id", .int 1), ("tag_id", .int 2)]] ∧
      IdsFresh s ⟨[2], some 2, [1, 2]⟩ := by
  obtain ⟨s, hrun, -, hlinks, hfresh⟩ := perUserTagUniqueness_correct relabelled_old
  exact ⟨s, hrun, hlinks.trans rfl, hfresh⟩

/-- An account that once had a tag: its next one has the id 2. -/
example : ∃ s, runStmts perUserTagUniqueness (countedTags fun table =>
      if table = "tags" then [] else if table = "sqlite_sequence" then [seqRow "tags" 1]
      else account [] [] [("content_text", .text "a")] table) = some s ∧
    s.nextId "tags" = some 2 := ⟨_, rfl, rfl⟩

end Articler.Migrations
