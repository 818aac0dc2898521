import Articler.Links

/-! The full-text index beside `entries`: its triggers keep one document for each entry
and remove only what was indexed. -/
namespace Articler
open Txn Rows ContentIndex Relation

/-- The index holds one document for each entry, by exact removals only. -/
def Db.Indexed (db : Db) : Prop := Mirrors db.entriesFts (db.entries.map EntryRecord.ftsDoc)

theorem Assign.apply_ftsDoc {e e' : EntryRecord} {a : Assign} (h : a.apply e = .ok e')
    (hi : a.indexed = false) : e'.ftsDoc = e.ftsDoc := by
  cases a <;> simp only [Assign.apply, notNull] at h
  case title | contentText => cases hi
  case archivedAt | starredAt | language | previewPicture | originUrl | publishedAt |
      publishedBy | isPublic | uid | updatedAt =>
    cases h
    rfl
  all_goals
    rename_i v
    cases v with
    | none => cases h
    | some v =>
      cases h
      rfl

theorem EntryRecord.assignAll_ftsDoc {e e' : EntryRecord} {as : List Assign}
    (h : e.assignAll as = .ok e') (hi : as.any Assign.indexed = false) :
    e'.ftsDoc = e.ftsDoc := by
  induction as generalizing e with
  | nil =>
    cases h
    rfl
  | cons a as ih =>
    rw [List.any_cons, Bool.or_eq_false_iff] at hi
    rw [assignAll] at h
    cases ha : a.apply e with
    | error x =>
      rw [ha] at h
      cases h
    | ok d =>
      rw [ha] at h
      exact (ih h hi.2).trans (Assign.apply_ftsDoc ha hi.1)

namespace Db.Indexed
variable {db db' : Db}

theorem insertEntry (h : db.Indexed) {row : Int → EntryRecord} {id : Int}
    (hi : db.insertEntry row = .ok (id, db')) : db'.Indexed := by
  obtain ⟨-, -, -, rfl⟩ := Db.insertEntry_ok hi
  refine (h.insert (row id).ftsDoc).perm ?_
  simp only [List.map_append, List.map_cons, List.map_nil]
  exact (List.perm_append_singleton _ _).symm

theorem deleteEntries (h : db.Indexed) (hv : db.Valid) (p : EntryRecord → Bool) :
    (db.deleteEntries p).Indexed := by
  have hp : db.entries.Perm (db.entries.filter p ++ db.entries.filter fun e => !p e) :=
    (List.filter_append_perm p db.entries).symm
  exact (h.perm (hp.map _)).deleteAll EntryRecord.ftsDoc (hv.entries.pk.perm hp.symm)

/-- Either the trigger replaces the documents of the changed rows, or none changed. -/
theorem updateEntries (h : db.Indexed) (hv : db.Valid) {p : EntryRecord → Bool}
    {as : List Assign} {n : Nat} (hu : db.updateEntries p as = .ok (n, db')) : db'.Indexed := by
  obtain ⟨entries', hall, -, rfl⟩ := Db.updateEntries_ok hu
  unfold Db.Indexed
  dsimp only
  split
  · obtain ⟨hold, hnew, hchanged⟩ := updated_perm hall
    have hunique : UniqueBy (fun e => FtsDoc.rowid (EntryRecord.ftsDoc e)) db.entries :=
      hv.entries.pk
    have hout := (h.perm (hold.symm.map _)).replaceAll EntryRecord.ftsDoc
      (hunique.perm hold) fun c hc => (EntryRecord.update_ok (hchanged c hc)).2.1
    exact hout.perm (hnew.map _)
  · rename_i hunwatched
    have hsame : entries'.map EntryRecord.ftsDoc = db.entries.map EntryRecord.ftsDoc := by
      refine map_eq_of_forall₂ (fun e e' hr => ?_) hall
      split at hr
      · exact EntryRecord.assignAll_ftsDoc (EntryRecord.update_ok hr).1 (by simpa using hunwatched)
      · cases hr
        rfl
    rw [hsame]
    exact h

theorem deleteUsers (h : db.Indexed) (hv : db.Valid) (p : UserRow → Bool) :
    (db.deleteUsers p).Indexed := h.deleteEntries hv _

end Db.Indexed

theorem Write.indexed {k : Statement} {s t : Db} (hw : Write k s t) (hv : s.Valid)
    (h : s.Indexed) : t.Indexed := by
  have hframe (hk : DbTable.entries ∉ k.changes) : t.Indexed := by
    obtain ⟨hentries, -, hfts⟩ := hw.frame hk
    rw [Db.Indexed, hentries, hfts]
    exact h
  cases hw with
  | deleteUsers _ p => exact h.deleteUsers hv p
  | insertEntry hid hi => exact h.insertEntry hi
  | updateEntries hu => exact h.updateEntries hv hu
  | deleteEntries _ p => exact h.deleteEntries hv p
  | _ => exact hframe (by decide)

theorem Written.indexed {db : Db} (h : Written db) : db.Indexed := by
  have hboth : db.Valid ∧ db.Indexed := by
    refine run_invariant (I := fun db => db.Valid ∧ db.Indexed) (fun s t hs hst => ?_) ?_ h
    · obtain ⟨_, _, hw⟩ := hst
      exact ⟨hw.valid hs.1, hw.indexed hs.1 hs.2⟩
    · exact ⟨Db.valid_empty, rfl, .refl _⟩
  exact hboth.2

/-- In every state a run reaches, and after every statement of a transaction that starts
there, the index holds exactly the documents of the entries, and no removal went wrong. -/
theorem Reachable.index_exact {db db' : Db} (h : Reachable db) (hw : ReflTransGen AnyWrite db db') :
    db'.entriesFts.corrupt = false ∧
      db'.entriesFts.docs.Perm (db'.entries.map EntryRecord.ftsDoc) := by
  have hi : db'.Indexed := Written.indexed (h.written.trans hw)
  exact ⟨hi.exact, hi.docs⟩

/-- One entry gets a title, the user of the other one goes, and the first is starred. -/
def rewriting : List Call :=
  crossing ++ [.updateById 2 2 { title := some (some ⟨"C"⟩), updatedAt := 20 }, .deleteUser 1,
    .updateById 2 2 { isStarred := some (some true), updatedAt := 30 }]

theorem Reachable.index_exact_rewriting :
    (runCalls rewriting {}).entriesFts.docs = [⟨2, "C", "B"⟩] ∧
      (runCalls rewriting {}).entriesFts.corrupt = false := by
  have hr : Reachable (runCalls rewriting {}) := Reachable.calls .refl rewriting
  exact ⟨by decide, (hr.index_exact .refl).1⟩

end Articler
