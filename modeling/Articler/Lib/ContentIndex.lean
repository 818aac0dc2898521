import Articler.Lib.Rows

/-! An index kept beside a table: it does not own the values, so a removal has to
repeat exactly what was indexed under the key. -/
namespace ContentIndex
open Rows
variable {δ κ ρ : Type} [DecidableEq δ] [DecidableEq κ]

/-- `corrupt` is raised once a removal did not repeat what its key was indexed with. -/
structure Index (δ : Type) where
  docs : List δ := []
  corrupt : Bool := false
deriving DecidableEq, Repr

def Index.insert (idx : Index δ) (d : δ) : Index δ := { idx with docs := idx.docs ++ [d] }

def Index.delete (key : δ → κ) (idx : Index δ) (d : δ) : Index δ where
  docs := idx.docs.erase d
  corrupt := idx.corrupt || idx.docs.filter (fun d' => key d' = key d) != [d]

/-- One document for each row of the table and nothing else, by exact removals only. -/
structure Mirrors (idx : Index δ) (table : List δ) : Prop where
  exact : idx.corrupt = false
  docs : idx.docs.Perm table

omit [DecidableEq δ] in
theorem filter_key {key : δ → κ} {table : List δ} (hu : UniqueBy key table) {d : δ}
    (hd : d ∈ table) : table.filter (fun d' => key d' = key d) = [d] := by
  induction table with
  | nil => simp at hd
  | cons c table ih =>
    obtain ⟨hc, hut⟩ : (∀ e ∈ table, key e ≠ key c) ∧ UniqueBy key table := by
      simpa [UniqueBy] using hu
    rcases List.mem_cons.mp hd with rfl | hd
    · have hnone : table.filter (fun d' => key d' = key d) = [] := by
        rw [List.filter_eq_nil_iff]
        intro e he
        simpa using hc e he
      simp [hnone]
    · have hne : key c ≠ key d := Ne.symm (hc d hd)
      simp [hne, ih hut hd]

namespace Mirrors
variable {idx : Index δ} {table : List δ} {key : δ → κ}

omit [DecidableEq δ] in
theorem perm (h : Mirrors idx table) {table' : List δ} (hp : table.Perm table') :
    Mirrors idx table' := ⟨h.exact, h.docs.trans hp⟩

omit [DecidableEq δ] in
theorem insert (h : Mirrors idx table) (d : δ) : Mirrors (idx.insert d) (d :: table) := by
  refine ⟨h.exact, ?_⟩
  exact (h.docs.append_right [d]).trans List.perm_append_comm

theorem delete {d : δ} (h : Mirrors idx (d :: table)) (hu : UniqueBy key (d :: table)) :
    Mirrors (idx.delete key d) table := by
  refine ⟨?_, by simpa [Index.delete] using h.docs.erase d⟩
  have hone := filter_key (hu.perm h.docs) (h.docs.mem_iff.mpr List.mem_cons_self)
  simp [Index.delete, h.exact, hone]

theorem deleteAll (f : ρ → δ) {gone kept : List ρ} (h : Mirrors idx ((gone ++ kept).map f))
    (hu : UniqueBy (fun r => key (f r)) (gone ++ kept)) :
    Mirrors (gone.foldl (fun i r => i.delete key (f r)) idx) (kept.map f) := by
  induction gone generalizing idx with
  | nil => exact h
  | cons r gone ih =>
    have hu' : UniqueBy key (f r :: (gone ++ kept).map f) := by
      simpa [UniqueBy, Function.comp_def] using hu
    have hr : Mirrors (idx.delete key (f r)) ((gone ++ kept).map f) := h.delete hu'
    exact ih hr (List.nodup_cons.mp hu).2

theorem replaceAll (f : ρ → δ) {changes : List (ρ × ρ)} {kept : List ρ}
    (h : Mirrors idx ((changes.map Prod.fst ++ kept).map f))
    (hu : UniqueBy (fun r => key (f r)) (changes.map Prod.fst ++ kept))
    (hk : ∀ c ∈ changes, key (f c.2) = key (f c.1)) :
    Mirrors (changes.foldl (fun i c => (i.delete key (f c.1)).insert (f c.2)) idx)
      ((changes.map Prod.snd ++ kept).map f) := by
  induction changes generalizing idx kept with
  | nil => exact h
  | cons c changes ih =>
    have hc : key (f c.2) = key (f c.1) := hk c List.mem_cons_self
    have hu' : UniqueBy key (f c.1 :: (changes.map Prod.fst ++ kept).map f) := by
      simpa [UniqueBy, Function.comp_def] using hu
    have hstep : Mirrors ((idx.delete key (f c.1)).insert (f c.2))
        (f c.2 :: (changes.map Prod.fst ++ kept).map f) := (h.delete hu').insert _
    have hmove : ∀ l : List ρ, ((l ++ c.2 :: kept).map f).Perm (f c.2 :: (l ++ kept).map f) :=
      fun l => by simp [List.perm_middle]
    have hnew : UniqueBy (fun r => key (f r)) (changes.map Prod.fst ++ c.2 :: kept) := by
      have hp : ((changes.map Prod.fst ++ c.2 :: kept).map fun r => key (f r)).Perm
          (((c :: changes).map Prod.fst ++ kept).map fun r => key (f r)) := by
        simp [hc, List.perm_middle]
      exact hp.nodup_iff.mpr hu
    have hout := ih (hstep.perm (hmove _).symm) hnew fun d hd => hk d (List.mem_cons_of_mem _ hd)
    exact hout.perm (hmove _)

end Mirrors
end ContentIndex
