import Articler.Lib.Rows

/-! Tables whose ids are given upwards and never twice: what is later found under an id that
had been given already is what became of the row that had it. -/
namespace Lineage
open Rows
variable {α : Type}

structure Ledger (α : Type) where
  rows : List α
  seq : Int

/-- `same` relates a row to what may become of it. -/
structure Descends (id : α → Int) (same : α → α → Prop) (s t : Ledger α) : Prop where
  seq : s.seq ≤ t.seq
  rows : ∀ r' ∈ t.rows, id r' ≤ s.seq → ∃ r ∈ s.rows, id r = id r' ∧ same r r'

def Spent (id : α → Int) (t : Ledger α) (i : Int) : Prop := i ≤ t.seq ∧ ∀ r ∈ t.rows, id r ≠ i

namespace Descends
variable {id : α → Int} {same : α → α → Prop} {s t u : Ledger α}

theorem refl (hsame : ∀ r, same r r) (s : Ledger α) : Descends id same s s :=
  ⟨le_rfl, fun r hr _ => ⟨r, hr, rfl, hsame r⟩⟩

theorem trans (htrans : ∀ a b c, same a b → same b c → same a c) (h : Descends id same s t)
    (h' : Descends id same t u) : Descends id same s u := by
  refine ⟨h.seq.trans h'.seq, fun r'' hr'' hold => ?_⟩
  obtain ⟨r', hr', hid', hsame'⟩ := h'.rows r'' hr'' (hold.trans h.seq)
  obtain ⟨r, hr, hid, hsame⟩ := h.rows r' hr' (hid' ▸ hold)
  exact ⟨r, hr, hid.trans hid', htrans _ _ _ hsame hsame'⟩

theorem shrink (hsame : ∀ r, same r r) (hseq : s.seq ≤ t.seq) (hrows : t.rows ⊆ s.rows) :
    Descends id same s t := ⟨hseq, fun r hr _ => ⟨r, hrows hr, rfl, hsame r⟩⟩

theorem grow (hsame : ∀ r, same r r) {new : List α} (hseq : s.seq ≤ t.seq)
    (hrows : t.rows = s.rows ++ new) (hnew : ∀ r ∈ new, s.seq < id r) : Descends id same s t := by
  refine ⟨hseq, fun r hr hold => ?_⟩
  rw [hrows] at hr
  cases List.mem_append.mp hr with
  | inl hr => exact ⟨r, hr, rfl, hsame r⟩
  | inr hr =>
    have hfresh := hnew r hr
    omega

theorem change (hseq : s.seq ≤ t.seq)
    (hrows : List.Forall₂ (fun r r' => id r = id r' ∧ same r r') s.rows t.rows) :
    Descends id same s t := by
  refine ⟨hseq, fun r' hr' _ => ?_⟩
  obtain ⟨r, hr, hchanged⟩ := exists_old hrows hr'
  exact ⟨r, hr, hchanged⟩

theorem spent (h : Descends id same s t) {i : Int} (hs : Spent id s i) : Spent id t i := by
  refine ⟨hs.1.trans h.seq, fun r' hr' hi => ?_⟩
  obtain ⟨r, hr, hid, -⟩ := h.rows r' hr' (hi ▸ hs.1)
  exact hs.2 r hr (hid.trans hi)

theorem kept (h : Descends id same s t) (hpk : UniqueBy id s.rows) (hseq : ∀ r ∈ s.rows, id r ≤ s.seq)
    {r r' : α} (hr : r ∈ s.rows) (hr' : r' ∈ t.rows) (hid : id r = id r') : same r r' := by
  obtain ⟨r₀, hr₀, hid₀, hsame⟩ := h.rows r' hr' (hid ▸ hseq r hr)
  rwa [hpk.eq_of_key hr hr₀ (hid.trans hid₀.symm)]

end Descends
end Lineage
