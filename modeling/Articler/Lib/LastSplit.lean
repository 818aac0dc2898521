import Mathlib.Data.List.Basic

/-! Lists cut at the last occurrence of an element, and what a rewriting of the elements does to
the cut. -/
namespace LastSplit
variable {α β : Type} [DecidableEq α] [DecidableEq β] {a : α} {l before after : List α}

/-- What stands before and what stands after the last `a`. -/
def rsplitOnce (a : α) : List α → Option (List α × List α)
  | [] => none
  | c :: l => match rsplitOnce a l with
    | some (before, after) => some (c :: before, after)
    | none => if c = a then some ([], l) else none

@[simp] theorem rsplitOnce_eq_none_iff : rsplitOnce a l = none ↔ a ∉ l := by
  induction l with
  | nil => simp [rsplitOnce]
  | cons c l ih =>
    rw [List.mem_cons, not_or, ← ih, rsplitOnce]
    cases rsplitOnce a l with
    | none => simp [eq_comm]
    | some _ => simp

theorem rsplitOnce_append (before : List α) (h : a ∉ after) :
    rsplitOnce a (before ++ a :: after) = some (before, after) := by
  induction before with
  | nil => rw [List.nil_append, rsplitOnce, rsplitOnce_eq_none_iff.mpr h, if_pos rfl]
  | cons c before ih => rw [List.cons_append, rsplitOnce, ih]

theorem rsplitOnce_eq_some (h : rsplitOnce a l = some (before, after)) :
    l = before ++ a :: after ∧ a ∉ after := by
  induction l generalizing before with
  | nil => cases h
  | cons c l ih =>
    rw [rsplitOnce] at h
    cases hl : rsplitOnce a l with
    | some p =>
      rw [hl] at h
      cases h
      obtain ⟨hsplit, hafter⟩ := ih hl
      exact ⟨by rw [List.cons_append, ← hsplit], hafter⟩
    | none =>
      rw [hl] at h
      dsimp only at h
      split at h
      · cases h
        rename_i hc
        exact ⟨by rw [hc, List.nil_append], rsplitOnce_eq_none_iff.mp hl⟩
      · cases h

/-- A rewriting that makes the separator of nothing but the separator keeps the cut. -/
theorem rsplitOnce_flatMap {f : α → List β} {b : β} (ha : f a = [b])
    (hf : ∀ c ∈ l, b ∈ f c → c = a) :
    rsplitOnce b (l.flatMap f) =
      (rsplitOnce a l).map (Prod.map (List.flatMap f) (List.flatMap f)) := by
  cases hl : rsplitOnce a l with
  | none =>
    have hmem : a ∉ l := rsplitOnce_eq_none_iff.mp hl
    rw [Option.map_none, rsplitOnce_eq_none_iff, List.mem_flatMap]
    rintro ⟨c, hc, hb⟩
    exact hmem (hf c hc hb ▸ hc)
  | some p =>
    obtain ⟨rfl, hafter⟩ := rsplitOnce_eq_some hl
    have hb : b ∉ p.2.flatMap f := by
      rw [List.mem_flatMap]
      rintro ⟨c, hc, hb⟩
      exact hafter (hf c (List.mem_append_right _ (List.mem_cons_of_mem a hc)) hb ▸ hc)
    rw [List.flatMap_append, List.flatMap_cons, ha, List.singleton_append,
      rsplitOnce_append _ hb]
    rfl

end LastSplit
