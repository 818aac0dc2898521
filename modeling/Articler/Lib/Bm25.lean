import Mathlib.Algebra.BigOperators.Group.Finset.Basic
import Mathlib.Algebra.Order.BigOperators.Group.Finset
import Mathlib.Algebra.Order.BigOperators.Group.List
import Mathlib.Algebra.Order.Field.Basic
import Mathlib.Algebra.Order.Ring.Cast
import Mathlib.Tactic.Positivity

/-! The bm25 ranking with a weight for each column, as FTS5 defines it: the better a row matches,
the lower its score. -/
namespace Bm25

/-- A phrase of the query, next to one row: how rare it is, and how often it occurs in each
column. -/
structure Phrase (K ι : Type) [Zero K] [LT K] where
  idf : K
  hits : ι → ℕ
  idf_pos : 0 < idf

structure Tuning (K : Type) [Zero K] [One K] [LE K] [LT K] where
  k1 : K
  b : K
  k1_pos : 0 < k1
  b_nonneg : 0 ≤ b
  b_lt_one : b < 1

/-- A row next to a query; its length, and the average one, are in tokens. -/
structure Row (K ι : Type) [Zero K] [LE K] [LT K] where
  phrases : List (Phrase K ι)
  length : K
  average : K
  length_nonneg : 0 ≤ length
  average_nonneg : 0 ≤ average

variable {K ι : Type} [Field K] [LinearOrder K] [Fintype ι]

def Phrase.frequency (p : Phrase K ι) (w : ι → K) : K := ∑ i, w i * (p.hits i : K)

def Phrase.term (p : Phrase K ι) (t : Tuning K) (w : ι → K) (relative : K) : K :=
  p.idf * p.frequency w * (t.k1 + 1) / (p.frequency w + t.k1 * (1 - t.b + t.b * relative))

def Row.score (r : Row K ι) (t : Tuning K) (w : ι → K) : K :=
  -(r.phrases.map fun p => p.term t w (r.length / r.average)).sum

variable [IsStrictOrderedRing K] {w : ι → K}

theorem Phrase.frequency_nonneg (p : Phrase K ι) (hw : ∀ i, 0 ≤ w i) : 0 ≤ p.frequency w :=
  Finset.sum_nonneg fun i _ => mul_nonneg (hw i) (Nat.cast_nonneg _)

theorem Phrase.frequency_pos_iff (p : Phrase K ι) (hw : ∀ i, 0 ≤ w i) :
    0 < p.frequency w ↔ ∃ i, 0 < w i ∧ 0 < p.hits i := by
  rw [Phrase.frequency, Finset.sum_pos_iff_of_nonneg
    fun i _ => mul_nonneg (hw i) (Nat.cast_nonneg _)]
  constructor
  · rintro ⟨i, -, hi⟩
    refine ⟨i, pos_of_mul_pos_left hi (Nat.cast_nonneg _), ?_⟩
    exact Nat.cast_pos.mp (pos_of_mul_pos_right hi (hw i))
  · rintro ⟨i, hwi, hits⟩
    exact ⟨i, Finset.mem_univ i, mul_pos hwi (Nat.cast_pos.mpr hits)⟩

theorem Tuning.saturation_pos (t : Tuning K) {relative : K} (h : 0 ≤ relative) :
    0 < t.k1 * (1 - t.b + t.b * relative) :=
  mul_pos t.k1_pos (add_pos_of_pos_of_nonneg (sub_pos.mpr t.b_lt_one) (mul_nonneg t.b_nonneg h))

theorem Phrase.term_nonneg (p : Phrase K ι) (t : Tuning K) (hw : ∀ i, 0 ≤ w i) {relative : K}
    (h : 0 ≤ relative) : 0 ≤ p.term t w relative := by
  have hfrequency := p.frequency_nonneg hw
  have hk1 := t.k1_pos
  have hidf := p.idf_pos
  have hsaturation := t.saturation_pos h
  rw [Phrase.term]
  generalize t.k1 * (1 - t.b + t.b * relative) = saturation at hsaturation ⊢
  positivity

theorem Phrase.term_pos_iff (p : Phrase K ι) (t : Tuning K) (hw : ∀ i, 0 ≤ w i) {relative : K}
    (h : 0 ≤ relative) : 0 < p.term t w relative ↔ ∃ i, 0 < w i ∧ 0 < p.hits i := by
  rw [← p.frequency_pos_iff hw, Phrase.term]
  have hidf := p.idf_pos
  have hk1 := t.k1_pos
  have hsaturation := t.saturation_pos h
  constructor
  · intro hpos
    refine (p.frequency_nonneg hw).lt_of_ne fun hzero => ?_
    rw [← hzero] at hpos
    simp at hpos
  · intro hpos
    generalize t.k1 * (1 - t.b + t.b * relative) = saturation at hsaturation ⊢
    positivity

theorem sum_pos_iff {l : List K} (h : ∀ a ∈ l, 0 ≤ a) : 0 < l.sum ↔ ∃ a ∈ l, 0 < a := by
  induction l with
  | nil => simp
  | cons a l ih =>
    have ha : 0 ≤ a := h a List.mem_cons_self
    have hrest : ∀ b ∈ l, 0 ≤ b := fun b hb => h b (List.mem_cons_of_mem a hb)
    rw [List.sum_cons, List.exists_mem_cons_iff, ← ih hrest]
    have hsum : 0 ≤ l.sum := List.sum_nonneg hrest
    constructor
    · intro hpos
      by_contra hnone
      obtain ⟨h1, h2⟩ := not_or.mp hnone
      exact absurd hpos (not_lt.mpr (add_nonpos (not_lt.mp h1) (not_lt.mp h2)))
    · rintro (hpos | hpos)
      · exact add_pos_of_pos_of_nonneg hpos hsum
      · exact add_pos_of_nonneg_of_pos ha hpos

theorem Row.score_neg_iff (r : Row K ι) (t : Tuning K) (hw : ∀ i, 0 ≤ w i) :
    r.score t w < 0 ↔ ∃ p ∈ r.phrases, ∃ i, 0 < w i ∧ 0 < p.hits i := by
  have hrelative : 0 ≤ r.length / r.average := div_nonneg r.length_nonneg r.average_nonneg
  rw [Row.score, neg_lt_zero, sum_pos_iff]
  · simp only [List.mem_map, exists_exists_and_eq_and, Phrase.term_pos_iff _ t hw hrelative]
  · intro a ha
    obtain ⟨p, -, rfl⟩ := List.mem_map.mp ha
    exact p.term_nonneg t hw hrelative

end Bm25
