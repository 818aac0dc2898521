import Mathlib.Data.Fintype.Basic
import Articler.Lib.Bm25

/-! The bm25 ranking over a table of documents: what a row gets from its own text, and what all
rows get from the statistics of the table. -/
namespace Bm25

/-- How documents are read: where the phrases of a query occur, how many tokens there are, and how
rare a phrase is, by the number of documents and of those it was found in. -/
structure Scheme (K δ φ ι : Type) [Zero K] [LT K] where
  hits : φ → δ → ι → ℕ
  tokens : δ → ℕ
  idf : ℕ → ℕ → K
  idf_pos : ∀ n found, 0 < idf n found

variable {K δ φ ι : Type} [Field K] [LinearOrder K] [IsStrictOrderedRing K]

namespace Scheme
variable (S : Scheme K δ φ ι)

def average (docs : List δ) : K := (docs.map S.tokens).sum / docs.length

theorem average_nonneg (docs : List δ) : 0 ≤ S.average docs :=
  div_nonneg (Nat.cast_nonneg _) (Nat.cast_nonneg _)

variable [Fintype ι]

def found (docs : List δ) (p : φ) : ℕ := docs.countP fun d => ∃ i, 0 < S.hits p d i

/-- All that the ranking reads of documents other than the ranked one. -/
def statistics (docs : List δ) (ps : List φ) : List K × K :=
  (ps.map fun p => S.idf docs.length (S.found docs p), S.average docs)

def row (docs : List δ) (ps : List φ) (d : δ) : Row K ι where
  phrases := ps.map fun p => ⟨S.idf docs.length (S.found docs p), S.hits p d, S.idf_pos _ _⟩
  length := S.tokens d
  average := S.average docs
  length_nonneg := Nat.cast_nonneg _
  average_nonneg := S.average_nonneg docs

variable {S} {docs docs' : List δ} {ps : List φ}

theorem row_congr (h : S.statistics docs ps = S.statistics docs' ps) (d : δ) :
    S.row docs ps d = S.row docs' ps d := by
  obtain ⟨hidf, haverage⟩ := Prod.mk.inj h
  rw [row, row, Row.mk.injEq]
  refine ⟨List.map_congr_left fun p hp => ?_, rfl, haverage⟩
  rw [Phrase.mk.injEq]
  exact ⟨List.map_inj_left.mp hidf p hp, rfl⟩

theorem exists_hit {d : δ} {i : ι} :
    (∃ p ∈ (S.row docs ps d).phrases, 0 < p.hits i) ↔ ∃ p ∈ ps, 0 < S.hits p d i := by
  rw [row]
  simp only [List.mem_map, exists_exists_and_eq_and]

end Scheme
end Bm25
