import Articler.Lib.Rows
import Mathlib.Data.List.Perm.Lattice

/-! Cutting pages of `n` rows out of sorted lists. Rows with equal keys may be arranged
anew for every page; the pages fit together if no such class lies across a boundary. -/
namespace Rows
variable {α : Type} (le : α → α → Bool)

def pageAt (n k : Nat) (rows : List α) : List α := (rows.drop (k * n)).take n

def before (rows : List α) (a : α) : Nat := rows.countP fun b => !le a b

def upto (rows : List α) (a : α) : Nat := rows.countP fun b => le b a

/-- No class of equal keys has rows on both sides of position `n`. -/
def Cut (rows : List α) (n : Nat) : Prop := ∀ a ∈ rows, n ≤ before le rows a ∨ upto le rows a ≤ n

instance (rows : List α) (n : Nat) : Decidable (Cut le rows n) :=
  inferInstanceAs (Decidable (∀ a ∈ rows, _))

variable {le} in
theorem Cut.of_upto {rows : List α} (h : ∀ a ∈ rows, upto le rows a ≤ before le rows a + 1)
    (n : Nat) : Cut le rows n := by
  intro a ha
  have := h a ha
  omega

/-- The rows in some order that the sorting allows. -/
structure Arranged (rows arranged : List α) : Prop where
  perm : arranged.Perm rows
  sorted : arranged.Pairwise fun a b => le a b = true

section order
variable {le} (htotal : ∀ a b, le a b = true ∨ le b a = true) {rows arranged : List α}

include htotal in
theorem le_self (a : α) : le a a = true := (htotal a a).elim id id

include htotal in
theorem Arranged.position (h : Arranged le rows arranged) {xs ys : List α} {a : α}
    (heq : arranged = xs ++ a :: ys) :
    before le rows a ≤ xs.length ∧ xs.length < upto le rows a := by
  have hsorted := heq ▸ h.sorted
  rw [List.pairwise_append, List.pairwise_cons] at hsorted
  obtain ⟨-, ⟨hafter, -⟩, hacross⟩ := hsorted
  have hself : le a a = true := le_self htotal a
  constructor
  · have hys : ys.countP (fun b => !le a b) = 0 := by
      rw [List.countP_eq_zero]
      exact fun b hb => by simp [hafter b hb]
    rw [before, ← h.perm.countP_eq, heq, List.countP_append, List.countP_cons_of_neg (by simp [hself]),
      hys]
    exact List.countP_le_length
  · have hxs : xs.countP (fun b => le b a) = xs.length := by
      rw [List.countP_eq_length]
      exact fun b hb => hacross b hb a List.mem_cons_self
    rw [upto, ← h.perm.countP_eq, heq, List.countP_append,
      List.countP_cons_of_pos (p := fun b => le b a) hself, hxs]
    omega

include htotal in
/-- At a boundary that cuts no class, the rows before it are the same in every arrangement. -/
theorem Arranged.mem_take (h : Arranged le rows arranged) {n : Nat} (hcut : Cut le rows n) {a : α}
    (ha : a ∈ arranged.take n) : upto le rows a ≤ n := by
  obtain ⟨xs, ys, hxs⟩ := List.append_of_mem ha
  have heq : arranged = xs ++ a :: (ys ++ arranged.drop n) := by
    have hsplit := (List.take_append_drop n arranged).symm
    rw [hxs] at hsplit
    simpa using hsplit
  have hpos := (h.position htotal heq).1
  have hlen : xs.length < n := by
    have := congrArg List.length hxs
    rw [List.length_take, List.length_append, List.length_cons] at this
    omega
  rcases hcut a (h.perm.mem_iff.mp (List.mem_of_mem_take ha)) with hc | hc
  · omega
  · exact hc

include htotal in
theorem Arranged.mem_drop (h : Arranged le rows arranged) {n : Nat} {a : α}
    (ha : a ∈ arranged.drop n) : n < upto le rows a := by
  obtain ⟨xs, ys, hxs⟩ := List.append_of_mem ha
  have heq : arranged = (arranged.take n ++ xs) ++ a :: ys := by
    rw [List.append_assoc, ← hxs, List.take_append_drop]
  have hpos := (h.position htotal heq).2
  have hlen := List.length_pos_of_mem ha
  rw [List.length_drop] at hlen
  rw [List.length_append, List.length_take] at hpos
  omega

include htotal in
theorem Arranged.mem_page_or (h : Arranged le rows arranged) {n k : Nat}
    (hcut : Cut le rows (k * n)) {a : α} (ha : a ∈ rows) (hk : k * n < upto le rows a) :
    a ∈ pageAt n k arranged ∨ (k + 1) * n < upto le rows a := by
  have hmem : a ∈ arranged.take (k * n) ++ arranged.drop (k * n) := by
    rw [List.take_append_drop]
    exact h.perm.mem_iff.mpr ha
  rcases List.mem_append.mp hmem with htake | hdrop
  · have := h.mem_take htotal hcut htake
    omega
  · rw [← List.take_append_drop n (arranged.drop (k * n)), List.drop_drop,
      ← Nat.succ_mul] at hdrop
    exact (List.mem_append.mp hdrop).imp id (h.mem_drop htotal)

include htotal in
/-- A page between two such boundaries has the rows of the classes between them. -/
theorem Arranged.page_eq (h : Arranged le rows arranged) {n k : Nat} (hlow : Cut le rows (k * n))
    (hhigh : Cut le rows ((k + 1) * n)) :
    pageAt n k arranged =
      arranged.filter fun a => k * n < upto le rows a ∧ upto le rows a ≤ (k + 1) * n := by
  have hsplit : arranged =
      arranged.take (k * n) ++ (pageAt n k arranged ++ arranged.drop ((k + 1) * n)) := by
    have hdrop : arranged.drop ((k + 1) * n) = (arranged.drop (k * n)).drop n := by
      rw [List.drop_drop, Nat.succ_mul]
    rw [pageAt, hdrop, List.take_append_drop, List.take_append_drop]
  have hpage : ∀ a ∈ pageAt n k arranged,
      decide (k * n < upto le rows a ∧ upto le rows a ≤ (k + 1) * n) = true := by
    intro a ha
    have htake : a ∈ arranged.take ((k + 1) * n) := by
      have heq : pageAt n k arranged = (arranged.take ((k + 1) * n)).drop (k * n) := by
        rw [List.drop_take, Nat.succ_mul, Nat.add_sub_cancel_left, pageAt]
      exact List.mem_of_mem_drop (heq ▸ ha)
    simp [h.mem_drop htotal (List.mem_of_mem_take ha), h.mem_take htotal hhigh htake]
  have hbelow : ∀ a ∈ arranged.take (k * n),
      ¬ decide (k * n < upto le rows a ∧ upto le rows a ≤ (k + 1) * n) = true := by
    intro a ha
    have := h.mem_take htotal hlow ha
    simp only [decide_eq_true_eq]
    omega
  have habove : ∀ a ∈ arranged.drop ((k + 1) * n),
      ¬ decide (k * n < upto le rows a ∧ upto le rows a ≤ (k + 1) * n) = true := by
    intro a ha
    have := h.mem_drop htotal ha
    simp only [decide_eq_true_eq]
    omega
  conv_rhs => rw [hsplit]
  rw [List.filter_append, List.filter_append, List.filter_eq_nil_iff.mpr hbelow,
    List.filter_eq_self.mpr hpage, List.filter_eq_nil_iff.mpr habove, List.nil_append,
    List.append_nil]

include htotal in
/-- The pages of rows arranged anew for each page are together all the rows. -/
theorem pages_perm {n pages : Nat} (hpages : rows.length ≤ pages * n) {arranged : Nat → List α}
    (h : ∀ k, Arranged le rows (arranged k)) (hcut : ∀ k, Cut le rows (k * n)) :
    ((List.range pages).flatMap fun k => pageAt n k (arranged k)).Perm rows := by
  have hprefix (m : Nat) : ((List.range m).flatMap fun k => pageAt n k (arranged k)).Perm
      (rows.filter fun a => upto le rows a ≤ m * n) := by
    induction m with
    | zero =>
      have hnone : rows.filter (fun a => upto le rows a ≤ 0 * n) = [] := by
        refine List.filter_eq_nil_iff.mpr fun a ha => ?_
        have hpos : 0 < upto le rows a := List.countP_pos_iff.mpr ⟨a, ha, le_self htotal a⟩
        simp only [Nat.zero_mul, decide_eq_true_eq]
        omega
      rw [hnone, List.range_zero, List.flatMap_nil]
    | succ m ih =>
      rw [List.range_succ, List.flatMap_append, List.flatMap_singleton,
        (h m).page_eq htotal (hcut m) (hcut (m + 1))]
      refine (ih.append ((h m).perm.filter _)).trans ?_
      have hsplit := List.filter_append_perm (fun a => decide (upto le rows a ≤ m * n))
        (rows.filter fun a => upto le rows a ≤ (m + 1) * n)
      rw [List.filter_filter, List.filter_filter] at hsplit
      have hstep : (m + 1) * n = m * n + n := Nat.succ_mul m n
      have hlow : (rows.filter fun a => decide (upto le rows a ≤ m * n) &&
          decide (upto le rows a ≤ (m + 1) * n)) = rows.filter fun a => upto le rows a ≤ m * n :=
        List.filter_congr fun a _ => by
          simp only [Bool.and_eq_left_iff_imp, decide_eq_true_eq]
          omega
      have hhigh : (rows.filter fun a => !decide (upto le rows a ≤ m * n) &&
          decide (upto le rows a ≤ (m + 1) * n)) =
            rows.filter fun a => m * n < upto le rows a ∧ upto le rows a ≤ (m + 1) * n :=
        List.filter_congr fun a _ => by simp only [Bool.decide_and, ← decide_not, Nat.not_le]
      rwa [hlow, hhigh] at hsplit
  have hall : rows.filter (fun a => upto le rows a ≤ pages * n) = rows := by
    refine List.filter_eq_self.mpr fun a _ => ?_
    have : upto le rows a ≤ rows.length := List.countP_le_length
    simp only [decide_eq_true_eq]
    omega
  exact hall ▸ hprefix pages

end order

/-- Where no key of `rows` is missing in `rows'`, a row moves only backwards. -/
theorem upto_mono {κ : Type} {le : α → α → Bool} {rows rows' : List α} (key : α → κ)
    (hle : ∀ a a' b b', key a = key a' → key b = key b' → le a b = le a' b')
    (hunique : UniqueBy key rows) (hsub : ∀ a ∈ rows, ∃ b ∈ rows', key b = key a) {a a' : α}
    (ha : key a' = key a) : upto le rows a ≤ upto le rows' a' := by
  have hsubset : (rows.filter fun b => le b a).map key ⊆
      (rows'.filter fun b => le b a').map key := by
    intro x hx
    obtain ⟨b, hb, rfl⟩ := List.mem_map.mp hx
    obtain ⟨hb, hba⟩ := List.mem_filter.mp hb
    obtain ⟨b', hb', hkey⟩ := hsub b hb
    exact List.mem_map.mpr ⟨b', List.mem_filter.mpr ⟨hb', (hle b' b a' a hkey ha).trans hba⟩, hkey⟩
  have hlength := (List.subperm_of_subset (hunique.filter fun b => le b a) hsubset).length_le
  rwa [List.length_map, List.length_map, ← List.countP_eq_length_filter,
    ← List.countP_eq_length_filter] at hlength

section placing
variable [DecidableEq α]

/-- Sort, with `a` put before or after the rows that tie with it. -/
def placed (early : Bool) (a : α) (rows : List α) : List α :=
  if a ∈ rows then
    let rest := (rows.erase a).insertionSort fun b c => le b c = true
    let first (b : α) : Bool := if early then !le a b else le b a
    rest.filter first ++ a :: rest.filter fun b => !first b
  else rows.insertionSort fun b c => le b c = true

variable {le}

theorem placed_perm (early : Bool) (a : α) (rows : List α) : (placed le early a rows).Perm rows := by
  unfold placed
  split
  · rename_i ha
    refine List.perm_middle.trans (.trans (.cons a ?_) (List.perm_cons_erase ha).symm)
    exact (List.filter_append_perm _ _).trans (List.perm_insertionSort _ _)
  · exact List.perm_insertionSort _ _

theorem placed_sorted (htotal : ∀ a b, le a b = true ∨ le b a = true)
    (htrans : ∀ a b c, le a b = true → le b c = true → le a c = true) (early : Bool) (a : α)
    (rows : List α) : (placed le early a rows).Pairwise fun b c => le b c = true := by
  have hsorted (l : List α) : (l.insertionSort fun b c => le b c = true).Pairwise
      fun b c => le b c = true := (OrderBy.stable α).sorted le l htotal htrans
  unfold placed
  split
  · set rest := (rows.erase a).insertionSort fun b c => le b c = true
    -- where the first part ends
    have hfirst {b : α} (hb : (if early then !le a b else le b a) = true) : le b a = true := by
      cases early with
      | true => exact (htotal b a).resolve_right (by simpa using hb)
      | false => exact hb
    have hlast {b : α} (hb : (!if early then !le a b else le b a) = true) : le a b = true := by
      cases early with
      | true => simpa using hb
      | false => exact (htotal a b).resolve_right (by simpa using hb)
    rw [List.pairwise_append, List.pairwise_cons]
    refine ⟨(hsorted _).filter _, ⟨fun b hb => hlast (List.mem_filter.mp hb).2,
      (hsorted _).filter _⟩, fun b hb c hc => ?_⟩
    have hba := hfirst (List.mem_filter.mp hb).2
    rcases List.mem_cons.mp hc with rfl | hc
    · exact hba
    · exact htrans b a c hba (hlast (List.mem_filter.mp hc).2)
  · exact hsorted rows

/-- An engine may favour one row, or disfavour it, among those that tie with it. -/
def OrderBy.placing (early : Bool) (a : α) : OrderBy α where
  run le rows := placed le early a rows
  perm _ rows := placed_perm early a rows
  sorted _ rows htotal htrans := placed_sorted htotal htrans early a rows

theorem placed_position (htotal : ∀ a b, le a b = true ∨ le b a = true) (early : Bool)
    {rows : List α} {a : α} (ha : a ∈ rows) : ∃ xs ys, placed le early a rows = xs ++ a :: ys ∧
      xs.length = if early then before le rows a else upto le rows a - 1 := by
  unfold placed
  rw [if_pos ha]
  refine ⟨_, _, rfl, ?_⟩
  have hcount (p : α → Bool) :
      (((rows.erase a).insertionSort fun b c => le b c = true).filter p).length =
        rows.countP p - if p a then 1 else 0 := by
    rw [← List.countP_eq_length_filter, (List.perm_insertionSort _ _).countP_eq,
      (List.perm_cons_erase ha).countP_eq, List.countP_cons]
    split <;> omega
  rw [hcount]
  cases early <;> simp [before, upto, le_self htotal]

omit [DecidableEq α] in
/-- A row is on the page that its position falls on, and on no other. -/
theorem position_of_mem_page {n k : Nat} {xs ys : List α} {a : α} (hnodup : (xs ++ a :: ys).Nodup)
    (h : a ∈ pageAt n k (xs ++ a :: ys)) : k * n ≤ xs.length ∧ xs.length < (k + 1) * n := by
  obtain ⟨j, hj, hget⟩ := List.getElem_of_mem h
  have hjlen : j < n := by
    rw [pageAt, List.length_take] at hj
    omega
  have hfound : (pageAt n k (xs ++ a :: ys))[j]? = some a := List.getElem?_eq_some_iff.mpr ⟨hj, hget⟩
  rw [pageAt, List.getElem?_take_of_lt hjlen, List.getElem?_drop] at hfound
  have hindex : (xs ++ a :: ys)[xs.length]? = (xs ++ a :: ys)[k * n + j]? := by
    rw [hfound, List.getElem?_append_right (Nat.le_refl _), Nat.sub_self, List.getElem?_cons_zero]
  have heq : xs.length = k * n + j := (List.getElem?_inj (by simp) hnodup).mp hindex
  have hsucc : (k + 1) * n = k * n + n := Nat.succ_mul k n
  omega

/-- If a boundary cuts a class, there are arrangements of which every page misses one row. -/
theorem exists_missing (htotal : ∀ a b, le a b = true ∨ le b a = true) {rows : List α} {n i : Nat}
    (hnodup : rows.Nodup) (hcut : ¬ Cut le rows (i * n)) :
    ∃ a ∈ rows, ∃ order : Nat → OrderBy α, ∀ k, a ∉ pageAt n k ((order k).run le rows) := by
  simp only [Cut, not_forall, not_or, not_le] at hcut
  obtain ⟨a, ha, hbefore, hupto⟩ := hcut
  -- late on the pages before the boundary, early on those after it
  refine ⟨a, ha, fun k => .placing (decide (i ≤ k)) a, fun k hk => ?_⟩
  obtain ⟨xs, ys, heq, hlen⟩ := placed_position htotal (decide (i ≤ k)) ha
  have hk' : a ∈ pageAt n k (xs ++ a :: ys) := heq ▸ hk
  have hpos := position_of_mem_page (heq ▸ (placed_perm _ a rows).nodup_iff.mpr hnodup) hk'
  by_cases hik : i ≤ k
  · have : i * n ≤ k * n := Nat.mul_le_mul_right n hik
    simp only [hik, decide_true, if_true] at hlen
    omega
  · have : (k + 1) * n ≤ i * n := Nat.mul_le_mul_right n (by omega)
    simp only [hik, decide_false, Bool.false_eq_true, if_false] at hlen
    omega

end placing
end Rows
