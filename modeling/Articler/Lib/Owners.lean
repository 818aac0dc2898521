import Articler.Lib.Rows

/-! Tables whose rows have owners, `o` being the column that says whose a row is. Two such
tables that agree on the rows of everyone but `u` agree on all that does not look at his. -/
namespace Rows
variable {α : Type} {o : α → Int} {u : Int} {p : α → Bool} {rows rows' : List α}

theorem any_self (p : α → Bool) (rows : List α) : (rows.filter p).any p = rows.any p := by
  simp [List.any_filter]

theorem filter_seen (hp : ∀ a, p a = true → o a ≠ u)
    (h : (rows'.filter fun a => o a != u) = rows.filter fun a => o a != u) :
    rows'.filter p = rows.filter p := by
  have hself (l : List α) : (l.filter fun a => o a != u).filter p = l.filter p := by
    rw [List.filter_filter]
    refine List.filter_congr fun a _ => ?_
    cases hpa : p a with
    | false => rfl
    | true => simpa using hp a hpa
  rw [← hself, h, hself]

theorem any_seen (hp : ∀ a, p a = true → o a ≠ u)
    (h : (rows'.filter fun a => o a != u) = rows.filter fun a => o a != u) :
    rows'.any p = rows.any p := by
  rw [← any_self, filter_seen hp h, any_self]

theorem find_seen (hp : ∀ a, p a = true → o a ≠ u)
    (h : (rows'.filter fun a => o a != u) = rows.filter fun a => o a != u) :
    rows'.find? p = rows.find? p := by
  rw [← List.head?_filter, filter_seen hp h, List.head?_filter]

theorem flatMap_seen {β : Type} {f g : α → List β} (hf : ∀ a, o a = u → f a = [])
    (hg : ∀ a, o a = u → g a = []) (hfg : ∀ a ∈ rows, o a ≠ u → g a = f a)
    (h : (rows'.filter fun a => o a != u) = rows.filter fun a => o a != u) :
    rows'.flatMap g = rows.flatMap f := by
  have hself {k : α → List β} (hk : ∀ a, o a = u → k a = []) (l : List α) :
      l.flatMap k = (l.filter fun a => o a != u).flatMap k := by
    induction l with
    | nil => rfl
    | cons a l ih =>
      by_cases ha : o a = u
      · simp [ha, hk a ha, ih]
      · simp [ha, ih]
  rw [hself hg, hself hf, h]
  refine List.flatMap_congr fun a ha => ?_
  obtain ⟨ha, hu⟩ := List.mem_filter.mp ha
  exact hfg a ha (by simpa using hu)

theorem partners_congr {β : Type} {on : α → β → Bool} {right right' : List β} {a : α}
    (h : right'.filter (on a) = right.filter (on a)) :
    partners on right' a = partners on right a := by
  rw [partners, partners, ← any_self (on a) right', h, any_self]

theorem updateWhere_filter {ε : Type} (rows : List α) {q : α → Bool} {f : α → Except ε α}
    (hp : ∀ a, p a = true → q a = true) (hf : ∀ a a', f a = .ok a' → q a' = q a) :
    (updateWhere p f rows).map (fun l => l.filter q) = updateWhere p f (rows.filter q) := by
  induction rows with
  | nil => rfl
  | cons a rows ih =>
    rw [updateWhere]
    cases hpa : p a with
    | false =>
      cases hqa : q a with
      | false =>
        rw [List.filter_cons_of_neg (by simp [hqa]), ← ih]
        cases updateWhere p f rows <;> simp [Except.map, hqa]
      | true =>
        rw [List.filter_cons_of_pos hqa, updateWhere, ← ih, hpa]
        cases updateWhere p f rows <;> simp [Except.map, hqa]
    | true =>
      have hqa := hp a hpa
      rw [List.filter_cons_of_pos hqa, updateWhere, ← ih, hpa]
      cases hfa : f a with
      | error e => rfl
      | ok a' => cases updateWhere p f rows <;> simp [Except.map, hf a a' hfa, hqa]

theorem addMissing_filter [DecidableEq α] {new : List α} (hp : ∀ a ∈ new, p a = true) :
    (addMissing new rows).filter p = addMissing new (rows.filter p) := by
  induction new generalizing rows with
  | nil => rfl
  | cons a new ih =>
    have hstep (rows : List α) : addMissing (a :: new) rows =
        addMissing new (if a ∈ rows then rows else rows ++ [a]) := rfl
    have ha := hp a List.mem_cons_self
    rw [hstep, hstep, ih fun b hb => hp b (List.mem_cons_of_mem a hb)]
    by_cases hmem : a ∈ rows <;> simp [hmem, ha]

end Rows
