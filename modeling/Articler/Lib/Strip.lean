import Mathlib.Data.List.DropRight
import Mathlib.Data.List.TakeWhile

/-! Lists without the elements of a class at their two ends, and what cutting them to a length
leaves of that. -/
namespace Strip
variable {α : Type} {p : α → Bool} {l : List α}

def strip (p : α → Bool) (l : List α) : List α := (l.dropWhile p).rdropWhile p

/-- Neither end is in the class. -/
structure Stripped (p : α → Bool) (l : List α) : Prop where
  first : ∀ a, l.head? = some a → p a = false
  last : ∀ a, l.getLast? = some a → p a = false

theorem strip_stripped (p : α → Bool) (l : List α) : Stripped p (strip p l) := by
  constructor
  · intro a ha
    obtain ⟨rest, hrest⟩ : strip p l <+: l.dropWhile p := List.rdropWhile_prefix p _
    have hhead : (l.dropWhile p).head? = some a := by
      rw [← hrest, List.head?_append, ha]
      rfl
    simpa [hhead] using List.head?_dropWhile_not p l
  · intro a ha
    have hne : strip p l ≠ [] := by
      rintro h
      rw [h] at ha
      cases ha
    have hlast : ¬ p ((strip p l).getLast hne) = true := List.rdropWhile_last_not p _ hne
    rw [List.getLast?_eq_some_getLast hne] at ha
    cases ha
    simpa using hlast

theorem Stripped.strip_eq (h : Stripped p l) : strip p l = l := by
  have hfirst : l.dropWhile p = l := by
    cases l with
    | nil => rfl
    | cons a l => exact List.dropWhile_cons_of_neg (by simp [h.first a rfl])
  rw [strip, hfirst, List.rdropWhile_eq_self_iff]
  exact fun hne => by simp [h.last _ (List.getLast?_eq_some_getLast hne)]

theorem mem_dropWhile {a : α} (ha : a ∈ l) (hp : p a = false) : a ∈ l.dropWhile p := by
  induction l with
  | nil => cases ha
  | cons b l ih =>
    rw [List.dropWhile_cons]
    split
    · rename_i hb
      rcases List.mem_cons.mp ha with rfl | ha
      · simp [hp] at hb
      · exact ih ha
    · exact ha

theorem mem_strip {a : α} (ha : a ∈ l) (hp : p a = false) : a ∈ strip p l := by
  rw [strip, List.rdropWhile, List.mem_reverse]
  exact mem_dropWhile (List.mem_reverse.mpr (mem_dropWhile ha hp)) hp

/-- The first `n + 1` elements are stripped unless the cut is behind an element of the class. -/
theorem Stripped.take_iff (h : Stripped p l) {n : Nat} :
    Stripped p (l.take (n + 1)) ↔ ∀ a, l[n]? = some a → p a = false := by
  have hfirst : (l.take (n + 1)).head? = l.head? := by cases l <;> rfl
  by_cases hlength : n < l.length
  · have hlast : (l.take (n + 1)).getLast? = l[n]? := by
      rw [List.getLast?_take, if_neg n.succ_ne_zero, Nat.add_sub_cancel,
        List.getElem?_eq_getElem hlength]
      rfl
    exact ⟨fun hcut => hlast ▸ hcut.last, fun hcut => ⟨hfirst ▸ h.first, hlast ▸ hcut⟩⟩
  · have hle : l.length ≤ n := Nat.le_of_not_lt hlength
    rw [List.take_of_length_le (by omega), List.getElem?_eq_none hle]
    exact iff_of_true h nofun

end Strip
