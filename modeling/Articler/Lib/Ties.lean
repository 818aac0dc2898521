import Articler.Lib.Rows

/-! ORDER BY whose ties are ordered by a key of their own: the arrangement is then determined by
the rows and the order. -/
namespace Rows
variable {α : Type} {le le' : α → α → Bool} {tie : α → Int} {rows rows' : List α}

/-- Rows in order, and where the order leaves two open, by the key. -/
def Tied (le : α → α → Bool) (tie : α → Int) (rows : List α) : Prop :=
  rows.Pairwise fun a b => le a b = true ∧ (le b a = true → tie a ≤ tie b)

/-- Rows that are arranged by this order and have equal keys come by `tie`. -/
def OrderBy.TiesBy (o : OrderBy α) (le : α → α → Bool) (tie : α → Int) : Prop :=
  ∀ rows, Tied le tie (o.run le rows)

theorem Tied.eq_of_perm (h : Tied le tie rows) (h' : Tied le tie rows') (hu : UniqueBy tie rows)
    (hp : rows.Perm rows') : rows = rows' := by
  refine hp.eq_of_pairwise (fun a b ha hb hab hba => ?_) h h'
  have hkey : tie a = tie b := le_antisymm (hab.2 hba.1) (hba.2 hab.1)
  exact hu.eq_of_key ha (hp.mem_iff.mpr hb) hkey

theorem Tied.congr (h : Tied le tie rows) (hle : ∀ a ∈ rows, ∀ b ∈ rows, le a b = le' a b) :
    Tied le' tie rows := by
  refine List.Pairwise.imp_of_mem (fun {a b} ha hb hab => ?_) h
  rw [← hle a ha b hb, ← hle b hb a ha]
  exact hab

theorem Tied.sublist (h : Tied le tie rows) (hs : rows'.Sublist rows) : Tied le tie rows' :=
  List.Pairwise.sublist hs h

theorem OrderBy.run_congr {o : OrderBy α} (h : o.TiesBy le tie) (h' : o.TiesBy le' tie)
    (hu : UniqueBy tie rows) (hp : rows.Perm rows')
    (hle : ∀ a ∈ rows, ∀ b ∈ rows, le a b = le' a b) : o.run le rows = o.run le' rows' := by
  have hrun : (o.run le rows).Perm rows := o.perm le rows
  refine Tied.eq_of_perm ((h rows).congr fun a ha b hb => ?_) (h' rows') (hu.perm hrun)
    (hrun.trans (hp.trans (o.perm le' rows').symm))
  exact hle a (hrun.mem_iff.mp ha) b (hrun.mem_iff.mp hb)

/-- The order that asks for the key where `le` leaves two rows open. -/
def untie (le : α → α → Bool) (tie : α → Int) (a b : α) : Bool :=
  le a b && (!le b a || tie a ≤ tie b)

theorem untie_iff {a b : α} :
    untie le tie a b = true ↔ le a b = true ∧ (le b a = true → tie a ≤ tie b) := by
  cases hba : le b a <;> simp [untie, hba]

section orders
variable (htotal : ∀ a b, le a b = true ∨ le b a = true)
  (htrans : ∀ a b c, le a b = true → le b c = true → le a c = true)
include htotal htrans

theorem pairwise_untie (tie : α → Int) (rows : List α) :
    Tied le tie (rows.insertionSort fun a b => untie le tie a b = true) := by
  have : Std.Total fun a b => untie le tie a b = true := ⟨fun a b => by
    rw [untie_iff, untie_iff]
    have hab := htotal a b
    have htie := le_total (tie a) (tie b)
    tauto⟩
  have : IsTrans α fun a b => untie le tie a b = true := ⟨fun a b c hab hbc => by
    rw [untie_iff] at *
    refine ⟨htrans a b c hab.1 hbc.1, fun hca => ?_⟩
    exact (hab.2 (htrans b c a hbc.1 hca)).trans (hbc.2 (htrans c a b hca hab.1))⟩
  exact (List.pairwise_insertionSort _ rows).imp untie_iff.mp

end orders

/-- The planner that orders rows with equal keys by `tie`. -/
def OrderBy.tied (tie : α → Int) : OrderBy α where
  run le rows := rows.insertionSort fun a b => untie le tie a b = true
  perm _ rows := List.perm_insertionSort _ rows
  sorted _ rows htotal htrans := (pairwise_untie htotal htrans tie rows).imp And.left

theorem OrderBy.tied_tiesBy (htotal : ∀ a b, le a b = true ∨ le b a = true)
    (htrans : ∀ a b c, le a b = true → le b c = true → le a c = true) :
    (OrderBy.tied tie).TiesBy le tie := pairwise_untie htotal htrans tie

end Rows
