import Mathlib.Data.List.Induction
import Mathlib.Data.List.Nodup
import Mathlib.Data.List.Perm.Basic
import Mathlib.Data.List.Sort

/-! Tables as lists of rows: unique keys, outer joins, ORDER BY with LIMIT and
OFFSET, and grouping by a key in order of first occurrence. -/
namespace Rows
variable {α β κ : Type}

/-- No two rows of the table share the key. -/
def UniqueBy (key : α → κ) (rows : List α) : Prop := (rows.map key).Nodup

namespace UniqueBy
variable {key : α → κ} {rows : List α}

theorem nil : UniqueBy key [] := List.nodup_nil

theorem filter (h : UniqueBy key rows) (p : α → Bool) : UniqueBy key (rows.filter p) :=
  h.sublist (List.filter_sublist.map key)

theorem concat (h : UniqueBy key rows) {a : α} (ha : ∀ b ∈ rows, key b ≠ key a) :
    UniqueBy key (rows ++ [a]) := by
  unfold UniqueBy
  rw [List.map_append, List.nodup_append]
  refine ⟨h, List.nodup_singleton _, ?_⟩
  intro k hk l hl
  obtain ⟨b, hb, rfl⟩ := List.mem_map.mp hk
  rw [List.mem_singleton.mp hl]
  exact ha b hb

theorem eq_of_key (h : UniqueBy key rows) {a b : α} (ha : a ∈ rows) (hb : b ∈ rows)
    (hk : key a = key b) : a = b := List.inj_on_of_nodup_map h ha hb hk

theorem find_of_key (h : UniqueBy key rows) {a : α} (ha : a ∈ rows) {p : α → Bool} (hp : p a = true)
    (honly : ∀ b, p b = true → key b = key a) : rows.find? p = some a := by
  cases hf : rows.find? p with
  | none => exact absurd hp (List.find?_eq_none.mp hf a ha)
  | some b =>
    rw [h.eq_of_key (List.mem_of_find?_eq_some hf) ha (honly b (List.find?_some hf))]

theorem nodup (h : UniqueBy key rows) : rows.Nodup := List.Nodup.of_map key h

theorem perm (h : UniqueBy key rows) {rows' : List α} (hp : rows'.Perm rows) :
    UniqueBy key rows' := (hp.map key).nodup_iff.mpr h

end UniqueBy

/-- INSERT … ON CONFLICT DO NOTHING into a table whose key is the whole row. -/
def addMissing [DecidableEq α] (new rows : List α) : List α :=
  new.foldl (fun rs r => if r ∈ rs then rs else rs ++ [r]) rows

section addMissing
variable [DecidableEq α] {new rows : List α}

theorem mem_addMissing {a : α} : a ∈ addMissing new rows ↔ a ∈ rows ∨ a ∈ new := by
  induction new generalizing rows with
  | nil => simp [addMissing]
  | cons r new ih =>
    have hstep : addMissing (r :: new) rows =
        addMissing new (if r ∈ rows then rows else rows ++ [r]) := rfl
    rw [hstep, ih]
    by_cases hr : r ∈ rows
    · simp only [hr, if_true, List.mem_cons]
      constructor
      · rintro (h | h)
        · exact .inl h
        · exact .inr (.inr h)
      · rintro (h | rfl | h)
        · exact .inl h
        · exact .inl hr
        · exact .inr h
    · simp [hr, or_assoc]

theorem addMissing_nodup (h : rows.Nodup) : (addMissing new rows).Nodup := by
  induction new generalizing rows with
  | nil => exact h
  | cons r new ih =>
    refine ih ?_
    dsimp only
    split
    · exact h
    · rename_i hr
      rw [List.nodup_append]
      refine ⟨h, List.nodup_singleton r, ?_⟩
      intro a ha b hb hab
      rw [List.mem_singleton.mp hb] at hab
      exact hr (hab ▸ ha)

theorem filter_addMissing {p : α → Bool} (hp : ∀ r ∈ new, p r = false) :
    (addMissing new rows).filter p = rows.filter p := by
  induction new generalizing rows with
  | nil => rfl
  | cons r new ih =>
    have hstep : addMissing (r :: new) rows =
        addMissing new (if r ∈ rows then rows else rows ++ [r]) := rfl
    rw [hstep, ih fun s hs => hp s (List.mem_cons_of_mem r hs)]
    split
    · rfl
    · simp [List.filter_append, hp r List.mem_cons_self]

end addMissing

/-- UPDATE: rewrite the rows that match; the first row that cannot be written fails
the statement. -/
def updateWhere {ε : Type} (p : α → Bool) (f : α → Except ε α) : List α → Except ε (List α)
  | [] => .ok []
  | a :: rows =>
    match if p a then f a else .ok a with
    | .error e => .error e
    | .ok a' =>
      match updateWhere p f rows with
      | .error e => .error e
      | .ok rows' => .ok (a' :: rows')

theorem updateWhere_ok {ε : Type} {p : α → Bool} {f : α → Except ε α} {rows rows' : List α}
    (h : updateWhere p f rows = .ok rows') :
    List.Forall₂ (fun a a' => (if p a then f a else .ok a) = .ok a') rows rows' := by
  induction rows generalizing rows' with
  | nil =>
    cases h
    exact .nil
  | cons a rows ih =>
    rw [updateWhere] at h
    cases hf : if p a then f a else .ok a with
    | error e =>
      rw [hf] at h
      cases h
    | ok a' =>
      rw [hf] at h
      cases hr : updateWhere p f rows with
      | error e =>
        rw [hr] at h
        cases h
      | ok rest =>
        rw [hr] at h
        cases h
        exact .cons hf (ih hr)

theorem updateWhere_isOk {ε : Type} {p : α → Bool} {f : α → Except ε α} {rows : List α} :
    (∃ rows', updateWhere p f rows = .ok rows') ↔ ∀ a ∈ rows, p a = true → ∃ a', f a = .ok a' := by
  induction rows with
  | nil => simp [updateWhere]
  | cons a rows ih =>
    rw [List.forall_mem_cons, ← ih, updateWhere]
    cases hp : p a with
    | false => cases updateWhere p f rows <;> simp
    | true => cases f a <;> cases updateWhere p f rows <;> simp

theorem updateWhere_none {ε : Type} {p : α → Bool} {f : α → Except ε α} {rows : List α}
    (h : ∀ a ∈ rows, p a = false) : updateWhere p f rows = .ok rows := by
  induction rows with
  | nil => rfl
  | cons a rows ih =>
    rw [updateWhere, h a List.mem_cons_self, ih fun b hb => h b (List.mem_cons_of_mem a hb)]
    rfl

theorem updated_perm {ε : Type} {p : α → Bool} {f : α → Except ε α} {rows rows' : List α}
    (h : List.Forall₂ (fun a a' => (if p a then f a else .ok a) = .ok a') rows rows') :
    (((rows.zip rows').filter fun c => p c.1).map Prod.fst ++
        rows.filter fun a => !p a).Perm rows ∧
      (((rows.zip rows').filter fun c => p c.1).map Prod.snd ++
        rows.filter fun a => !p a).Perm rows' ∧
      ∀ c ∈ (rows.zip rows').filter fun c => p c.1, f c.1 = .ok c.2 := by
  induction h with
  | nil => simp
  | @cons a a' rows rows' hr _ ih =>
    obtain ⟨h1, h2, h3⟩ := ih
    by_cases hp : p a = true
    · rw [if_pos hp] at hr
      simp only [List.zip_cons_cons, hp, List.filter_cons_of_pos, List.map_cons, List.cons_append,
        Bool.not_true, Bool.false_eq_true, not_false_eq_true, List.filter_cons_of_neg,
        List.mem_cons, forall_eq_or_imp]
      exact ⟨h1.cons a, h2.cons a', hr, h3⟩
    · rw [if_neg hp] at hr
      cases hr
      rw [Bool.not_eq_true] at hp
      simp only [List.zip_cons_cons, hp, Bool.false_eq_true, not_false_eq_true,
        List.filter_cons_of_neg, Bool.not_false, List.filter_cons_of_pos]
      exact ⟨List.perm_middle.trans (h1.cons a), List.perm_middle.trans (h2.cons a), h3⟩

theorem map_eq_of_forall₂ {γ : Type} {R : α → α → Prop} {g : α → γ}
    (hg : ∀ a a', R a a' → g a' = g a) {rows rows' : List α} (h : List.Forall₂ R rows rows') :
    rows'.map g = rows.map g := by
  induction h with
  | nil => rfl
  | cons hr _ ih => rw [List.map_cons, List.map_cons, hg _ _ hr, ih]

theorem filter_updated {R : α → α → Prop} {q : α → Bool}
    (hq : ∀ a a', R a a' → q a' = q a ∧ (q a = true → a' = a)) {rows rows' : List α}
    (h : List.Forall₂ R rows rows') : rows'.filter q = rows.filter q := by
  induction h with
  | nil => rfl
  | cons hr _ ih =>
    obtain ⟨h1, h2⟩ := hq _ _ hr
    rw [List.filter_cons, List.filter_cons, ih, h1]
    split
    · rename_i hqa
      rw [h2 hqa]
    · rfl

theorem exists_old {R : α → β → Prop} {rows : List α} {rows' : List β}
    (h : List.Forall₂ R rows rows') {a' : β} (ha : a' ∈ rows') : ∃ a ∈ rows, R a a' := by
  induction h with
  | nil => simp at ha
  | cons hr _ ih =>
    rcases List.mem_cons.mp ha with rfl | ha
    · exact ⟨_, List.mem_cons_self, hr⟩
    · obtain ⟨a, hm, hra⟩ := ih ha
      exact ⟨a, List.mem_cons_of_mem _ hm, hra⟩

theorem exists_new {R : α → β → Prop} {rows : List α} {rows' : List β}
    (h : List.Forall₂ R rows rows') {a : α} (ha : a ∈ rows) : ∃ a' ∈ rows', R a a' :=
  exists_old (R := flip R) h.flip ha

/-- The right rows a left row meets, or a single row of NULLs. -/
def partners (on : α → β → Bool) (right : List β) (a : α) : List (Option β) :=
  if right.any (on a) then (right.filter (on a)).map some else [none]

def leftJoin (on : α → β → Bool) (left : List α) (right : List β) : List (α × Option β) :=
  left.flatMap fun a => (partners on right a).map fun b => (a, b)

theorem mem_leftJoin {on : α → β → Bool} {left : List α} {right : List β} {a : α}
    {b : Option β} : (a, b) ∈ leftJoin on left right ↔ a ∈ left ∧ b ∈ partners on right a := by
  simp [leftJoin]

theorem some_mem_partners {on : α → β → Bool} {right : List β} {a : α} {b : β} :
    some b ∈ partners on right a ↔ b ∈ right ∧ on a b = true := by
  unfold partners
  split
  · simp
  · rename_i h
    simp only [List.mem_singleton, reduceCtorEq, false_iff]
    rintro ⟨hb, hab⟩
    exact h (List.any_eq_true.mpr ⟨b, hb, hab⟩)

theorem none_mem_partners {on : α → β → Bool} {right : List β} {a : α} :
    none ∈ partners on right a ↔ ∀ b ∈ right, on a b = false := by
  unfold partners
  split
  · rename_i h
    obtain ⟨b, hb, hab⟩ := List.any_eq_true.mp h
    simp only [List.mem_map, reduceCtorEq, and_false, exists_false, false_iff]
    intro hall
    simp [hall b hb] at hab
  · rename_i h
    simpa using h

theorem partners_ne_nil (on : α → β → Bool) (right : List β) (a : α) :
    partners on right a ≠ [] := by
  unfold partners
  split
  · rename_i h
    obtain ⟨b, hb, hab⟩ := List.any_eq_true.mp h
    simp only [ne_eq, List.map_eq_nil_iff, List.filter_eq_nil_iff, not_forall]
    exact ⟨b, hb, by simp [hab]⟩
  · simp

/-- What a planner may do for ORDER BY: any arrangement of the rows that respects
the keys. Rows with equal keys come as the planner likes. -/
structure OrderBy (α : Type) where
  run : (α → α → Bool) → List α → List α
  perm : ∀ le rows, (run le rows).Perm rows
  sorted : ∀ le rows, (∀ a b, le a b = true ∨ le b a = true) →
    (∀ a b c, le a b = true → le b c = true → le a c = true) →
    (run le rows).Pairwise fun a b => le a b = true

/-- The planner that keeps rows with equal keys as they were. -/
def OrderBy.stable (α : Type) : OrderBy α where
  run le rows := rows.insertionSort fun a b => le a b = true
  perm _ rows := List.perm_insertionSort _ rows
  sorted le rows htotal htrans := by
    have : Std.Total fun a b => le a b = true := ⟨htotal⟩
    have : IsTrans α fun a b => le a b = true := ⟨htrans⟩
    exact List.pairwise_insertionSort _ rows

/-- LIMIT and OFFSET: a negative limit is none, a negative offset is zero. -/
def limitOffset (limit : Option Int) (offset : Int) (rows : List α) : List α :=
  match limit with
  | none => rows
  | some n => if n < 0 then rows.drop offset.toNat else (rows.drop offset.toNat).take n.toNat

theorem limitOffset_sublist (limit : Option Int) (offset : Int) (rows : List α) :
    (limitOffset limit offset rows).Sublist rows := by
  unfold limitOffset
  split
  · exact List.Sublist.refl _
  · split
    · exact List.drop_sublist _ _
    · exact (List.take_sublist _ _).trans (List.drop_sublist _ _)

section grouping
variable [DecidableEq κ]

/-- Append a row to the group of its key, opening the group at the end if new. -/
def pushRow (k : κ) (r : α) : List (κ × List α) → List (κ × List α)
  | [] => [(k, [r])]
  | g :: gs => if g.1 = k then (g.1, g.2 ++ [r]) :: gs else g :: pushRow k r gs

/-- Group rows by key, groups in order of their first row. -/
def groupRows (key : α → κ) (rows : List α) : List (κ × List α) :=
  rows.foldl (fun gs r => pushRow (key r) r gs) []

/-- The first row of each group, in the order the groups were opened. -/
def leaders (key : α → κ) (rows : List α) : List α :=
  rows.foldl (fun ls r => if key r ∈ ls.map key then ls else ls ++ [r]) []

theorem leaders_snoc (key : α → κ) (rows : List α) (r : α) :
    leaders key (rows ++ [r]) =
      if key r ∈ (leaders key rows).map key then leaders key rows else leaders key rows ++ [r] := by
  simp [leaders]

theorem leaders_sublist (key : α → κ) (rows : List α) : (leaders key rows).Sublist rows := by
  induction rows using List.reverseRecOn with
  | nil => exact List.Sublist.refl _
  | append_singleton rows r ih =>
    rw [leaders_snoc]
    split
    · exact ih.trans (List.sublist_append_left _ _)
    · exact ih.append (List.Sublist.refl _)

theorem leaders_unique (key : α → κ) (rows : List α) : UniqueBy key (leaders key rows) := by
  induction rows using List.reverseRecOn with
  | nil => exact UniqueBy.nil
  | append_singleton rows r ih =>
    rw [leaders_snoc]
    split
    · exact ih
    · rename_i h
      exact ih.concat fun b hb hk => h (List.mem_map.mpr ⟨b, hb, hk⟩)

theorem exists_leader (key : α → κ) {rows : List α} {r : α} (hr : r ∈ rows) :
    ∃ l ∈ leaders key rows, key l = key r := by
  induction rows using List.reverseRecOn with
  | nil => simp at hr
  | append_singleton rows s ih =>
    rw [leaders_snoc]
    split
    · rename_i h
      rcases List.mem_append.mp hr with hr | hr
      · exact ih hr
      · rw [List.mem_singleton.mp hr]
        exact List.mem_map.mp h
    · rcases List.mem_append.mp hr with hr | hr
      · obtain ⟨l, hl, hk⟩ := ih hr
        exact ⟨l, List.mem_append_left _ hl, hk⟩
      · exact ⟨r, List.mem_append_right _ hr, rfl⟩

theorem mem_of_leader {key : α → κ} {rows : List α} {l : α} (hl : l ∈ leaders key rows) :
    l ∈ rows := (leaders_sublist key rows).subset hl

/-- A group starts with its leader. -/
theorem group_head (key : α → κ) {rows : List α} {l : α} (hl : l ∈ leaders key rows) :
    (rows.filter fun r => key r = key l).head? = some l := by
  induction rows using List.reverseRecOn with
  | nil => simp [leaders] at hl
  | append_singleton rows r ih =>
    have hold : l ∈ leaders key rows →
        ((rows ++ [r]).filter fun s => key s = key l).head? = some l := by
      intro h
      rw [List.filter_append, List.head?_append, ih h]
      rfl
    rw [leaders_snoc] at hl
    split at hl
    · exact hold hl
    · rename_i hnew
      rcases List.mem_append.mp hl with hl | hl
      · exact hold hl
      · have hlr : l = r := List.mem_singleton.mp hl
        subst hlr
        have hnone : rows.filter (fun s => key s = key l) = [] := by
          rw [List.filter_eq_nil_iff]
          intro s hs hk
          obtain ⟨m, hm, hmk⟩ := exists_leader key hs
          exact hnew (List.mem_map.mpr ⟨m, hm, hmk.trans (of_decide_eq_true hk)⟩)
        simp [hnone]

theorem pushRow_map (key : α → κ) (k : κ) (r : α) (ls : List α) (hn : UniqueBy key ls)
    (F : α → List α) :
    pushRow k r (ls.map fun l => (key l, F l)) =
      if k ∈ ls.map key then ls.map fun l => (key l, if key l = k then F l ++ [r] else F l)
      else ls.map (fun l => (key l, F l)) ++ [(k, [r])] := by
  induction ls with
  | nil => simp [pushRow]
  | cons l ls ih =>
    obtain ⟨hl, hns⟩ : (∀ m ∈ ls, key m ≠ key l) ∧ UniqueBy key ls := by
      simpa [UniqueBy] using hn
    by_cases hk : key l = k
    · subst hk
      have hrest : ls.map (fun m => (key m, if key m = key l then F m ++ [r] else F m)) =
          ls.map fun m => (key m, F m) :=
        List.map_congr_left fun m hm => by simp [hl m hm]
      simp [pushRow, hrest]
    · simp only [List.map_cons, pushRow, hk, if_false, ih hns, List.mem_cons, Ne.symm hk, false_or]
      split <;> rfl

theorem groupRows_map (key : β → κ) (f : α → β) (rows : List α) :
    groupRows key (rows.map f) =
      (groupRows (fun a => key (f a)) rows).map fun g => (g.1, g.2.map f) := by
  have hpush (k : κ) (r : α) (gs : List (κ × List α)) :
      pushRow k (f r) (gs.map fun g => (g.1, g.2.map f)) =
        (pushRow k r gs).map fun g => (g.1, g.2.map f) := by
    induction gs with
    | nil => rfl
    | cons g gs ih =>
      simp only [List.map_cons, pushRow]
      split
      · simp
      · rw [ih, List.map_cons]
  induction rows using List.reverseRecOn with
  | nil => rfl
  | append_singleton rows r ih =>
    simp only [groupRows, List.map_append, List.map_cons, List.map_nil, List.foldl_append,
      List.foldl_cons, List.foldl_nil] at ih ⊢
    rw [ih, hpush]

/-- Grouping collects, for every leader, all rows with its key. -/
theorem groupRows_eq (key : α → κ) (rows : List α) :
    groupRows key rows =
      (leaders key rows).map fun l => (key l, rows.filter fun r => key r = key l) := by
  induction rows using List.reverseRecOn with
  | nil => rfl
  | append_singleton rows r ih =>
    have hstep : groupRows key (rows ++ [r]) = pushRow (key r) r (groupRows key rows) := by
      simp [groupRows]
    rw [hstep, ih, pushRow_map key _ _ _ (leaders_unique key rows), leaders_snoc]
    split
    · refine List.map_congr_left fun l _ => ?_
      by_cases hk : key l = key r
      · simp [hk, List.filter_append]
      · simp [hk, Ne.symm hk, List.filter_append]
    · rename_i hnew
      have hnone : ∀ s ∈ rows, key s ≠ key r := by
        intro s hs hk
        obtain ⟨m, hm, hmk⟩ := exists_leader key hs
        exact hnew (List.mem_map.mpr ⟨m, hm, hmk.trans hk⟩)
      have hrows : rows.filter (fun s => key s = key r) = [] := by
        rw [List.filter_eq_nil_iff]
        intro s hs
        simpa using hnone s hs
      rw [List.map_append]
      congr 1
      · refine List.map_congr_left fun l hl => ?_
        simp [Ne.symm (hnone l (mem_of_leader hl)), List.filter_append]
      · simp [List.filter_append, hrows]

end grouping
end Rows
