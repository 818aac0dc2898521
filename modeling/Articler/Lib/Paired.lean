import Articler.Lib.Txn

/-! A program run on two stores that look the same: the outcome is the same, and the stores
look the same afterwards. -/
namespace Txn
variable {μ σ ε α β : Type}

/-- The outcome is the same from these two stores. -/
def SameOutcome (R : σ → σ → Prop) (x : Run σ ε α) (s t : σ) : Prop :=
  (x s).1 = (x t).1 ∧ R (x s).2 (x t).2

/-- The outcome is the same from any two stores that look the same. -/
def Paired (R : σ → σ → Prop) (x : Run σ ε α) : Prop := ∀ s t, R s t → SameOutcome R x s t

/-- Two outcomes of a statement: the same error, or the same value and stores in `R`. -/
inductive Alike (R : σ → σ → Prop) : Except ε (α × σ) → Except ε (α × σ) → Prop where
  | error (e : ε) : Alike R (.error e) (.error e)
  | ok (a : α) {s t : σ} (h : R s t) : Alike R (.ok (a, s)) (.ok (a, t))

namespace SameOutcome
variable {R : σ → σ → Prop} {s t : σ}

theorem bind {x : Run σ ε α} {f : α → Run σ ε β} (hx : SameOutcome R x s t)
    (hf : ∀ a s' t', x s = (.ok a, s') → x t = (.ok a, t') → R s' t' → SameOutcome R (f a) s' t') :
    SameOutcome R (x >>= f) s t := by
  obtain ⟨hsame, hr⟩ := hx
  unfold SameOutcome
  rw [run_bind, run_bind]
  rcases hs : x s with ⟨r, s'⟩
  rcases ht : x t with ⟨r', t'⟩
  rw [hs, ht] at hsame hr
  dsimp only at hsame
  subst hsame
  cases r with
  | error e => exact ⟨rfl, hr⟩
  | ok a => exact hf a s' t' hs ht hr

theorem transaction {x : Run σ ε α} (hr : R s t) (hx : SameOutcome R x s t) :
    SameOutcome R (Txn.transaction x) s t := by
  obtain ⟨hsame, hr'⟩ := hx
  unfold SameOutcome
  rw [run_transaction, run_transaction]
  rcases hs : x s with ⟨r, s'⟩
  rcases ht : x t with ⟨r', t'⟩
  rw [hs, ht] at hsame hr'
  dsimp only at hsame
  subst hsame
  cases r with
  | error e => exact ⟨rfl, hr⟩
  | ok a => exact ⟨rfl, hr'⟩

theorem query {f : σ → Except ε α} (hr : R s t) (h : f s = f t) :
    SameOutcome R (Txn.query f : Run σ ε α) s t := by
  unfold SameOutcome
  rw [run_query, run_query]
  exact ⟨h, hr⟩

end SameOutcome

namespace Paired
variable {R : σ → σ → Prop}

theorem pure (a : α) : Paired R (Pure.pure a : Run σ ε α) := fun _ _ h => ⟨rfl, h⟩

theorem fail (e : ε) : Paired R (Txn.fail e : Run σ ε α) := fun _ _ h => ⟨rfl, h⟩

theorem ofExcept (r : Except ε α) : Paired R (Txn.ofExcept r : Run σ ε α) := by
  cases r with
  | ok a => exact pure a
  | error e => exact fail e

theorem stmt {f : σ → Except ε (α × σ)} (h : ∀ s t, R s t → Alike R (f s) (f t)) :
    Paired R (Txn.stmt f : Run σ ε α) := by
  intro s t hr
  have halike := h s t hr
  unfold SameOutcome
  rw [run_stmt, run_stmt]
  generalize f s = r, f t = r' at halike
  cases halike with
  | error e => exact ⟨rfl, hr⟩
  | ok a h => exact ⟨rfl, h⟩

theorem query {f : σ → Except ε α} (h : ∀ s t, R s t → f s = f t) :
    Paired R (Txn.query f : Run σ ε α) := fun s t hr => .query hr (h s t hr)

theorem bind {x : Run σ ε α} {f : α → Run σ ε β} (hx : Paired R x) (hf : ∀ a, Paired R (f a)) :
    Paired R (x >>= f) := fun s t hr => (hx s t hr).bind fun a s' t' _ _ hr' => hf a s' t' hr'

theorem transaction {x : Run σ ε α} (hx : Paired R x) :
    Paired R (Txn.transaction x : Run σ ε α) := fun s t hr => (hx s t hr).transaction hr

end Paired

/-- With memory beside the store: the memory is the same on both sides, before and after. -/
def PairedWith (R : σ → σ → Prop) (x : RunWith μ σ ε α) : Prop :=
  ∀ m s t, R s t → (x (m, s)).1 = (x (m, t)).1 ∧ (x (m, s)).2.1 = (x (m, t)).2.1 ∧
    R (x (m, s)).2.2 (x (m, t)).2.2

namespace PairedWith
variable {R : σ → σ → Prop}

theorem pure (a : α) : PairedWith R (Pure.pure a : RunWith μ σ ε α) :=
  fun _ _ _ h => ⟨rfl, rfl, h⟩

theorem fail (e : ε) : PairedWith R (Txn.fail e : RunWith μ σ ε α) := fun _ _ _ h => ⟨rfl, rfl, h⟩

theorem ofExcept (r : Except ε α) : PairedWith R (Txn.ofExcept r : RunWith μ σ ε α) := by
  cases r with
  | ok a => exact pure a
  | error e => exact fail e

theorem stmt {f : σ → Except ε (α × σ)} (h : ∀ s t, R s t → Alike R (f s) (f t)) :
    PairedWith R (Txn.stmt f : RunWith μ σ ε α) := by
  intro m s t hr
  have halike := h s t hr
  rw [RunWith.run_stmt, RunWith.run_stmt]
  generalize f s = r, f t = r' at halike
  cases halike with
  | error e => exact ⟨rfl, rfl, hr⟩
  | ok a h => exact ⟨rfl, rfl, h⟩

theorem query {f : σ → Except ε α} (h : ∀ s t, R s t → f s = f t) :
    PairedWith R (Txn.query f : RunWith μ σ ε α) := by
  intro m s t hr
  rw [RunWith.run_query, RunWith.run_query]
  exact ⟨h s t hr, rfl, hr⟩

theorem get : PairedWith R (get : RunWith μ σ ε μ) := fun _ _ _ h => ⟨rfl, rfl, h⟩

theorem modify (f : μ → μ) : PairedWith R (modify f : RunWith μ σ ε Unit) :=
  fun _ _ _ h => ⟨rfl, rfl, h⟩

theorem bind {x : RunWith μ σ ε α} {f : α → RunWith μ σ ε β} (hx : PairedWith R x)
    (hf : ∀ a, PairedWith R (f a)) : PairedWith R (x >>= f) := by
  intro m s t hr
  obtain ⟨hsame, hmemory, hr'⟩ := hx m s t hr
  rw [RunWith.run_bind, RunWith.run_bind]
  rcases hs : x (m, s) with ⟨r, n, s'⟩
  rcases ht : x (m, t) with ⟨r', n', t'⟩
  rw [hs, ht] at hsame hmemory hr'
  dsimp only at hsame hmemory
  subst hsame hmemory
  cases r with
  | error e => exact ⟨rfl, rfl, hr'⟩
  | ok a => exact hf a n s' t' hr'

theorem transaction {x : RunWith μ σ ε α} (hx : PairedWith R x) :
    PairedWith R (Txn.transaction x) := by
  intro m s t hr
  obtain ⟨hsame, hmemory, hr'⟩ := hx m s t hr
  dsimp only [Txn.transaction]
  rcases hs : x (m, s) with ⟨r, n, s'⟩
  rcases ht : x (m, t) with ⟨r', n', t'⟩
  rw [hs, ht] at hsame hmemory hr'
  dsimp only at hsame hmemory
  subst hsame hmemory
  cases r with
  | error e => exact ⟨rfl, rfl, hr⟩
  | ok a => exact ⟨rfl, rfl, hr'⟩

end PairedWith
end Txn
