import Articler.Lib.Txn

/-! What a program with memory beside the store keeps of either. -/
namespace Txn
variable {μ σ ε α β : Type}

/-- The program keeps `M` of the memory and `D` of the store, whether it succeeds or not, and
a value it returns satisfies `Q`. -/
def Maintains (M : μ → Prop) (D : σ → Prop) (Q : α → Prop) (x : RunWith μ σ ε α) : Prop :=
  ∀ s, M s.1 → D s.2 → M (x s).2.1 ∧ D (x s).2.2 ∧ ∀ a, (x s).1 = .ok a → Q a

namespace Maintains
variable {M : μ → Prop} {D : σ → Prop} {Q : α → Prop} {P : β → Prop}

theorem pure {a : α} (ha : Q a) : Maintains M D Q (Pure.pure a : RunWith μ σ ε α) := by
  intro s hm hd
  refine ⟨hm, hd, fun b hb => ?_⟩
  cases hb
  exact ha

theorem fail (e : ε) : Maintains M D Q (Txn.fail e : RunWith μ σ ε α) :=
  fun _ hm hd => ⟨hm, hd, nofun⟩

theorem bind {x : RunWith μ σ ε α} {f : α → RunWith μ σ ε β} (hx : Maintains M D Q x)
    (hf : ∀ a, Q a → Maintains M D P (f a)) : Maintains M D P (x >>= f) := by
  intro s hm hd
  obtain ⟨hm', hd', hq⟩ := hx s hm hd
  rw [RunWith.run_bind]
  rcases hxs : x s with ⟨r, t⟩
  rw [hxs] at hm' hd' hq
  cases r with
  | error e => exact ⟨hm', hd', nofun⟩
  | ok a => exact hf a (hq a rfl) t hm' hd'

theorem ofExcept {r : Except ε α} (h : ∀ a, r = .ok a → Q a) :
    Maintains M D Q (Txn.ofExcept r : RunWith μ σ ε α) := by
  cases r with
  | ok a => exact pure (h a rfl)
  | error e => exact fail e

theorem query {f : σ → Except ε α} (h : ∀ s a, D s → f s = .ok a → Q a) :
    Maintains M D Q (Txn.query f : RunWith μ σ ε α) := by
  intro s hm hd
  rw [RunWith.run_query]
  exact ⟨hm, hd, fun a ha => h s.2 a hd ha⟩

theorem stmt {f : σ → Except ε (α × σ)} (h : ∀ s a t, D s → f s = .ok (a, t) → D t ∧ Q a) :
    Maintains M D Q (Txn.stmt f : RunWith μ σ ε α) := by
  rintro ⟨m, s⟩ hm hd
  rw [RunWith.run_stmt]
  cases hf : f s with
  | error e => exact ⟨hm, hd, nofun⟩
  | ok p =>
    obtain ⟨a, t⟩ := p
    obtain ⟨hd', hq⟩ := h s a t hd hf
    refine ⟨hm, hd', fun b hb => ?_⟩
    cases hb
    exact hq

theorem transaction {x : RunWith μ σ ε α} (hx : Maintains M D Q x) : Maintains M D Q (Txn.transaction x) := by
  intro s hm hd
  obtain ⟨hm', hd', hq⟩ := hx s hm hd
  dsimp only [Txn.transaction]
  rcases hxs : x s with ⟨r, t⟩
  rw [hxs] at hm' hd' hq
  cases r with
  | error e => exact ⟨hm', hd, nofun⟩
  | ok a => exact ⟨hm', hd', hq⟩

theorem modify {f : μ → μ} (h : ∀ m, M m → M (f m)) :
    Maintains M D (fun _ => True) (modify f : RunWith μ σ ε Unit) :=
  fun s hm hd => ⟨h s.1 hm, hd, fun _ _ => trivial⟩

theorem get : Maintains M D M (get : RunWith μ σ ε μ) := by
  intro s hm hd
  refine ⟨hm, hd, fun m h => ?_⟩
  cases h
  exact hm

end Maintains
end Txn
