import Mathlib.Logic.Relation

/-! Programs that issue statements to a store. A program is written once over
`Acquire`; the monad chosen for it says how statements run and fail. -/
namespace Txn
variable {σ ε α β : Type}

/-- What a connection offers: one statement, which succeeds as a whole or leaves
the store alone; a transaction around a block; giving up with an error, and looking at
how a block ends instead of giving up with it. -/
class Acquire (σ ε : outParam Type) (m : Type → Type) extends Monad m where
  fail {α : Type} : ε → m α
  stmt {α : Type} : (σ → Except ε (α × σ)) → m α
  transaction {α : Type} : m α → m α
  attempt {α : Type} : m α → m (Except ε α)

export Acquire (fail stmt transaction attempt)

/-- A statement that only reads. -/
def query {m : Type → Type} [Acquire σ ε m] (f : σ → Except ε α) : m α :=
  stmt fun s => (f s).map fun a => (a, s)

/-- Continue with the value, or give up with the error. -/
def ofExcept {m : Type → Type} [Acquire σ ε m] : Except ε α → m α
  | .ok a => pure a
  | .error e => fail e

/-- A program run from start to end with the store to itself. Outside of a
transaction the statements before an error stay done. -/
def Run (σ ε α : Type) : Type := σ → Except ε α × σ

instance : Acquire σ ε (Run σ ε) where
  pure a s := (.ok a, s)
  bind x f s := match x s with
    | (.ok a, t) => f a t
    | (.error e, t) => (.error e, t)
  fail e s := (.error e, s)
  stmt f s := match f s with
    | .ok (a, t) => (.ok a, t)
    | .error e => (.error e, s)
  transaction x s := match x s with
    | (.ok a, t) => (.ok a, t)
    | (.error e, _) => (.error e, s)
  attempt x s := (.ok (x s).1, (x s).2)

@[simp] theorem run_pure (a : α) (s : σ) : (pure a : Run σ ε α) s = (.ok a, s) := rfl

@[simp] theorem run_fail (e : ε) (s : σ) : (fail e : Run σ ε α) s = (.error e, s) := rfl

theorem run_bind (x : Run σ ε α) (f : α → Run σ ε β) (s : σ) :
    (x >>= f) s = match x s with
      | (.ok a, t) => f a t
      | (.error e, t) => (.error e, t) := rfl

theorem run_stmt (f : σ → Except ε (α × σ)) (s : σ) :
    (stmt f : Run σ ε α) s = match f s with
      | .ok (a, t) => (.ok a, t)
      | .error e => (.error e, s) := rfl

theorem stmt_ok_iff {f : σ → Except ε (α × σ)} {s t : σ} {a : α} :
    (stmt f : Run σ ε α) s = (.ok a, t) ↔ f s = .ok (a, t) := by
  rw [run_stmt]
  cases f s <;> simp [Prod.ext_iff]

theorem run_transaction (x : Run σ ε α) (s : σ) :
    (transaction x : Run σ ε α) s = match x s with
      | (.ok a, t) => (.ok a, t)
      | (.error e, _) => (.error e, s) := rfl

@[simp] theorem run_query (f : σ → Except ε α) (s : σ) : (query f : Run σ ε α) s = (f s, s) := by
  simp only [query, run_stmt]
  cases f s <;> rfl

@[simp] theorem run_ofExcept (r : Except ε α) (s : σ) : (ofExcept r : Run σ ε α) s = (r, s) := by
  cases r <;> rfl

theorem query_ok_iff {f : σ → Except ε α} {s t : σ} {a : α} :
    (query f : Run σ ε α) s = (.ok a, t) ↔ f s = .ok a ∧ s = t := by
  rw [run_query, Prod.mk.injEq]

theorem ofExcept_ok_iff {r : Except ε α} {s t : σ} {a : α} :
    (ofExcept r : Run σ ε α) s = (.ok a, t) ↔ r = .ok a ∧ s = t := by
  rw [run_ofExcept, Prod.mk.injEq]

theorem run_bind_ok {x : Run σ ε α} {f : α → Run σ ε β} {s t : σ} {a : α}
    (h : x s = (.ok a, t)) : (x >>= f) s = f a t := by
  rw [run_bind, h]

theorem bind_ok_inv {x : Run σ ε α} {f : α → Run σ ε β} {s t : σ} {b : β}
    (h : (x >>= f) s = (.ok b, t)) : ∃ a u, x s = (.ok a, u) ∧ f a u = (.ok b, t) := by
  rw [run_bind] at h
  rcases hx : x s with ⟨r, u⟩
  rw [hx] at h
  cases r with
  | ok a => exact ⟨a, u, rfl, h⟩
  | error e => simp at h

theorem run_discard (x : Run σ ε α) (b : β) (s : σ) :
    ((x >>= fun _ => (pure b : Run σ ε β)) s).2 = (x s).2 := by
  rw [run_bind]
  rcases x s with ⟨_ | _, t⟩ <;> rfl

theorem mapped_ok {x : Run σ ε α} {f : α → β} {b : β} {s t : σ}
    (h : (x >>= fun a => (pure (f a) : Run σ ε β)) s = (.ok b, t)) : ∃ a, x s = (.ok a, t) := by
  obtain ⟨a, u, hx, hpure⟩ := bind_ok_inv h
  obtain rfl : u = t := (Prod.mk.inj hpure).2
  exact ⟨a, hx⟩

theorem transaction_ok_iff {x : Run σ ε α} {s t : σ} {a : α} :
    (transaction x : Run σ ε α) s = (.ok a, t) ↔ x s = (.ok a, t) := by
  rw [run_transaction]
  rcases x s with ⟨_ | _, u⟩ <;> simp

/-- A transaction that fails leaves the store as it found it. -/
theorem transaction_error {x : Run σ ε α} {s : σ} {e : ε}
    (h : ((transaction x : Run σ ε α) s).1 = .error e) :
    ((transaction x : Run σ ε α) s).2 = s := by
  rw [run_transaction] at h ⊢
  rcases hx : x s with ⟨r, u⟩
  rw [hx] at h
  cases r with
  | ok a => cases h
  | error e' => rfl

/-- From a state with `I` the program keeps `I`, moves the store along `R`, and
a value it returns satisfies `Q`. Errors are covered: they move along `R` too. -/
def Obeys (I : σ → Prop) (R : σ → σ → Prop) (Q : α → Prop) (x : Run σ ε α) : Prop :=
  ∀ s, I s → I (x s).2 ∧ R s (x s).2 ∧ ∀ a, (x s).1 = .ok a → Q a

namespace Obeys
variable {I : σ → Prop} {R : σ → σ → Prop} {Q : α → Prop} {P : β → Prop}

theorem mono {Q' : α → Prop} {x : Run σ ε α} (hx : Obeys I R Q x) (hq : ∀ a, Q a → Q' a) :
    Obeys I R Q' x := by
  intro s hs
  obtain ⟨hi, hr, hpost⟩ := hx s hs
  exact ⟨hi, hr, fun a ha => hq a (hpost a ha)⟩

theorem pure (hrefl : ∀ s, R s s) {a : α} (ha : Q a) : Obeys I R Q (Pure.pure a : Run σ ε α) := by
  intro s hs
  refine ⟨hs, hrefl s, ?_⟩
  intro b hb
  cases hb
  exact ha

theorem fail (hrefl : ∀ s, R s s) (e : ε) : Obeys I R Q (Txn.fail e : Run σ ε α) :=
  fun s hs => ⟨hs, hrefl s, by simp⟩

theorem query (hrefl : ∀ s, R s s) {f : σ → Except ε α}
    (hf : ∀ s a, I s → f s = .ok a → Q a) : Obeys I R Q (Txn.query f : Run σ ε α) := by
  intro s hs
  simp only [run_query]
  exact ⟨hs, hrefl s, fun a ha => hf s a hs ha⟩

theorem ofExcept (hrefl : ∀ s, R s s) (r : Except ε α) :
    Obeys I R (fun _ => True) (Txn.ofExcept r : Run σ ε α) := by
  cases r with
  | ok a => exact pure hrefl trivial
  | error e => exact fail hrefl e

theorem stmt (hrefl : ∀ s, R s s) {f : σ → Except ε (α × σ)}
    (hf : ∀ s a t, I s → f s = .ok (a, t) → I t ∧ R s t ∧ Q a) :
    Obeys I R Q (Txn.stmt f : Run σ ε α) := by
  intro s hs
  rw [run_stmt]
  cases h : f s with
  | error e => exact ⟨hs, hrefl s, by simp⟩
  | ok p =>
    obtain ⟨a, t⟩ := p
    obtain ⟨hi, hr, hq⟩ := hf s a t hs h
    exact ⟨hi, hr, by simpa using hq⟩

theorem bind (htrans : ∀ s t u, R s t → R t u → R s u) {x : Run σ ε α} {f : α → Run σ ε β}
    (hx : Obeys I R Q x) (hf : ∀ a, Q a → Obeys I R P (f a)) : Obeys I R P (x >>= f) := by
  intro s hs
  obtain ⟨hi, hr, hq⟩ := hx s hs
  rw [run_bind]
  rcases hxs : x s with ⟨r, t⟩
  rw [hxs] at hi hr hq
  cases r with
  | error e => exact ⟨hi, hr, by simp⟩
  | ok a =>
    obtain ⟨hi', hr', hp⟩ := hf a (hq a rfl) t hi
    exact ⟨hi', htrans _ _ _ hr hr', hp⟩

theorem given (hrefl : ∀ s, R s s) {r : Except ε α} {f : α → Run σ ε β}
    (hf : ∀ a, r = .ok a → Obeys I R P (f a)) : Obeys I R P (Txn.ofExcept r >>= f) := by
  cases r with
  | ok a => exact hf a rfl
  | error e => exact fail hrefl e

theorem transaction (hrefl : ∀ s, R s s) {x : Run σ ε α} (hx : Obeys I R Q x) :
    Obeys I R Q (Txn.transaction x : Run σ ε α) := by
  intro s hs
  obtain ⟨hi, hr, hq⟩ := hx s hs
  rw [run_transaction]
  rcases hxs : x s with ⟨r, t⟩
  rw [hxs] at hi hr hq
  cases r with
  | error e => exact ⟨hs, hrefl s, by simp⟩
  | ok a => exact ⟨hi, hr, hq⟩

end Obeys

/-- A program put together from statements that move the store along `G`, in whatever
monad it is read. -/
inductive Built {m : Type → Type} [Acquire σ ε m] (G : σ → σ → Prop) : {α : Type} → m α → Prop
    where
  | pure {α : Type} (a : α) : Built G (Pure.pure a : m α)
  | fail {α : Type} (e : ε) : Built G (Txn.fail e : m α)
  | stmt {α : Type} {f : σ → Except ε (α × σ)} (hf : ∀ s a t, f s = .ok (a, t) → G s t) :
      Built G (Txn.stmt f : m α)
  | bind {α β : Type} {x : m α} {f : α → m β} (hx : Built G x) (hf : ∀ a, Built G (f a)) :
      Built G (x >>= f)
  /-- What follows a result knows what the result is. -/
  | given {α β : Type} {r : Except ε α} {f : α → m β} (hf : ∀ a, r = .ok a → Built G (f a)) :
      Built G (Txn.ofExcept r >>= f)
  | transaction {α : Type} {x : m α} (hx : Built G x) : Built G (Txn.transaction x)

namespace Built
variable {m : Type → Type} [Acquire σ ε m] {G H : σ → σ → Prop}

theorem query (hrefl : ∀ s, G s s) (f : σ → Except ε α) : Built G (Txn.query f : m α) := by
  refine .stmt fun s a t h => ?_
  cases hf : f s with
  | error e => simp [hf, Except.map] at h
  | ok b =>
    simp only [hf, Except.map, Except.ok.injEq, Prod.mk.injEq] at h
    exact h.2 ▸ hrefl s

theorem ofExcept (r : Except ε α) : Built G (Txn.ofExcept r : m α) := by
  cases r with
  | ok a => exact .pure a
  | error e => exact .fail e

theorem mono (hGH : ∀ s t, G s t → H s t) {x : m α} (hx : Built G x) : Built H x := by
  induction hx with
  | pure a => exact .pure a
  | fail e => exact .fail e
  | stmt hf => exact .stmt fun s a t h => hGH s t (hf s a t h)
  | bind _ _ hx hf => exact .bind hx hf
  | given _ hf => exact .given hf
  | transaction _ hx => exact .transaction hx

/-- Run with the store to itself, such a program keeps what `G` keeps. -/
theorem obeys {I : σ → Prop} (hI : ∀ s t, G s t → I s → I t) {x : Run σ ε α} (hx : Built G x) :
    Obeys I (Relation.ReflTransGen G) (fun _ => True) x := by
  induction hx with
  | pure a => exact .pure (fun _ => .refl) trivial
  | fail e => exact .fail (fun _ => .refl) e
  | stmt hf =>
    exact .stmt (fun _ => .refl) fun s a t hs h =>
      ⟨hI s t (hf s a t h) hs, .single (hf s a t h), trivial⟩
  | bind _ _ hx hf => exact .bind (fun _ _ _ => .trans) hx fun a _ => hf a
  | given _ hf => exact .given (fun _ => .refl) hf
  | transaction _ hx => exact .transaction (fun _ => .refl) hx

theorem invariant {I : σ → Prop} {x : Run σ ε α} (hx : Built (fun s t => I s → I t) x) {s : σ}
    (hs : I s) : I (x s).2 := (hx.obeys (fun _ _ hst => hst) s hs).1

theorem reads {x : Run σ ε α} (hx : Built Eq x) (s : σ) : (x s).2 = s := by
  have h := (hx.obeys (I := fun _ => True) fun _ _ _ _ => trivial) s trivial
  rw [Relation.reflTransGen_eq_self] at h
  exact h.2.1.symm

end Built

/-- An invariant kept by every step holds wherever a run leads. -/
theorem run_invariant {step : σ → σ → Prop} {I : σ → Prop}
    (hstep : ∀ s t, I s → step s t → I t) {s t : σ} (hs : I s)
    (h : Relation.ReflTransGen step s t) : I t := by
  induction h with
  | refl => exact hs
  | tail _ hst ih => exact hstep _ _ ih hst

section memory
variable {μ : Type}

/-- A program run with memory of its own beside the store. A transaction that fails
rolls back the store, not the memory. -/
def RunWith (μ σ ε α : Type) : Type := Run (μ × σ) ε α

instance : Acquire σ ε (RunWith μ σ ε) where
  toMonad := inferInstanceAs (Monad (Run (μ × σ) ε))
  fail e s := (.error e, s)
  stmt f s := match f s.2 with
    | .ok (a, t) => (.ok a, (s.1, t))
    | .error e => (.error e, s)
  transaction x s := match x s with
    | (.ok a, t) => (.ok a, t)
    | (.error e, t) => (.error e, (t.1, s.2))
  attempt x s := (.ok (x s).1, (x s).2)

instance : MonadState μ (RunWith μ σ ε) where
  get s := (.ok s.1, s)
  set m s := (.ok (), (m, s.2))
  modifyGet f s := (.ok (f s.1).1, ((f s.1).2, s.2))

namespace RunWith

@[simp] theorem run_pure (a : α) (s : μ × σ) : (pure a : RunWith μ σ ε α) s = (.ok a, s) := rfl

@[simp] theorem run_fail (e : ε) (s : μ × σ) : (fail e : RunWith μ σ ε α) s = (.error e, s) := rfl

theorem run_bind (x : RunWith μ σ ε α) (f : α → RunWith μ σ ε β) (s : μ × σ) :
    (x >>= f) s = match x s with
      | (.ok a, t) => f a t
      | (.error e, t) => (.error e, t) := by
  have hrun := Txn.run_bind x f s
  rcases hx : x s with ⟨_ | _, t⟩ <;> rw [hx] at hrun <;> exact hrun

theorem run_bind_ok {x : RunWith μ σ ε α} {f : α → RunWith μ σ ε β} {s t : μ × σ} {a : α}
    (h : x s = (.ok a, t)) : (x >>= f) s = f a t := by
  rw [run_bind, h]

theorem run_discard (x : RunWith μ σ ε α) (b : β) (s : μ × σ) :
    ((x >>= fun _ => (pure b : RunWith μ σ ε β)) s).2 = (x s).2 := by
  rw [run_bind]
  rcases x s with ⟨_ | _, t⟩ <;> rfl

theorem run_stmt (f : σ → Except ε (α × σ)) (m : μ) (s : σ) :
    (stmt f : RunWith μ σ ε α) (m, s) = match f s with
      | .ok (a, t) => (.ok a, (m, t))
      | .error e => (.error e, (m, s)) := rfl

@[simp] theorem run_query (f : σ → Except ε α) (s : μ × σ) :
    (query f : RunWith μ σ ε α) s = (f s.2, s) := by
  obtain ⟨m, s⟩ := s
  simp only [query, run_stmt]
  cases f s <;> rfl

@[simp] theorem run_modify (f : μ → μ) (s : μ × σ) :
    (modify f : RunWith μ σ ε Unit) s = (.ok (), (f s.1, s.2)) := rfl

@[simp] theorem run_get (s : μ × σ) : (get : RunWith μ σ ε μ) s = (.ok s.1, s) := rfl

theorem run_transaction_ok {x : RunWith μ σ ε α} {s t : μ × σ} {a : α} (h : x s = (.ok a, t)) :
    (transaction x : RunWith μ σ ε α) s = (.ok a, t) := by
  dsimp only [transaction]
  rw [h]

theorem run_transaction_memory (x : RunWith μ σ ε α) (s : μ × σ) :
    ((transaction x : RunWith μ σ ε α) s).2.1 = (x s).2.1 := by
  dsimp only [transaction]
  rcases x s with ⟨_ | _, t⟩ <;> rfl

theorem run_stmt_memory (f : σ → Except ε (α × σ)) (g : α → β) (s : μ × σ) :
    ((stmt f >>= fun a => pure (g a) : RunWith μ σ ε β) s).2.1 = s.1 := by
  obtain ⟨m, s⟩ := s
  rw [run_bind, run_stmt]
  rcases f s with _ | ⟨a, t⟩ <;> rfl

end RunWith
end memory

end Txn
