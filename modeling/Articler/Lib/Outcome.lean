import Articler.Lib.Txn

/-! What a program returns, and how it may fail. -/
namespace Txn
variable {σ ε α β : Type} {I : σ → Prop} {E : ε → Prop} {Q : α → Prop} {P : β → Prop}

/-- A run that ended in a state with `I`, and returned a value as `Q` says or failed in a way that
`E` allows. -/
structure Answered (I : σ → Prop) (E : ε → Prop) (Q : α → Prop) (r : Except ε α × σ) : Prop where
  state : I r.2
  value : ∀ a, r.1 = .ok a → Q a
  error : ∀ e, r.1 = .error e → E e

namespace Answered
variable {s : σ}

theorem ok {a : α} (hs : I s) (ha : Q a) : Answered I E Q (.ok a, s) :=
  ⟨hs, fun b hb => by cases hb; exact ha, nofun⟩

theorem failed {e : ε} (hs : I s) (he : E e) : Answered I E Q (.error e, s) :=
  ⟨hs, nofun, fun d hd => by cases hd; exact he⟩

theorem transaction {x : Run σ ε α} (hs : I s) (hx : Answered I E Q (x s)) :
    Answered I E Q ((Txn.transaction x : Run σ ε α) s) := by
  rw [run_transaction]
  rcases hxs : x s with ⟨r, t⟩
  rw [hxs] at hx
  cases r with
  | error e => exact failed hs (hx.error e rfl)
  | ok a => exact ok hx.state (hx.value a rfl)

theorem imp {J : σ → Prop} {r : Except ε α × σ} (hr : Answered I E Q r) (h : ∀ s, I s → J s) :
    Answered J E Q r := ⟨h _ hr.state, hr.value, hr.error⟩

end Answered

/-- It does so from every state with `I`. -/
def Answers (I : σ → Prop) (E : ε → Prop) (Q : α → Prop) (x : Run σ ε α) : Prop :=
  ∀ s, I s → Answered I E Q (x s)

theorem Answered.bind {s : σ} {x : Run σ ε α} {f : α → Run σ ε β} (hx : Answered I E Q (x s))
    (hf : ∀ a, Q a → Answers I E P (f a)) : Answered I E P ((x >>= f) s) := by
  rw [run_bind]
  rcases hxs : x s with ⟨r, t⟩
  rw [hxs] at hx
  cases r with
  | error e => exact failed hx.state (hx.error e rfl)
  | ok a => exact hf a (hx.value a rfl) t hx.state

namespace Answers

theorem pure {a : α} (ha : Q a) : Answers I E Q (Pure.pure a : Run σ ε α) := fun _ hs => .ok hs ha

theorem fail {e : ε} (he : E e) : Answers I E Q (Txn.fail e : Run σ ε α) :=
  fun _ hs => .failed hs he

theorem bind {x : Run σ ε α} {f : α → Run σ ε β} (hx : Answers I E Q x)
    (hf : ∀ a, Q a → Answers I E P (f a)) : Answers I E P (x >>= f) :=
  fun s hs => (hx s hs).bind hf

theorem transaction {x : Run σ ε α} (hx : Answers I E Q x) :
    Answers I E Q (Txn.transaction x : Run σ ε α) := fun s hs => (hx s hs).transaction hs

theorem ofExcept {r : Except ε α} (hok : ∀ a, r = .ok a → Q a) (herr : ∀ e, r = .error e → E e) :
    Answers I E Q (Txn.ofExcept r : Run σ ε α) := by
  intro s hs
  rw [run_ofExcept]
  exact ⟨hs, hok, herr⟩

theorem given {r : Except ε α} (h : ∃ a, r = .ok a) :
    Answers I E (fun _ => True) (Txn.ofExcept r : Run σ ε α) := by
  obtain ⟨a, rfl⟩ := h
  exact ofExcept (fun _ _ => trivial) nofun

theorem query {f : σ → Except ε α} (hok : ∀ s a, I s → f s = .ok a → Q a)
    (herr : ∀ s e, I s → f s = .error e → E e) : Answers I E Q (Txn.query f : Run σ ε α) := by
  intro s hs
  rw [run_query]
  exact ⟨hs, fun a => hok s a hs, fun e => herr s e hs⟩

theorem read {f : σ → α} (h : ∀ s, I s → Q (f s)) :
    Answers I E Q (Txn.query fun s => .ok (f s) : Run σ ε α) := by
  refine query (fun s a hs hf => ?_) fun _ _ _ hf => nomatch hf
  cases hf
  exact h s hs

theorem stmt {f : σ → Except ε (α × σ)} (hok : ∀ s a t, I s → f s = .ok (a, t) → I t ∧ Q a)
    (herr : ∀ s e, I s → f s = .error e → E e) : Answers I E Q (Txn.stmt f : Run σ ε α) := by
  intro s hs
  rw [run_stmt]
  cases hf : f s with
  | error e => exact .failed hs (herr s e hs hf)
  | ok p =>
    obtain ⟨a, t⟩ := p
    exact .ok (hok s a t hs hf).1 (hok s a t hs hf).2

theorem update {f : σ → α × σ} (h : ∀ s, I s → I (f s).2 ∧ Q (f s).1) :
    Answers I E Q (Txn.stmt fun s => .ok (f s) : Run σ ε α) := by
  refine stmt (fun s a t hs hf => ?_) fun _ _ _ hf => nomatch hf
  have hstep := h s hs
  rwa [Except.ok.inj hf] at hstep

end Answers
end Txn
