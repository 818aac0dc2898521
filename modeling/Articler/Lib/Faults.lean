import Articler.Lib.Txn

/-! Programs whose database calls may fail for reasons of their own: a lost connection, a
busy database, a full disk. A transaction that does not commit is rolled back. -/
namespace Txn
variable {μ σ ε α β : Type}

/-- How many calls of the database were made, the program's memory, and the store. -/
structure Course (μ σ : Type) where
  calls : Nat := 0
  memory : μ
  store : σ

/-- One more call was made. -/
def Course.called (s : Course μ σ) : Course μ σ := { s with calls := s.calls + 1 }

/-- A program run against a plan of faults: the beginning of a transaction, a statement and
a commit are one call each, and a call that has an error in the plan fails with it. -/
def Faulty (μ σ ε α : Type) : Type := (Nat → Option ε) → Course μ σ → Except ε α × Course μ σ

instance : Acquire σ ε (Faulty μ σ ε) where
  pure a _ s := (.ok a, s)
  bind x f faults s := match x faults s with
    | (.ok a, t) => f a faults t
    | (.error e, t) => (.error e, t)
  fail e _ s := (.error e, s)
  stmt f faults s := match faults s.calls with
    | some e => (.error e, s.called)
    | none => match f s.store with
      | .ok (a, t) => (.ok a, { s.called with store := t })
      | .error e => (.error e, s.called)
  transaction x faults s := match faults s.calls with
    | some e => (.error e, s.called)
    | none => match x faults s.called with
      | (.error e, t) => (.error e, { t with store := s.store })
      | (.ok a, t) => match faults t.calls with
        | some e => (.error e, { t.called with store := s.store })
        | none => (.ok a, t.called)
  attempt x faults s := (.ok (x faults s).1, (x faults s).2)

instance : MonadState μ (Faulty μ σ ε) where
  get _ s := (.ok s.memory, s)
  set m _ s := (.ok (), { s with memory := m })
  modifyGet f _ s := (.ok (f s.memory).1, { s with memory := (f s.memory).2 })

namespace Faulty
variable {faults : Nat → Option ε} {s t : Course μ σ} {a : α} {b : β} {e : ε}

theorem run_bind (x : Faulty μ σ ε α) (f : α → Faulty μ σ ε β) :
    (x >>= f) faults s = match x faults s with
      | (.ok a, t) => f a faults t
      | (.error e, t) => (.error e, t) := rfl

theorem run_bind_ok {x : Faulty μ σ ε α} {f : α → Faulty μ σ ε β} (h : x faults s = (.ok a, t)) :
    (x >>= f) faults s = f a faults t := by
  rw [run_bind, h]

theorem run_bind_error {x : Faulty μ σ ε α} {f : α → Faulty μ σ ε β}
    (h : x faults s = (.error e, t)) : (x >>= f) faults s = (.error e, t) := by
  rw [run_bind, h]

theorem run_stmt (f : σ → Except ε (α × σ)) :
    (stmt f : Faulty μ σ ε α) faults s = match faults s.calls with
      | some e => (.error e, s.called)
      | none => match f s.store with
        | .ok (a, t) => (.ok a, { s.called with store := t })
        | .error e => (.error e, s.called) := rfl

theorem stmt_fault {f : σ → Except ε (α × σ)} (h : faults s.calls = some e) :
    (stmt f : Faulty μ σ ε α) faults s = (.error e, s.called) := by
  rw [run_stmt, h]

theorem stmt_ok {f : σ → Except ε (α × σ)} (h : faults s.calls = none) {u : σ}
    (hf : f s.store = .ok (a, u)) :
    (stmt f : Faulty μ σ ε α) faults s = (.ok a, { s.called with store := u }) := by
  rw [run_stmt, h]
  dsimp only
  rw [hf]

theorem query_ok {f : σ → Except ε α} (h : faults s.calls = none) (hf : f s.store = .ok a) :
    (query f : Faulty μ σ ε α) faults s = (.ok a, s.called) :=
  stmt_ok h (by rw [hf]; rfl)

theorem run_transaction (x : Faulty μ σ ε α) :
    (transaction x : Faulty μ σ ε α) faults s = match faults s.calls with
      | some e => (.error e, s.called)
      | none => match x faults s.called with
        | (.error e, t) => (.error e, { t with store := s.store })
        | (.ok a, t) => match faults t.calls with
          | some e => (.error e, { t.called with store := s.store })
          | none => (.ok a, t.called) := rfl

theorem run_transaction_ok {x : Faulty μ σ ε α} (hbegin : faults s.calls = none)
    (hx : x faults s.called = (.ok a, t)) (hcommit : faults t.calls = none) :
    (transaction x : Faulty μ σ ε α) faults s = (.ok a, t.called) := by
  rw [run_transaction, hbegin]
  dsimp only
  rw [hx]
  dsimp only
  rw [hcommit]

theorem bind_ok_inv {x : Faulty μ σ ε α} {f : α → Faulty μ σ ε β}
    (h : (x >>= f) faults s = (.ok b, t)) :
    ∃ a u, x faults s = (.ok a, u) ∧ f a faults u = (.ok b, t) := by
  rw [run_bind] at h
  rcases hx : x faults s with ⟨r, u⟩
  rw [hx] at h
  cases r with
  | ok a => exact ⟨a, u, rfl, h⟩
  | error e => cases h

theorem bind_error_inv {x : Faulty μ σ ε α} {f : α → Faulty μ σ ε β}
    (h : (x >>= f) faults s = (.error e, t)) :
    x faults s = (.error e, t) ∨ ∃ a u, x faults s = (.ok a, u) ∧ f a faults u = (.error e, t) := by
  rw [run_bind] at h
  rcases hx : x faults s with ⟨r, u⟩
  rw [hx] at h
  cases r with
  | ok a => exact .inr ⟨a, u, rfl, h⟩
  | error e =>
    cases h
    exact .inl rfl

theorem run_discard (x : Faulty μ σ ε α) (b : β) :
    ((x >>= fun _ => (pure b : Faulty μ σ ε β)) faults s).2 = (x faults s).2 := by
  rw [run_bind]
  rcases x faults s with ⟨_ | _, t⟩ <;> rfl

theorem mapped_error {x : Faulty μ σ ε α} {f : α → β}
    (h : (x >>= fun a => (pure (f a) : Faulty μ σ ε β)) faults s = (.error e, t)) :
    x faults s = (.error e, t) := by
  rcases bind_error_inv h with h | ⟨_, _, -, h⟩
  · exact h
  · cases h

theorem stmt_ok_inv {f : σ → Except ε (α × σ)}
    (h : (stmt f : Faulty μ σ ε α) faults s = (.ok a, t)) :
    faults s.calls = none ∧ f s.store = .ok (a, t.store) ∧
      t = { s.called with store := t.store } := by
  rw [run_stmt] at h
  split at h
  · cases h
  · rename_i hcall
    split at h
    · rename_i hf
      cases h
      exact ⟨hcall, hf, rfl⟩
    · cases h

theorem query_ok_inv {f : σ → Except ε α}
    (h : (query f : Faulty μ σ ε α) faults s = (.ok a, t)) :
    faults s.calls = none ∧ f s.store = .ok a ∧ t = s.called := by
  obtain ⟨hcall, hf, ht⟩ := stmt_ok_inv h
  cases hs : f s.store with
  | error e =>
    rw [hs] at hf
    cases hf
  | ok b =>
    rw [hs] at hf
    obtain ⟨rfl, hstore⟩ := Prod.mk.inj (Except.ok.inj hf)
    rw [← hstore] at ht
    exact ⟨hcall, rfl, ht⟩

theorem ofExcept_ok_inv {r : Except ε α}
    (h : (ofExcept r : Faulty μ σ ε α) faults s = (.ok a, t)) : r = .ok a ∧ t = s := by
  cases r with
  | ok b =>
    cases h
    exact ⟨rfl, rfl⟩
  | error e => cases h

theorem transaction_ok_inv {x : Faulty μ σ ε α}
    (h : (transaction x : Faulty μ σ ε α) faults s = (.ok a, t)) :
    ∃ u, faults s.calls = none ∧ x faults s.called = (.ok a, u) ∧ faults u.calls = none ∧
      t = u.called := by
  rw [run_transaction] at h
  split at h
  · cases h
  · rename_i hbegin
    split at h
    · cases h
    · rename_i hx
      split at h
      · cases h
      · rename_i hcommit
        cases h
        exact ⟨_, hbegin, hx, hcommit, rfl⟩

theorem stmt_error {f : σ → Except ε (α × σ)}
    (h : (stmt f : Faulty μ σ ε α) faults s = (.error e, t)) : t = s.called := by
  rw [run_stmt] at h
  split at h
  · cases h
    rfl
  · split at h
    · cases h
    · cases h
      rfl

theorem ofExcept_error {r : Except ε α}
    (h : (ofExcept r : Faulty μ σ ε α) faults s = (.error e, t)) : t = s := by
  cases r with
  | ok a => cases h
  | error e =>
    cases h
    rfl

/-- A transaction that fails, at whatever call, leaves the store as it found it. -/
theorem transaction_error {x : Faulty μ σ ε α}
    (h : (transaction x : Faulty μ σ ε α) faults s = (.error e, t)) : t.store = s.store := by
  rw [run_transaction] at h
  split at h
  · cases h
    rfl
  · split at h
    · cases h
      rfl
    · split at h
      · cases h
        rfl
      · cases h

theorem stmt_memory (f : σ → Except ε (α × σ)) :
    ((stmt f : Faulty μ σ ε α) faults s).2.memory = s.memory := by
  rw [run_stmt]
  cases faults s.calls with
  | some e => rfl
  | none => rcases f s.store with _ | ⟨a, t⟩ <;> rfl

theorem stmt_pure_memory (f : σ → Except ε (α × σ)) (g : α → β) :
    ((stmt f >>= fun a => pure (g a) : Faulty μ σ ε β) faults s).2.memory = s.memory := by
  have h : ((stmt f : Faulty μ σ ε α) faults s).2.memory = s.memory := stmt_memory f
  rw [run_bind]
  rcases hx : (stmt f : Faulty μ σ ε α) faults s with ⟨_ | _, t⟩
  all_goals
    rw [hx] at h
    exact h

/-- The memory is not rolled back. -/
theorem transaction_memory (x : Faulty μ σ ε α) :
    ((transaction x : Faulty μ σ ε α) faults s).2.memory = match faults s.calls with
      | some _ => s.memory
      | none => (x faults s.called).2.memory := by
  rw [run_transaction]
  cases faults s.calls with
  | some e => rfl
  | none =>
    rcases x faults s.called with ⟨_ | _, t⟩
    · rfl
    · dsimp only
      cases faults t.calls <;> rfl

theorem transaction_stmt_memory (f : σ → Except ε (α × σ)) :
    ((transaction (stmt f) : Faulty μ σ ε α) faults s).2.memory = s.memory := by
  rw [transaction_memory]
  cases faults s.calls with
  | some e => rfl
  | none => exact stmt_memory f

@[simp] theorem run_modify (f : μ → μ) :
    (modify f : Faulty μ σ ε Unit) faults s = (.ok (), { s with memory := f s.memory }) := rfl

end Faulty
end Txn
