/-! Noninterference by unwinding: events that are hidden from an observer may be left out of
a run, and the observer gets the same answers. -/
namespace Unwinding
variable {S E A : Type} (step : S → E → A × S) (hidden : S → E → Bool)

def run (s : S) (events : List E) : S := events.foldl (fun s e => (step s e).2) s

def observed (s : S) : List E → List A
  | [] => []
  | e :: events =>
    if hidden s e then observed (step s e).2 events
    else (step s e).1 :: observed (step s e).2 events

def purge (s : S) : List E → List E
  | [] => []
  | e :: events =>
    if hidden s e then purge (step s e).2 events else e :: purge (step s e).2 events

/-- Each event of the run is as `P` says of it and of the state it meets. -/
def Along (P : S → E → Prop) (s : S) : List E → Prop
  | [] => True
  | e :: events => P s e ∧ Along P (step s e).2 events

/-- What one event may do: a hidden one leaves a state that looks the same, any other gives the
same answer in states that look the same. -/
structure Unwinds (R : S → S → Prop) (P : S → E → Prop) : Prop where
  hides : ∀ s t e, R s t → P s e → hidden s e = true → R (step s e).2 t
  shows : ∀ s t e, R s t → P s e → hidden s e = false →
    hidden t e = false ∧ (step s e).1 = (step t e).1 ∧ R (step s e).2 (step t e).2

variable {step hidden} {R : S → S → Prop} {P : S → E → Prop}

theorem Unwinds.observed_purge (h : Unwinds step hidden R P) {s t : S} {events : List E}
    (hr : R s t) (halong : Along step P s events) :
    observed step hidden t (purge step hidden s events) = observed step hidden s events ∧
      R (run step s events) (run step t (purge step hidden s events)) := by
  induction events generalizing s t with
  | nil => exact ⟨rfl, hr⟩
  | cons e events ih =>
    obtain ⟨hp, halong⟩ := halong
    cases he : hidden s e with
    | true =>
      simp only [purge, observed, he, if_true]
      exact ih (h.hides s t e hr hp he) halong
    | false =>
      obtain ⟨ht, hanswer, hr'⟩ := h.shows s t e hr hp he
      obtain ⟨hrest, hend⟩ := ih hr' halong
      simp only [purge, observed, he, ht, Bool.false_eq_true, if_false, hanswer, hrest, true_and]
      exact hend

theorem Unwinds.purge_shown (h : Unwinds step hidden R P) {s t : S} {events : List E}
    (hr : R s t) (halong : Along step P s events) :
    Along step (fun s e => hidden s e = false) t (purge step hidden s events) := by
  induction events generalizing s t with
  | nil => exact trivial
  | cons e events ih =>
    obtain ⟨hp, halong⟩ := halong
    cases he : hidden s e with
    | true =>
      simp only [purge, he, if_true]
      exact ih (h.hides s t e hr hp he) halong
    | false =>
      obtain ⟨ht, -, hr'⟩ := h.shows s t e hr hp he
      simp only [purge, he, Bool.false_eq_true, if_false]
      exact ⟨ht, ih hr' halong⟩

end Unwinding
