import Articler.Lib.Sessions
import Mathlib.Order.RelClasses

/-! Sessions that only read, among others that write. In a transaction they read one
snapshot; outside of one they read whatever was committed last. -/
namespace Txn
open Relation
variable {σ ε α β : Type}

/-- Where a reader stands: outside of a transaction or inside, before it has seen anything
or after it has seen this store; or behind its transaction. -/
inductive Stand (σ : Type) where
  | fresh
  | pinned (s : σ)
  | opened
  | snapshot (s : σ)
  | closed

/-- The stores that the next statement may read. -/
def Stand.May (E : σ → σ → Prop) : Stand σ → σ → Prop
  | .fresh, _ | .opened, _ => True
  | .pinned s, t => E s t
  | .snapshot s, t => t = s
  | .closed, _ => False

def Stand.after : Stand σ → σ → Stand σ
  | .fresh, s => .pinned s
  | .opened, s => .snapshot s
  | st, _ => st

@[simp] theorem Stand.after_after (st : Stand σ) (s t : σ) : (st.after s).after t = st.after s := by
  cases st <;> rfl

theorem Stand.after_ne_closed {st : Stand σ} (h : st ≠ .closed) (s : σ) : st.after s ≠ .closed := by
  cases st with
  | closed => exact absurd rfl h
  | _ => nofun

def Stand.Inside (st : Stand σ) : Prop := st = .opened ∨ ∃ s, st = .snapshot s

theorem Stand.Inside.after {st : Stand σ} (h : st.Inside) (s : σ) : (st.after s).Inside := by
  rcases h with rfl | ⟨t, rfl⟩
  · exact .inr ⟨s, rfl⟩
  · exact .inr ⟨t, rfl⟩

theorem Stand.Inside.ne_closed {st : Stand σ} (h : st.Inside) : st ≠ .closed := by
  rcases h with rfl | ⟨s, rfl⟩ <;> simp

theorem Stand.may_after {E : σ → σ → Prop} {γ : Type} {g : σ → γ} {st : Stand σ}
    (h : st.Inside ∨ ∀ s t, E s t → g s = g t) {s t : σ} (hs : st.May E s)
    (ht : (st.after s).May E t) : g s = g t := by
  rcases h with (rfl | ⟨u, rfl⟩) | hg
  · exact congrArg g (show t = s from ht).symm
  · exact congrArg g ((show s = u from hs).trans (show t = u from ht).symm)
  · cases st with
    | fresh => exact hg s t ht
    | pinned u => exact (hg u s hs).symm.trans (hg u t ht)
    | opened => exact congrArg g (show t = s from ht).symm
    | snapshot u => exact congrArg g ((show s = u from hs).trans (show t = u from ht).symm)
    | closed => exact hs.elim

/-- The program only reads, from stores with `I`; those it reads outside of a transaction are
alike up to `E`; it ends with `Q`. -/
def Prog.Reads (I : σ → Prop) (E : σ → σ → Prop) (Q : Except ε α → Stand σ → Prop) :
    Prog σ ε α → Stand σ → Prop
  | .done r, st => Q r st
  | .stmt run next, .fresh => ∀ s, I s → run s = s ∧ Reads I E Q (next s) (.pinned s)
  | .stmt run next, .pinned s => ∀ t, I t → E s t → run t = t ∧ Reads I E Q (next t) (.pinned s)
  | .stmt run next, .opened => ∀ s, I s → run s = s ∧ Reads I E Q (next s) (.snapshot s)
  | .stmt run next, .snapshot s => I s → run s = s ∧ Reads I E Q (next s) (.snapshot s)
  | .stmt _ _, .closed => False
  | .enter next, .fresh => Reads I E Q next .opened
  | .enter _, _ => False
  | .leave _ next, .opened => Reads I E Q next .closed
  | .leave _ next, .snapshot _ => Reads I E Q next .closed
  | .leave _ _, _ => False

section rules
variable {I : σ → Prop} {E : σ → σ → Prop}

theorem Prog.Reads.mono {Q Q' : Except ε α → Stand σ → Prop} (hQ : ∀ r st, Q r st → Q' r st)
    {x : Prog σ ε α} {st : Stand σ} (h : x.Reads I E Q st) : x.Reads I E Q' st := by
  induction x generalizing st with
  | done r => exact hQ r st h
  | stmt run next ih =>
    cases st with
    | fresh | opened => exact fun s hs => (h s hs).imp_right (ih s)
    | pinned s => exact fun t ht he => (h t ht he).imp_right (ih t)
    | snapshot s => exact fun hs => (h hs).imp_right (ih s)
    | closed => exact h
  | enter next ih =>
    cases st with
    | fresh => exact ih h
    | _ => exact h
  | leave keep next ih =>
    cases st with
    | opened | snapshot => exact ih h
    | _ => exact h

theorem Prog.Reads.andThen {Q : Except ε β → Stand σ → Prop} {k : Except ε α → Prog σ ε β}
    {x : Prog σ ε α} {st : Stand σ} (h : x.Reads I E (fun r st => (k r).Reads I E Q st) st) :
    (x.andThen k).Reads I E Q st := by
  induction x generalizing st with
  | done r => exact h
  | stmt run next ih =>
    cases st with
    | fresh | opened => exact fun s hs => (h s hs).imp_right (ih s)
    | pinned s => exact fun t ht he => (h t ht he).imp_right (ih t)
    | snapshot s => exact fun hs => (h hs).imp_right (ih s)
    | closed => exact h
  | enter next ih =>
    cases st with
    | fresh => exact ih h
    | _ => exact h
  | leave keep next ih =>
    cases st with
    | opened | snapshot => exact ih h
    | _ => exact h

theorem Prog.reads_bind {Q : Except ε β → Stand σ → Prop} {x : Prog σ ε α} {f : α → Prog σ ε β}
    {st : Stand σ} (h : x.Reads I E (fun r st => match r with
      | .ok a => (f a).Reads I E Q st
      | .error e => Q (.error e) st) st) : (x >>= f).Reads I E Q st :=
  .andThen (h.mono fun r _ h => by
    cases r with
    | ok a => exact h
    | error e => exact h)

theorem Prog.reads_transaction {Q : Except ε α → Stand σ → Prop} {x : Prog σ ε α}
    (h : x.Reads I E (fun r st => st.Inside ∧ Q r .closed) .opened) :
    (Txn.transaction x : Prog σ ε α).Reads I E Q .fresh := by
  refine Prog.Reads.andThen (h.mono fun r st ⟨hst, hr⟩ => ?_)
  rcases hst with rfl | ⟨s, rfl⟩ <;> cases r <;> exact hr

variable {Q : Except ε β → Stand σ → Prop} {f : σ → Except ε α} {k : α → Prog σ ε β}

/-- A query, from stores that the stand allows. -/
theorem Prog.reads_query {st : Stand σ} (hst : st ≠ .closed)
    (h : ∀ s, I s → st.May E s → (∀ e, f s = .error e → Q (.error e) (st.after s)) ∧
      ∀ a, f s = .ok a → (k a).Reads I E Q (st.after s)) :
    (Txn.query f >>= k : Prog σ ε β).Reads I E Q st := by
  refine reads_bind ?_
  cases st with
  | fresh | opened =>
    intro s hs
    obtain ⟨herror, hok⟩ := h s hs trivial
    dsimp only
    cases hf : f s with
    | ok a => exact ⟨rfl, hok a hf⟩
    | error e => exact ⟨rfl, herror e hf⟩
  | pinned u =>
    intro s hs hE
    obtain ⟨herror, hok⟩ := h s hs hE
    dsimp only
    cases hf : f s with
    | ok a => exact ⟨rfl, hok a hf⟩
    | error e => exact ⟨rfl, herror e hf⟩
  | snapshot s =>
    intro hs
    obtain ⟨herror, hok⟩ := h s hs rfl
    dsimp only
    cases hf : f s with
    | ok a => exact ⟨rfl, hok a hf⟩
    | error e => exact ⟨rfl, herror e hf⟩
  | closed => exact absurd rfl hst

end rules

/-- A program and what may follow one of its statements. -/
inductive Prog.Next : Prog σ ε α → Prog σ ε α → Prop where
  | stmt (run : σ → σ) (next : σ → Prog σ ε α) (s : σ) : Next (next s) (.stmt run next)
  | enter (next : Prog σ ε α) : Next next (.enter next)
  | leave (keep : Bool) (next : Prog σ ε α) : Next next (.leave keep next)

theorem Prog.next_wf : WellFounded (Prog.Next (σ := σ) (ε := ε) (α := α)) := by
  refine ⟨fun p => ?_⟩
  induction p with
  | done r => exact ⟨_, nofun⟩
  | stmt run next ih =>
    refine ⟨_, fun q hq => ?_⟩
    cases hq with
    | stmt _ _ s => exact ih s
  | enter next ih =>
    refine ⟨_, fun q hq => ?_⟩
    cases hq with
    | enter => exact ih
  | leave keep next ih =>
    refine ⟨_, fun q hq => ?_⟩
    cases hq with
    | leave => exact ih

theorem Prog.ne_of_next {p q : Prog σ ε α} (h : TransGen Prog.Next q p) : q ≠ p := by
  rintro rfl
  exact Prog.next_wf.transGen.asymmetric _ _ h h

section world
variable (I : σ → Prop) (E : σ → σ → Prop)

def Session.At (x : Session σ ε α) (db : σ) : Stand σ → Prop
  | .fresh => x.view = none ∧ x.saves = []
  | .pinned s => x.view = none ∧ x.saves = [] ∧ E s db
  | .opened => x.view = none ∧ x.saves = [none]
  | .snapshot s => I s ∧ (∃ v, x.view = some v ∧ v.copy = s) ∧ ∃ c, x.saves = [c]
  | .closed => True

/-- Outside of a transaction the reader has begun, and is not done. -/
def Session.Exposed (p : Prog σ ε α) (x : Session σ ε α) : Prop :=
  x.saves = [] ∧ x.prog ≠ p ∧ ∀ r, x.prog ≠ .done r

/-- A step by anybody; while the reader is exposed, it changes nothing that `E` sees. -/
def World.Undisturbed (p : Prog σ ε α) (i : Nat) (s t : World σ ε α) : Prop :=
  (∃ j, World.Step j s t) ∧ ((s.sessions i).Exposed p → E s.db t.db)

/-- A reader is done as it should be, or goes on reading from where it stands. -/
def Session.Reading (Q : Except ε α → Stand σ → Prop) (p : Prog σ ε α) (x : Session σ ε α)
    (db : σ) : Prop :=
  (∃ r st, x.prog = .done r ∧ Q r st) ∨
    ∃ st, x.At I E db st ∧ x.prog.Reads I E Q st ∧
      (x.prog = p ∧ st = .fresh ∨ TransGen Prog.Next x.prog p)

variable {I E} {Q : Except ε α → Stand σ → Prop} {p : Prog σ ε α} {s t : World σ ε α} {i : Nat}

theorem World.Step.sessions {j : Nat} (h : World.Step j s t) (hj : i ≠ j) :
    t.sessions i = s.sessions i := by
  cases h <;> exact Function.update_of_ne hj ..

/-- The first statement of a transaction reads the latest store, the others its snapshot. -/
theorem Session.At.seen {st : Stand σ} (hat : (s.sessions i).At I E s.db st)
    {q : Prog σ ε α} {view : Option (View σ)} {c : Option σ} {saves : List (Option σ)}
    (hi : s.sessions i = ⟨q, view, c :: saves⟩) (hr : q.Reads I E Q st) (hdb : I s.db)
    {run : σ → σ} {next : σ → Prog σ ε α} (hq : q = .stmt run next) :
    I (s.seen view).copy ∧ saves = [] ∧ run (s.seen view).copy = (s.seen view).copy ∧
      (next (s.seen view).copy).Reads I E Q (.snapshot (s.seen view).copy) := by
  subst hq
  rw [hi] at hat
  cases st with
  | fresh => exact absurd hat.2 (by simp)
  | pinned u => exact absurd hat.2.1 (by simp)
  | opened =>
    obtain ⟨hview, hsaves⟩ := hat
    obtain rfl : view = none := hview
    exact ⟨hdb, (List.cons.inj hsaves).2, hr s.db hdb⟩
  | snapshot u =>
    obtain ⟨hu, ⟨v, hview, rfl⟩, _, hsaves⟩ := hat
    obtain rfl : view = some v := hview
    exact ⟨hu, (List.cons.inj hsaves).2, hr hu⟩
  | closed => exact hr.elim

theorem Session.At.outside {st : Stand σ} {x : Session σ ε α} (hat : x.At I E s.db st)
    (hE : ∀ s, E s s) (hsaves : x.saves = []) (hdb : I s.db) {run : σ → σ}
    {next : σ → Prog σ ε α} (hr : (Prog.stmt run next).Reads I E Q st) :
    run s.db = s.db ∧ ∃ u, E u s.db ∧ (next s.db).Reads I E Q (.pinned u) := by
  cases st with
  | fresh =>
    obtain ⟨hrun, hnext⟩ := hr s.db hdb
    exact ⟨hrun, s.db, hE s.db, hnext⟩
  | pinned u =>
    obtain ⟨hrun, hnext⟩ := hr s.db hdb hat.2.2
    exact ⟨hrun, u, hat.2.2, hnext⟩
  | opened =>
    have hsaved := hsaves.symm.trans hat.2
    cases hsaved
  | snapshot u =>
    obtain ⟨-, -, _, hsaved⟩ := hat
    have hnone := hsaves.symm.trans hsaved
    cases hnone
  | closed => exact hr.elim

theorem Session.At.enters {st : Stand σ} {x : Session σ ε α} {db : σ} (hat : x.At I E db st)
    {next : Prog σ ε α} (hr : (Prog.enter next).Reads I E Q st) :
    x.view = none ∧ x.saves = [] ∧ next.Reads I E Q .opened := by
  cases st with
  | fresh => exact ⟨hat.1, hat.2, hr⟩
  | _ => exact hr.elim

theorem Prog.Reads.left {st : Stand σ} {keep : Bool} {next : Prog σ ε α}
    (hr : (Prog.leave keep next).Reads I E Q st) : next.Reads I E Q .closed := by
  cases st with
  | opened | snapshot => exact hr
  | _ => exact hr.elim

theorem Session.Reading.live {x : Session σ ε α} {db : σ} (h : x.Reading I E Q p db)
    (hlive : ∀ r, x.prog ≠ .done r) : ∃ st, x.At I E db st ∧ x.prog.Reads I E Q st ∧
      ∀ q, Prog.Next q x.prog → TransGen Prog.Next q p := by
  rcases h with ⟨r, -, hr, -⟩ | ⟨st, hat, hr, hbegun⟩
  · exact absurd hr (hlive r)
  · refine ⟨st, hat, hr, fun q hnext => ?_⟩
    rcases hbegun with ⟨hp, -⟩ | hbegun
    · exact .single (hp ▸ hnext)
    · exact .head hnext hbegun

/-- A step of the reader itself. -/
theorem World.Step.reading (hE : ∀ s, E s s) (hQ : ∀ e, Q (.error e) .closed) (hdb : I s.db)
    (h : World.Step i s t) (hreading : (s.sessions i).Reading I E Q p s.db) :
    (t.sessions i).Reading I E Q p t.db := by
  have hself (w : World σ ε α) (x : Session σ ε α) : (w.set i x).sessions i = x :=
    Function.update_self ..
  have hlive {q : Prog σ ε α} {view : Option (View σ)} {saves : List (Option σ)}
      (hi : s.sessions i = ⟨q, view, saves⟩) (hq : ∀ r, q ≠ .done r) :
      ∃ st, (s.sessions i).At I E s.db st ∧ q.Reads I E Q st ∧
        ∀ q', Prog.Next q' q → TransGen Prog.Next q' p := by
    have hprog : (s.sessions i).prog = q := by rw [hi]
    exact hprog ▸ hreading.live fun r => hprog ▸ hq r
  cases h with
  | @read run next hi hrun =>
    obtain ⟨st, hat, hr, hbegun⟩ := hlive hi nofun
    obtain ⟨-, u, hu, hnext⟩ := hat.outside hE (by rw [hi]) hdb hr
    rw [hself]
    exact .inr ⟨.pinned u, ⟨rfl, rfl, hu⟩, hnext, .inr (hbegun _ (.stmt run next s.db))⟩
  | @write run next hi hrun hw =>
    obtain ⟨st, hat, hr, -⟩ := hlive hi nofun
    exact absurd (hat.outside hE (by rw [hi]) hdb hr).1 hrun
  | @enter next view saves hi =>
    obtain ⟨st, hat, hr, hbegun⟩ := hlive hi nofun
    obtain ⟨hview, hsaves, hnext⟩ := hat.enters hr
    rw [hi] at hview hsaves
    obtain rfl : view = none := hview
    obtain rfl : saves = [] := hsaves
    rw [hself]
    exact .inr ⟨.opened, ⟨rfl, rfl⟩, hnext, .inr (hbegun _ (.enter next))⟩
  | @look run next view c saves hi hrun =>
    obtain ⟨st, hat, hr, hbegun⟩ := hlive hi nofun
    obtain ⟨hI, rfl, -, hread⟩ := hat.seen hi hr hdb rfl
    rw [hself]
    exact .inr ⟨.snapshot (s.seen view).copy, ⟨hI, ⟨_, rfl, rfl⟩, c, rfl⟩, hread,
      .inr (hbegun _ (.stmt run next _))⟩
  | @change run next view c saves hi hrun hv hw =>
    obtain ⟨st, hat, hr, -⟩ := hlive hi nofun
    exact absurd (hat.seen hi hr hdb rfl).2.2.1 hrun
  | @savepoint keep next view c d saves hi =>
    obtain ⟨st, -, hr, hbegun⟩ := hlive hi nofun
    rw [hself]
    exact .inr ⟨.closed, trivial, hr.left, .inr (hbegun _ (.leave keep next))⟩
  | @commit next v c hi hw =>
    obtain ⟨st, -, hr, hbegun⟩ := hlive hi nofun
    rw [hself]
    exact .inr ⟨.closed, trivial, hr.left, .inr (hbegun _ (.leave true next))⟩
  | @close keep next view c hi hw =>
    obtain ⟨st, -, hr, hbegun⟩ := hlive hi nofun
    rw [hself]
    exact .inr ⟨.closed, trivial, hr.left, .inr (hbegun _ (.leave keep next))⟩
  | abort e =>
    rw [hself]
    exact .inl ⟨_, .closed, rfl, hQ e⟩

theorem World.Step.reading_other (htrans : ∀ s t u, E s t → E t u → E s u) {j : Nat} (hj : i ≠ j)
    (h : World.Step j s t) (hexposed : (s.sessions i).Exposed p → E s.db t.db)
    (hreading : (s.sessions i).Reading I E Q p s.db) :
    (t.sessions i).Reading I E Q p t.db := by
  rw [h.sessions hj]
  rcases hreading with hdone | ⟨st, hat, hr, hbegun⟩
  · exact .inl hdone
  by_cases hdone : ∃ r, (s.sessions i).prog = .done r
  · obtain ⟨r, hr'⟩ := hdone
    rw [hr'] at hr
    exact .inl ⟨r, st, hr', hr⟩
  refine .inr ⟨st, ?_, hr, hbegun⟩
  cases st with
  | pinned u =>
    obtain ⟨hview, hsaves, he⟩ := hat
    have hne : (s.sessions i).prog ≠ p := by
      rcases hbegun with ⟨-, hfresh⟩ | hnext
      · cases hfresh
      · exact Prog.ne_of_next hnext
    exact ⟨hview, hsaves, htrans _ _ _ he (hexposed ⟨hsaves, hne, fun r hr' => hdone ⟨r, hr'⟩⟩)⟩
  | _ => exact hat

/-- A run in which nobody disturbs the reader. -/
theorem World.reading (hE : ∀ s, E s s) (htrans : ∀ s t u, E s t → E t u → E s u)
    (hQ : ∀ e, Q (.error e) .closed) {db : σ} {progs : Nat → Prog σ ε α}
    (hI : ∀ s, World.Reached db progs s → I s.db) (hp : (progs i).Reads I E Q .fresh)
    (h : ReflTransGen (World.Undisturbed E (progs i) i) (World.start db progs) s) :
    World.Reached db progs s ∧ (s.sessions i).Reading I E Q (progs i) s.db := by
  induction h with
  | refl => exact ⟨.refl, .inr ⟨.fresh, ⟨rfl, rfl⟩, hp, .inl ⟨rfl, rfl⟩⟩⟩
  | @tail s t _ hst ih =>
    obtain ⟨⟨j, hstep⟩, hexposed⟩ := hst
    refine ⟨ih.1.step j hstep, ?_⟩
    by_cases hj : i = j
    · subst hj
      exact hstep.reading hE hQ (hI s ih.1) ih.2
    · exact hstep.reading_other htrans hj hexposed ih.2

theorem Session.Reading.done {x : Session σ ε α} {db : σ} (h : x.Reading I E Q p db)
    {r : Except ε α} (hr : x.prog = .done r) : ∃ st, Q r st := by
  rcases h with ⟨r', st, hr', hend⟩ | ⟨st, -, hend, -⟩
  · rw [hr] at hr'
    cases hr'
    exact ⟨st, hend⟩
  · rw [hr] at hend
    exact ⟨st, hend⟩

end world
end Txn
