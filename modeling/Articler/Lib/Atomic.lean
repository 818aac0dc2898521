import Articler.Lib.Readers
import Mathlib.Data.List.Nodup

/-! Programs that do all their writing in one transaction or statement. However such programs
interleave, what they leave and what they answer is what some serial order of them does. -/
namespace Txn
open Relation
variable {σ ε α β : Type}

/-- The program run from here with the store to itself: how it ends, what it leaves of the
store, and the copies that are still open. -/
def Prog.alone : Prog σ ε α → σ → List σ → Except ε α × σ × List σ
  | .done r, s, saves => (r, s, saves)
  | .stmt run next, s, saves => (next s).alone (run s) saves
  | .enter next, s, saves => next.alone s (s :: saves)
  | .leave keep next, s, saves => next.alone (if keep then s else saves.headD s) saves.tail

theorem Prog.alone_andThen (k : Except ε α → Prog σ ε β) (x : Prog σ ε α) (s : σ)
    (saves : List σ) :
    (x.andThen k).alone s saves = (k (x.alone s saves).1).alone (x.alone s saves).2.1
      (x.alone s saves).2.2 := by
  induction x generalizing s saves with
  | done r => rfl
  | stmt run next ih => exact ih s (run s) saves
  | enter next ih => exact ih s (s :: saves)
  | leave keep next ih => exact ih _ saves.tail

theorem Prog.andThen_andThen {γ : Type} (l : Except ε β → Prog σ ε γ)
    (k : Except ε α → Prog σ ε β) (x : Prog σ ε α) :
    (x.andThen k).andThen l = x.andThen fun r => (k r).andThen l := by
  induction x with
  | done r => rfl
  | stmt run next ih => exact congrArg (Prog.stmt run) (funext ih)
  | enter next ih => exact congrArg Prog.enter ih
  | leave keep next ih => exact congrArg (Prog.leave keep) ih

/-- One program, read as what may interleave and as what runs alone. -/
inductive Twin : {α : Type} → Prog σ ε α → Run σ ε α → Prop where
  | pure {α : Type} (a : α) : Twin (Pure.pure a) (Pure.pure a)
  | fail {α : Type} (e : ε) : Twin (Txn.fail e : Prog σ ε α) (Txn.fail e)
  | stmt {α : Type} (f : σ → Except ε (α × σ)) : Twin (Txn.stmt f) (Txn.stmt f)
  | bind {α β : Type} {x : Prog σ ε α} {y : Run σ ε α} {f : α → Prog σ ε β} {g : α → Run σ ε β}
      (hx : Twin x y) (hf : ∀ a, Twin (f a) (g a)) : Twin (x >>= f) (y >>= g)
  | transaction {α : Type} {x : Prog σ ε α} {y : Run σ ε α} (hx : Twin x y) :
      Twin (Txn.transaction x) (Txn.transaction y)

namespace Twin
variable {x : Prog σ ε α} {y : Run σ ε α}

theorem query (f : σ → Except ε α) :
    Twin (Txn.query f : Prog σ ε α) (Txn.query f) := .stmt _

theorem ofExcept (r : Except ε α) :
    Twin (Txn.ofExcept r : Prog σ ε α) (Txn.ofExcept r) := by
  cases r with
  | ok a => exact .pure a
  | error e => exact .fail e

theorem alone (h : Twin x y) (s : σ) (saves : List σ) :
    x.alone s saves = ((y s).1, (y s).2, saves) := by
  induction h generalizing s saves with
  | pure a => rfl
  | fail e => rfl
  | stmt f =>
    rw [run_stmt]
    dsimp only [Txn.stmt, Prog.alone]
    cases f s <;> rfl
  | @bind _ _ x y f g _ _ hx hf =>
    have hrun := run_bind y g s
    refine (Prog.alone_andThen _ x s saves).trans ?_
    rw [hx, hrun]
    rcases y s with ⟨_ | a, t⟩
    · rfl
    · exact hf a t saves
  | @transaction _ x y _ hx =>
    refine (Prog.alone_andThen _ x s (s :: saves)).trans ?_
    rw [hx, run_transaction]
    rcases y s with ⟨_ | _, _⟩ <;> rfl

theorem built (h : Twin x y) : Built (fun _ _ => True) x := by
  induction h with
  | pure a => exact .pure a
  | fail e => exact .fail e
  | stmt f => exact .stmt fun _ _ _ _ => trivial
  | bind _ _ hx hf => exact .bind hx hf
  | transaction _ hx => exact .transaction hx

end Twin

def Prog.Looks : Prog σ ε α → Prop
  | .done _ => True
  | .stmt run next => ∀ s, run s = s ∧ (next s).Looks
  | .enter next => next.Looks
  | .leave _ next => next.Looks

theorem Prog.Looks.andThen {k : Except ε α → Prog σ ε β} {x : Prog σ ε α} (hx : x.Looks)
    (hk : ∀ r, (k r).Looks) : (x.andThen k).Looks := by
  induction x with
  | done r => exact hk r
  | stmt run next ih => exact fun s => (hx s).imp_right (ih s)
  | enter next ih => exact ih hx
  | leave keep next ih => exact ih hx

theorem Prog.Looks.alone {x : Prog σ ε α} (hx : x.Looks) (s : σ) (n : Nat) :
    (x.alone s (List.replicate n s)).2.1 = s := by
  induction x generalizing n with
  | done r => rfl
  | stmt run next ih =>
    obtain ⟨hrun, hnext⟩ := hx s
    rw [Prog.alone, hrun]
    exact ih s hnext n
  | enter next ih => exact ih hx (n + 1)
  | leave keep next ih =>
    have hback : (if keep then s else (List.replicate n s).headD s) = s := by
      cases keep <;> cases n <;> rfl
    rw [Prog.alone, hback, List.tail_replicate]
    exact ih hx (n - 1)

theorem Built.looks {x : Prog σ ε α} (hx : Built Eq x) : x.Looks := by
  induction hx with
  | pure a => trivial
  | fail e => trivial
  | @stmt _ f hf =>
    refine fun s => ⟨?_, trivial⟩
    dsimp only
    cases h : f s with
    | ok p => exact (hf s p.1 p.2 h).symm
    | error e => rfl
  | bind _ _ hx hf =>
    refine hx.andThen fun r => ?_
    cases r with
    | ok a => exact hf a
    | error e => trivial
  | @given _ _ r _ _ hf =>
    cases r with
    | ok a => exact hf a rfl
    | error e => trivial
  | transaction _ hx => exact hx.andThen fun r => by cases r <;> trivial

/-- What may follow the part that writes: reads, or nothing at all if the answer has to be
that of one place in the order. -/
def Prog.Tail (exact : Prop) (x : Prog σ ε α) : Prop := x.Looks ∧ (exact → ∃ r, x = .done r)

/-- Inside of `n` transactions: what is left until the outermost of them ends; outside: one
statement or one transaction. -/
def Prog.Closes (exact : Prop) : Prog σ ε α → Nat → Prop
  | .done _, n => n = 0
  | .stmt _ next, 0 => ∀ s, (next s).Tail exact
  | .stmt _ next, n + 1 => ∀ s, (next s).Closes exact (n + 1)
  | .enter next, n => next.Closes exact (n + 1)
  | .leave _ _, 0 => False
  | .leave _ next, 1 => next.Tail exact
  | .leave _ next, n + 2 => next.Closes exact (n + 1)

/-- A program that asks the store for nothing. -/
def Ends (x : Prog σ ε α) (y : Run σ ε α) : Prop :=
  ∃ r, x = Txn.ofExcept r ∧ y = Txn.ofExcept r

namespace Ends

theorem ofExcept (r : Except ε α) : Ends (Txn.ofExcept r : Prog σ ε α) (Txn.ofExcept r) :=
  ⟨r, rfl, rfl⟩

theorem pure (a : α) : Ends (Pure.pure a : Prog σ ε α) (Pure.pure a) := ⟨.ok a, rfl, rfl⟩

theorem fail (e : ε) : Ends (Txn.fail e : Prog σ ε α) (Txn.fail e) := ⟨.error e, rfl, rfl⟩

theorem given (r : Except ε α) {f : α → Prog σ ε β} {g : α → Run σ ε β}
    (h : ∀ a, Ends (f a) (g a)) : Ends (Txn.ofExcept r >>= f) (Txn.ofExcept r >>= g) := by
  cases r with
  | ok a => exact h a
  | error e => exact fail e

theorem twin {x : Prog σ ε α} {y : Run σ ε α} (h : Ends x y) : Twin x y := by
  obtain ⟨r, rfl, rfl⟩ := h
  exact .ofExcept r

end Ends

/-- A program that has its effect in one statement or in one transaction. -/
structure Single (exact : Prop) (x : Prog σ ε α) (y : Run σ ε α) : Prop where
  closes : x.Closes exact 0
  twin : Twin x y

section shapes
variable {exact : Prop} {x : Prog σ ε α} {y : Run σ ε α}

theorem Prog.tail_done (r : Except ε α) : (Prog.done r : Prog σ ε α).Tail exact :=
  ⟨trivial, fun _ => ⟨r, rfl⟩⟩

theorem Built.inside {G : σ → σ → Prop} (h : Built G x) {k : Except ε α → Prog σ ε β} {n : Nat}
    (hk : ∀ r, (k r).Closes exact (n + 1)) : (x.andThen k).Closes exact (n + 1) := by
  induction h generalizing n with
  | pure a => exact hk (.ok a)
  | fail e => exact hk (.error e)
  | stmt hf => exact fun s => hk _
  | @bind _ _ x f _ _ hx hf =>
    rw [show x >>= f = x.andThen _ from rfl, Prog.andThen_andThen]
    refine hx fun r => ?_
    cases r with
    | ok a => exact hf a hk
    | error e => exact hk _
  | @given _ _ r _ _ hf =>
    cases r with
    | ok a => exact hf a rfl hk
    | error e => exact hk (.error e)
  | @transaction _ x _ hx =>
    refine (?_ : (Prog.enter ((x.andThen _).andThen k)).Closes exact (n + 1))
    rw [Prog.andThen_andThen]
    exact hx (n := n + 1) fun r => by cases r <;> exact hk _

theorem Prog.Tail.andThen (hx : x.Tail exact) {k : Except ε α → Prog σ ε β}
    (hk : ∀ r, (k r).Tail exact) : (x.andThen k).Tail exact := by
  refine ⟨hx.1.andThen fun r => (hk r).1, fun hexact => ?_⟩
  obtain ⟨r, rfl⟩ := hx.2 hexact
  exact (hk r).2 hexact

theorem Prog.Closes.andThen {k : Except ε α → Prog σ ε β} (hk : ∀ r, (k r).Tail exact)
    (hdone : ∀ r, x = .done r → (k r).Closes exact 0) {n : Nat} (hx : x.Closes exact n) :
    (x.andThen k).Closes exact n := by
  induction x generalizing n with
  | done r =>
    obtain rfl : n = 0 := hx
    exact hdone r rfl
  | stmt run next ih =>
    cases n with
    | zero => exact fun s => (hx s).andThen hk
    | succ n => exact fun s => ih s (fun r hr => absurd (hr ▸ hx s) nofun) (hx s)
  | enter next ih => exact ih (fun r hr => absurd (hr ▸ hx) nofun) hx
  | leave keep next ih =>
    rcases n with _ | _ | n
    · exact hx
    · exact Prog.Tail.andThen hx hk
    · exact ih (fun r hr => absurd (hr ▸ hx) nofun) hx

theorem Prog.Closes.bind {f : α → Prog σ ε β} (hx : x.Closes exact 0)
    (htail : ∀ a, (f a).Tail exact) (hcloses : ∀ a, (f a).Closes exact 0) :
    (x >>= f).Closes exact 0 := by
  refine hx.andThen (fun r => ?_) fun r _ => ?_
  · cases r with
    | ok a => exact htail a
    | error e => exact Prog.tail_done _
  · cases r with
    | ok a => exact hcloses a
    | error e => rfl

theorem Built.closes (h : Built Eq x) : x.Closes False 0 := by
  induction h with
  | pure a => rfl
  | fail e => rfl
  | stmt hf => exact fun s => Prog.tail_done _
  | bind _ hf hx ihf => exact hx.bind (fun a => ⟨(hf a).looks, nofun⟩) ihf
  | @given _ _ r _ _ hf =>
    cases r with
    | ok a => exact hf a rfl
    | error e => rfl
  | transaction hx _ =>
    exact hx.inside (n := 0) fun r => by cases r <;> exact Prog.tail_done _

namespace Single

theorem ofExcept (r : Except ε α) :
    Single exact (Txn.ofExcept r : Prog σ ε α) (Txn.ofExcept r) := by
  refine ⟨?_, .ofExcept r⟩
  cases r <;> rfl

theorem pure (a : α) : Single exact (Pure.pure a : Prog σ ε α) (Pure.pure a) := ofExcept (.ok a)

theorem fail (e : ε) : Single exact (Txn.fail e : Prog σ ε α) (Txn.fail e) := ofExcept (.error e)

theorem stmt (f : σ → Except ε (α × σ)) : Single exact (Txn.stmt f) (Txn.stmt f) :=
  ⟨fun _ => Prog.tail_done _, .stmt f⟩

theorem transaction (h : Twin x y) : Single exact (Txn.transaction x) (Txn.transaction y) :=
  ⟨h.built.inside (n := 0) fun r => by cases r <;> exact Prog.tail_done _, .transaction h⟩

theorem ends {f : α → Prog σ ε β} {g : α → Run σ ε β} (h : Single exact x y)
    (hf : ∀ a, Ends (f a) (g a)) : Single exact (x >>= f) (y >>= g) := by
  have hdone (a : α) : ∃ r, f a = .done r := by
    obtain ⟨r, hr, -⟩ := hf a
    rw [hr]
    cases r <;> exact ⟨_, rfl⟩
  refine ⟨h.closes.bind (fun a => ?_) fun a => ?_, h.twin.bind fun a => (hf a).twin⟩
  · obtain ⟨r, hr⟩ := hdone a
    rw [hr]
    exact Prog.tail_done r
  · obtain ⟨r, hr⟩ := hdone a
    rw [hr]
    rfl

theorem map (h : Single exact x y) (f : α → β) :
    Single exact (x >>= fun a => Pure.pure (f a)) (y >>= fun a => Pure.pure (f a)) :=
  h.ends fun a => .pure (f a)

theorem given {r : Except ε α} {f : α → Prog σ ε β} {g : α → Run σ ε β}
    (h : ∀ a, r = .ok a → Single exact (f a) (g a)) :
    Single exact (Txn.ofExcept r >>= f) (Txn.ofExcept r >>= g) := by
  cases r with
  | ok a => exact h a rfl
  | error e => exact fail e

theorem reads {f : α → Prog σ ε β} {g : α → Run σ ε β} (h : Single False x y)
    (hf : ∀ a, Twin (f a) (g a)) (hlooks : ∀ a, Built Eq (f a)) :
    Single False (x >>= f) (y >>= g) :=
  ⟨h.closes.bind (fun a => ⟨(hlooks a).looks, nofun⟩) fun a => (hlooks a).closes, h.twin.bind hf⟩

end Single
end shapes

/-- The store after the commits of a log, newest first. -/
def after (start : σ) : List (Nat × σ × σ) → σ
  | [] => start
  | c :: _ => c.2.2

def World.order (s : World σ ε α) : List Nat := (s.log.map Prod.fst).reverse

/-- Programs run one after the other. -/
def inOrder (runs : Nat → Run σ ε α) (start : σ) (order : List Nat) : σ :=
  order.foldl (fun s i => (runs i s).2) start

theorem inOrder_keeps {runs : Nat → Run σ ε α} {I : σ → Prop} {order : List Nat}
    (h : ∀ i ∈ order, ∀ s, I s → I (runs i s).2) {start : σ} (hstart : I start) :
    I (inOrder runs start order) := by
  induction order generalizing start with
  | nil => exact hstart
  | cons i order ih =>
    exact ih (fun j hj => h j (List.mem_cons_of_mem i hj)) (h i List.mem_cons_self start hstart)

theorem Serial.after {G : Nat → σ → σ → Prop} {start db : σ} {log : List (Nat × σ × σ)}
    (h : Serial G start log db) : Txn.after start log = db := by
  cases log with
  | nil => exact h.symm
  | cons c log =>
    obtain ⟨i, a, b⟩ := c
    exact h.1

theorem Serial.suffix {G : Nat → σ → σ → Prop} {start db : σ} {later log : List (Nat × σ × σ)}
    (h : Serial G start (later ++ log) db) : Serial G start log (Txn.after start log) := by
  induction later generalizing db with
  | nil => exact h.after.symm ▸ h
  | cons c later ih => exact ih h.2.2

theorem Serial.inOrder {runs : Nat → Run σ ε α} {start db : σ} {log : List (Nat × σ × σ)}
    (h : Serial (fun i a b => b = (runs i a).2) start log db) :
    Txn.inOrder runs start (log.map Prod.fst).reverse = db := by
  induction log generalizing db with
  | nil => exact h.symm
  | cons c log ih =>
    obtain ⟨i, a, b⟩ := c
    obtain ⟨rfl, hrun, hlog⟩ := h
    have hpast := ih hlog
    rw [Txn.inOrder] at hpast ⊢
    rw [List.map_cons, List.reverse_cons, List.foldl_append, hpast]
    exact hrun.symm

/-- Any interleaving of the sessions that goes on from a world. -/
def World.LeadsTo (s t : World σ ε α) : Prop :=
  ReflTransGen (fun s t => ∃ i, World.Step i s t) s t

theorem World.LeadsTo.step {s t u : World σ ε α} (h : World.LeadsTo s t) (i : Nat)
    (hs : World.Step i t u) : World.LeadsTo s u :=
  h.tail ⟨i, hs⟩

theorem World.Reached.stays {db : σ} {progs : Nat → Prog σ ε α} {s : World σ ε α}
    (_ : World.Reached db progs s) : World.LeadsTo s s := .refl

theorem World.Reached.leadsTo {db : σ} {progs : Nat → Prog σ ε α} {s t : World σ ε α}
    (h : World.Reached db progs s) (hst : World.LeadsTo s t) : World.Reached db progs t :=
  ReflTransGen.trans h hst

section world
variable (start : σ) (mark : List (Nat × σ × σ)) (exact : Prop) (p : Prog σ ε α) (i : Nat)

/-- At some time since `mark` the program took effect: what it left, and what it answers, is
what it does alone on the store of that time. -/
def Placed (log : List (Nat × σ × σ)) (x : Prog σ ε α) : Prop :=
  ∃ later earlier, log = later ++ earlier ∧ mark <:+ earlier ∧
    (exact → x = .done (p.alone (after start earlier) []).1) ∧
    ((p.alone (after start earlier) []).2.1 = after start earlier ∨
      ∃ rest b, later = rest ++ [(i, after start earlier, b)])

inductive Session.Phase (log : List (Nat × σ × σ)) (writer : Option Nat) (x : Session σ ε α) :
    Prop where
  -- it has not looked at the store
  | ahead (n : Nat) (hview : x.view = none) (hsaves : x.saves = List.replicate n none)
      (hcloses : x.prog.Closes exact n)
      (halone : ∀ a, x.prog.alone a (List.replicate n a) = p.alone a [])
      (hlog : i ∉ log.map Prod.fst)
  -- it is in its transaction, on a snapshot of some time since `mark`
  | inside (v : View σ) (outer : List (Option σ)) (hview : x.view = some v)
      (hsaves : x.saves = outer ++ [none]) (hcloses : x.prog.Closes exact (outer.length + 1))
      (halone : x.prog.alone v.copy (x.saves.map fun c => c.getD v.base) = p.alone v.base [])
      (hpast : ∃ later earlier, log = later ++ earlier ∧ mark <:+ earlier ∧
        v.base = after start earlier)
      (hlog : i ∉ log.map Prod.fst)
  -- it has had its effect, or has failed
  | settled (hlooks : x.prog.Looks) (hwriter : writer ≠ some i)
      (hend : (∃ e, x.prog = .done (.error e)) ∨ Placed start mark exact p i log x.prog)

def World.Commits (s t : World σ ε α) : Prop :=
  t.log = s.log ∧ t.db = s.db ∨
    t.log = (i, s.db, t.db) :: s.log ∧ i ∉ s.log.map Prod.fst ∧ t.db = (p.alone s.db []).2.1

end world

section steps
variable {start : σ} {mark : List (Nat × σ × σ)} {exact : Prop} {p : Prog σ ε α} {i : Nat}
  {s t : World σ ε α} {G : Nat → σ → σ → Prop}
  {Q : Nat → Except ε α → Option (Tx σ) → List (σ × σ) → Prop}

theorem Prog.Tail.placed {x : Prog σ ε α} (hx : x.Tail exact) (later : List (Nat × σ × σ))
    {earlier : List (Nat × σ × σ)} (hmark : mark <:+ earlier) (copy : σ)
    (halone : x.alone copy [] = p.alone (after start earlier) [])
    (h : copy = after start earlier ∨ ∃ rest b, later = rest ++ [(i, after start earlier, b)]) :
    Placed start mark exact p i (later ++ earlier) x := by
  have hstays : (p.alone (after start earlier) []).2.1 = copy := halone ▸ hx.1.alone copy 0
  refine ⟨later, earlier, rfl, hmark, fun hexact => ?_, h.imp_left fun he => hstays.trans he⟩
  obtain ⟨r, rfl⟩ := hx.2 hexact
  rw [← halone, Prog.alone]

theorem Placed.later {log log' : List (Nat × σ × σ)} {x : Prog σ ε α}
    (h : Placed start mark exact p i log x) (hlog : log <:+ log') :
    Placed start mark exact p i log' x := by
  obtain ⟨more, rfl⟩ := hlog
  obtain ⟨later, earlier, rfl, hmark, hexact, heffect⟩ := h
  refine ⟨more ++ later, earlier, (List.append_assoc ..).symm, hmark, hexact,
    heffect.imp_right fun ⟨rest, b, hlater⟩ => ?_⟩
  exact ⟨more ++ rest, b, by rw [hlater, List.append_assoc]⟩

/-- A program that goes on after its effect has no answer that is bound to its place. -/
theorem Placed.goes_on {log : List (Nat × σ × σ)} {q : Prog σ ε α}
    (h : (∃ e, q = .done (.error e)) ∨ Placed start mark exact p i log q)
    (hq : ∀ r, q ≠ .done r) (x : Prog σ ε α) : Placed start mark exact p i log x := by
  rcases h with ⟨e, he⟩ | ⟨later, earlier, hlog, hmark, hexact, heffect⟩
  · exact absurd he (hq _)
  · exact ⟨later, earlier, hlog, hmark, fun he => absurd (hexact he) (hq _), heffect⟩

@[simp] theorem World.set_self (x : Session σ ε α) : (s.set i x).sessions i = x :=
  Function.update_self ..

theorem Session.Phase.outside {run : σ → σ} {next : σ → Prog σ ε α}
    (h : Session.Phase start mark exact p i s.log s.writer ⟨.stmt run next, none, []⟩) :
    ((next s.db).Tail exact ∧ (next s.db).alone (run s.db) [] = p.alone s.db [] ∧
        i ∉ s.log.map Prod.fst) ∨
      run s.db = s.db ∧ Session.Phase start mark exact p i s.log s.writer ⟨next s.db, none, []⟩ := by
  cases h with
  | ahead n hview hsaves hcloses halone hlog =>
    obtain rfl : n = 0 := by simpa using hsaves.symm
    exact .inl ⟨hcloses s.db, halone s.db, hlog⟩
  | inside v outer hview => cases hview
  | settled hlooks hwriter hend =>
    obtain ⟨hrun, hnext⟩ := hlooks s.db
    exact .inr ⟨hrun, .settled hnext hwriter (.inr (Placed.goes_on hend nofun _))⟩

theorem Session.Phase.enter {log : List (Nat × σ × σ)} {writer : Option Nat} {next : Prog σ ε α}
    {view : Option (View σ)} {saves : List (Option σ)}
    (h : Session.Phase start mark exact p i log writer ⟨.enter next, view, saves⟩) :
    Session.Phase start mark exact p i log writer ⟨next, view, view.map View.copy :: saves⟩ := by
  cases h with
  | ahead n hview hsaves hcloses halone hlog =>
    obtain rfl : view = none := hview
    obtain rfl : saves = List.replicate n none := hsaves
    exact .ahead (n + 1) rfl rfl hcloses halone hlog
  | inside v outer hview hsaves hcloses halone hpast hlog =>
    obtain rfl : view = some v := hview
    obtain rfl : saves = outer ++ [none] := hsaves
    exact .inside v (some v.copy :: outer) rfl rfl hcloses halone hpast hlog
  | settled hlooks hwriter hend =>
    exact .settled hlooks hwriter (.inr (Placed.goes_on hend nofun _))

/-- A statement of a transaction runs on a snapshot of some time since `mark`. -/
theorem Session.Phase.runs {run : σ → σ} {next : σ → Prog σ ε α} {view : Option (View σ)}
    {c : Option σ} {saves : List (Option σ)} (hafter : after start s.log = s.db)
    (hmark : mark <:+ s.log)
    (h : Session.Phase start mark exact p i s.log s.writer ⟨.stmt run next, view, c :: saves⟩) :
    (∀ writer, Session.Phase start mark exact p i s.log writer ⟨next (s.seen view).copy,
        some { s.seen view with copy := run (s.seen view).copy }, c :: saves⟩) ∨
      run (s.seen view).copy = (s.seen view).copy ∧ s.writer ≠ some i ∧
        Session.Phase start mark exact p i s.log s.writer ⟨next (s.seen view).copy,
          some (s.seen view), c :: saves⟩ := by
  cases h with
  | ahead n hview hsaves hcloses halone hlog =>
    obtain rfl : view = none := hview
    obtain _ | n := n
    · cases hsaves
    obtain ⟨rfl, rfl⟩ := List.cons.inj hsaves
    refine .inl fun writer => .inside _ (List.replicate n none) rfl ?_ ?_ ?_
      ⟨[], s.log, rfl, hmark, hafter.symm⟩ hlog
    · exact List.replicate_succ' ..
    · rw [List.length_replicate]
      exact hcloses s.db
    · dsimp only [World.seen, Option.getD_none]
      rw [List.map_cons, List.map_replicate]
      exact halone s.db
  | inside v outer hview hsaves hcloses halone hpast hlog =>
    obtain rfl : view = some v := hview
    exact .inl fun writer => .inside _ outer rfl hsaves (hcloses v.copy) halone hpast hlog
  | settled hlooks hwriter hend =>
    obtain ⟨hrun, hnext⟩ := hlooks (s.seen view).copy
    exact .inr ⟨hrun, hwriter, .settled hnext hwriter (.inr (Placed.goes_on hend nofun _))⟩

/-- The end of a savepoint. -/
theorem Session.Phase.savepoint {log : List (Nat × σ × σ)} {writer : Option Nat} {keep : Bool}
    {next : Prog σ ε α} {view : Option (View σ)} {c d : Option σ} {saves : List (Option σ)}
    (h : Session.Phase start mark exact p i log writer ⟨.leave keep next, view, c :: d :: saves⟩) :
    Session.Phase start mark exact p i log writer
      ⟨next, if keep then view else view.map fun v => { v with copy := c.getD v.base },
        d :: saves⟩ := by
  cases h with
  | ahead n hview hsaves hcloses halone hlog =>
    obtain rfl : view = none := hview
    obtain _ | _ | n := n
    · cases hsaves
    · cases hsaves
    obtain ⟨rfl, htail⟩ := List.cons.inj hsaves
    refine .ahead (n + 1) (by cases keep <;> rfl) htail hcloses (fun a => ?_) hlog
    rw [← halone a]
    cases keep <;> rfl
  | inside v outer hview hsaves hcloses halone hpast hlog =>
    obtain rfl : view = some v := hview
    obtain _ | ⟨o, outer⟩ := outer
    · cases hsaves
    obtain ⟨rfl, htail⟩ := List.cons.inj hsaves
    cases keep with
    | true => exact .inside v outer rfl htail hcloses halone hpast hlog
    | false => exact .inside _ outer rfl htail hcloses halone hpast hlog
  | settled hlooks hwriter hend =>
    exact .settled hlooks hwriter (.inr (Placed.goes_on hend nofun _))

/-- The end of the transaction. -/
theorem Session.Phase.leaves {log : List (Nat × σ × σ)} {writer : Option Nat} {keep : Bool}
    {next : Prog σ ε α} {view : Option (View σ)} {c : Option σ}
    (h : Session.Phase start mark exact p i log writer ⟨.leave keep next, view, [c]⟩) :
    (i ∉ log.map Prod.fst ∧ next.Tail exact ∧ c = none ∧
      (view = none ∧ (∀ a, next.alone a [] = p.alone a []) ∨
      ∃ v, view = some v ∧ next.alone (if keep then v.copy else v.base) [] = p.alone v.base [] ∧
        ∃ later earlier, log = later ++ earlier ∧ mark <:+ earlier ∧ v.base = after start earlier)) ∨
      next.Looks ∧ writer ≠ some i ∧ Placed start mark exact p i log next := by
  cases h with
  | ahead n hview hsaves hcloses halone hlog =>
    obtain rfl : view = none := hview
    obtain _ | _ | n := n
    · cases hsaves
    · obtain ⟨rfl, -⟩ := List.cons.inj hsaves
      refine .inl ⟨hlog, hcloses, rfl, .inl ⟨rfl, fun a => ?_⟩⟩
      rw [← halone a]
      cases keep <;> rfl
    · cases hsaves
  | inside v outer hview hsaves hcloses halone hpast hlog =>
    obtain rfl : view = some v := hview
    obtain _ | ⟨o, _ | ⟨o', outer⟩⟩ := outer
    · obtain ⟨rfl, -⟩ := List.cons.inj hsaves
      exact .inl ⟨hlog, hcloses, rfl, .inr ⟨v, rfl, halone, hpast⟩⟩
    · cases hsaves
    · cases hsaves
  | settled hlooks hwriter hend =>
    exact .inr ⟨hlooks, hwriter, Placed.goes_on hend nofun _⟩

theorem World.Ok.base (h : s.Ok G Q start) {v : View σ} (hview : (s.sessions i).view = some v)
    (hw : s.writer = some i) : v.base = s.db := by
  obtain ⟨u, hu, hversion⟩ := h.holds i hw
  obtain rfl : v = u := Option.some.inj (hview.symm.trans hu)
  exact (h.current i v hview).2 hversion

/-- What a session commits is what the program makes of the store that it finds. -/
theorem Prog.Tail.commits {x : Prog σ ε α} (hx : x.Tail exact) {copy : σ}
    (hafter : after start s.log = s.db) (hmark : mark <:+ s.log) (hlog : i ∉ s.log.map Prod.fst)
    (halone : x.alone copy [] = p.alone s.db []) :
    Session.Phase start mark exact p i ((i, s.db, copy) :: s.log) none ⟨x, none, []⟩ ∧
      World.Commits p i s ((s.commit i copy).set i ⟨x, none, []⟩) := by
  refine ⟨.settled hx.1 nofun (.inr ?_), .inr ⟨rfl, hlog, ?_⟩⟩
  · refine hx.placed [(i, s.db, copy)] hmark copy ?_ (.inr ⟨[], copy, ?_⟩)
    · rw [hafter]
      exact halone
    · rw [hafter, List.nil_append]
  · rw [← halone]
    exact (hx.1.alone copy 0).symm

/-- A transaction that ends without a commit has its place where it began. -/
theorem Session.Phase.closes {keep : Bool} {next : Prog σ ε α} {view : Option (View σ)}
    {c : Option σ} (hmark : mark <:+ s.log)
    (hcopy : ∀ v, view = some v → (if keep then v.copy else v.base) = v.base)
    (h : Session.Phase start mark exact p i s.log s.writer ⟨.leave keep next, view, [c]⟩) :
    Session.Phase start mark exact p i s.log (s.release i).writer ⟨next, none, []⟩ := by
  rcases h.leaves with ⟨-, htail, -, ⟨-, halone⟩ | ⟨v, hview, halone, later, earlier, hlog, hmark, hbase⟩⟩ |
    ⟨hlooks, -, hplaced⟩
  · exact .settled htail.1 (s.release_writer_self i)
      (.inr (htail.placed [] hmark _ (halone _) (.inl rfl)))
  · rw [hcopy v hview, hbase] at halone
    refine .settled htail.1 (s.release_writer_self i) (.inr ?_)
    exact hlog ▸ htail.placed later hmark _ halone (.inl rfl)
  · exact .settled hlooks (s.release_writer_self i) (.inr hplaced)

/-- A step of the session itself. -/
theorem World.Step.phase (hok : s.Ok G Q start) (hmark : mark <:+ s.log) (hs : World.Step i s t)
    (h : Session.Phase start mark exact p i s.log s.writer (s.sessions i)) :
    Session.Phase start mark exact p i t.log t.writer (t.sessions i) ∧ World.Commits p i s t := by
  have hafter := hok.serial.after
  cases hs with
  | @read run next hi hrun =>
    rw [hi] at h
    rw [World.set_self]
    refine ⟨?_, .inl ⟨rfl, rfl⟩⟩
    rcases h.outside with ⟨htail, halone, -⟩ | ⟨-, h⟩
    · refine .settled htail.1 (hok.not_writer (by rw [hi])) (.inr ?_)
      refine htail.placed [] hmark s.db ?_ (.inl hafter.symm)
      rw [hafter, ← halone, hrun]
    · exact h
  | @write run next hi hrun hw =>
    rw [hi] at h
    rw [World.set_self]
    rcases h.outside with ⟨htail, halone, hlog⟩ | ⟨hsame, -⟩
    · exact htail.commits hafter hmark hlog halone
    · exact absurd hsame hrun
  | @enter next view saves hi =>
    rw [hi] at h
    rw [World.set_self]
    exact ⟨h.enter, .inl ⟨rfl, rfl⟩⟩
  | @look run next view c saves hi hrun =>
    rw [hi] at h
    rw [World.set_self]
    refine ⟨?_, .inl ⟨rfl, rfl⟩⟩
    rcases h.runs hafter hmark with h | ⟨-, -, h⟩
    · have hstays := h s.writer
      rw [hrun] at hstays
      exact hstays
    · exact h
  | @change run next view c saves hi hrun hv hw =>
    rw [hi] at h
    rw [World.set_self]
    refine ⟨?_, .inl ⟨rfl, rfl⟩⟩
    rcases h.runs hafter hmark with h | ⟨hsame, -, -⟩
    · exact h _
    · exact absurd hsame hrun
  | @savepoint keep next view c d saves hi =>
    rw [hi] at h
    rw [World.set_self]
    exact ⟨h.savepoint, .inl ⟨rfl, rfl⟩⟩
  | @commit next v c hi hw =>
    have hbase : v.base = s.db := hok.base (by rw [hi]) hw
    rw [hi] at h
    rw [World.set_self]
    rcases h.leaves with ⟨hlog, htail, -, ⟨hview, -⟩ | ⟨v, hview, halone, -⟩⟩ | ⟨-, hwriter, -⟩
    · cases hview
    · cases hview
      rw [hbase] at halone
      exact htail.commits hafter hmark hlog halone
    · exact absurd hw hwriter
  | @close keep next view c hi hw =>
    have hclean := hok.clean i
    rw [hi] at h hclean
    rw [World.set_self]
    refine ⟨h.closes hmark fun v hview => ?_, .inl ⟨rfl, rfl⟩⟩
    cases keep with
    | true => exact (hclean v hview (hw.resolve_left nofun)).1
    | false => rfl
  | abort e =>
    rw [World.set_self]
    exact ⟨.settled trivial (s.release_writer_self i) (.inl ⟨e, rfl⟩), .inl ⟨rfl, rfl⟩⟩

theorem World.Step.writer {j : Nat} (hj : i ≠ j) (hs : World.Step j s t)
    (hw : t.writer = some i) : s.writer = some i := by
  cases hs with
  | read | enter | look | savepoint => exact hw
  | write | commit => cases hw
  | change => exact absurd (Option.some.inj hw).symm hj
  | close | abort => exact (s.release_writer hj).mp hw

/-- A step of another session. -/
theorem World.Step.phase_other {j : Nat} {q : Prog σ ε α} (hj : i ≠ j) (hs : World.Step j s t)
    (hcommits : World.Commits q j s t)
    (h : Session.Phase start mark exact p i s.log s.writer (s.sessions i)) :
    Session.Phase start mark exact p i t.log t.writer (t.sessions i) := by
  have hsuffix : s.log <:+ t.log := by
    rcases hcommits with ⟨hsame, -⟩ | ⟨hmore, -⟩
    · exact hsame ▸ List.suffix_rfl
    · exact hmore ▸ List.suffix_cons _ _
  have hlog (hi : i ∉ s.log.map Prod.fst) : i ∉ t.log.map Prod.fst := by
    rcases hcommits with ⟨hsame, -⟩ | ⟨hmore, -⟩
    · rw [hsame]
      exact hi
    · rw [hmore, List.map_cons, List.mem_cons, not_or]
      exact ⟨hj, hi⟩
  rw [hs.sessions hj]
  cases h with
  | ahead n hview hsaves hcloses halone hi => exact .ahead n hview hsaves hcloses halone (hlog hi)
  | inside v outer hview hsaves hcloses halone hpast hi =>
    obtain ⟨later, earlier, hpast, hmark, hbase⟩ := hpast
    obtain ⟨more, hmore⟩ := hsuffix
    refine .inside v outer hview hsaves hcloses halone ⟨more ++ later, earlier, ?_, hmark, hbase⟩
      (hlog hi)
    rw [← hmore, hpast, List.append_assoc]
  | settled hlooks hwriter hend =>
    exact .settled hlooks (fun hw => hwriter (hs.writer hj hw))
      (hend.imp_right fun hplaced => hplaced.later hsuffix)

end steps

section runs
variable {start : σ} {progs : Nat → Prog σ ε α} {runs : Nat → Run σ ε α} {exact : Nat → Prop}
  (hsingle : ∀ i, Single (exact i) (progs i) (runs i)) {s t : World σ ε α}
include hsingle

theorem Session.Phase.fresh {log mark : List (Nat × σ × σ)} {writer : Option Nat} {i : Nat}
    (hlog : i ∉ log.map Prod.fst) :
    Session.Phase start mark (exact i) (progs i) i log writer { prog := progs i } :=
  .ahead 0 rfl rfl (hsingle i).closes (fun _ => rfl) hlog

theorem World.Reached.single_ok (h : World.Reached start progs s) :
    s.Ok (fun _ _ _ => True) (fun _ _ tx _ => tx = none) start :=
  h.ok (fun _ _ _ => rfl) fun i =>
    ((hsingle i).twin.built.wp (fun _ => trivial) (fun _ _ _ _ _ => trivial) []).1

/-- What holds of every session, and of the log, wherever the sessions have got to. -/
theorem World.Reached.phases (h : World.Reached start progs s) :
    (∀ i, Session.Phase start [] (exact i) (progs i) i s.log s.writer (s.sessions i)) ∧
      Serial (fun i a b => b = (runs i a).2) start s.log s.db ∧ (s.log.map Prod.fst).Nodup := by
  have hdoes (i : Nat) (a : σ) : ((progs i).alone a []).2.1 = (runs i a).2 := by
    rw [(hsingle i).twin.alone]
  unfold World.Reached at h
  induction h with
  | refl => exact ⟨fun i => .fresh hsingle List.not_mem_nil, rfl, List.nodup_nil⟩
  | @tail s t hreached hst ih =>
    obtain ⟨hphase, hserial, hnodup⟩ := ih
    obtain ⟨j, hs⟩ := hst
    have hok : s.Ok _ _ start := World.Reached.single_ok hsingle hreached
    obtain ⟨hself, hcommits⟩ := hs.phase hok List.nil_suffix (hphase j)
    refine ⟨fun i => ?_, ?_⟩
    · by_cases hj : i = j
      · exact hj ▸ hself
      · exact hs.phase_other hj hcommits (hphase i)
    · rcases hcommits with ⟨hlog, hdb⟩ | ⟨hlog, hnew, hdb⟩
      · rw [hlog, hdb]
        exact ⟨hserial, hnodup⟩
      · rw [hlog]
        exact ⟨⟨rfl, hdb.trans (hdoes j s.db), hserial⟩, List.nodup_cons.mpr ⟨hnew, hnodup⟩⟩

/-- Whoever interleaves, what is committed is what the sessions do one after the other. -/
theorem World.Reached.in_order (h : World.Reached start progs s) :
    s.order.Nodup ∧ s.db = inOrder runs start s.order := by
  obtain ⟨-, hserial, hnodup⟩ := World.Reached.phases hsingle h
  exact ⟨List.nodup_reverse.mpr hnodup, hserial.inOrder.symm⟩

/-- The steps of the others and its own take a session that has not begun through its phases. -/
theorem World.Reached.phase_since {w : World σ ε α} (hw : World.Reached start progs w)
    (hws : World.LeadsTo w s) {i : Nat}
    (hfresh : w.sessions i = { prog := progs i }) (hnew : i ∉ w.order) :
    w.log <:+ s.log ∧
      Session.Phase start w.log (exact i) (progs i) i s.log s.writer (s.sessions i) := by
  unfold World.LeadsTo at hws
  induction hws with
  | refl =>
    refine ⟨List.suffix_rfl, hfresh ▸ .fresh hsingle fun hi => hnew ?_⟩
    exact List.mem_reverse.mpr hi
  | @tail s t hws hst ih =>
    obtain ⟨hmark, hphase⟩ := ih
    obtain ⟨j, hs⟩ := hst
    have hreached : World.Reached start progs s := hw.leadsTo hws
    have hok := World.Reached.single_ok hsingle hreached
    obtain ⟨-, hcommits⟩ := hs.phase hok List.nil_suffix
      ((World.Reached.phases hsingle hreached).1 j)
    refine ⟨?_, ?_⟩
    · rcases hcommits with ⟨hlog, -⟩ | ⟨hlog, -⟩
      · exact hlog ▸ hmark
      · exact hlog ▸ hmark.trans (List.suffix_cons _ _)
    · by_cases hj : i = j
      · subst hj
        exact (hs.phase hok hmark hphase).1
      · exact hs.phase_other hj hcommits hphase

/-- A session that is answered got the answer of one place in the serial order, after all that
was committed before it began; if it wrote, that is its own place. -/
theorem World.Reached.answered {w : World σ ε α} (hw : World.Reached start progs w)
    (hws : World.LeadsTo w s) {i : Nat}
    (hfresh : w.sessions i = { prog := progs i }) (hnew : i ∉ w.order) (hexact : exact i) {a : α}
    (ha : (s.sessions i).prog = .done (.ok a)) :
    ∃ before later, s.order = before ++ later ∧ w.order <+: before ∧
      (runs i (inOrder runs start before)).1 = .ok a ∧
      ((runs i (inOrder runs start before)).2 = inOrder runs start before ∨
        later.head? = some i) := by
  have hreached : World.Reached start progs s := hw.leadsTo hws
  obtain ⟨-, hserial, -⟩ := World.Reached.phases hsingle hreached
  obtain ⟨hmark, hphase⟩ := World.Reached.phase_since hsingle hw hws hfresh hnew
  have halone (b : σ) : (progs i).alone b [] = ((runs i b).1, (runs i b).2, []) :=
    (hsingle i).twin.alone b []
  cases hphase with
  | ahead n _ _ hcloses hsame _ =>
    rw [ha] at hcloses hsame
    obtain rfl : n = 0 := hcloses
    have hrun := (hsame s.db).trans (halone s.db)
    obtain ⟨hanswer, hstays⟩ := Prod.mk.inj hrun
    refine ⟨s.order, [], (List.append_nil _).symm, ?_, ?_, ?_⟩
    · exact List.reverse_prefix.mpr (hmark.map Prod.fst)
    · rw [World.order, hserial.inOrder]
      exact hanswer.symm
    · rw [World.order, hserial.inOrder]
      exact .inl (Prod.mk.inj hstays).1.symm
  | inside _ _ _ _ hcloses =>
    rw [ha] at hcloses
    exact absurd hcloses (Nat.succ_ne_zero _)
  | settled _ _ hend =>
    rw [ha] at hend
    rcases hend with ⟨e, he⟩ | ⟨later, earlier, hlog, hpast, hdone, heffect⟩
    · cases he
    have hstore : inOrder runs start (earlier.map Prod.fst).reverse = after start earlier :=
      (hlog ▸ hserial).suffix.inOrder
    rw [halone] at hdone heffect
    refine ⟨(earlier.map Prod.fst).reverse, (later.map Prod.fst).reverse, ?_, ?_, ?_, ?_⟩
    · rw [World.order, hlog, List.map_append, List.reverse_append]
    · exact List.reverse_prefix.mpr (hpast.map Prod.fst)
    · rw [hstore]
      exact (Prog.done.inj (hdone hexact)).symm
    · rw [hstore]
      refine heffect.imp_right fun ⟨rest, b, hlater⟩ => ?_
      rw [hlater, List.map_append, List.reverse_append]
      rfl

end runs
end Txn
