import Articler.Lib.Txn
import Mathlib.Logic.Function.Basic

/-! Sessions that share one store in WAL mode. A transaction reads the snapshot of its
first statement; its first write fails if anything was committed since, or if another
session is writing; nobody sees its writes before it commits. -/
namespace Txn
open Relation

/-- A program as the statements it has yet to issue: `enter` begins a transaction, or a
savepoint inside of one, and `leave` ends the innermost. -/
inductive Prog (σ ε α : Type) where
  | done (r : Except ε α)
  | stmt (run : σ → σ) (next : σ → Prog σ ε α)
  | enter (next : Prog σ ε α)
  | leave (keep : Bool) (next : Prog σ ε α)

namespace Prog
variable {σ ε α β : Type}

def andThen (k : Except ε α → Prog σ ε β) : Prog σ ε α → Prog σ ε β
  | done r => k r
  | stmt run next => stmt run fun s => andThen k (next s)
  | enter next => enter (andThen k next)
  | leave keep next => leave keep (andThen k next)

end Prog

instance {σ ε : Type} : Acquire σ ε (Prog σ ε) where
  pure a := .done (.ok a)
  bind x f := x.andThen fun
    | .ok a => f a
    | .error e => .done (.error e)
  fail e := .done (.error e)
  stmt f := .stmt (fun s => match f s with
    | .ok (_, t) => t
    | .error _ => s) fun s => .done ((f s).map Prod.fst)
  transaction x := .enter (x.andThen fun
    | .ok a => .leave true (.done (.ok a))
    | .error e => .leave false (.done (.error e)))
  attempt x := x.andThen fun r => .done (.ok r)

variable {σ ε α : Type}

/-- What a transaction sees: the snapshot it took, and its working copy. -/
structure View (σ : Type) where
  version : Nat
  base : σ
  copy : σ

/-- A session: what it still has to do, what its transaction sees, and the copies to go
back to, one for each transaction or savepoint that is open. -/
structure Session (σ ε α : Type) where
  prog : Prog σ ε α
  view : Option (View σ) := none
  saves : List (Option σ) := []

/-- The store, the session that is writing, and a log of what was committed, newest
first: by whom, from which store and to which. -/
structure World (σ ε α : Type) where
  db : σ
  version : Nat := 0
  writer : Option Nat := none
  sessions : Nat → Session σ ε α
  log : List (Nat × σ × σ) := []

namespace World
variable (s : World σ ε α)

def set (i : Nat) (x : Session σ ε α) : World σ ε α :=
  { s with sessions := Function.update s.sessions i x }

/-- What the next statement of a transaction runs on. -/
def seen (view : Option (View σ)) : View σ := view.getD ⟨s.version, s.db, s.db⟩

def lock (i : Nat) : World σ ε α := { s with writer := some i }

def release (i : Nat) : World σ ε α := { s with writer := s.writer.filter fun j => j != i }

def commit (i : Nat) (t : σ) : World σ ε α :=
  { s with db := t, version := s.version + 1, writer := none, log := (i, s.db, t) :: s.log }

end World

inductive World.Step (i : Nat) (s : World σ ε α) : World σ ε α → Prop where
  -- a statement outside of a transaction
  | read {run : σ → σ} {next : σ → Prog σ ε α} (h : s.sessions i = ⟨.stmt run next, none, []⟩)
      (hrun : run s.db = s.db) : Step i s (s.set i ⟨next s.db, none, []⟩)
  | write {run : σ → σ} {next : σ → Prog σ ε α} (h : s.sessions i = ⟨.stmt run next, none, []⟩)
      (hrun : run s.db ≠ s.db) (hw : s.writer = none) :
      Step i s ((s.commit i (run s.db)).set i ⟨next s.db, none, []⟩)
  | enter {next : Prog σ ε α} {view : Option (View σ)} {saves : List (Option σ)}
      (h : s.sessions i = ⟨.enter next, view, saves⟩) :
      Step i s (s.set i ⟨next, view, view.map View.copy :: saves⟩)
  -- a statement of a transaction
  | look {run : σ → σ} {next : σ → Prog σ ε α} {view : Option (View σ)} {c : Option σ}
      {saves : List (Option σ)} (h : s.sessions i = ⟨.stmt run next, view, c :: saves⟩)
      (hrun : run (s.seen view).copy = (s.seen view).copy) :
      Step i s (s.set i ⟨next (s.seen view).copy, some (s.seen view), c :: saves⟩)
  | change {run : σ → σ} {next : σ → Prog σ ε α} {view : Option (View σ)} {c : Option σ}
      {saves : List (Option σ)} (h : s.sessions i = ⟨.stmt run next, view, c :: saves⟩)
      (hrun : run (s.seen view).copy ≠ (s.seen view).copy)
      (hv : (s.seen view).version = s.version) (hw : s.writer = none ∨ s.writer = some i) :
      Step i s ((s.lock i).set i ⟨next (s.seen view).copy,
        some { s.seen view with copy := run (s.seen view).copy }, c :: saves⟩)
  -- the end of a savepoint, and of a transaction
  | savepoint {keep : Bool} {next : Prog σ ε α} {view : Option (View σ)} {c d : Option σ}
      {saves : List (Option σ)} (h : s.sessions i = ⟨.leave keep next, view, c :: d :: saves⟩) :
      Step i s (s.set i ⟨next,
        if keep then view else view.map fun v => { v with copy := c.getD v.base }, d :: saves⟩)
  | commit {next : Prog σ ε α} {v : View σ} {c : Option σ}
      (h : s.sessions i = ⟨.leave true next, some v, [c]⟩) (hw : s.writer = some i) :
      Step i s ((s.commit i v.copy).set i ⟨next, none, []⟩)
  | close {keep : Bool} {next : Prog σ ε α} {view : Option (View σ)} {c : Option σ}
      (h : s.sessions i = ⟨.leave keep next, view, [c]⟩)
      (hw : keep = false ∨ s.writer ≠ some i) :
      Step i s ((s.release i).set i ⟨next, none, []⟩)
  /-- A statement may fail at any time, and a session may be gone at any time. -/
  | abort (e : ε) : Step i s ((s.release i).set i ⟨.done (.error e), none, []⟩)

def World.start (db : σ) (progs : Nat → Prog σ ε α) : World σ ε α where
  db := db
  sessions i := { prog := progs i }

/-- The worlds that any interleaving of the sessions leads to. -/
def World.Reached (db : σ) (progs : Nat → Prog σ ε α) (s : World σ ε α) : Prop :=
  ReflTransGen (fun s t => ∃ i, World.Step i s t) (World.start db progs) s

theorem World.Reached.step {db : σ} {progs : Nat → Prog σ ε α} {s t : World σ ε α}
    (h : World.Reached db progs s) (i : Nat) (hs : World.Step i s t) : World.Reached db progs t :=
  h.tail ⟨i, hs⟩

/-- A transaction seen from inside: the store it began on, its copy, and the copies to go
back to. -/
structure Tx (σ : Type) where
  base : σ
  copy : σ
  saves : List σ

/-- The program commits along `G` only, and ends with `Q`: of its result, of the transaction
it ends in, and of what it committed, newest first. -/
def Prog.Wp (G : σ → σ → Prop) (Q : Except ε α → Option (Tx σ) → List (σ × σ) → Prop) :
    Prog σ ε α → Option (Tx σ) → List (σ × σ) → Prop
  | .done r, tx, own => Q r tx own
  | .stmt run next, none, own => ∀ s,
    (run s = s → Wp G Q (next s) none own) ∧
      (run s ≠ s → G s (run s) ∧ Wp G Q (next s) none ((s, run s) :: own))
  | .stmt run next, some tx, own =>
    Wp G Q (next tx.copy) (some { tx with copy := run tx.copy }) own
  | .enter next, none, own => ∀ s, Wp G Q next (some ⟨s, s, [s]⟩) own
  | .enter next, some tx, own => Wp G Q next (some { tx with saves := tx.copy :: tx.saves }) own
  | .leave _ _, none, _ => False
  | .leave _ _, some ⟨_, _, []⟩, _ => False
  | .leave keep next, some ⟨base, copy, [_]⟩, own =>
    (keep = true → G base copy ∧ Wp G Q next none ((base, copy) :: own)) ∧
      (keep = false ∨ copy = base → Wp G Q next none own)
  | .leave keep next, some ⟨base, copy, c :: d :: saves⟩, own =>
    Wp G Q next (some ⟨base, if keep then copy else c, d :: saves⟩) own

section rules
variable {G : Nat → σ → σ → Prop} {Q : Nat → Except ε α → Option (Tx σ) → List (σ × σ) → Prop}

/-- What a session has seen, or will see if it has not begun to look. -/
def Session.Sees (x : Session σ ε α) (v : View σ) : Prop :=
  x.view = some v ∨ x.view = none ∧ v.copy = v.base

/-- The rest of the program does what it should from where the session stands. -/
structure Session.Ok (x : Session σ ε α) (G : σ → σ → Prop)
    (Q : Except ε α → Option (Tx σ) → List (σ × σ) → Prop) (own : List (σ × σ)) : Prop where
  outside : x.saves = [] → x.view = none ∧ x.prog.Wp G Q none own
  inside : x.saves ≠ [] → ∀ v, x.Sees v →
    x.prog.Wp G Q (some ⟨v.base, v.copy, x.saves.map fun c => c.getD v.base⟩) own

def World.own (s : World σ ε α) (i : Nat) : List (σ × σ) :=
  (s.log.filter fun c => c.1 = i).map Prod.snd

/-- The commits are those of a serial run: each starts from the store the one before left. -/
def Serial (G : Nat → σ → σ → Prop) (start : σ) : List (Nat × σ × σ) → σ → Prop
  | [], db => db = start
  | (i, s, t) :: log, db => t = db ∧ G i s t ∧ Serial G start log s

/-- The invariant of the interleaving. -/
structure World.Ok (G : Nat → σ → σ → Prop)
    (Q : Nat → Except ε α → Option (Tx σ) → List (σ × σ) → Prop) (start : σ)
    (s : World σ ε α) : Prop where
  session : ∀ i, (s.sessions i).Ok (G i) (Q i) (s.own i)
  current : ∀ i v, (s.sessions i).view = some v →
    v.version ≤ s.version ∧ (v.version = s.version → v.base = s.db)
  holds : ∀ i, s.writer = some i → ∃ v, (s.sessions i).view = some v ∧ v.version = s.version
  clean : ∀ i v, (s.sessions i).view = some v → s.writer ≠ some i →
    v.copy = v.base ∧ ∀ x, some x ∈ (s.sessions i).saves → x = v.base
  unseen : ∀ i, (s.sessions i).view = none → ∀ x, some x ∉ (s.sessions i).saves
  serial : Serial G start s.log s.db

/-- What a step of session `i` does to the shared part: nothing, or one commit. -/
inductive World.Shared (G : Nat → σ → σ → Prop) (i : Nat) (s s' : World σ ε α) : Prop where
  | same (hdb : s'.db = s.db) (hversion : s'.version = s.version) (hlog : s'.log = s.log)
  | commit (hw : s.writer = none ∨ s.writer = some i) (hG : G i s.db s'.db)
      (hversion : s'.version = s.version + 1) (hlog : s'.log = (i, s.db, s'.db) :: s.log)

theorem World.Shared.own {s s' : World σ ε α} {i j : Nat} (h : World.Shared G i s s')
    (hj : j ≠ i) : s'.own j = s.own j := by
  cases h with
  | same _ _ hlog => rw [World.own, World.own, hlog]
  | commit _ _ _ hlog =>
    rw [World.own, World.own, hlog, List.filter_cons_of_neg (by simpa using Ne.symm hj)]

/-- If only session `i` moves, only its own part of the invariant has to be shown. -/
theorem World.Ok.move {start : σ} {s s' : World σ ε α} (h : s.Ok G Q start) {i : Nat}
    {x : Session σ ε α} (hs : s'.sessions = Function.update s.sessions i x)
    (hshared : World.Shared G i s s') (hw : ∀ j, j ≠ i → (s'.writer = some j ↔ s.writer = some j))
    (hx : x.Ok (G i) (Q i) (s'.own i))
    (hcurrent : ∀ v, x.view = some v →
      v.version ≤ s'.version ∧ (v.version = s'.version → v.base = s'.db))
    (hholds : s'.writer = some i → ∃ v, x.view = some v ∧ v.version = s'.version)
    (hclean : ∀ v, x.view = some v → s'.writer ≠ some i →
      v.copy = v.base ∧ ∀ c, some c ∈ x.saves → c = v.base)
    (hunseen : x.view = none → ∀ c, some c ∉ x.saves) : s'.Ok G Q start := by
  have hself : s'.sessions i = x := by rw [hs, Function.update_self]
  have hother {j : Nat} (hj : j ≠ i) : s'.sessions j = s.sessions j := by
    rw [hs, Function.update_of_ne hj]
  constructor
  · intro j
    by_cases hj : j = i
    · subst hj
      rwa [hself]
    · rw [hother hj, hshared.own hj]
      exact h.session j
  · intro j v hv
    by_cases hj : j = i
    · subst hj
      exact hcurrent v (hself ▸ hv)
    · rw [hother hj] at hv
      obtain ⟨hle, hbase⟩ := h.current j v hv
      cases hshared with
      | same hdb hversion _ => rw [hdb, hversion]; exact ⟨hle, hbase⟩
      | commit _ _ hversion _ => exact ⟨by omega, fun he => by omega⟩
  · intro j hj'
    by_cases hj : j = i
    · subst hj
      rw [hself]
      exact hholds hj'
    · rw [hother hj]
      have hwj := (hw j hj).mp hj'
      cases hshared with
      | same _ hversion _ => rw [hversion]; exact h.holds j hwj
      | commit hfree _ _ _ =>
        rcases hfree with hfree | hfree
        · rw [hfree] at hwj
          cases hwj
        · exact absurd (Option.some.inj (hwj.symm.trans hfree)) hj
  · intro j v hv hj'
    by_cases hj : j = i
    · subst hj
      rw [hself] at hv ⊢
      exact hclean v hv hj'
    · rw [hother hj] at hv ⊢
      exact h.clean j v hv fun hwj => hj' ((hw j hj).mpr hwj)
  · intro j hv
    by_cases hj : j = i
    · subst hj
      rw [hself] at hv ⊢
      exact hunseen hv
    · rw [hother hj] at hv ⊢
      exact h.unseen j hv
  · cases hshared with
    | same hdb _ hlog => rw [hdb, hlog]; exact h.serial
    | commit _ hG _ hlog => rw [hlog]; exact ⟨rfl, hG, h.serial⟩

@[simp] theorem World.own_set (s : World σ ε α) (i j : Nat) (x : Session σ ε α) :
    (s.set i x).own j = s.own j := rfl

theorem World.own_commit (s : World σ ε α) (i : Nat) (t : σ) :
    (s.commit i t).own i = (s.db, t) :: s.own i := by
  simp [World.own, World.commit]

theorem World.release_writer (s : World σ ε α) {i j : Nat} (hj : j ≠ i) :
    (s.release i).writer = some j ↔ s.writer = some j := by
  simp only [World.release, Option.filter_eq_some_iff, bne_iff_ne, and_iff_left_iff_imp]
  exact fun _ => hj

theorem World.release_writer_self (s : World σ ε α) (i : Nat) :
    (s.release i).writer ≠ some i := by
  simp [World.release, Option.filter_eq_some_iff]

section steps
variable {start : σ} {s s' : World σ ε α} {i : Nat}

theorem World.Ok.not_writer (h : s.Ok G Q start) (hview : (s.sessions i).view = none) :
    s.writer ≠ some i := by
  intro hw
  obtain ⟨v, hv, -⟩ := h.holds i hw
  rw [hview] at hv
  cases hv

theorem World.Ok.leave (h : s.Ok G Q start) {p : Prog σ ε α} (hw : s'.writer ≠ some i)
    (hother : ∀ j, j ≠ i → (s'.writer = some j ↔ s.writer = some j))
    (hsess : s'.sessions = Function.update s.sessions i ⟨p, none, []⟩)
    (hshared : World.Shared G i s s') (hp : p.Wp (G i) (Q i) none (s'.own i)) :
    s'.Ok G Q start :=
  h.move hsess hshared hother ⟨fun _ => ⟨rfl, hp⟩, fun hne => absurd rfl hne⟩ nofun
    (fun he => absurd he hw) nofun (fun _ _ => List.not_mem_nil)

theorem World.Ok.stay (h : s.Ok G Q start) {x : Session σ ε α} (hne : x.saves ≠ [])
    (hx : ∀ v, x.Sees v →
      x.prog.Wp (G i) (Q i) (some ⟨v.base, v.copy, x.saves.map fun c => c.getD v.base⟩) (s.own i))
    (hcurrent : ∀ v, x.view = some v →
      v.version ≤ s.version ∧ (v.version = s.version → v.base = s.db))
    (hholds : s.writer = some i → ∃ v, x.view = some v ∧ v.version = s.version)
    (hclean : ∀ v, x.view = some v → s.writer ≠ some i →
      v.copy = v.base ∧ ∀ c, some c ∈ x.saves → c = v.base)
    (hunseen : x.view = none → ∀ c, some c ∉ x.saves) : (s.set i x).Ok G Q start :=
  h.move rfl (.same rfl rfl rfl) (fun _ _ => Iff.rfl)
    ⟨fun hnil => absurd hnil hne, fun _ => hx⟩ hcurrent hholds hclean hunseen

theorem World.Ok.seen (h : s.Ok G Q start) {p : Prog σ ε α} {view : Option (View σ)}
    {saves : List (Option σ)} (hi : s.sessions i = ⟨p, view, saves⟩) :
    (s.sessions i).Sees (s.seen view) ∧ (s.seen view).version ≤ s.version ∧
      ((s.seen view).version = s.version → (s.seen view).base = s.db) ∧
      (s.writer ≠ some i → (s.seen view).copy = (s.seen view).base ∧
        ∀ c, some c ∈ saves → c = (s.seen view).base) := by
  have hview : (s.sessions i).view = view := by rw [hi]
  have hsaves : (s.sessions i).saves = saves := by rw [hi]
  cases view with
  | none =>
    refine ⟨.inr ⟨hview, rfl⟩, Nat.le_refl _, fun _ => rfl, fun _ => ⟨rfl, fun c hc => ?_⟩⟩
    exact absurd (hsaves ▸ hc) (h.unseen i hview c)
  | some v =>
    obtain ⟨hle, hbase⟩ := h.current i v hview
    exact ⟨.inl hview, hle, hbase, fun hw => hsaves ▸ h.clean i v hview hw⟩

theorem World.Ok.enter (h : s.Ok G Q start) {next : Prog σ ε α} {view : Option (View σ)}
    {saves : List (Option σ)} (hi : s.sessions i = ⟨.enter next, view, saves⟩) :
    (s.set i ⟨next, view, view.map View.copy :: saves⟩).Ok G Q start := by
  have hview : (s.sessions i).view = view := by rw [hi]
  have hsaves : (s.sessions i).saves = saves := by rw [hi]
  have hsession := h.session i
  refine h.stay (by simp) (fun v hv => ?_) (fun v hv => h.current i v (hview.trans hv))
    (fun hw => hview ▸ h.holds i hw) (fun v hv hw => ?_) (fun hv x hx => ?_)
  · have hcopy : (view.map View.copy).getD v.base = v.copy := by
      rcases hv with hv | ⟨hv, hcopy⟩
      · obtain rfl : view = some v := hv
        rfl
      · obtain rfl : view = none := hv
        exact hcopy.symm
    rw [hi] at hsession
    rw [List.map_cons, hcopy]
    cases saves with
    | nil =>
      obtain ⟨hnone, hnext⟩ := hsession.outside rfl
      obtain rfl : view = none := hnone
      rw [← hcopy]
      exact hnext v.base
    | cons c saves => exact hsession.inside (by simp) v hv
  · obtain rfl : view = some v := hv
    obtain ⟨hcopy, hall⟩ := h.clean i v hview hw
    refine ⟨hcopy, fun c hc => ?_⟩
    rcases List.mem_cons.mp hc with hc | hc
    · exact (Option.some.inj hc).trans hcopy
    · exact hall c (hsaves ▸ hc)
  · obtain rfl : view = none := hv
    rcases List.mem_cons.mp hx with hx | hx
    · cases hx
    · exact h.unseen i hview x (hsaves ▸ hx)

theorem World.Ok.look (h : s.Ok G Q start) {run : σ → σ} {next : σ → Prog σ ε α}
    {view : Option (View σ)} {c : Option σ} {saves : List (Option σ)}
    (hi : s.sessions i = ⟨.stmt run next, view, c :: saves⟩)
    (hrun : run (s.seen view).copy = (s.seen view).copy) :
    (s.set i ⟨next (s.seen view).copy, some (s.seen view), c :: saves⟩).Ok G Q start := by
  obtain ⟨hsees, hle, hbase, hclean⟩ := h.seen hi
  refine h.stay (by simp) (fun v hv => ?_) (fun v hv => ?_) (fun hw => ?_) (fun v hv hw => ?_) nofun
  · obtain rfl : s.seen view = v := Option.some.inj (hv.resolve_right (by simp))
    have hin := (h.session i).inside (by simp [hi]) _ hsees
    rw [hi] at hin
    simpa only [Prog.Wp, hrun] using hin
  · obtain rfl : s.seen view = v := Option.some.inj hv
    exact ⟨hle, hbase⟩
  · obtain ⟨v, hv, hversion⟩ := h.holds i hw
    rw [hi] at hv
    obtain rfl : view = some v := hv
    exact ⟨v, rfl, hversion⟩
  · obtain rfl : s.seen view = v := Option.some.inj hv
    exact hclean hw

/-- The first write of a transaction, or a later one: nothing was committed since its
snapshot, and nobody else is writing. -/
theorem World.Ok.change (h : s.Ok G Q start) {run : σ → σ} {next : σ → Prog σ ε α}
    {view : Option (View σ)} {c : Option σ} {saves : List (Option σ)}
    (hi : s.sessions i = ⟨.stmt run next, view, c :: saves⟩)
    (hv : (s.seen view).version = s.version) (hw : s.writer = none ∨ s.writer = some i) :
    ((s.lock i).set i ⟨next (s.seen view).copy,
      some { s.seen view with copy := run (s.seen view).copy }, c :: saves⟩).Ok G Q start := by
  obtain ⟨hsees, hle, hbase, -⟩ := h.seen hi
  have hin := (h.session i).inside (by simp [hi]) _ hsees
  rw [hi] at hin
  refine h.move rfl (.same rfl rfl rfl) (fun j hj => ?_) ⟨nofun, fun _ v hv' => ?_⟩ (fun v hv' => ?_)
    (fun _ => ⟨_, rfl, hv⟩) (fun v hv' hne => absurd rfl hne) nofun
  · rcases hw with hw | hw <;> simp [World.set, World.lock, hw, Ne.symm hj]
  · obtain rfl := Option.some.inj (hv'.resolve_right (by simp))
    exact hin
  · obtain rfl := Option.some.inj hv'
    exact ⟨hle, hbase⟩

theorem World.Ok.savepoint (h : s.Ok G Q start) {keep : Bool} {next : Prog σ ε α}
    {view : Option (View σ)} {c d : Option σ} {saves : List (Option σ)}
    (hi : s.sessions i = ⟨.leave keep next, view, c :: d :: saves⟩) :
    (s.set i ⟨next, if keep then view else view.map fun v => { v with copy := c.getD v.base },
      d :: saves⟩).Ok G Q start := by
  have hview : (s.sessions i).view = view := by rw [hi]
  have hsaves : (s.sessions i).saves = c :: d :: saves := by rw [hi]
  have hsession := (h.session i).inside (by simp [hi])
  have hsub (x : σ) (hx : some x ∈ d :: saves) : some x ∈ (s.sessions i).saves :=
    hsaves ▸ List.mem_cons_of_mem c hx
  rw [hi] at hsession
  cases keep with
  | true =>
    exact h.stay (by simp) hsession (fun v hv => h.current i v (hview.trans hv))
      (fun hw => hview ▸ h.holds i hw)
      (fun v hv hw => ⟨(h.clean i v (hview.trans hv) hw).1,
        fun x hx => (h.clean i v (hview.trans hv) hw).2 x (hsub x hx)⟩)
      (fun hv x hx => h.unseen i (hview.trans hv) x (hsub x hx))
  | false =>
    cases view with
    | none =>
      have hc : c = none := by
        cases c with
        | none => rfl
        | some x => exact absurd (hsaves ▸ List.mem_cons_self) (h.unseen i hview x)
      subst hc
      refine h.stay (by simp) (fun v hv => ?_) nofun (fun hw => absurd hw (h.not_writer hview)) nofun
        (fun _ x hx => h.unseen i hview x (hsub x hx))
      obtain hcopy : v.copy = v.base := (hv.resolve_left (by simp)).2
      have hnext := hsession v (.inr ⟨rfl, hcopy⟩)
      rw [hcopy]
      exact hnext
    | some u =>
      refine h.stay (by simp) (fun v hv => ?_) (fun v hv => ?_) (fun hw => ?_) (fun v hv hw => ?_)
        nofun
      · obtain rfl := Option.some.inj (hv.resolve_right (by simp))
        exact hsession u (.inl rfl)
      · obtain rfl := Option.some.inj hv
        exact h.current i u hview
      · obtain ⟨v, hv, hversion⟩ := h.holds i hw
        obtain rfl : u = v := Option.some.inj (hview.symm.trans hv)
        exact ⟨_, rfl, hversion⟩
      · obtain rfl := Option.some.inj hv
        obtain ⟨-, hall⟩ := h.clean i u hview hw
        refine ⟨?_, fun x hx => hall x (hsub x hx)⟩
        cases c with
        | none => rfl
        | some x => exact hall x (hsaves ▸ List.mem_cons_self)

/-- A commit of writes: the transaction ran on the very store that it replaces. -/
theorem World.Ok.commit (h : s.Ok G Q start) {next : Prog σ ε α} {v : View σ} {c : Option σ}
    (hi : s.sessions i = ⟨.leave true next, some v, [c]⟩) (hw : s.writer = some i) :
    ((s.commit i v.copy).set i ⟨next, none, []⟩).Ok G Q start := by
  have hview : (s.sessions i).view = some v := by rw [hi]
  have hsession := (h.session i).inside (by simp [hi]) v (.inl hview)
  rw [hi] at hsession
  obtain ⟨hG, hnext⟩ := hsession.1 rfl
  have hbase : v.base = s.db := by
    obtain ⟨u, hu, hversion⟩ := h.holds i hw
    obtain rfl : v = u := Option.some.inj (hview.symm.trans hu)
    exact (h.current i v hview).2 hversion
  rw [hbase] at hG hnext
  refine h.leave nofun (fun j hj => ?_) rfl (.commit (.inr hw) hG rfl rfl) ?_
  · rw [hw]
    exact ⟨nofun, fun he => absurd (Option.some.inj he).symm hj⟩
  · rw [World.own_set, World.own_commit]
    exact hnext

theorem World.Ok.close (h : s.Ok G Q start) {keep : Bool} {next : Prog σ ε α}
    {view : Option (View σ)} {c : Option σ} (hi : s.sessions i = ⟨.leave keep next, view, [c]⟩)
    (hw : keep = false ∨ s.writer ≠ some i) :
    ((s.release i).set i ⟨next, none, []⟩).Ok G Q start := by
  obtain ⟨hsees, -, -, hclean⟩ := h.seen hi
  have hsession := (h.session i).inside (by simp [hi]) _ hsees
  rw [hi] at hsession
  exact h.leave (s.release_writer_self i) (fun j hj => s.release_writer hj) rfl
    (.same rfl rfl rfl) (hsession.2 (hw.imp_right fun hne => (hclean hne).1))

/-- Every step keeps the invariant, provided an error is always an acceptable end. -/
theorem World.Step.ok (hQ : ∀ i e own, Q i (.error e) none own) (hs : World.Step i s s')
    (h : s.Ok G Q start) : s'.Ok G Q start := by
  have hsession := h.session i
  have hwriter (hview : (s.sessions i).view = none) := h.not_writer hview
  cases hs with
  | @read run next hi hrun =>
    rw [hi] at hsession hwriter
    exact h.leave (hwriter rfl) (fun _ _ => Iff.rfl) rfl (.same rfl rfl rfl)
      (((hsession.outside rfl).2 s.db).1 hrun)
  | @write run next hi hrun hw =>
    rw [hi] at hsession
    obtain ⟨hG, hnext⟩ := ((hsession.outside rfl).2 s.db).2 hrun
    refine h.leave nofun (fun j _ => ?_) rfl (.commit (.inl hw) hG rfl rfl) ?_
    · rw [hw]
      exact Iff.rfl
    · rw [World.own_set, World.own_commit]
      exact hnext
  | enter hi => exact h.enter hi
  | look hi hrun => exact h.look hi hrun
  | change hi _ hv hw => exact h.change hi hv hw
  | savepoint hi => exact h.savepoint hi
  | commit hi hw => exact h.commit hi hw
  | close hi hw => exact h.close hi hw
  | abort e =>
    exact h.leave (s.release_writer_self i) (fun j hj => s.release_writer hj) rfl
      (.same rfl rfl rfl) (hQ i e _)

theorem World.Reached.ok {progs : Nat → Prog σ ε α} (hQ : ∀ i e own, Q i (.error e) none own)
    (hp : ∀ i, (progs i).Wp (G i) (Q i) none []) (h : World.Reached start progs s) :
    s.Ok G Q start := by
  refine run_invariant (fun _ _ hok ⟨_, hs⟩ => hs.ok hQ hok) ?_ h
  exact {
    session := fun i => ⟨fun _ => ⟨rfl, hp i⟩, fun hne => absurd rfl hne⟩
    current := nofun
    holds := nofun
    clean := nofun
    unseen := fun _ _ _ => List.not_mem_nil
    serial := rfl }

end steps

/-- What every commit keeps holds in the end if it held at the start. -/
theorem Serial.keeps {start db : σ} {log : List (Nat × σ × σ)} (h : Serial G start log db)
    {I : σ → Prop} (hI : ∀ i s t, G i s t → I s → I t) (hstart : I start) : I db := by
  induction log generalizing db with
  | nil => exact h ▸ hstart
  | cons c log ih =>
    obtain ⟨i, s, t⟩ := c
    obtain ⟨rfl, hG, hlog⟩ := h
    exact hI i s t hG (ih hlog)

theorem Serial.commits {start db : σ} {log : List (Nat × σ × σ)} (h : Serial G start log db)
    {i : Nat} {s t : σ} (hc : (i, s, t) ∈ log) : G i s t := by
  induction log generalizing db with
  | nil => cases hc
  | cons c log ih =>
    obtain ⟨j, a, b⟩ := c
    obtain ⟨-, hG, hlog⟩ := h
    rcases List.mem_cons.mp hc with heq | hc
    · cases heq
      exact hG
    · exact ih hlog hc

/-- What commits keep, one of them at most brings about. -/
theorem Serial.once {start db : σ} {log : List (Nat × σ × σ)} (h : Serial G start log db)
    {I : σ → Prop} (hI : ∀ i s t, G i s t → I s → I t) {i j : Nat} {a b c d : σ}
    (hi : (i, a, b) ∈ log) (hj : (j, c, d) ∈ log) (ha : ¬ I a) (hb : I b) (hc : ¬ I c)
    (hd : I d) : i = j := by
  have hsince {start db : σ} {log : List (Nat × σ × σ)} (h : Serial G start log db) {k : Nat}
      {s t : σ} (hk : (k, s, t) ∈ log) (ht : I t) : I db := by
    induction log generalizing db with
    | nil => cases hk
    | cons e log ih =>
      obtain ⟨l, u, v⟩ := e
      obtain ⟨rfl, hG, hlog⟩ := h
      rcases List.mem_cons.mp hk with heq | hk
      · cases heq
        exact ht
      · exact hI l u v hG (ih hlog hk)
  induction log generalizing db with
  | nil => cases hi
  | cons e log ih =>
    obtain ⟨k, s, t⟩ := e
    obtain ⟨-, -, hlog⟩ := h
    rcases List.mem_cons.mp hi with hihead | hitail
    · cases hihead
      rcases List.mem_cons.mp hj with hjhead | hjtail
      · cases hjhead
        rfl
      · exact absurd (hsince hlog hjtail hd) ha
    · rcases List.mem_cons.mp hj with hjhead | hjtail
      · cases hjhead
        exact absurd (hsince hlog hitail hb) hc
      · exact ih hlog hitail hjtail

theorem Session.Ok.done {x : Session σ ε α} {G : σ → σ → Prop}
    {Q : Except ε α → Option (Tx σ) → List (σ × σ) → Prop} {own : List (σ × σ)}
    (h : x.Ok G Q own) {r : Except ε α} (hx : x.prog = .done r) (db : σ) : ∃ tx, Q r tx own := by
  by_cases hsaves : x.saves = []
  · have hdone := (h.outside hsaves).2
    rw [hx] at hdone
    exact ⟨_, hdone⟩
  · obtain ⟨v, hv⟩ : ∃ v, x.Sees v := by
      cases hview : x.view with
      | none => exact ⟨⟨0, db, db⟩, .inr ⟨hview, rfl⟩⟩
      | some v => exact ⟨v, .inl hview⟩
    have hdone := h.inside hsaves v hv
    rw [hx] at hdone
    exact ⟨_, hdone⟩

theorem World.mem_own {s : World σ ε α} {i : Nat} {a b : σ} (h : (a, b) ∈ s.own i) :
    (i, a, b) ∈ s.log := by
  obtain ⟨⟨j, c⟩, hc, rfl⟩ := List.mem_map.mp h
  obtain ⟨hm, hj⟩ := List.mem_filter.mp hc
  obtain rfl : j = i := of_decide_eq_true hj
  exact hm

end rules

section built
variable {β : Type} {G : σ → σ → Prop}

theorem Prog.Wp.mono {Q Q' : Except ε α → Option (Tx σ) → List (σ × σ) → Prop}
    (hQ : ∀ r tx own, Q r tx own → Q' r tx own) {x : Prog σ ε α} {tx : Option (Tx σ)}
    {own : List (σ × σ)} (h : x.Wp G Q tx own) : x.Wp G Q' tx own := by
  induction x generalizing tx own with
  | done r => exact hQ r tx own h
  | stmt run next ih =>
    cases tx with
    | none => exact fun s => ⟨fun he => ih s ((h s).1 he), fun he => ((h s).2 he).imp_right (ih s)⟩
    | some tx => exact ih _ h
  | enter next ih =>
    cases tx with
    | none => exact fun s => ih (h s)
    | some tx => exact ih h
  | leave keep next ih =>
    obtain _ | ⟨base, copy, _ | ⟨c, _ | ⟨d, saves⟩⟩⟩ := tx
    · exact h
    · exact h
    · exact ⟨fun hk => (h.1 hk).imp_right ih, fun hk => ih (h.2 hk)⟩
    · exact ih h

theorem Prog.Wp.andThen {Q : Except ε β → Option (Tx σ) → List (σ × σ) → Prop}
    {k : Except ε α → Prog σ ε β} {x : Prog σ ε α} {tx : Option (Tx σ)} {own : List (σ × σ)}
    (h : x.Wp G (fun r tx own => (k r).Wp G Q tx own) tx own) :
    (x.andThen k).Wp G Q tx own := by
  induction x generalizing tx own with
  | done r => exact h
  | stmt run next ih =>
    cases tx with
    | none => exact fun s => ⟨fun he => ih s ((h s).1 he), fun he => ((h s).2 he).imp_right (ih s)⟩
    | some tx => exact ih _ h
  | enter next ih =>
    cases tx with
    | none => exact fun s => ih (h s)
    | some tx => exact ih h
  | leave keep next ih =>
    obtain _ | ⟨base, copy, _ | ⟨c, _ | ⟨d, saves⟩⟩⟩ := tx
    · exact h
    · exact h
    · exact ⟨fun hk => (h.1 hk).imp_right ih, fun hk => ih (h.2 hk)⟩
    · exact ih h

section sequencing
variable {Q : Except ε β → Option (Tx σ) → List (σ × σ) → Prop} {own : List (σ × σ)}

theorem Prog.wp_bind {x : Prog σ ε α} {f : α → Prog σ ε β} {tx : Option (Tx σ)}
    (h : x.Wp G (fun r tx own => match r with
      | .ok a => (f a).Wp G Q tx own
      | .error e => Q (.error e) tx own) tx own) : (x >>= f).Wp G Q tx own :=
  .andThen (h.mono fun r _ _ h => by
    cases r with
    | ok a => exact h
    | error e => exact h)

theorem Prog.wp_query_outside {f : σ → Except ε α} {k : α → Prog σ ε β}
    (herror : ∀ e, Q (.error e) none own)
    (hok : ∀ s a, f s = .ok a → (k a).Wp G Q none own) :
    (Txn.query f >>= k : Prog σ ε β).Wp G Q none own := by
  refine wp_bind fun s => ?_
  dsimp only
  cases hf : f s with
  | ok a => exact ⟨fun _ => hok s a hf, fun hne => absurd rfl hne⟩
  | error e => exact ⟨fun _ => herror e, fun hne => absurd rfl hne⟩

theorem Prog.wp_query_inside {f : σ → Except ε α} {k : α → Prog σ ε β} {tx : Tx σ}
    (herror : ∀ e, Q (.error e) (some tx) own)
    (hok : ∀ a, f tx.copy = .ok a → (k a).Wp G Q (some tx) own) :
    (Txn.query f >>= k : Prog σ ε β).Wp G Q (some tx) own := by
  refine wp_bind ?_
  dsimp only [Txn.query, Txn.stmt, Wp]
  cases hf : f tx.copy with
  | ok a => exact hok a hf
  | error e => exact herror e

theorem Prog.wp_stmt_inside {f : σ → Except ε (α × σ)} {k : α → Prog σ ε β} {tx : Tx σ}
    (herror : ∀ e, Q (.error e) (some tx) own)
    (hok : ∀ a t, f tx.copy = .ok (a, t) → (k a).Wp G Q (some { tx with copy := t }) own) :
    (Txn.stmt f >>= k : Prog σ ε β).Wp G Q (some tx) own := by
  refine wp_bind ?_
  dsimp only [Txn.stmt, Wp]
  cases hf : f tx.copy with
  | ok p => exact hok p.1 p.2 hf
  | error e => exact herror e

/-- A transaction that is not nested commits what its block has made of the store. -/
theorem Prog.wp_transaction {x : Prog σ ε β}
    (h : ∀ s, x.Wp G (fun r tx own => ∃ copy, tx = some ⟨s, copy, [s]⟩ ∧ match r with
      | .ok a => G s copy ∧ Q (.ok a) none ((s, copy) :: own) ∧ (copy = s → Q (.ok a) none own)
      | .error e => Q (.error e) none own) (some ⟨s, s, [s]⟩) own) :
    (Txn.transaction x : Prog σ ε β).Wp G Q none own := by
  refine fun s => .andThen ((h s).mono fun r tx own ⟨copy, htx, hr⟩ => ?_)
  subst htx
  cases r with
  | ok a =>
    obtain ⟨hG, hcommit, hsame⟩ := hr
    exact ⟨fun _ => ⟨hG, hcommit⟩, fun hclean => hsame (hclean.resolve_left (by simp))⟩
  | error e => exact ⟨nofun, fun _ => hr⟩

end sequencing

/-- Programs of statements along `G` commit along `G`, and leave no transaction open. -/
theorem Built.wp (hrefl : ∀ s, G s s) (htrans : ∀ s t u, G s t → G t u → G s u)
    {x : Prog σ ε α} (hx : Built G x) (own : List (σ × σ)) :
    x.Wp G (fun _ tx _ => tx = none) none own ∧
      ∀ base copy c saves, G base copy →
        x.Wp G (fun _ tx _ => ∃ copy', tx = some ⟨base, copy', c :: saves⟩ ∧ G base copy')
          (some ⟨base, copy, c :: saves⟩) own := by
  induction hx generalizing own with
  | pure a => exact ⟨rfl, fun _ copy _ _ hG => ⟨copy, rfl, hG⟩⟩
  | fail e => exact ⟨rfl, fun _ copy _ _ hG => ⟨copy, rfl, hG⟩⟩
  | @stmt _ f hf =>
    have hrun (s : σ) : G s (match f s with
        | .ok (_, t) => t
        | .error _ => s) := by
      cases h : f s with
      | ok p => exact hf s p.1 p.2 h
      | error e => exact hrefl s
    exact ⟨fun s => ⟨fun _ => rfl, fun _ => ⟨hrun s, rfl⟩⟩,
      fun base copy c saves hG => ⟨_, rfl, htrans _ _ _ hG (hrun copy)⟩⟩
  | bind _ _ hx hf =>
    refine ⟨.andThen ((hx own).1.mono fun r tx own h => ?_), fun base copy c saves hG =>
      .andThen (((hx own).2 base copy c saves hG).mono fun r tx own h => ?_)⟩
    · subst h
      cases r with
      | ok a => exact (hf a own).1
      | error e => rfl
    · obtain ⟨copy', rfl, hG'⟩ := h
      cases r with
      | ok a => exact (hf a own).2 base copy' c saves hG'
      | error e => exact ⟨copy', rfl, hG'⟩
  | @given _ _ r _ _ hf =>
    cases r with
    | ok a => exact hf a rfl own
    | error e => exact ⟨rfl, fun _ copy _ _ hG => ⟨copy, rfl, hG⟩⟩
  | transaction _ hx =>
    refine ⟨fun s => .andThen (((hx own).2 s s s [] (hrefl s)).mono fun r tx own h => ?_),
      fun base copy c saves hG =>
        .andThen (((hx own).2 base copy copy (c :: saves) hG).mono fun r tx own h => ?_)⟩
    · obtain ⟨copy', rfl, hG'⟩ := h
      cases r with
      | ok a => exact ⟨fun _ => ⟨hG', rfl⟩, fun _ => rfl⟩
      | error e => exact ⟨nofun, fun _ => rfl⟩
    · obtain ⟨copy', rfl, hG'⟩ := h
      cases r with
      | ok a => exact ⟨copy', rfl, hG'⟩
      | error e => exact ⟨copy, rfl, hG⟩

/-- Whatever sessions of such programs do, and however they interleave, the store moves
from its start by commits along `G`. -/
theorem World.Reached.serial (hrefl : ∀ s, G s s) (htrans : ∀ s t u, G s t → G t u → G s u)
    {progs : Nat → Prog σ ε α} (hp : ∀ i, Built G (progs i)) {start : σ} {s : World σ ε α}
    (h : World.Reached start progs s) : Serial (fun _ => G) start s.log s.db :=
  (h.ok (Q := fun _ _ tx _ => tx = none) (fun _ _ _ => rfl)
    fun i => ((hp i).wp hrefl htrans []).1).serial

end built

end Txn
