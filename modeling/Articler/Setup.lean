import Articler.Lib.Sessions
import Articler.Runs
import Articler.Web.Setup

/-! The first user. Setup needs no login, so it must not be possible once there is a user,
however its requests interleave with one another and with `articlerctl`. -/
namespace Articler.Setup
open Txn

inductive Caller where
  | doSetup (now : DateTime) (form : Web.SetupForm)
  | createUser (now : DateTime) (username password name email : String)

/-- What a caller runs; `articlerctl` has no response to show. -/
def Caller.run {m : Type → Type} [Acquire Db Error m] (crates : AccountCrates) :
    Caller → m (Option Web.SetupResponse)
  | doSetup now form => do
    let response ← Web.doSetup crates now form
    pure (some response)
  | createUser now username password name email => do
    Cli.createUser crates now username password name email
    pure none

/-- What a commit of a caller does to the users: nobody is removed, and setup adds somebody
only where there was nobody. -/
def Caller.Commits (caller : Caller) (s t : Db) : Prop :=
  s.users.length ≤ t.users.length ∧
    ((∃ now form, caller = doSetup now form) → t.users = s.users ∨ s.users = [])

/-- A setup that answers with success made the first user. -/
def Made (r : Except Error Web.SetupResponse) (own : List (Db × Db)) : Prop :=
  ∀ location, r = .ok (.ok location) → ∃ c ∈ own, c.1.users = [] ∧ c.2.users ≠ []

theorem Caller.Commits.refl (caller : Caller) (s : Db) : caller.Commits s s :=
  ⟨Nat.le_refl _, fun _ => .inl rfl⟩

theorem insertUser_users {s t : Db} {row : Int → UserRow} {u : UserRow}
    (h : s.insertUser row = .ok (u, t)) : t.users = s.users ++ [u] := by
  obtain ⟨rfl, -, rfl⟩ := Db.insertUser_ok h
  rfl

section programs
variable {crates : AccountCrates} {G : Db → Db → Prop}

theorem validated_wp {α : Type} {r : Except Error α} {next : α → Prog Db Error Web.SetupResponse}
    {Q : Except Error Web.SetupResponse → Option (Tx Db) → List (Db × Db) → Prop}
    {own : List (Db × Db)} (herror : ∀ e, Q (.error e) none own)
    (hmessage : ∀ message, Q (.ok (.unprocessableEntity message)) none own)
    (hnext : ∀ a, (next a).Wp G Q none own) : (Web.validated r next).Wp G Q none own := by
  unfold Web.validated
  split
  · exact hnext _
  · exact hmessage _
  · exact herror _

/-- The check and the insertion see the same store. -/
theorem doSetup_wp (now : DateTime) (form : Web.SetupForm) :
    (Web.doSetup crates now form : Prog Db Error _).Wp (Caller.doSetup now form).Commits
      (fun r tx own => tx = none ∧ Made r own) none [] := by
  have herror (e : Error) (own : List (Db × Db)) :
      (none : Option (Tx Db)) = none ∧ Made (.error e) own := ⟨rfl, nofun⟩
  have hother {r : Web.SetupResponse} (hr : ∀ location, r ≠ .ok location) (own : List (Db × Db)) :
      (none : Option (Tx Db)) = none ∧ Made (.ok r) own :=
    ⟨rfl, fun location h => absurd (Except.ok.inj h) (hr location)⟩
  refine Prog.wp_query_outside (fun e => herror e []) fun s count _ => ?_
  split
  · exact hother (by simp) []
  generalize Username.tryFrom form.username = username, Password.tryFrom form.password = password,
    Password.tryFrom form.confirmPassword = confirmPassword
  refine validated_wp (fun e => herror e []) (fun _ => hother (by simp) []) fun username => ?_
  refine validated_wp (fun e => herror e []) (fun _ => hother (by simp) []) fun password => ?_
  refine validated_wp (fun e => herror e []) (fun _ => hother (by simp) []) fun confirmPassword => ?_
  split
  · exact hother (by simp) []
  cases crates.hashPassword password with
  | error e => exact herror e []
  | ok passwordHash =>
  refine Prog.wp_transaction fun s => ?_
  refine Prog.wp_query_inside (fun e => ⟨s, rfl, herror e []⟩) fun count hcount => ?_
  split
  · exact ⟨s, rfl, .refl _ s, hother (by simp) _, fun _ => hother (by simp) _⟩
  · rename_i hzero
    have hempty : s.users = [] := by
      obtain rfl : (s.users.length : Int) = count := Except.ok.inj hcount
      exact List.eq_nil_of_length_eq_zero (by omega)
    refine Prog.wp_stmt_inside (fun e => ⟨s, rfl, herror e []⟩) fun user t hinsert => ?_
    have husers := insertUser_users hinsert
    dsimp only at husers
    rw [hempty, List.nil_append] at husers
    have hmade : Made (.ok (.ok "/login")) [(s, t)] :=
      fun _ _ => ⟨_, List.mem_cons_self, hempty, by simp [husers]⟩
    refine ⟨t, rfl, ⟨by simp [hempty], fun _ => .inr hempty⟩, ⟨rfl, hmade⟩, fun hsame => ?_⟩
    rw [hsame, hempty] at husers
    cases husers

variable (crates) in
theorem createUser_built (now : DateTime) (username password name email : String) :
    Built (fun s t => s.users.length ≤ t.users.length)
      (Cli.createUser crates now username password name email : Prog Db Error Unit) := by
  refine .transaction ?_
  split
  · exact .fail _
  refine .bind (.ofExcept _) fun username => .bind (.query (fun s => s.users.length.le_refl) _)
    fun found => ?_
  split
  · exact .fail _
  refine .bind (.ofExcept _) fun password => .bind (.ofExcept _) fun passwordHash =>
    .bind (.stmt fun s user t hinsert => ?_) fun _ => .pure _
  rw [insertUser_users hinsert, List.length_append]
  exact Nat.le_add_right ..

def Caller.Ends (r : Except Error (Option Web.SetupResponse)) (own : List (Db × Db)) : Prop :=
  ∀ location, r = .ok (some (.ok location)) → ∃ c ∈ own, c.1.users = [] ∧ c.2.users ≠ []

theorem Caller.run_wp (caller : Caller) :
    (caller.run crates : Prog Db Error _).Wp caller.Commits (fun r _ own => Ends r own) none [] := by
  cases caller with
  | doSetup now form =>
    refine Prog.wp_bind ((doSetup_wp now form).mono fun r tx own h => ?_)
    cases r with
    | ok response =>
      rintro location hr
      cases hr
      exact h.2 location rfl
    | error e => exact nofun
  | createUser now username password name email =>
    have hbuilt := (createUser_built crates now username password name email).mono
      (H := (Caller.createUser now username password name email).Commits) fun s t h =>
        ⟨h, fun ⟨_, _, h⟩ => nomatch h⟩
    have hwp := (hbuilt.wp (.refl _) (fun s t u h1 h2 => ⟨h1.1.trans h2.1, fun ⟨_, _, h⟩ =>
      nomatch h⟩) []).1
    refine Prog.wp_bind (hwp.mono fun r tx own h => ?_)
    cases r with
    | ok _ => exact nofun
    | error e => exact nofun

end programs

/-- The response of a setup says that it created its user. -/
def Succeeded (s : World Db Error (Option Web.SetupResponse)) (i : Nat) : Prop :=
  ∃ location, (s.sessions i).prog = .done (.ok (some (.ok location)))

/-- Under every interleaving, a setup commits a user only if nobody was there at its commit,
and at most one setup succeeds. -/
theorem setup_first {crates : AccountCrates} {db : Db} {callers : Nat → Caller}
    {s : World Db Error (Option Web.SetupResponse)}
    (h : World.Reached db (fun i => (callers i).run crates) s) :
    (∀ i now form a b, callers i = .doSetup now form → (i, a, b) ∈ s.log → b.users ≠ a.users →
      a.users = []) ∧
    ∀ i j, Succeeded s i → Succeeded s j → i = j := by
  have hok := h.ok (G := fun i => (callers i).Commits) (Q := fun _ r _ own => Caller.Ends r own)
    (fun _ _ _ => nofun) fun i => (callers i).run_wp
  refine ⟨fun i now form a b hi hc hne => ?_, fun i j ⟨_, hi⟩ ⟨_, hj⟩ => ?_⟩
  · exact ((hok.serial.commits hc).2 ⟨now, form, hi⟩).resolve_left hne
  · obtain ⟨_, hendi⟩ := (hok.session i).done hi s.db
    obtain ⟨_, hendj⟩ := (hok.session j).done hj s.db
    obtain ⟨⟨a, b⟩, hab, ha, hb⟩ := hendi _ rfl
    obtain ⟨⟨c, d⟩, hcd, hc, hd⟩ := hendj _ rfl
    refine hok.serial.once (I := fun db => db.users ≠ []) (fun k s t hG hs => ?_)
      (World.mem_own hab) (World.mem_own hcd) (not_not_intro ha) hb (not_not_intro hc) hd
    have hpos := List.length_pos_iff.mpr hs
    exact List.length_pos_iff.mp (hpos.trans_le hG.1)

/-- Hashes that can be computed here. -/
def plainAccounts : AccountCrates where
  hashPassword password := .ok password.val
  emailValid _ := true

def racing (_ : Nat) : Caller := .doSetup ⟨100, by decide⟩ ⟨"ada", "secret", "secret"⟩

/-- Two setups count nobody, inside of their transactions too; one gets to insert. -/
theorem racing_reached : ∃ s : World Db Error (Option Web.SetupResponse),
    World.Reached {} (fun i => (racing i).run plainAccounts) s ∧ Succeeded s 0 ∧
      s.db.users.length = 1 := by
  have hstart : World.Reached {} (fun i => (racing i).run plainAccounts)
    (World.start {} fun i => (racing i).run plainAccounts) := .refl
  have hfirst := ((hstart.step 0 (.read rfl rfl)).step 0 (.enter rfl)).step 0 (.look rfl rfl)
  have hsecond := ((hfirst.step 1 (.read rfl rfl)).step 1 (.enter rfl)).step 1 (.look rfl rfl)
  have hinsert := hsecond.step 0 (.change rfl (by decide) rfl (.inl rfl))
  have hcommit := hinsert.step 0 (.commit rfl rfl)
  exact ⟨_, hcommit.step 1 (.abort (.sqlx .unique)), ⟨"/login", rfl⟩, rfl⟩

theorem setup_first_racing : ∃ s : World Db Error (Option Web.SetupResponse),
    World.Reached {} (fun i => (racing i).run plainAccounts) s ∧ Succeeded s 0 ∧
      s.db.users.length = 1 ∧ ∀ i, Succeeded s i → i = 0 := by
  obtain ⟨s, h, hfirst, hlength⟩ := racing_reached
  exact ⟨s, h, hfirst, hlength, fun i hi => (setup_first h).2 i 0 hi hfirst⟩

end Articler.Setup
