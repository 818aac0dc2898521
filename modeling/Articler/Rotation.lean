import Articler.Runs
import Articler.TokenStorage

/-! Concurrent calls of the token storage. A transaction reads the snapshot of its first
statement; one writer at a time has a working copy, which it may only start from the
newest snapshot. Everything else interleaves freely. -/
namespace Articler.Rotation
open Txn Relation

/-- Where a pair of tokens comes from. -/
inductive Origin where
  | newToken (claim : Claim)
  | refresh (token : String)
deriving DecidableEq, Repr

structure Event where
  generated : Generated
  origin : Origin

def strings (g : Generated) : List String := [g.accessToken, g.refreshToken]

def used (history : List Event) : List String := history.flatMap fun e => strings e.generated

/-- `generate_token` never repeats itself. -/
structure Fresh (history : List Event) (g : Generated) : Prop where
  distinct : g.accessToken ≠ g.refreshToken
  unused : ∀ s ∈ strings g, s ∉ used history

/-- The claim of the `new_token` call at the root of the chain of refreshes that led to
the string; the newest pair comes first. -/
def rootOf : List Event → String → Option Claim
  | [], _ => none
  | e :: history, s =>
    if s ∈ strings e.generated then
      match e.origin with
      | .newToken claim => some claim
      | .refresh token => rootOf history token
    else rootOf history s

/-- What a call of `refresh` knows once it has found its token: when it purged, the row,
and the snapshot of its second transaction. -/
structure Rotating where
  token : String
  purgedAt : Int
  row : TokenRow
  version : Nat

inductive Phase where
  | idle
  | refreshing (token : String)
  | purging (token : String) (purgedAt : Int)
  | purged (token : String) (purgedAt : Int)
  | found (r : Rotating)
  | drawn (r : Rotating) (now : Int) (g : Generated)
  | removed (r : Rotating) (now : Int) (g : Generated)
  | mapped (r : Rotating) (g : Generated)
  | stored (r : Rotating) (g : Generated) (issuedAt : Int)
  | minting (claim : Claim) (now : Int) (g : Generated)
  | minted (claim : Claim) (g : Generated)
  | rejected (accessToken : String)

/-- The process, its database and, to speak about runs, what happened so far: the pairs
generated, the refresh tokens issued and those refreshed, each with the time of the
INSERT and of the purge. -/
structure Sys where
  clock : Int
  db : Db
  version : Nat
  writer : Option (Nat × Db)
  access : AccessTokens
  calls : Nat → Phase
  history : List Event
  issued : List (String × Int)
  refreshed : List (String × Int)

namespace Sys
variable (s : Sys)

def goto (i : Nat) (p : Phase) : Sys := { s with calls := Function.update s.calls i p }

def work (i : Nat) (w : Db) : Sys := { s with writer := some (i, w) }

/-- A commit that changed nothing leaves the snapshots of the others current. -/
def commit (w : Db) : Sys :=
  { s with db := w, version := if w = s.db then s.version else s.version + 1, writer := none }

/-- A call that gives up, or whose transaction is refused, loses its working copy. -/
def release (i : Nat) : Sys := { s with writer := s.writer.filter fun w => w.1 != i }

/-- A new process on the same database. -/
def restart : Sys :=
  { s with writer := none, access := fun _ => none, calls := fun _ => .idle }

def modify (f : AccessTokens → AccessTokens) : Sys := { s with access := f s.access }

def record (e : Event) : Sys := { s with history := e :: s.history }

def issue (token : String) (issuedAt : Int) : Sys :=
  { s with issued := (token, issuedAt) :: s.issued }

def finish (r : Rotating) : Sys :=
  { s with refreshed := (r.token, r.purgedAt) :: s.refreshed }

/-- `validate`, as a call sees it now. -/
def validate (accessToken : String) : Option Claim :=
  match (TokenStorage.validate s.clock accessToken : RunWith AccessTokens Db Error _)
      (s.access, s.db) with
  | (.ok claim, _) => claim
  | (.error _, _) => none

end Sys

def start (clock : Int) (db : Db) : Sys where
  clock := clock
  db := db
  version := 0
  writer := none
  access := fun _ => none
  calls := fun _ => .idle
  history := []
  issued := []
  refreshed := []

/-- One step of one call, or of the rest of the world. -/
inductive Step (s : Sys) : Sys → Prop where
  | tick {clock : Int} (h : s.clock ≤ clock) : Step s { s with clock := clock }
  -- `refresh`: the transaction of `delete_expired`
  | refresh {i : Nat} (token : String) (h : s.calls i = .idle) :
      Step s (s.goto i (.refreshing token))
  | purge {i : Nat} {token : String} {w : Db} (h : s.calls i = .refreshing token)
      (hw : s.writer = none)
      (hrun : (Tokens.deleteExpired s.clock : Run Db Error Unit) s.db = (.ok (), w)) :
      Step s ((s.work i w).goto i (.purging token s.clock))
  | commitPurge {i : Nat} {token : String} {purgedAt : Int} {w : Db}
      (h : s.calls i = .purging token purgedAt) (hw : s.writer = some (i, w)) :
      Step s ((s.commit w).goto i (.purged token purgedAt))
  -- the second transaction
  | findNone {i : Nat} {token : String} {purgedAt : Int} (h : s.calls i = .purged token purgedAt)
      (hrun : (Tokens.find token : Run Db Error _) s.db = (.ok none, s.db)) :
      Step s (s.goto i .idle)
  | find {i : Nat} {token : String} {purgedAt : Int} {row : TokenRow}
      (h : s.calls i = .purged token purgedAt)
      (hrun : (Tokens.find token : Run Db Error _) s.db = (.ok (some row), s.db)) :
      Step s (s.goto i (.found ⟨token, purgedAt, row, s.version⟩))
  | generate {i : Nat} {r : Rotating} {g : Generated} (h : s.calls i = .found r)
      (hg : Fresh s.history g) :
      Step s ((s.record ⟨g, .refresh r.token⟩).goto i (.drawn r s.clock g))
  | delete {i : Nat} {r : Rotating} {now : Int} {g : Generated} {row : Option TokenRow} {w : Db}
      (h : s.calls i = .drawn r now g) (hw : s.writer = none) (hv : s.version = r.version)
      (hrun : (Tokens.delete r.token : Run Db Error _) s.db = (.ok row, w)) :
      Step s ((s.work i w).goto i (.removed r now g))
  | insert {i : Nat} {r : Rotating} {now : Int} {g : Generated} (h : s.calls i = .removed r now g) :
      Step s ((s.modify fun tokens => tokens.insert g.accessToken
        ⟨r.row.claim, now + expirationTime⟩).goto i (.mapped r g))
  | create {i : Nat} {r : Rotating} {g : Generated} {created : Int} {row : TokenRow} {w v : Db}
      (h : s.calls i = .mapped r g) (hw : s.writer = some (i, w))
      (hrun : (Tokens.create s.clock g.refreshToken r.row.userId r.row.clientId created
        refreshTokenExpirationTime : Run Db Error _) w = (.ok row, v)) :
      Step s ((s.work i v).goto i (.stored r g s.clock))
  | commitRefresh {i : Nat} {r : Rotating} {g : Generated} {issuedAt : Int} {w : Db}
      (h : s.calls i = .stored r g issuedAt) (hw : s.writer = some (i, w)) :
      Step s ((((s.commit w).issue g.refreshToken issuedAt).finish r).goto i .idle)
  -- `new_token`
  | newToken {i : Nat} {g : Generated} (claim : Claim) (h : s.calls i = .idle)
      (hg : Fresh s.history g) :
      Step s ((s.record ⟨g, .newToken claim⟩).goto i (.minting claim s.clock g))
  | insertNew {i : Nat} {claim : Claim} {now : Int} {g : Generated}
      (h : s.calls i = .minting claim now g) :
      Step s ((s.modify fun tokens => tokens.insert g.accessToken
        ⟨claim, now + expirationTime⟩).goto i (.minted claim g))
  | createNew {i : Nat} {claim : Claim} {g : Generated} {created : Int} {row : TokenRow} {w : Db}
      (h : s.calls i = .minted claim g) (hw : s.writer = none)
      (hrun : (Tokens.create s.clock g.refreshToken claim.userId claim.clientId created
        refreshTokenExpirationTime : Run Db Error _) s.db = (.ok row, w)) :
      Step s (((s.commit w).issue g.refreshToken s.clock).goto i .idle)
  -- `validate` of an expired token, `gc`
  | reject {i : Nat} {accessToken : String} {t : InternalToken} (h : s.calls i = .idle)
      (ht : s.access accessToken = some t) (hexpired : t.expiresAt < s.clock) :
      Step s (s.goto i (.rejected accessToken))
  | remove {i : Nat} {accessToken : String} (h : s.calls i = .rejected accessToken) :
      Step s ((s.modify fun tokens => tokens.remove accessToken).goto i .idle)
  | gc : Step s (s.modify fun tokens => tokens.retain fun t => s.clock < t.expiresAt)
  /-- Any call may end early, at any time, and so may all of them. -/
  | abort (i : Nat) : Step s ((s.release i).goto i .idle)
  | restart : Step s s.restart
  /-- Any other call of the repository; deleting clients and users is among them. -/
  | elsewhere (c : Call) (hc : .insertToken ∉ c.statements) (hw : s.writer = none) :
      Step s (s.commit ((c.run : Run Db Error Unit) s.db).2)

theorem Sys.goto_calls (s : Sys) (i : Nat) (p : Phase) : (s.goto i p).calls i = p :=
  Function.update_self ..

theorem Sys.goto_calls_of_ne (s : Sys) {i j : Nat} (hj : j ≠ i) (p : Phase) :
    (s.goto i p).calls j = s.calls j := Function.update_of_ne hj ..

section solo
variable {s : Sys} {i : Nat} {clock : Clock} {g : Generated} (hidle : s.calls i = .idle)
  (hwriter : s.writer = none) (hg : Fresh s.history g) (hnow : s.clock ≤ clock.now)
  (hstored : clock.now ≤ clock.stored)
include hidle hwriter hg hstored

/-- A call of `refresh` that has the system to itself does what the program does. -/
theorem refresh_solo (hv : s.db.Valid) (hpurged : s.clock ≤ clock.purged)
    (hnow : clock.purged ≤ clock.now) {token : String} {t : NewToken} {mem : AccessTokens} {db : Db}
    (hrun : (TokenStorage.refresh clock g token : RunWith AccessTokens Db Error _)
      (s.access, s.db) = (.ok (some t), (mem, db))) :
    ∃ s', ReflTransGen Step s s' ∧ s'.access = mem ∧ s'.db = db ∧
      s'.refreshed = (token, clock.purged) :: s.refreshed := by
  cases hrow : s.db.liveToken clock.purged token with
  | none =>
    rw [TokenStorage.refresh_none clock g s.access hrow] at hrun
    cases hrun
  | some row =>
    rw [TokenStorage.refresh_some clock g s.access hv hrow] at hrun
    cases hrun
    have hm := (Db.liveToken_some hrow).1
    have hcreate := Tokens.create_run
      ((s.db.purged clock.purged).deleteTokens fun t => t.token == token) g.refreshToken clock
      (hv.tokensUser row hm) (hv.tokensClient row hm)
    refine ⟨_, .head (.tick hpurged) <| .head (.refresh token hidle) <|
      .head (.purge (Sys.goto_calls ..) hwriter rfl) <|
      .head (.commitPurge (Sys.goto_calls ..) rfl) <|
      .head (.find (Sys.goto_calls ..) (query_ok_iff.mpr ⟨congrArg _ hrow, rfl⟩)) <|
      .head (.tick hnow) <| .head (.generate (Sys.goto_calls ..) hg) <|
      .head (.delete (Sys.goto_calls ..) rfl rfl rfl) <| .head (.insert (Sys.goto_calls ..)) <|
      .head (.tick hstored) <| .head (.create (Sys.goto_calls ..) rfl hcreate) <|
      .head (.commitRefresh (Sys.goto_calls ..) rfl) .refl, rfl, rfl, rfl⟩

include hnow in
theorem newToken_solo {claim : Claim} (huser : s.db.hasUser claim.userId = true)
    (hclient : s.db.hasClient claim.clientId = true) {t : NewToken} {mem : AccessTokens} {db : Db}
    (hrun : (TokenStorage.newToken clock g claim.userId claim.clientId :
      RunWith AccessTokens Db Error _) (s.access, s.db) = (.ok t, (mem, db))) :
    ∃ s', ReflTransGen Step s s' ∧ s'.access = mem ∧ s'.db = db ∧
      s'.issued = (g.refreshToken, clock.stored) :: s.issued := by
  rw [TokenStorage.newToken_ok clock g s.access huser hclient] at hrun
  cases hrun
  have hcreate := Tokens.create_run s.db g.refreshToken clock huser hclient
  exact ⟨_, .head (.tick hnow) <| .head (.newToken claim hidle hg) <|
    .head (.insertNew (Sys.goto_calls ..)) <| .head (.tick hstored) <|
    .head (.createNew (Sys.goto_calls ..) hwriter hcreate) .refl, rfl, rfl, rfl⟩

end solo

/-- The states of runs that begin in a database without refresh tokens. -/
def Reached (s : Sys) : Prop :=
  ∃ clock db, db.tokens = [] ∧ ReflTransGen Step (start clock db) s

end Articler.Rotation
