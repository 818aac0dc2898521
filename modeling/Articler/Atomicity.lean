import Articler.Lib.Faults
import Articler.TokenStorage

/-! Operations of the token storage that fail. The map is no part of the transactions: what
was inserted stays when the database gives up. -/
namespace Articler
open Txn

/-- The operations that issue tokens. -/
inductive TokenOp where
  | newToken (userId clientId : Int)
  | refresh (refreshToken : String)

namespace TokenOp

def run {m : Type → Type} [Acquire Db Error m] [MonadState AccessTokens m] (clock : Clock)
    (generated : Generated) : TokenOp → m Unit
  | newToken userId clientId => do
    let _ ← TokenStorage.newToken clock generated userId clientId
  | refresh token => do let _ ← TokenStorage.refresh clock generated token

/-- The claim that goes into the map: at once in `new_token`; in `refresh` once the token was
found and removed, that is after six calls of the database. -/
def inserts (op : TokenOp) (clock : Clock) (faults : Nat → Option Error)
    (s : Course AccessTokens Db) : Option Claim :=
  match op with
  | newToken userId clientId => some ⟨userId, clientId⟩
  | refresh token =>
    if (List.range 6).all fun k => (faults (s.calls + k)).isNone then
      (s.store.liveToken clock.purged token).map TokenRow.claim
    else none

end TokenOp

section accepted
variable (now : Int) (s : Course AccessTokens Db)

def Accepted (accessToken : String) (claim : Claim) : Prop :=
  ((TokenStorage.validate now accessToken : RunWith AccessTokens Db Error _)
    (s.memory, s.store)).1 = .ok (some claim)

def Refreshable (token : String) : Prop :=
  ∃ clock generated newToken, clock.purged = now ∧
    ((TokenStorage.refresh clock generated token : RunWith AccessTokens Db Error _)
      (s.memory, s.store)).1 = .ok (some newToken)

variable {now s}

theorem accepted_iff {x : String} {claim : Claim} :
    Accepted now s x claim ↔ ∃ t, s.memory x = some t ∧ now ≤ t.expiresAt ∧ t.claim = claim := by
  rw [Accepted, TokenStorage.validate_run]
  cases s.memory x with
  | none => simp
  | some t =>
    by_cases hexpired : t.expiresAt < now
    · simp [hexpired]
    · simp [hexpired, Int.not_lt.mp hexpired]

theorem refreshable_iff (hv : s.store.Valid) {token : String} :
    Refreshable now s token ↔ (s.store.liveToken now token).isSome = true := by
  constructor
  · rintro ⟨clock, generated, newToken, rfl, h⟩
    cases hrow : s.store.liveToken clock.purged token with
    | some row => rfl
    | none =>
      rw [TokenStorage.refresh_none clock generated s.memory hrow] at h
      cases h
  · intro h
    obtain ⟨row, hrow⟩ := Option.isSome_iff_exists.mp h
    exact ⟨⟨now, 0, 0, 0⟩, ⟨"", ""⟩, _, rfl, congrArg Prod.fst
      (TokenStorage.refresh_some ⟨now, 0, 0, 0⟩ ⟨"", ""⟩ s.memory hv hrow)⟩

end accepted

/-- The tokens that are good from some time on are the same. -/
structure SameTokens (start : Int) (s t : Course AccessTokens Db) : Prop where
  access : ∀ now, start ≤ now → ∀ x claim, Accepted now t x claim ↔ Accepted now s x claim
  refresh : ∀ now, start ≤ now → ∀ token, Refreshable now t token ↔ Refreshable now s token

section faulty
variable {clock : Clock} {generated : Generated} {faults : Nat → Option Error}
  {s t : Course AccessTokens Db} {e : Error}

theorem purge_ok_iff :
    (transaction (Tokens.deleteExpired clock.purged) : Faulty AccessTokens Db Error Unit) faults s =
        (.ok (), t) ↔
      (∀ k < 3, faults (s.calls + k) = none) ∧
        t = ⟨s.calls + 3, s.memory, s.store.purged clock.purged⟩ := by
  constructor
  · intro h
    obtain ⟨u, h0, hu, h2, rfl⟩ := Faulty.transaction_ok_inv h
    obtain ⟨h1, hdelete, hstmt⟩ := Faulty.stmt_ok_inv hu
    obtain ⟨-, hstore⟩ := Prod.mk.inj (Except.ok.inj hdelete)
    rw [← hstore] at hstmt
    subst hstmt
    refine ⟨fun k hk => ?_, rfl⟩
    obtain rfl | rfl | rfl : k = 0 ∨ k = 1 ∨ k = 2 := by omega
    exacts [h0, h1, h2]
  · rintro ⟨h, rfl⟩
    have h1 : faults s.called.calls = none := h 1 (by omega)
    refine Faulty.run_transaction_ok (t := ⟨s.calls + 2, s.memory, _⟩) (h 0 (by omega)) ?_
      (h 2 (by omega))
    rw [Tokens.deleteExpired, Faulty.run_stmt, h1]
    rfl

theorem inserts_fault {token : String} {k : Nat} (hk : k < 6) (h : faults (s.calls + k) = some e) :
    (TokenOp.refresh token).inserts clock faults s = none := by
  refine if_neg fun hall => ?_
  have hnone := List.all_eq_true.mp hall k (List.mem_range.mpr hk)
  rw [h] at hnone
  cases hnone

theorem inserts_purged {token : String} (h : ∀ k < 3, faults (s.calls + k) = none) :
    (TokenOp.refresh token).inserts clock faults s =
      if (List.range 3).all fun k => (faults (s.calls + 3 + k)).isNone then
        (s.store.liveToken clock.purged token).map TokenRow.claim
      else none := by
  have hsplit : List.range 6 = List.range 3 ++ (List.range 3).map (3 + ·) := rfl
  have hpurge : ((List.range 3).all fun k => (faults (s.calls + k)).isNone) = true :=
    List.all_eq_true.mpr fun k hk => by rw [h k (List.mem_range.mp hk)]; rfl
  rw [TokenOp.inserts, hsplit, List.all_append, hpurge, Bool.true_and, List.all_map]
  simp only [Function.comp_def, Nat.add_assoc]

/-- The second transaction of `refresh`. -/
def TokenStorage.exchange {m : Type → Type} [Acquire Db Error m] [MonadState AccessTokens m]
    (clock : Clock) (generated : Generated) (refreshToken : String) : m (Option NewToken) := do
  match ← Tokens.find refreshToken with
  | some internalToken =>
    let claim := { userId := internalToken.userId, clientId := internalToken.clientId }
    let _ ← Tokens.delete refreshToken
    modify fun tokens => tokens.insert generated.accessToken
      { claim, expiresAt := clock.now + expirationTime }
    let _ ← Tokens.create clock.stored generated.refreshToken internalToken.userId
      internalToken.clientId clock.created refreshTokenExpirationTime
    return some {
      accessToken := generated.accessToken
      expiresIn := 3600
      refreshToken := generated.refreshToken }
  | none => return none

theorem refresh_eq {m : Type → Type} [Acquire Db Error m] [MonadState AccessTokens m]
    (token : String) : (TokenStorage.refresh clock generated token : m (Option NewToken)) =
      (transaction (Tokens.deleteExpired clock.purged) >>= fun _ =>
        transaction (TokenStorage.exchange clock generated token)) := rfl

/-- It gets to the map with the token that it found and removed. -/
theorem exchange_memory (token : String) :
    ((transaction (TokenStorage.exchange clock generated token) :
        Faulty AccessTokens Db Error _) faults s).2.memory =
      match (if (List.range 3).all fun k => (faults (s.calls + k)).isNone then
          (s.store.tokens.find? fun t => t.token == token).map TokenRow.claim else none) with
      | some claim =>
        s.memory.insert generated.accessToken ⟨claim, clock.now + expirationTime⟩
      | none => s.memory := by
  have hcalls : ((List.range 3).all fun k => (faults (s.calls + k)).isNone) =
      ((faults s.calls).isNone && (faults s.called.calls).isNone &&
        (faults s.called.called.calls).isNone) := by
    simp [List.range_succ, Course.called, Bool.and_assoc]
  rw [hcalls, Faulty.transaction_memory]
  cases hbegin : faults s.calls with
  | some e => rfl
  | none =>
  cases hselect : faults s.called.calls with
  | some e =>
    dsimp only
    rw [TokenStorage.exchange,
      Faulty.run_bind_error (x := Tokens.find token) (Faulty.stmt_fault hselect)]
    rfl
  | none =>
  have hfind : (Tokens.find token : Faulty AccessTokens Db Error _) faults s.called =
      (.ok (s.store.tokens.find? fun t => t.token == token), s.called.called) :=
    Faulty.query_ok hselect rfl
  dsimp only
  rw [TokenStorage.exchange, Faulty.run_bind_ok hfind]
  cases hrow : s.store.tokens.find? fun t => t.token == token with
  | none =>
    rw [Option.map_none, ite_self]
    rfl
  | some row =>
  cases hdelete : faults s.called.called.calls with
  | some e =>
    dsimp only
    rw [Faulty.run_bind_error (x := Tokens.delete token) (Faulty.stmt_fault hdelete)]
    rfl
  | none =>
  have hdeleted : (Tokens.delete token : Faulty AccessTokens Db Error _) faults s.called.called =
      (.ok (s.store.tokens.find? fun t => t.token == token), { s.called.called.called with
        store := s.store.deleteTokens fun t => t.token == token }) := Faulty.stmt_ok hdelete rfl
  dsimp only
  rw [Faulty.run_bind_ok hdeleted, Faulty.run_bind_ok (Faulty.run_modify _)]
  exact Faulty.stmt_pure_memory ..

theorem refresh_memory (token : String) :
    ((TokenStorage.refresh clock generated token : Faulty AccessTokens Db Error _) faults
        s).2.memory =
      match (TokenOp.refresh token).inserts clock faults s with
      | some claim =>
        s.memory.insert generated.accessToken ⟨claim, clock.now + expirationTime⟩
      | none => s.memory := by
  have hmemory : ((transaction (Tokens.deleteExpired clock.purged) :
      Faulty AccessTokens Db Error Unit) faults s).2.memory = s.memory :=
    Faulty.transaction_stmt_memory _
  rcases hpurge : (transaction (Tokens.deleteExpired clock.purged) :
    Faulty AccessTokens Db Error Unit) faults s with ⟨e | _, u⟩
  · have hfault : ∃ k < 3, faults (s.calls + k) ≠ none := by
      by_contra hall
      rw [purge_ok_iff.mpr ⟨by simpa using hall, rfl⟩] at hpurge
      cases hpurge
    obtain ⟨k, hk, hfault⟩ := hfault
    obtain ⟨e', he'⟩ := Option.ne_none_iff_exists'.mp hfault
    rw [refresh_eq, Faulty.run_bind_error hpurge, inserts_fault (by omega) he']
    exact (congrArg (fun r => r.2.memory) hpurge).symm.trans hmemory
  · obtain ⟨hcalls, rfl⟩ := purge_ok_iff.mp hpurge
    rw [refresh_eq, Faulty.run_bind_ok hpurge, exchange_memory, inserts_purged hcalls]
    rfl

/-- What is in the map after any operation. -/
theorem TokenOp.run_memory (op : TokenOp) :
    ((op.run clock generated : Faulty AccessTokens Db Error Unit) faults s).2.memory =
      match op.inserts clock faults s with
      | some claim =>
        s.memory.insert generated.accessToken ⟨claim, clock.now + expirationTime⟩
      | none => s.memory := by
  cases op with
  | newToken userId clientId =>
    rw [run, Faulty.run_discard, TokenStorage.newToken, Faulty.run_bind_ok (Faulty.run_modify _)]
    exact Faulty.stmt_pure_memory ..
  | refresh token =>
    rw [run, Faulty.run_discard]
    exact refresh_memory token

/-- An operation that fails has at most dropped refresh tokens that had expired. -/
theorem TokenOp.run_store {op : TokenOp}
    (h : (op.run clock generated : Faulty AccessTokens Db Error Unit) faults s = (.error e, t)) :
    t.store = s.store ∨ t.store = s.store.purged clock.purged := by
  cases op with
  | newToken userId clientId =>
    rcases Faulty.bind_error_inv (Faulty.mapped_error h) with h | ⟨_, u, hu, h⟩
    · cases h
    · cases hu
      rw [Faulty.stmt_error (Faulty.mapped_error h)]
      exact .inl rfl
  | refresh token =>
    rcases Faulty.bind_error_inv (Faulty.mapped_error h) with h | ⟨_, u, hu, h⟩
    · exact .inl (Faulty.transaction_error h)
    · obtain ⟨-, rfl⟩ := purge_ok_iff.mp hu
      exact .inr (Faulty.transaction_error h)

theorem Db.liveToken_purged {db : Db} {purgedAt now : Int} (h : purgedAt ≤ now) (token : String) :
    (db.purged purgedAt).liveToken now token = db.liveToken now token := by
  have hfilter : ((db.purged purgedAt).purged now).tokens = (db.purged now).tokens := by
    simp only [purged, deleteTokens, List.filter_filter]
    refine List.filter_congr fun t _ => ?_
    by_cases hlate : t.expiresAt ≤ now
    · simp [hlate]
    · have hearly : ¬ t.expiresAt ≤ purgedAt := fun hle => hlate (hle.trans h)
      simp [hlate, hearly]
  rw [liveToken, hfilter, liveToken]

theorem insert_accepts_iff (access : AccessTokens) (x : String) {token : InternalToken}
    {start : Int} (hstart : start ≤ token.expiresAt) :
    (∀ now, start ≤ now → ∀ y claim,
        (∃ t, access.insert x token y = some t ∧ now ≤ t.expiresAt ∧ t.claim = claim) ↔
          ∃ t, access y = some t ∧ now ≤ t.expiresAt ∧ t.claim = claim) ↔
      access x = some token := by
  constructor
  · intro h
    obtain ⟨t, ht, hle, hclaim⟩ := (h token.expiresAt hstart x token.claim).mp
      ⟨token, AccessTokens.insert_self .., le_rfl, rfl⟩
    obtain ⟨u, hu, hge, -⟩ := (h t.expiresAt (hstart.trans hle) x token.claim).mpr
      ⟨t, ht, le_rfl, hclaim⟩
    obtain rfl := Option.some.inj ((AccessTokens.insert_self ..).symm.trans hu)
    obtain rfl : t = token := by
      cases t
      cases token
      simp only [InternalToken.mk.injEq]
      exact ⟨hclaim, le_antisymm hge hle⟩
    exact ht
  · intro h now _ y claim
    rw [AccessTokens.insert, ← h, Function.update_eq_self]

/-- Where an operation fails, the same tokens are good as before exactly if it did not get
to the map, or the map had the token already. -/
theorem TokenOp.atomic_iff {op : TokenOp} (hv : s.store.Valid) (htime : clock.purged ≤ clock.now)
    (h : (op.run clock generated : Faulty AccessTokens Db Error Unit) faults s = (.error e, t)) :
    SameTokens clock.now s t ↔ ∀ claim, op.inserts clock faults s = some claim →
      s.memory generated.accessToken = some ⟨claim, clock.now + expirationTime⟩ := by
  have hstore := run_store h
  have hvt : t.store.Valid := by
    rcases hstore with hsame | hpurged
    · exact hsame ▸ hv
    · exact hpurged ▸ hv.deleteTokens _
  have hrefresh (now : Int) (hnow : clock.now ≤ now) (token : String) :
      Refreshable now t token ↔ Refreshable now s token := by
    rw [refreshable_iff hvt, refreshable_iff hv]
    rcases hstore with hsame | hpurged
    · rw [hsame]
    · rw [hpurged, Db.liveToken_purged (htime.trans hnow)]
  have hmemory : t.memory = match op.inserts clock faults s with
      | some claim => s.memory.insert generated.accessToken ⟨claim, clock.now + expirationTime⟩
      | none => s.memory := (congrArg (fun r => r.2.memory) h).symm.trans op.run_memory
  have hlong : clock.now ≤ clock.now + expirationTime := Int.le_add_of_nonneg_right (by decide)
  cases hinserts : op.inserts clock faults s with
  | none =>
    rw [hinserts] at hmemory
    refine iff_of_true ⟨fun now _ x claim => ?_, hrefresh⟩ nofun
    rw [accepted_iff, accepted_iff, hmemory]
  | some claim =>
    rw [hinserts] at hmemory
    dsimp only at hmemory
    have haccess := insert_accepts_iff s.memory generated.accessToken
      (show clock.now ≤ (⟨claim, clock.now + expirationTime⟩ : InternalToken).expiresAt from hlong)
    rw [← hmemory] at haccess
    constructor
    · intro hsame c hc
      obtain rfl := Option.some.inj hc
      refine haccess.mp fun now hnow x c => ?_
      rw [← accepted_iff, ← accepted_iff]
      exact hsame.access now hnow x c
    · intro hthere
      refine ⟨fun now hnow x c => ?_, hrefresh⟩
      rw [accepted_iff, accepted_iff]
      exact haccess.mpr (hthere claim rfl) now hnow x c

end faulty
/-- The database gives up on the lookup of a token that is good. -/
def lookingUp : Except Error Unit × Course AccessTokens Db :=
  (TokenOp.refresh "refresh1").run (m := Faulty AccessTokens Db Error) ⟨10, 10, 10, 10⟩
    ⟨"access2", "refresh2"⟩ (fun k => if k = 4 then some (.sqlx .busy) else none)
    ⟨0, fun _ => none, desk.val.issue ⟨0, 0, 0, 0⟩ "refresh1" ⟨1, 1⟩⟩

theorem TokenOp.atomic_lookingUp :
    lookingUp.1 = .error (.sqlx .busy) ∧
      SameTokens 10 ⟨0, fun _ => none, desk.val.issue ⟨0, 0, 0, 0⟩ "refresh1" ⟨1, 1⟩⟩
        lookingUp.2 := by
  have h : lookingUp = (.error (.sqlx .busy), lookingUp.2) := rfl
  exact ⟨rfl, (TokenOp.atomic_iff (by decide) (by decide) h).mpr nofun⟩

/-- A client of which another request has just disposed asks for tokens. -/
def orphaned : Except Error Unit × Course AccessTokens Db :=
  (TokenOp.newToken 1 2).run (m := Faulty AccessTokens Db Error) ⟨10, 10, 10, 10⟩
    ⟨"access1", "refresh1"⟩ (fun _ => none) ⟨0, fun _ => none, desk.val⟩

/-- It gets an error, and its access token is good for an hour. -/
theorem orphaned_accepted :
    orphaned.1 = .error (.sqlx .foreignKey) ∧ Accepted 10 orphaned.2 "access1" ⟨1, 2⟩ ∧
      ¬ SameTokens 10 ⟨0, fun _ => none, desk.val⟩ orphaned.2 := by
  have haccepted : Accepted 10 orphaned.2 "access1" ⟨1, 2⟩ := rfl
  refine ⟨rfl, haccepted, fun hsame => ?_⟩
  obtain ⟨t, ht, -⟩ := accepted_iff.mp ((hsame.access 10 le_rfl _ _).mp haccepted)
  cases ht

end Articler
