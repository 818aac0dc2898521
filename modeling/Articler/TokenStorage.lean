import Articler.Repository.Accounts

/-! `token_storage`: access tokens in memory, refresh tokens in the database. -/
namespace Articler
open Txn

structure Claim where
  userId : Int
  clientId : Int
deriving DecidableEq, Repr

structure NewToken where
  accessToken : String
  expiresIn : Int
  refreshToken : String
deriving DecidableEq, Repr

structure InternalToken where
  claim : Claim
  expiresAt : Int
deriving DecidableEq, Repr

/-- `DashMap<String, InternalToken>`. -/
abbrev AccessTokens := String → Option InternalToken

namespace AccessTokens
variable (tokens : AccessTokens)

def insert (key : String) (token : InternalToken) : AccessTokens :=
  Function.update tokens key (some token)

def remove (key : String) : AccessTokens := Function.update tokens key none

def retain (p : InternalToken → Bool) : AccessTokens := fun key => (tokens key).filter p

@[simp] theorem insert_self (key : String) (token : InternalToken) :
    tokens.insert key token key = some token := Function.update_self ..

theorem of_insert {tokens : AccessTokens} {key k : String} {token t : InternalToken}
    (h : tokens.insert key token k = some t) : k = key ∧ t = token ∨ tokens k = some t := by
  by_cases hk : k = key
  · subst hk
    rw [insert_self] at h
    exact .inl ⟨rfl, (Option.some.inj h).symm⟩
  · rw [insert, Function.update_of_ne hk] at h
    exact .inr h

theorem of_remove {tokens : AccessTokens} {key k : String} {t : InternalToken}
    (h : tokens.remove key k = some t) : tokens k = some t := by
  by_cases hk : k = key
  · subst hk
    rw [remove, Function.update_self] at h
    cases h
  · rwa [remove, Function.update_of_ne hk] at h

theorem of_retain {tokens : AccessTokens} {p : InternalToken → Bool} {k : String}
    {t : InternalToken} (h : tokens.retain p k = some t) : tokens k = some t :=
  (Option.filter_eq_some_iff.mp h).1

end AccessTokens

def expirationTime : Int := 60 * 60

def refreshTokenExpirationTime : Int := 30 * 24 * 60 * 60

/-- What one call reads off the clock: the database's at `delete_expired`, `self.now()`,
`Utc::now()` for `created_at`, the database's at the INSERT. -/
structure Clock where
  purged : Int
  now : Int
  created : Int
  stored : Int

/-- What one call gets from `generate_token`. -/
structure Generated where
  accessToken : String
  refreshToken : String

def TokenRow.claim (row : TokenRow) : Claim := { userId := row.userId, clientId := row.clientId }

namespace TokenStorage
variable {m : Type → Type} [Acquire Db Error m] [MonadState AccessTokens m]

def newToken (clock : Clock) (generated : Generated) (userId clientId : Int) : m NewToken := do
  modify fun tokens => tokens.insert generated.accessToken
    { claim := { userId, clientId }, expiresAt := clock.now + expirationTime }
  let tokenRow ← Tokens.create clock.stored generated.refreshToken userId clientId clock.created
    refreshTokenExpirationTime
  return {
    accessToken := generated.accessToken
    expiresIn := expirationTime
    refreshToken := tokenRow.token }

def validate (now : Int) (accessToken : String) : m (Option Claim) := do
  let tokens ← get
  match tokens accessToken with
  | some t =>
    if t.expiresAt < now then
      modify fun tokens => tokens.remove accessToken
      return none
    else return some t.claim
  | none => return none

def refresh (clock : Clock) (generated : Generated) (refreshToken : String) :
    m (Option NewToken) := do
  transaction (Tokens.deleteExpired clock.purged)
  transaction do
    match ← Tokens.find refreshToken with
    | some internalToken =>
      let claim := { userId := internalToken.userId, clientId := internalToken.clientId }
      let _ ← Tokens.delete refreshToken
      modify fun tokens => tokens.insert generated.accessToken
        { claim, expiresAt := clock.now + expirationTime }
      let _ ← Tokens.create clock.stored generated.refreshToken internalToken.userId
        internalToken.clientId clock.created refreshTokenExpirationTime
      return some {
        accessToken := generated.accessToken
        expiresIn := 3600
        refreshToken := generated.refreshToken }
    | none => return none

def gc (now : Int) : m Unit := modify fun tokens => tokens.retain fun t => now < t.expiresAt

end TokenStorage

def Db.purged (now : Int) (db : Db) : Db := db.deleteTokens fun t => t.expiresAt ≤ now

def Db.liveToken (now : Int) (token : String) (db : Db) : Option TokenRow :=
  (db.purged now).tokens.find? fun t => t.token == token

section specs
variable {db : Db} {now : Int} {token : String} {row : TokenRow}

theorem Db.mem_purged : row ∈ (db.purged now).tokens ↔ row ∈ db.tokens ∧ now < row.expiresAt := by
  simp [purged, deleteTokens]

theorem Db.liveToken_some (h : db.liveToken now token = some row) :
    row ∈ db.tokens ∧ now < row.expiresAt ∧ row.token = token := by
  obtain ⟨hm, hlive⟩ := Db.mem_purged.mp (List.mem_of_find?_eq_some h)
  exact ⟨hm, hlive, by simpa using List.find?_some h⟩

theorem Db.liveToken_of_mem (hm : row ∈ db.tokens) (hlive : now < row.expiresAt) :
    ∃ r, db.liveToken now row.token = some r := by
  rw [← Option.isSome_iff_exists, liveToken, List.find?_isSome]
  exact ⟨row, Db.mem_purged.mpr ⟨hm, hlive⟩, by simp⟩

end specs

def TokenRow.issued (clock : Clock) (token : String) (claim : Claim) (id : Int) : TokenRow :=
  { id, token, createdAt := clock.created
    expiresAt := clock.stored + refreshTokenExpirationTime
    userId := claim.userId, clientId := claim.clientId }

def Db.issue (clock : Clock) (token : String) (claim : Claim) (db : Db) : Db :=
  { db with
    tokens := db.tokens ++ [.issued clock token claim (db.tokensSeq + 1)]
    tokensSeq := db.tokensSeq + 1 }

theorem Clients.findByClientIdAndSecret_with {μ : Type} (mem : μ) (db : Db)
    (clientId clientSecret : String) :
    (findByClientIdAndSecret clientId clientSecret : RunWith μ Db Error _) (mem, db) =
      (.ok (db.clients.find? fun c => c.clientId == clientId && c.clientSecret == clientSecret),
        (mem, db)) := RunWith.run_query ..

namespace Tokens
variable {μ : Type} (mem : μ) (db : Db) (token : String)

theorem find_with : (find token : RunWith μ Db Error _) (mem, db) =
    (.ok (db.tokens.find? fun t => t.token == token), (mem, db)) := RunWith.run_query ..

theorem delete_with : (delete token : RunWith μ Db Error _) (mem, db) =
    (.ok (db.tokens.find? fun t => t.token == token),
      (mem, db.deleteTokens fun t => t.token == token)) := rfl

theorem deleteExpired_with (now : Int) : (deleteExpired now : RunWith μ Db Error _) (mem, db) =
    (.ok (), (mem, db.purged now)) := rfl

theorem insert_issued (clock : Clock) {userId clientId : Int} (huser : db.hasUser userId = true)
    (hclient : db.hasClient clientId = true) :
    (db.insertToken fun id =>
        { id, token, createdAt := clock.created
          expiresAt := clock.stored + refreshTokenExpirationTime, userId, clientId }) =
      .ok (.issued clock token ⟨userId, clientId⟩ (db.tokensSeq + 1),
        db.issue clock token ⟨userId, clientId⟩) := by
  simp [Db.insertToken, huser, hclient, Db.issue, TokenRow.issued]

theorem create_with (clock : Clock) {userId clientId : Int} (huser : db.hasUser userId = true)
    (hclient : db.hasClient clientId = true) :
    (create clock.stored token userId clientId clock.created refreshTokenExpirationTime :
        RunWith μ Db Error _) (mem, db) =
      (.ok (.issued clock token ⟨userId, clientId⟩ (db.tokensSeq + 1)),
        (mem, db.issue clock token ⟨userId, clientId⟩)) := by
  rw [create, RunWith.run_stmt, insert_issued db token clock huser hclient]

theorem create_run (clock : Clock) {userId clientId : Int} (huser : db.hasUser userId = true)
    (hclient : db.hasClient clientId = true) :
    (create clock.stored token userId clientId clock.created refreshTokenExpirationTime :
        Run Db Error _) db =
      (.ok (.issued clock token ⟨userId, clientId⟩ (db.tokensSeq + 1)),
        db.issue clock token ⟨userId, clientId⟩) := by
  rw [create, run_stmt, insert_issued db token clock huser hclient]

end Tokens

namespace TokenStorage
variable (clock : Clock) (generated : Generated) (mem : AccessTokens)

/-- A token that is not there, or has expired, gets nothing. -/
theorem refresh_none {db : Db} {token : String} (h : db.liveToken clock.purged token = none) :
    (refresh clock generated token : RunWith AccessTokens Db Error _) (mem, db) =
      (.ok none, (mem, db.purged clock.purged)) := by
  rw [refresh, RunWith.run_bind_ok (RunWith.run_transaction_ok (Tokens.deleteExpired_with ..))]
  refine RunWith.run_transaction_ok ?_
  rw [RunWith.run_bind_ok (Tokens.find_with ..), ← Db.liveToken, h]
  rfl

/-- A live one is replaced, in a database that keeps its constraints. -/
theorem refresh_some {db : Db} (hv : db.Valid) {token : String} {row : TokenRow}
    (h : db.liveToken clock.purged token = some row) :
    (refresh clock generated token : RunWith AccessTokens Db Error _) (mem, db) =
      (.ok (some ⟨generated.accessToken, 3600, generated.refreshToken⟩),
        (mem.insert generated.accessToken ⟨row.claim, clock.now + expirationTime⟩,
          ((db.purged clock.purged).deleteTokens fun t => t.token == token).issue clock
            generated.refreshToken row.claim)) := by
  have hm := (Db.liveToken_some h).1
  rw [refresh, RunWith.run_bind_ok (RunWith.run_transaction_ok (Tokens.deleteExpired_with ..))]
  refine RunWith.run_transaction_ok ?_
  rw [RunWith.run_bind_ok (Tokens.find_with ..), ← Db.liveToken, h]
  dsimp only
  rw [RunWith.run_bind_ok (Tokens.delete_with ..), RunWith.run_bind_ok (RunWith.run_modify ..)]
  exact RunWith.run_bind_ok
    (Tokens.create_with _ _ _ clock (hv.tokensUser row hm) (hv.tokensClient row hm))

theorem newToken_ok {db : Db} {claim : Claim} (huser : db.hasUser claim.userId = true)
    (hclient : db.hasClient claim.clientId = true) :
    (newToken clock generated claim.userId claim.clientId : RunWith AccessTokens Db Error _)
        (mem, db) =
      (.ok ⟨generated.accessToken, expirationTime, generated.refreshToken⟩,
        (mem.insert generated.accessToken ⟨claim, clock.now + expirationTime⟩,
          db.issue clock generated.refreshToken claim)) := by
  rw [newToken, RunWith.run_bind_ok (RunWith.run_modify ..),
    RunWith.run_bind_ok (Tokens.create_with _ _ _ clock huser hclient)]
  rfl

/-- The map takes the token in before the database may refuse it. -/
theorem newToken_memory (db : Db) (userId clientId : Int) :
    ((newToken clock generated userId clientId : RunWith AccessTokens Db Error _) (mem, db)).2.1 =
      mem.insert generated.accessToken ⟨⟨userId, clientId⟩, clock.now + expirationTime⟩ := by
  rw [newToken, RunWith.run_bind_ok (RunWith.run_modify ..)]
  exact RunWith.run_stmt_memory ..

theorem refresh_memory (db : Db) (token : String) :
    ((refresh clock generated token : RunWith AccessTokens Db Error _) (mem, db)).2.1 =
      match db.liveToken clock.purged token with
      | some row => mem.insert generated.accessToken ⟨row.claim, clock.now + expirationTime⟩
      | none => mem := by
  cases h : db.liveToken clock.purged token with
  | none => rw [refresh_none clock generated mem h]
  | some row =>
    rw [refresh, RunWith.run_bind_ok (RunWith.run_transaction_ok (Tokens.deleteExpired_with ..)),
      RunWith.run_transaction_memory, RunWith.run_bind_ok (Tokens.find_with ..), ← Db.liveToken, h]
    dsimp only
    rw [RunWith.run_bind_ok (Tokens.delete_with ..), RunWith.run_bind_ok (RunWith.run_modify ..)]
    exact RunWith.run_stmt_memory ..

theorem validate_run (now : Int) (token : String) (db : Db) :
    (validate now token : RunWith AccessTokens Db Error _) (mem, db) =
      match mem token with
      | some t =>
        if t.expiresAt < now then (.ok none, (mem.remove token, db))
        else (.ok (some t.claim), (mem, db))
      | none => (.ok none, (mem, db)) := by
  rw [validate, RunWith.run_bind_ok (RunWith.run_get ..)]
  dsimp only
  cases mem token with
  | none => rfl
  | some t =>
    dsimp only
    split
    · exact RunWith.run_bind_ok (RunWith.run_modify ..)
    · rfl

end TokenStorage

/-- A user with a client that has no tokens yet. -/
def desk : Database where
  val :=
    { users := [⟨1, "wallabag", "", "", "", 0, 0⟩]
      usersSeq := 1
      clients := [⟨1, "reader", "id1", "secret1", 1, 0⟩]
      clientsSeq := 1 }
  property := by decide

end Articler
