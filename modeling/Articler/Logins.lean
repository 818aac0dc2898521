import Articler.Api.Oauth
import Articler.Links
import Articler.Requests
import Articler.Setup

/-! Logging in: whether the strings that made an account find it again. -/
namespace Articler
open Txn Relation

namespace Web

structure LoginForm where
  username : String
  password : String

/-- What the session gets as `user_id`, and the Location of the redirect. -/
structure LoginResponse where
  userId : Option Int
  location : String
deriving DecidableEq, Repr

def doLogin {m : Type → Type} [Acquire Db Error m]
    (verifyPassword : String → String → Except Error Bool) (form : LoginForm)
    (referer : Option String) : m LoginResponse := do
  match ← Oauth.findUser verifyPassword form.username form.password with
  | some user => pure { userId := some user.id, location := "/" }
  | none => pure { userId := none, location := referer.getD "/" }

end Web

/-- `verify_password` accepts what was hashed, and nothing else. -/
def Verifies (crates : AccountCrates) (verifyPassword : String → String → Except Error Bool) : Prop :=
  ∀ (password : Password) (hash : String), crates.hashPassword password = .ok hash →
    ∀ attempt, verifyPassword attempt hash = .ok (attempt == password.val)

/-- What may happen later. No statement of the repository deletes a user. -/
def Later : Db → Db → Prop := ReflTransGen (WriteIn fun k => k ≠ .deleteUsers)

theorem Call.run_later {c : Call} (hc : ∀ id, c ≠ .deleteUser id) (s : Db) :
    Later s ((c.run : Run Db Error Unit) s).2 := by
  refine c.run_writes.keeps (I := Later s) (fun k t u hk hw ht => ht.tail ⟨k, ?_, hw⟩) .refl
  rintro rfl
  cases c with
  | deleteUser id => exact hc id rfl
  | _ => simp at hk

theorem Request.run_later {Url : Type} [UrlCrate Url] {K : Type} [Field K] [LinearOrder K]
    (crates : Crates) (eng : Engine K) (r : Request Url) (s : Db) :
    Later s ((r.run crates eng : Run Db Error Unit) s).2 := by
  have hwrites : Writes (fun k => k ≠ .deleteUsers) (r.run crates eng : Run Db Error Unit) :=
    .of_built (r.built crates (fun _ => .refl) (fun k hk _ _ hw => .single ⟨k, hk.2, hw⟩) eng
      (fun _ _ _ _ _ h => .single ⟨_, by decide, .insertEntry (fun _ => rfl) h⟩)
      fun _ _ _ _ _ _ h => .single ⟨_, by decide, .updateEntries h⟩)
  exact hwrites.keeps (I := Later s) (fun k t u hk hw ht => ht.tail ⟨k, hk, hw⟩) .refl

namespace Later
variable {s t : Db}

theorem valid (h : Later s t) (hs : s.Valid) : t.Valid := valid_of_writes h hs

theorem users (h : Later s t) {u : UserRow} (hu : u ∈ s.users) : u ∈ t.users := by
  refine run_invariant (I := fun t => u ∈ t.users) (fun a b ha ⟨k, hk, hw⟩ => ?_) hu h
  by_cases htable : DbTable.users ∈ k.changes
  · cases hw with
    | insertUser _ hi =>
      rw [Setup.insertUser_users hi]
      exact List.mem_append_left _ ha
    | deleteUsers => exact absurd rfl hk
    | _ => exact absurd htable (by decide)
  · exact (hw.frame htable).1 ▸ ha

end Later

namespace Setup.Caller

/-- The strings that somebody gives for the user to be made. -/
def credentials : Caller → Web.LoginForm
  | .doSetup _ form => ⟨form.username, form.password⟩
  | .createUser _ username password _ _ => ⟨username, password⟩

/-- What success looks like: setup sends the browser on, `articlerctl` says nothing. -/
def Success : Option Web.SetupResponse → Prop
  | some (.ok _) | none => True
  | some _ => False

def Succeeds (crates : AccountCrates) (caller : Caller) (s t : Db) : Prop :=
  ∃ r, Success r ∧ (caller.run crates : Run Db Error _) s = (.ok r, t)

end Setup.Caller

structure Account (crates : AccountCrates) (form : Web.LoginForm) (u : UserRow) : Prop where
  username : u.username = trim form.username
  password : ∃ password : Password, password.val = form.password ∧
    crates.hashPassword password = .ok u.passwordHash

theorem Username.tryFrom_ok {value : String} {username : Username}
    (h : Username.tryFrom value = .ok username) : username.val = trim value := by
  dsimp only [Username.tryFrom] at h
  split at h
  · cases h
  · split at h
    · cases h
      rfl
    · cases h

theorem Password.tryFrom_ok {value : String} {password : Password}
    (h : Password.tryFrom value = .ok password) : password.val = value := by
  unfold Password.tryFrom at h
  split at h
  · cases h
  · split at h
    · cases h
      rfl
    · cases h

section accounts
variable {crates : AccountCrates} {s t : Db}

theorem insert_account {form : Web.LoginForm} {username : Username} {password : Password}
    {hash name email : String} {createdAt updatedAt : Int} {u : UserRow}
    (husername : Username.tryFrom form.username = .ok username)
    (hpassword : Password.tryFrom form.password = .ok password)
    (hhash : crates.hashPassword password = .ok hash)
    (h : (Users.createUser username.val hash name email createdAt updatedAt : Run Db Error _) s =
      (.ok u, t)) : t.users = s.users ++ [u] ∧ Account crates form u ∧ Later s t := by
  have hinsert := stmt_ok_iff.mp h
  obtain ⟨hu, -, -⟩ := Db.insertUser_ok hinsert
  refine ⟨Setup.insertUser_users hinsert, ⟨?_, password, Password.tryFrom_ok hpassword, ?_⟩,
    .single ⟨.insertUser, by decide, .insertUser (fun _ => rfl) hinsert⟩⟩
  · rw [hu]
    exact Username.tryFrom_ok husername
  · rw [hu]
    exact hhash

theorem validated_ok {α : Type} {r : Except Error α} {next : α → Run Db Error Web.SetupResponse}
    {location : String} (h : Web.validated r next s = (.ok (.ok location), t)) :
    ∃ a, r = .ok a ∧ next a s = (.ok (.ok location), t) := by
  unfold Web.validated at h
  split at h
  · exact ⟨_, rfl, h⟩
  · cases h
  · cases h

theorem doSetup_account {now : DateTime} {form : Web.SetupForm} {location : String}
    (h : (Web.doSetup crates now form : Run Db Error _) s = (.ok (.ok location), t)) :
    ∃ u, t.users = s.users ++ [u] ∧ Account crates ⟨form.username, form.password⟩ u ∧ Later s t := by
  obtain ⟨count, _, hcount, h⟩ := bind_ok_inv h
  obtain ⟨-, rfl⟩ := query_ok_iff.mp hcount
  split at h
  · cases h
  obtain ⟨username, husername, h⟩ := validated_ok h
  obtain ⟨password, hpassword, h⟩ := validated_ok h
  obtain ⟨confirmPassword, -, h⟩ := validated_ok h
  split at h
  · cases h
  obtain ⟨hash, _, hhashed, h⟩ := bind_ok_inv h
  obtain ⟨hhash, rfl⟩ := ofExcept_ok_iff.mp hhashed
  obtain ⟨count, _, hcount, h⟩ := bind_ok_inv (transaction_ok_iff.mp h)
  obtain ⟨-, rfl⟩ := query_ok_iff.mp hcount
  split at h
  · cases h
  obtain ⟨u, hcreate⟩ := mapped_ok h
  exact ⟨u, insert_account husername hpassword hhash hcreate⟩

theorem createUser_account {now : DateTime} {username password name email : String}
    (h : (Cli.createUser crates now username password name email : Run Db Error _) s = (.ok (), t)) :
    ∃ u, t.users = s.users ++ [u] ∧ Account crates ⟨username, password⟩ u ∧ Later s t := by
  have h := transaction_ok_iff.mp h
  split at h
  · cases h
  obtain ⟨validUsername, _, hvalid, h⟩ := bind_ok_inv h
  obtain ⟨husername, rfl⟩ := ofExcept_ok_iff.mp hvalid
  obtain ⟨found, _, hfound, h⟩ := bind_ok_inv h
  obtain ⟨-, rfl⟩ := query_ok_iff.mp hfound
  split at h
  · cases h
  obtain ⟨validPassword, _, hvalid, h⟩ := bind_ok_inv h
  obtain ⟨hpassword, rfl⟩ := ofExcept_ok_iff.mp hvalid
  obtain ⟨hash, _, hhashed, h⟩ := bind_ok_inv h
  obtain ⟨hhash, rfl⟩ := ofExcept_ok_iff.mp hhashed
  obtain ⟨u, hcreate⟩ := mapped_ok h
  exact ⟨u, insert_account husername hpassword hhash hcreate⟩

theorem Setup.Caller.Succeeds.account {caller : Setup.Caller} (h : caller.Succeeds crates s t) :
    ∃ u, t.users = s.users ++ [u] ∧ Account crates caller.credentials u ∧ Later s t := by
  obtain ⟨r, hr, hrun⟩ := h
  cases caller with
  | doSetup now form =>
    obtain ⟨response, u, hsetup, hpure⟩ := bind_ok_inv hrun
    cases hpure
    cases response with
    | ok location => exact doSetup_account hsetup
    | _ => exact hr.elim
  | createUser now username password name email =>
    obtain ⟨_, u, hcreate, hpure⟩ := bind_ok_inv hrun
    cases hpure
    exact createUser_account hcreate

end accounts

/-- What `find_user` answers in this state. -/
def Db.foundUser (verifyPassword : String → String → Except Error Bool) (form : Web.LoginForm)
    (db : Db) : Except Error (Option UserRow) :=
  match db.users.find? fun u => u.username == form.username with
  | some u => (verifyPassword form.password u.passwordHash).map fun accepted =>
      if accepted then some u else none
  | none => .ok none

/-- A request for a password grant, with the credentials of the user and of a client. -/
def Oauth.GetToken.byPassword (form : Web.LoginForm) (client : ClientRow) : GetToken where
  grantType := some "password"
  clientId := some client.clientId
  clientSecret := some client.clientSecret
  username := some form.username
  password := some form.password

section finding
variable {verifyPassword : String → String → Except Error Bool} {form : Web.LoginForm} {db : Db}

theorem foundUser_mem {u : UserRow} (h : db.foundUser verifyPassword form = .ok (some u)) :
    u ∈ db.users ∧ u.username = form.username := by
  rw [Db.foundUser] at h
  cases hfind : db.users.find? fun u => u.username == form.username with
  | none => simp [hfind] at h
  | some w =>
    rw [hfind] at h
    dsimp only at h
    cases hw : verifyPassword form.password w.passwordHash with
    | error e => simp [hw, Except.map] at h
    | ok accepted =>
      cases accepted with
      | false => simp [hw, Except.map] at h
      | true =>
        obtain rfl : w = u := by simpa [hw, Except.map] using h
        exact ⟨List.mem_of_find?_eq_some hfind, by simpa using List.find?_some hfind⟩

theorem findUser_run :
    (Oauth.findUser verifyPassword form.username form.password : Run Db Error _) db =
      (db.foundUser verifyPassword form, db) := by
  rw [Oauth.findUser, Users.findByUsername, run_bind, run_query, Db.foundUser]
  cases db.users.find? fun u => u.username == form.username with
  | none => rfl
  | some u =>
    dsimp only
    rw [run_bind, run_ofExcept]
    cases verifyPassword form.password u.passwordHash with
    | error e => rfl
    | ok accepted => cases accepted <;> rfl

theorem findUser_with (mem : AccessTokens) :
    (Oauth.findUser verifyPassword form.username form.password :
      RunWith AccessTokens Db Error _) (mem, db) = (db.foundUser verifyPassword form, (mem, db)) := by
  rw [Oauth.findUser, Users.findByUsername, RunWith.run_bind, RunWith.run_query, Db.foundUser]
  cases db.users.find? fun u => u.username == form.username with
  | none => rfl
  | some u =>
    dsimp only
    rw [RunWith.run_bind]
    cases verifyPassword form.password u.passwordHash with
    | error e => rfl
    | ok accepted => cases accepted <;> rfl

theorem doLogin_run (referer : Option String) :
    (Web.doLogin verifyPassword form referer : Run Db Error _) db =
      ((db.foundUser verifyPassword form).map fun
        | some u => ⟨some u.id, "/"⟩
        | none => ⟨none, referer.getD "/"⟩, db) := by
  rw [Web.doLogin, run_bind, findUser_run]
  rcases db.foundUser verifyPassword form with e | _ | u <;> rfl

theorem doLogin_iff (hv : db.Valid) {u : UserRow} (hu : u ∈ db.users) {referer : Option String} :
    (Web.doLogin verifyPassword form referer : Run Db Error _) db = (.ok ⟨some u.id, "/"⟩, db) ↔
      db.foundUser verifyPassword form = .ok (some u) := by
  rw [doLogin_run, Prod.mk.injEq, and_iff_left rfl]
  rcases hfound : db.foundUser verifyPassword form with e | _ | w
  · simp [Except.map]
  · simp [Except.map]
  · have hw := (foundUser_mem hfound).1
    simp only [Except.map, Except.ok.injEq, Option.some.injEq, Web.LoginResponse.mk.injEq, and_true]
    exact ⟨fun hid => hv.users.pk.eq_of_key hw hu hid, congrArg UserRow.id⟩

/-- The grant hands out a token for the user it finds and a client of that user. -/
theorem postToken_password (clock : Clock) (generated : Generated) (client : ClientRow)
    (mem : AccessTokens) :
    (Oauth.postToken verifyPassword clock generated (.byPassword form client) :
        RunWith AccessTokens Db Error _) (mem, db) =
      match db.foundUser verifyPassword form with
      | .error e => (.error e, (mem, db))
      | .ok none => (.error (.oauth "invalid_grant" "Invalid username and password combination" 400),
          (mem, db))
      | .ok (some u) => match db.clients.find? fun c => c.userId == u.id &&
            c.clientId == client.clientId && c.clientSecret == client.clientSecret with
        | none => (.error (.oauth "invalid_client" "The client credentials are invalid" 400), (mem, db))
        | some c => (TokenStorage.newToken clock generated u.id c.id >>= fun newToken =>
            pure (Oauth.Token.ofNew newToken) : RunWith AccessTokens Db Error _) (mem, db) := by
  have hgrant : (Oauth.postToken verifyPassword clock generated (.byPassword form client) :
      RunWith AccessTokens Db Error _) =
    Oauth.newToken verifyPassword clock generated (.byPassword form client) := rfl
  have hfind : (Oauth.findUser verifyPassword form.username form.password :
    RunWith AccessTokens Db Error _) (mem, db) = (db.foundUser verifyPassword form, (mem, db)) :=
      findUser_with mem
  rw [hgrant]
  refine (RunWith.run_bind ..).trans ?_
  rcases hfound : db.foundUser verifyPassword form with e | _ | u
  · rw [hfound] at hfind
    dsimp only [transaction]
    rw [RunWith.run_bind, hfind]
  · rw [hfound] at hfind
    dsimp only [transaction]
    rw [RunWith.run_bind_ok hfind]
    rfl
  · rw [hfound] at hfind
    dsimp only [transaction]
    rw [RunWith.run_bind_ok hfind]
    dsimp only
    rw [RunWith.run_bind, Clients.findByUserIdClientIdAndSecret, RunWith.run_query]
    cases db.clients.find? fun c => c.userId == u.id && c.clientId == client.clientId &&
      c.clientSecret == client.clientSecret <;> rfl

/-- The account is found by its strings exactly where the trimmed name is the name. -/
theorem Account.foundUser_iff {crates : AccountCrates} {u : UserRow} (h : Account crates form u)
    (hverify : Verifies crates verifyPassword) (hv : db.Valid) (hu : u ∈ db.users) :
    db.foundUser verifyPassword form = .ok (some u) ↔ trim form.username = form.username := by
  constructor
  · exact fun hfound => h.username.symm.trans (foundUser_mem hfound).2
  · intro htrim
    obtain ⟨password, hpassword, hhash⟩ := h.password
    have hname : u.username = form.username := h.username.trans htrim
    have hfind : (db.users.find? fun u => u.username == form.username) = some u :=
      hv.usernames.find_of_key hu (by simp [hname]) fun w hw => (beq_iff_eq.mp hw).trans hname.symm
    rw [Db.foundUser, hfind]
    dsimp only
    rw [hverify password _ hhash, hpassword]
    simp [Except.map]

/-- The answer to a grant for this user and client, and what it leaves. -/
def GrantedFor (verifyPassword : String → String → Except Error Bool) (form : Web.LoginForm) (db : Db)
    (u : UserRow) (c : ClientRow) : Prop :=
  ∀ (clock : Clock) (generated : Generated) (mem : AccessTokens),
    (Oauth.postToken verifyPassword clock generated (.byPassword form c) :
        RunWith AccessTokens Db Error _) (mem, db) =
      (.ok (.ofNew ⟨generated.accessToken, expirationTime, generated.refreshToken⟩),
        (mem.insert generated.accessToken ⟨⟨u.id, c.id⟩, clock.now + expirationTime⟩,
          db.issue clock generated.refreshToken ⟨u.id, c.id⟩))

/-- Whom a grant serves is whom `find_user` finds. -/
theorem GrantedFor.found {u : UserRow} {c : ClientRow} (h : GrantedFor verifyPassword form db u c)
    (hv : db.Valid) (hu : u ∈ db.users) : db.foundUser verifyPassword form = .ok (some u) := by
  have hgrant := h ⟨0, 0, 0, 0⟩ ⟨"", ""⟩ fun _ => none
  rw [postToken_password] at hgrant
  rcases hfound : db.foundUser verifyPassword form with e | _ | w
  · simp [hfound] at hgrant
  · simp [hfound] at hgrant
  · have hw := (foundUser_mem hfound).1
    rw [hfound] at hgrant
    dsimp only at hgrant
    split at hgrant
    · cases hgrant
    · rename_i d hd
      rw [RunWith.run_bind] at hgrant
      have hmemory := TokenStorage.newToken_memory ⟨0, 0, 0, 0⟩ ⟨"", ""⟩ (fun _ => none) db w.id d.id
      rcases hrun : (TokenStorage.newToken ⟨0, 0, 0, 0⟩ ⟨"", ""⟩ w.id d.id :
        RunWith AccessTokens Db Error _) (fun _ => none, db) with ⟨e | newToken, mem, db'⟩
      · simp [hrun] at hgrant
      · -- the token that was stored says for whom it is
        rw [hrun] at hgrant hmemory
        have hsame := hmemory.symm.trans (Prod.mk.inj (Prod.mk.inj hgrant).2).1
        have hids : w.id = u.id ∧ d.id = c.id := by simpa using congrFun hsame ""
        rw [hv.users.pk.eq_of_key hw hu hids.1]

theorem grantedFor_found (hv : db.Valid) {u : UserRow} (hu : u ∈ db.users) {c : ClientRow}
    (hc : c ∈ db.clients) (huser : c.userId = u.id)
    (hfound : db.foundUser verifyPassword form = .ok (some u)) :
    GrantedFor verifyPassword form db u c := by
  intro clock generated mem
  rw [postToken_password, hfound]
  have hfind : (db.clients.find? fun d => d.userId == u.id && d.clientId == c.clientId &&
      d.clientSecret == c.clientSecret) = some c := by
    refine hv.clientIds.find_of_key hc (by simp [huser]) fun d hd => ?_
    simp only [Bool.and_eq_true, beq_iff_eq] at hd
    rw [hd.1.1, hd.1.2, huser]
  dsimp only
  rw [hfind]
  exact RunWith.run_bind_ok (TokenStorage.newToken_ok clock generated mem
    (show db.hasUser (Claim.mk u.id c.id).userId = true from Db.hasUser_iff.mpr ⟨u, hu, rfl⟩)
    (Db.hasClient_iff.mpr ⟨c, hc, rfl⟩))

theorem grantedFor_iff (hv : db.Valid) {u : UserRow} (hu : u ∈ db.users) {c : ClientRow}
    (hc : c ∈ db.clients) (huser : c.userId = u.id) :
    GrantedFor verifyPassword form db u c ↔ db.foundUser verifyPassword form = .ok (some u) :=
  ⟨fun h => h.found hv hu, grantedFor_found hv hu hc huser⟩

end finding

section logins
variable {crates : AccountCrates} {verifyPassword : String → String → Except Error Bool}

/-- A user that setup or `articlerctl` made is found by the same strings, at the login form and
by the grant for each of its clients, at any later time, exactly where the name had nothing to
trim. -/
theorem Setup.Caller.Succeeds.logs_in_iff (hverify : Verifies crates verifyPassword) {db : Database}
    {caller : Setup.Caller} {t : Db} (h : caller.Succeeds crates db.val t) :
    ∃ u, t.users = db.val.users ++ [u] ∧ ∀ later : Db, Later t later →
      ((Oauth.findUser verifyPassword caller.credentials.username caller.credentials.password :
          Run Db Error _) later = (.ok (some u), later) ↔
        trim caller.credentials.username = caller.credentials.username) ∧
      (∀ referer, (Web.doLogin verifyPassword caller.credentials referer : Run Db Error _) later =
          (.ok ⟨some u.id, "/"⟩, later) ↔
        trim caller.credentials.username = caller.credentials.username) ∧
      ∀ c ∈ later.clients, c.userId = u.id →
        (GrantedFor verifyPassword caller.credentials later u c ↔
          trim caller.credentials.username = caller.credentials.username) := by
  obtain ⟨u, husers, haccount, hmade⟩ := h.account
  refine ⟨u, husers, fun later hlater => ?_⟩
  have hv : later.Valid := hlater.valid (hmade.valid db.property)
  have hu : u ∈ later.users := hlater.users (husers ▸ List.mem_append_right _ (List.mem_singleton_self u))
  have hfound := haccount.foundUser_iff hverify hv hu
  refine ⟨?_, fun referer => ?_, fun c hc huser => (grantedFor_iff hv hu hc huser).trans hfound⟩
  · rw [findUser_run, Prod.mk.injEq, and_iff_left rfl]
    exact hfound
  · rw [doLogin_iff hv hu]
    exact hfound

/-- Passwords are hashed to themselves. -/
def plainVerify (attempt hash : String) : Except Error Bool := .ok (attempt == hash)

theorem plainVerify_verifies : Verifies Setup.plainAccounts plainVerify := by
  intro password hash hhash attempt
  cases hhash
  rfl

def settingUp (username : String) : Setup.Caller :=
  .doSetup ⟨60, by decide⟩ ⟨username, "secret", "secret"⟩

theorem settingUp_found : ∃ t u, (settingUp "ada").Succeeds Setup.plainAccounts {} t ∧
    ∀ later : Db, Later t later →
      (Oauth.findUser plainVerify "ada" "secret" : Run Db Error _) later = (.ok (some u), later) := by
  let start : Database := ⟨{}, Db.valid_empty⟩
  have hmade : (settingUp "ada").Succeeds Setup.plainAccounts start.val _ :=
    ⟨some (.ok "/login"), trivial, rfl⟩
  obtain ⟨u, -, hfound⟩ := Setup.Caller.Succeeds.logs_in_iff plainVerify_verifies hmade
  exact ⟨_, u, hmade, fun later hlater => (hfound later hlater).1.mpr (by decide)⟩

/-- With a blank before the name setup succeeds, and the same form finds nobody. -/
theorem settingUp_lost : ∃ t, (settingUp " ada").Succeeds Setup.plainAccounts {} t ∧
    (Oauth.findUser plainVerify " ada" "secret" : Run Db Error _) t = (.ok none, t) ∧
    (Web.doLogin plainVerify ⟨" ada", "secret"⟩ none : Run Db Error _) t = (.ok ⟨none, "/"⟩, t) :=
  ⟨_, ⟨some (.ok "/login"), trivial, rfl⟩, rfl, rfl⟩

end logins
end Articler
