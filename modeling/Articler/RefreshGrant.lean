import Articler.Api.Oauth
import Articler.Links

/-! The `refresh_token` grant: which client may use which refresh token. -/
namespace Articler
open Txn

namespace Oauth

/-- The client that the credentials of the request select. -/
def GetToken.client (request : GetToken) (db : Db) : Option ClientRow :=
  request.clientId.bind fun clientId => request.clientSecret.bind fun clientSecret =>
    db.clients.find? fun c => c.clientId == clientId && c.clientSecret == clientSecret

/-- The row of the refresh token that the request presents, if it is still good. -/
def GetToken.row (request : GetToken) (now : Int) (db : Db) : Option TokenRow :=
  request.refreshToken.bind fun token => db.liveToken now token

section handler
variable {clock : Clock} {generated : Generated} {request : GetToken} {mem : AccessTokens}
  {db : Db} {token : Token} {s : AccessTokens × Db}

/-- The grant answers with a pair exactly where a client and a row were selected, and the
claim is that of the row. -/
theorem refreshToken_ok_iff (hv : db.Valid) :
    (refreshToken clock generated request : RunWith AccessTokens Db Error Token) (mem, db) =
        (.ok token, s) ↔
      ∃ client row, request.client db = some client ∧ request.row clock.purged db = some row ∧
        token = .ofNew ⟨generated.accessToken, 3600, generated.refreshToken⟩ ∧
        s = (mem.insert generated.accessToken ⟨row.claim, clock.now + expirationTime⟩,
          ((db.purged clock.purged).deleteTokens fun t => t.token == row.token).issue clock
            generated.refreshToken row.claim) := by
  obtain ⟨grantType, clientId, clientSecret, username, password, presented⟩ := request
  cases clientId with
  | none => simp [refreshToken, GetToken.client]
  | some clientId =>
  cases clientSecret with
  | none => simp [refreshToken, GetToken.client]
  | some clientSecret =>
  rw [refreshToken]
  dsimp only
  rw [RunWith.run_bind_ok (Clients.findByClientIdAndSecret_with ..)]
  cases hclient : db.clients.find?
      fun c => c.clientId == clientId && c.clientSecret == clientSecret with
  | none => simp [GetToken.client, hclient]
  | some client =>
  cases presented with
  | none => simp [GetToken.row]
  | some presented =>
  cases hrow : db.liveToken clock.purged presented with
  | none =>
    dsimp only
    rw [RunWith.run_bind_ok (TokenStorage.refresh_none _ _ _ hrow)]
    simp [GetToken.row, hrow]
  | some row =>
    dsimp only
    obtain rfl : row.token = presented := (Db.liveToken_some hrow).2.2
    rw [RunWith.run_bind_ok (TokenStorage.refresh_some _ _ _ hv hrow)]
    constructor
    · intro h
      cases h
      exact ⟨client, row, hclient, hrow, rfl, rfl⟩
    · rintro ⟨c, r, -, hr, rfl, rfl⟩
      obtain rfl : row = r := Option.some.inj (hrow.symm.trans hr)
      rfl

end handler

section grants
variable {db : Db} {now : Int}

/-- Whoever gets a pair for a refresh token authenticates as the client of its row, and
the claim of the new access token names that client. -/
def ClientBound (db : Db) (now : Int) : Prop :=
  ∀ (clock : Clock) (generated : Generated) (request : GetToken) (mem : AccessTokens)
    (token : Token) (mem' : AccessTokens) (db' : Db), clock.purged = now →
    (refreshToken clock generated request : RunWith AccessTokens Db Error Token) (mem, db) =
        (.ok token, (mem', db')) →
      ∃ client row, request.client db = some client ∧ request.row now db = some row ∧
        client.id = row.clientId ∧
        (mem' token.accessToken).map InternalToken.claim = some ⟨row.userId, client.id⟩

/-- There is nothing for another client to take: no refresh token is still good, or all
clients have the credentials of the first one and its tokens are the only good ones. -/
def NothingToTake (db : Db) (now : Int) : Prop :=
  (∀ t ∈ db.tokens, t.expiresAt ≤ now) ∨
    ∃ c, db.clients.head? = some c ∧
      (∀ d ∈ db.clients, d.clientId = c.clientId ∧ d.clientSecret = c.clientSecret) ∧
      ∀ token t, db.liveToken now token = some t → t.clientId = c.id

/-- The request of a client for a refresh token. -/
def GetToken.ask (client : ClientRow) (token : String) : GetToken where
  grantType := some "refresh_token"
  clientId := some client.clientId
  clientSecret := some client.clientSecret
  refreshToken := some token

theorem GetToken.client_ask {c : ClientRow} (hc : c ∈ db.clients) (token : String) :
    ∃ d ∈ db.clients, d.clientId = c.clientId ∧ d.clientSecret = c.clientSecret ∧
      (GetToken.ask c token).client db = some d := by
  have hsome : (db.clients.find? fun d =>
      d.clientId == c.clientId && d.clientSecret == c.clientSecret).isSome = true := by
    rw [List.find?_isSome]
    exact ⟨c, hc, by simp⟩
  obtain ⟨d, hd⟩ := Option.isSome_iff_exists.mp hsome
  have hp := List.find?_some hd
  simp only [Bool.and_eq_true, beq_iff_eq] at hp
  exact ⟨d, List.mem_of_find?_eq_some hd, hp.1, hp.2, hd⟩

theorem GetToken.client_ask_head {c : ClientRow} (hc : db.clients.head? = some c)
    (token : String) : (GetToken.ask c token).client db = some c := by
  obtain ⟨clients, hclients⟩ := List.head?_eq_some_iff.mp hc
  simp [GetToken.client, GetToken.ask, hclients]

/-- A bound grant authenticates the clients of live rows only. -/
theorem ClientBound.client_eq (h : ClientBound db now) (hv : db.Valid) {c d : ClientRow}
    {token : String} {row : TokenRow} (hc : (GetToken.ask c token).client db = some d)
    (hrow : db.liveToken now token = some row) : d.id = row.clientId := by
  obtain ⟨client, r, hclient, hr, heq, -⟩ := h ⟨now, 0, 0, 0⟩ ⟨"", ""⟩ (GetToken.ask c token)
    (fun _ => none) _ _ _ rfl ((refreshToken_ok_iff hv).mpr ⟨d, row, hc, hrow, rfl, rfl⟩)
  obtain rfl : d = client := Option.some.inj (hc.symm.trans hclient)
  obtain rfl : row = r := Option.some.inj (hrow.symm.trans hr)
  exact heq

theorem ClientBound.nothingToTake (h : ClientBound db now) (hv : db.Valid) :
    NothingToTake db now := by
  by_cases hdead : ∀ t ∈ db.tokens, t.expiresAt ≤ now
  · exact .inl hdead
  right
  simp only [not_forall, not_le] at hdead
  obtain ⟨t, ht, hlive⟩ := hdead
  obtain ⟨row, hrow⟩ := Db.liveToken_of_mem ht hlive
  obtain ⟨owner, howner, -⟩ := Db.hasClient_iff.mp (hv.tokensClient t ht)
  obtain ⟨c, hc⟩ : ∃ c, db.clients.head? = some c := by
    cases hclients : db.clients with
    | nil => simp [hclients] at howner
    | cons c clients => exact ⟨c, rfl⟩
  have hhead {token : String} {r : TokenRow} (hr : db.liveToken now token = some r) :
      c.id = r.clientId := h.client_eq hv (GetToken.client_ask_head hc token) hr
  refine ⟨c, hc, fun d hd => ?_, fun token r hr => (hhead hr).symm⟩
  obtain ⟨e, he, hid, hsecret, hask⟩ := GetToken.client_ask hd t.token
  have hec : e = c := hv.clients.pk.eq_of_key he (List.mem_of_head? hc)
    ((h.client_eq hv hask hrow).trans (hhead hrow).symm)
  rw [← hec]
  exact ⟨hid.symm, hsecret.symm⟩

theorem GetToken.client_eq_head {request : GetToken} {c d : ClientRow}
    (hc : db.clients.head? = some c)
    (hsame : ∀ d ∈ db.clients, d.clientId = c.clientId ∧ d.clientSecret = c.clientSecret)
    (hd : request.client db = some d) : d = c := by
  obtain ⟨clientId, -, hfound⟩ := Option.bind_eq_some_iff.mp hd
  obtain ⟨clientSecret, -, hfound⟩ := Option.bind_eq_some_iff.mp hfound
  have hp := List.find?_some hfound
  obtain ⟨hid, hsecret⟩ := hsame d (List.mem_of_find?_eq_some hfound)
  rw [hid, hsecret] at hp
  obtain ⟨clients, hclients⟩ := List.head?_eq_some_iff.mp hc
  simp only [hclients, List.find?_cons, hp] at hfound
  exact (Option.some.inj hfound).symm

theorem NothingToTake.clientBound (h : NothingToTake db now) (hv : db.Valid) :
    ClientBound db now := by
  intro clock generated request mem token mem' db' hnow hrun
  subst hnow
  obtain ⟨client, row, hclient, hrow, rfl, hs⟩ := (refreshToken_ok_iff hv).mp hrun
  obtain ⟨rfl, -⟩ := Prod.mk.inj hs
  obtain ⟨presented, -, hlive⟩ := Option.bind_eq_some_iff.mp hrow
  have hid : client.id = row.clientId := by
    rcases h with hdead | ⟨c, hc, hsame, hrows⟩
    · obtain ⟨hm, hgood, -⟩ := Db.liveToken_some hlive
      have := hdead row hm
      omega
    · rw [hrows presented row hlive, GetToken.client_eq_head hc hsame hclient]
  refine ⟨client, row, hclient, hrow, hid, ?_⟩
  rw [hid]
  simp [Token.ofNew, TokenRow.claim]

end grants
end Oauth

/-- In a state that a run reaches, refresh tokens are bound to their clients exactly where
there is nothing to take. -/
theorem Reachable.clientBound_iff {db : Db} (h : Reachable db) (now : Int) :
    Oauth.ClientBound db now ↔ Oauth.NothingToTake db now :=
  ⟨fun hb => hb.nothingToTake h.written.valid, fun hn => hn.clientBound h.written.valid⟩

/-- One user with a client that has a refresh token. -/
def registered : List Call :=
  [.createUser "ada" "" "" "" 0 0, .createClient 1 "reader" "id1" "secret1" 5,
    .createToken 10 "refresh1" 1 1 10 refreshTokenExpirationTime]

theorem Reachable.clientBound_registered : Oauth.ClientBound (runCalls registered {}) 20 := by
  refine (Reachable.clientBound_iff (Reachable.calls .refl registered) 20).mpr (.inr ?_)
  refine ⟨⟨1, "reader", "id1", "secret1", 1, 5⟩, rfl, by decide, fun token t h => ?_⟩
  have hall : ∀ t ∈ (runCalls registered {}).tokens, t.clientId = 1 := by decide
  exact hall t (Db.liveToken_some h).1

/-- Somebody else registers a client too. -/
def intruding : List Call :=
  registered ++ [.createUser "bob" "" "" "" 0 0, .createClient 2 "other" "id2" "secret2" 5]

/-- The second client gets a pair for the token of the first, and acts for its user. -/
theorem intruder_refreshes :
    Reachable (runCalls intruding {}) ∧ ¬ Oauth.ClientBound (runCalls intruding {}) 20 ∧
      ∃ token mem db,
        (Oauth.refreshToken ⟨20, 20, 20, 20⟩ ⟨"access2", "refresh2"⟩
            { grantType := some "refresh_token", clientId := some "id2"
              clientSecret := some "secret2", refreshToken := some "refresh1" } :
            RunWith AccessTokens Db Error _) (fun _ => none, runCalls intruding {}) =
          (.ok token, (mem, db)) ∧
        mem token.accessToken = some ⟨⟨1, 1⟩, 20 + expirationTime⟩ := by
  have hr : Reachable (runCalls intruding {}) := Reachable.calls .refl intruding
  refine ⟨hr, fun h => ?_, _, _, _, rfl, rfl⟩
  have hclient : (Oauth.GetToken.ask ⟨2, "other", "id2", "secret2", 2, 5⟩ "refresh1").client
      (runCalls intruding {}) = some ⟨2, "other", "id2", "secret2", 2, 5⟩ := by decide
  have hrow : (runCalls intruding {}).liveToken 20 "refresh1" =
      some ⟨1, "refresh1", 10, 10 + refreshTokenExpirationTime, 1, 1⟩ := by decide
  have hid : (2 : Int) = 1 := h.client_eq hr.written.valid hclient hrow
  omega

end Articler
