import Articler.Authority
import Articler.Lib.Unwinding

/-! What a user may count on: a client that was registered gets tokens for its owner until the
owner deletes it, and a token is good until it expires, whatever else the server is asked. -/
namespace Articler
open Txn Rows Relation Unwinding

section clients
variable {Url : Type} [UrlCrate Url] {K : Type} [Field K] [LinearOrder K] {c : ClientRow}

def KeepsClient (c : ClientRow) (s t : Db) : Prop := c ∈ s.clients → c ∈ t.clients

theorem allows_keepsClient {k : Statement} (hclients : k ≠ .deleteClients) (husers : k ≠ .deleteUsers) :
    Allows (KeepsClient c) k := by
  intro s t hw hc
  by_cases hk : DbTable.clients ∈ k.changes
  · cases hw with
    | insertClient hid h =>
      obtain ⟨-, -, -, rfl⟩ := Db.insertClient_ok h
      exact List.mem_append_left _ hc
    | deleteClients => exact absurd rfl hclients
    | deleteUsers => exact absurd rfl husers
    | _ => simp [Statement.changes] at hk
  · exact (hw.frame hk).1 ▸ hc

theorem deleteById_keepsClient {userId id : Int} (h : ¬ (id = c.id ∧ userId = c.userId)) {s : Db}
    (hc : c ∈ s.clients) : c ∈ (s.deleteClients fun d => d.userId == userId && d.id == id).clients := by
  refine List.mem_filter.mpr ⟨hc, ?_⟩
  by_cases huser : c.userId = userId
  · have hid : c.id ≠ id := fun hid => h ⟨hid.symm, huser.symm⟩
    simp [hid]
  · simp [huser]

theorem create_writes {P : Statement → Prop} (h : P .insertClient) (userId : Int)
    (clientName clientId clientSecret : String) (createdAt : Int) :
    Built (ReflTransGen (WriteIn P))
      (Clients.create userId clientName clientId clientSecret createdAt : Run Db Error ClientRow) :=
  .stmt fun s _ t hs => allows_write h s t (.insertClient (fun _ => rfl) hs)

namespace Server

/-- The event is the deletion of the client by its owner. -/
def Event.dismisses (c : ClientRow) (s : Server) : Event Url → Prop
  | .web cookie _ (.doClientDelete id) => id = c.id ∧ s.sessionUser cookie = some c.userId
  | _ => False

theorem handle_doClientDelete {config : Config K} (s : Server) (cookie : Option Int) (htmx : Bool)
    (id : Int) :
    (s.handle config (.web cookie htmx (.doClientDelete id) : Event Url)).2.db =
      match s.sessionUser cookie with
      | none => s.db
      | some userId => s.db.deleteClients fun d => d.userId == userId && d.id == id := by
  dsimp only [Server.handle]
  cases s.sessionUser cookie <;> rfl

/-- No other event deletes clients. -/
theorem handle_sparing (config : Config K) (s : Server) {event : Event Url} {P : Statement → Prop}
    (hother : ∀ cookie htmx id, event ≠ .web cookie htmx (.doClientDelete id))
    (hP : ∀ k ∈ event.statements, k ≠ .deleteClients → P k) :
    ReflTransGen (WriteIn P) s.db (s.handle config event).2.db := by
  by_cases hdelete : .deleteClients ∈ event.statements
  · have hright {rights : List Right}
        (h : Statement.deleteClients ∈ rights.flatMap Right.statements) : .clients ∈ rights := by
      obtain ⟨r, hr, hk⟩ := List.mem_flatMap.mp h
      cases r <;> simp at hk
      exact hr
    cases event with
    | api now credentials handler => exact absurd (hright hdelete) (clients_only_api handler)
    | web cookie htmx handler =>
      dsimp only [Server.handle]
      cases s.sessionUser cookie with
      | none => exact .refl
      | some userId =>
        have hbuilt : Built (ReflTransGen (WriteIn P))
            (handler.run config.crates config.eng userId : Run Db Error Web.Reply) := by
          cases handler with
          | clients => exact .bind (.bind (.query (fun _ => .refl) _) fun _ => .pure _) fun _ => .pure _
          | doClientDelete id => exact absurd rfl (hother cookie htmx id)
          | doCreateClient now keys clientName =>
            refine .bind ?_ fun _ => .pure _
            unfold Web.doCreateClient
            split
            · exact .pure _
            · exact .fail _
            · exact .bind (create_writes (hP .insertClient (by simp) (by decide)) ..) fun _ => .pure _
          | _ => simp at hdelete
        exact (Writes.of_built hbuilt s.db trivial).2.1
    | fakeUi cookie handler =>
      dsimp only [Server.handle]
      cases s.sessionUser cookie with
      | none => exact .refl
      | some userId =>
        have hbuilt : Built (ReflTransGen (WriteIn P)) (handler.run userId : Run Db Error FakeUi.Page) := by
          cases handler with
          | developer =>
            rw [FakeUi.Handler.run, FakeUi.developer_alone]
            exact .bind (.query (fun _ => .refl) _) fun _ => .pure _
          | getClientCreate => exact .pure _
          | postClientCreate now keys name =>
            exact .bind (.ofExcept _) fun _ =>
              .bind (create_writes (hP .insertClient (by simp) (by decide)) ..) fun _ => .pure _
        exact (Writes.of_built hbuilt s.db trivial).2.1
    | _ => simp at hdelete
  · exact s.handle_writes event fun k hk => hP k hk fun h => hdelete (h ▸ hk)

/-- Nothing but its deletion takes the client away. -/
theorem handle_keepsClient {config : Config K} {s : Server} (hc : c ∈ s.db.clients)
    {event : Event Url} (hkeep : ¬ event.dismisses c s) :
    c ∈ (s.handle config event).2.db.clients := by
  by_cases hother : ∀ cookie htmx id, event ≠ .web cookie htmx (.doClientDelete id)
  · have hwrites : ReflTransGen (WriteIn fun k => k ≠ .deleteClients ∧ k ≠ .deleteUsers) s.db
        (s.handle config event).2.db :=
      s.handle_sparing config hother fun k hk hkept => ⟨hkept, event.keepsUsers k hk⟩
    exact run_invariant (I := fun t => c ∈ t.clients)
      (fun t t' h ⟨k, hk, hw⟩ => allows_keepsClient hk.1 hk.2 t t' hw h) hc hwrites
  · simp only [not_forall, not_not] at hother
    obtain ⟨cookie, htmx, id, rfl⟩ := hother
    rw [handle_doClientDelete]
    cases hcookie : s.sessionUser cookie with
    | none => exact hc
    | some userId =>
      exact deleteById_keepsClient
        (fun ⟨hid, huser⟩ => hkeep ⟨hid, hcookie.trans (congrArg some huser)⟩) hc

theorem serve_keepsClient {config : Config K} {s : Server} (hc : c ∈ s.db.clients)
    {events : List (Event Url)}
    (hkeep : Along (handle config) (fun s event => ¬ event.dismisses c s) s events) :
    c ∈ (serve config s events).db.clients := by
  induction events generalizing s with
  | nil => exact hc
  | cons event events ih => exact ih (handle_keepsClient hc hkeep.1) hkeep.2

end Server
end clients

section tokens
variable {Url : Type} [UrlCrate Url] {K : Type} [Field K] [LinearOrder K] {config : Server.Config K}

def Holds (key : String) (token : InternalToken) (access : AccessTokens) : Prop :=
  access key = some token

theorem holds_granting (key : String) (token : InternalToken) :
    Granting (fun _ => True) (· ≠ key) (Holds key token) (fun _ => True) where
  insert _ _ _ hname hm _ := (Function.update_of_ne hname.symm ..).trans hm
  insertToken _ _ _ _ _ _ _ _ := trivial
  deleteTokens _ _ _ := trivial
  owner _ _ _ _ := trivial

namespace Server

/-- The event neither draws the text of the token anew nor finds the token expired. -/
def Event.spares (key : String) (expiresAt : Int) : Event Url → Prop
  | .postToken _ generated _ => generated.accessToken ≠ key
  | .api now credentials _ => credentials = some key → now ≤ expiresAt
  | .gc now => now < expiresAt
  | _ => True

/-- The bearer check removes no token but one that has expired. -/
theorem authExtractor_holds {key : String} {token : InternalToken} {now : Int}
    {credentials : Option String} (h : credentials = some key → now ≤ token.expiresAt)
    {s : AccessTokens × Db} (hs : s.1 key = some token) :
    ((Oauth.authExtractor now credentials : RunWith AccessTokens Db Error Claim) s).2.1 key =
      some token := by
  obtain ⟨access, db⟩ := s
  cases credentials with
  | none => exact hs
  | some presented =>
    dsimp only [Oauth.authExtractor] at hs ⊢
    rw [RunWith.run_bind, TokenStorage.validate_run]
    cases ht : access presented with
    | none => exact hs
    | some t =>
      by_cases hexpired : t.expiresAt < now
      · by_cases hkey : presented = key
        · subst hkey
          obtain rfl : t = token := Option.some.inj (ht.symm.trans hs)
          have hnow : now ≤ t.expiresAt := h rfl
          omega
        · simp only [hexpired, if_true]
          exact (Function.update_of_ne (Ne.symm hkey) ..).trans hs
      · simp only [hexpired, if_false]
        exact hs

theorem handle_holds {s : Server} {key : String} {token : InternalToken}
    (hs : s.access key = some token) {event : Event Url} (h : event.spares key token.expiresAt) :
    (s.handle config event).2.access key = some token := by
  cases event with
  | version | logout => exact hs
  | postToken clock generated request =>
    exact ((holds_granting key token).postToken clock generated h request
      (fun username password _ _ => findUser_harmless _ username password) (s.access, s.db)
      hs trivial).1
  | api now credentials handler =>
    have hauth := authExtractor_holds (s := (s.access, s.db)) h hs
    dsimp only [Server.handle, Server.grant]
    rcases hrun : (Oauth.authExtractor now credentials : RunWith AccessTokens Db Error Claim)
      (s.access, s.db) with ⟨e | claim, access, db⟩ <;> rw [hrun] at hauth <;> exact hauth
  | web cookie htmx handler =>
    dsimp only [Server.handle]
    cases s.sessionUser cookie <;> exact hs
  | fakeUi cookie handler =>
    dsimp only [Server.handle]
    cases s.sessionUser cookie <;> exact hs
  | login | setup | doSetup | command => exact hs
  | doLogin form referer =>
    dsimp only [Server.handle]
    rcases hquery : s.query (Web.doLogin config.verifyPassword form referer) with ⟨e | response, s'⟩ <;>
      (have hsame : s.access = s'.access := congrArg (fun r => r.2.access) hquery
       exact hsame ▸ hs)
  | gc now =>
    have hlive : now < token.expiresAt := h
    exact Option.filter_eq_some_iff.mpr ⟨hs, by simpa using hlive⟩

theorem serve_holds {s : Server} {key : String} {token : InternalToken}
    (hs : s.access key = some token) {events : List (Event Url)}
    (h : ∀ event ∈ events, event.spares key token.expiresAt) :
    (serve config s events).access key = some token := by
  induction events generalizing s with
  | nil => exact hs
  | cons event events ih =>
    exact ih (handle_holds hs (h event List.mem_cons_self)) fun e he => h e (List.mem_cons_of_mem event he)

theorem actor_holds {s : Server} {key : String} {token : InternalToken}
    (hs : s.access key = some token) {now : Int} (hnow : now ≤ token.expiresAt)
    (handler : Api.Handler Url) :
    s.actor (.api now (some key) handler) = some token.claim.userId := by
  have hlive : ¬ token.expiresAt < now := by omega
  dsimp only [actor, Oauth.authExtractor]
  rw [RunWith.run_bind, TokenStorage.validate_run, hs]
  simp only [hlive, if_false]
  rfl

theorem foundUser_accepted {verifyPassword : String → String → Except Error Bool} {db : Db}
    (hv : db.Valid) {u : UserRow} (hu : u ∈ db.users) {password : String}
    (haccepted : verifyPassword password u.passwordHash = .ok true) :
    db.foundUser verifyPassword ⟨u.username, password⟩ = .ok (some u) := by
  have hfind : db.users.find? (fun w => w.username == u.username) = some u :=
    hv.usernames.find_of_key hu (by simp) fun w hw => beq_iff_eq.mp hw
  rw [Db.foundUser, hfind]
  dsimp only
  rw [haccepted]
  rfl

/-- A client of a user gets a token for the user's name and password at any time before the user
deletes the client, and whatever is asked of the server then, the token is good until it
expires. -/
theorem client_serves {s : Server} (hv : s.db.Valid) {u : UserRow} (hu : u ∈ s.db.users)
    {c : ClientRow} (hc : c ∈ s.db.clients) (hown : c.userId = u.id) {password : String}
    (haccepted : config.verifyPassword password u.passwordHash = .ok true)
    {before : List (Event Url)}
    (hkeep : Along (handle config) (fun s event => ¬ event.dismisses c s) s before)
    (clock : Clock) (generated : Generated) {after : List (Event Url)}
    (hspare : ∀ event ∈ after,
      event.spares generated.accessToken (clock.now + expirationTime)) :
    let request : Event Url := .postToken clock generated (.byPassword ⟨u.username, password⟩ c)
    ((serve config s before).handle config request).1 = .token (.ok (.ofNew
        ⟨generated.accessToken, expirationTime, generated.refreshToken⟩)) ∧
      ∀ now ≤ clock.now + expirationTime, ∀ handler : Api.Handler Url,
        (serve config s (before ++ request :: after)).actor
          (.api now (some generated.accessToken) handler) = some u.id := by
  intro request
  have hlater : Later s.db (serve config s before).db := s.serve_later before
  have hvalid := hlater.valid hv
  have huser := hlater.users hu
  have hgrant := grantedFor_found hvalid huser (serve_keepsClient hc hkeep) hown
    (foundUser_accepted hvalid huser haccepted) clock generated (serve config s before).access
  have hhandle := congrArg (fun r => ((Answer.token r.1 : Answer Url), r.2.1)) hgrant
  refine ⟨congrArg Prod.fst hhandle, fun now hnow handler => ?_⟩
  have hissued : ((serve config s before).handle config request).2.access generated.accessToken =
      some ⟨⟨u.id, c.id⟩, clock.now + expirationTime⟩ :=
    (congrFun (congrArg Prod.snd hhandle) _).trans (AccessTokens.insert_self ..)
  rw [serve_append]
  exact actor_holds (serve_holds hissued hspare) hnow handler

end Server
end tokens

/-- Two users, the first with a client. -/
def enrolled : List Call :=
  [.createUser "ada" "hash" "" "" 0 0, .createUser "bob" "" "" "" 0 0,
    .createClient 1 "reader" "id" "secret" 0]

/-- Bob tries to delete Ada's client and asks for a token of his own, and old tokens are
collected. -/
theorem Server.client_serves_registered :
    let start : Server := ⟨runCalls enrolled {}, fun _ => none, [2]⟩
    let client : ClientRow := ⟨1, "reader", "id", "secret", 1, 0⟩
    let before : List (Event HttpText) := [.web (some 2) false (.doClientDelete 1)]
    let request : Event HttpText :=
      .postToken ⟨50, 50, 50, 50⟩ ⟨"access", "refresh"⟩ (.byPassword ⟨"ada", "hash"⟩ client)
    let after : List (Event HttpText) :=
      [.postToken ⟨60, 60, 60, 60⟩ ⟨"other", "more"⟩ (.byPassword ⟨"bob", ""⟩ client), .gc 3000]
    (serve plainConfig start (before ++ request :: after)).actor
      (.api 3650 (some "access") .getTags : Event HttpText) = some 1 := by
  intro start client before request after
  have hr : Reachable (runCalls enrolled {}) := Reachable.calls .refl enrolled
  have hkeep : Unwinding.Along (handle plainConfig) (fun s event => ¬ event.dismisses client s) start
    before := ⟨by simp [Event.dismisses, start, Server.sessionUser, client], trivial⟩
  have hspare : ∀ event ∈ after, event.spares "access" (50 + expirationTime) := by
    simp [after, Event.spares, expirationTime]
  exact (client_serves hr.written.valid (u := ⟨1, "ada", "", "", "hash", 0, 0⟩) (by decide)
    (c := client) (by decide) rfl rfl hkeep ⟨50, 50, 50, 50⟩ ⟨"access", "refresh"⟩ hspare).2 3650
      (by decide) .getTags

end Articler
