import Articler.Availability
import Articler.RefreshGrant

/-! An app that signs in once and refreshes its tokens in time goes on working: nobody but the
owner, who may delete the client, and whoever has the refresh token itself can end the login. -/
namespace Articler
open Txn Rows Relation Unwinding

/-- The refresh token is stored, and whatever row has its text is for the claim and expires then. -/
structure Db.Grants (token : String) (expiresAt : Int) (claim : Claim) (db : Db) : Prop where
  stored : ∃ r ∈ db.tokens, r.token = token
  each : ∀ r ∈ db.tokens, r.token = token → r.expiresAt = expiresAt ∧ r.claim = claim

namespace Db.Grants
variable {token : String} {expiresAt : Int} {claim : Claim} {db : Db}

theorem of_eq (h : db.Grants token expiresAt claim) {db' : Db} (heq : db'.tokens = db.tokens) :
    db'.Grants token expiresAt claim := by
  constructor
  · rw [heq]
    exact h.stored
  · rw [heq]
    exact h.each

theorem filter (h : db.Grants token expiresAt claim) {db' : Db} {p : TokenRow → Bool}
    (heq : db'.tokens = db.tokens.filter p) (hp : ∀ r ∈ db.tokens, r.token = token → p r = true) :
    db'.Grants token expiresAt claim := by
  obtain ⟨r, hr, htoken⟩ := h.stored
  constructor
  · exact ⟨r, heq ▸ List.mem_filter.mpr ⟨hr, hp r hr htoken⟩, htoken⟩
  · intro d hd
    rw [heq] at hd
    exact h.each d (List.mem_filter.mp hd).1

theorem append (h : db.Grants token expiresAt claim) {db' : Db} {row : TokenRow}
    (heq : db'.tokens = db.tokens ++ [row]) (hrow : row.token ≠ token) :
    db'.Grants token expiresAt claim := by
  obtain ⟨r, hr, htoken⟩ := h.stored
  constructor
  · exact ⟨r, heq ▸ List.mem_append_left _ hr, htoken⟩
  · intro d hd hsame
    rw [heq] at hd
    rcases List.mem_append.mp hd with hd | hd
    · exact h.each d hd hsame
    · obtain rfl := List.mem_singleton.mp hd
      exact absurd hsame hrow

theorem deleteTokens (h : db.Grants token expiresAt claim) {p : TokenRow → Bool}
    (hp : ∀ r ∈ db.tokens, r.token = token → p r = false) :
    (db.deleteTokens p).Grants token expiresAt claim :=
  h.filter rfl fun r hr htoken => by simp [hp r hr htoken]

theorem deleteClients (h : db.Grants token expiresAt claim) {p : ClientRow → Bool}
    (hp : ∀ c ∈ db.clients, p c = true → c.id ≠ claim.clientId) :
    (db.deleteClients p).Grants token expiresAt claim := by
  refine h.filter rfl fun r hr htoken => ?_
  have hclaim : r.claim = claim := (h.each r hr htoken).2
  simp only [Bool.not_eq_true', List.any_eq_false, Bool.and_eq_true, beq_iff_eq, not_and]
  intro c hc hgone hid
  exact hp c hc hgone (hid.trans (congrArg Claim.clientId hclaim))

theorem issue (clock : Clock) (h : ∀ r ∈ db.tokens, r.token ≠ token) :
    (db.issue clock token claim).Grants token (clock.stored + refreshTokenExpirationTime) claim := by
  constructor
  · exact ⟨.issued clock token claim (db.tokensSeq + 1), List.mem_append_right _ (by simp), rfl⟩
  · intro r hr htoken
    rcases List.mem_append.mp hr with hr | hr
    · exact absurd htoken (h r hr)
    · obtain rfl := List.mem_singleton.mp hr
      exact ⟨rfl, rfl⟩

theorem live (h : db.Grants token expiresAt claim) {now : Int} (hnow : now < expiresAt) :
    ∃ r, db.liveToken now token = some r ∧ r.claim = claim ∧ r.token = token := by
  obtain ⟨r, hr, rfl⟩ := h.stored
  obtain ⟨hexpires, -⟩ := h.each r hr rfl
  obtain ⟨d, hd⟩ := Db.liveToken_of_mem hr (hexpires ▸ hnow)
  obtain ⟨hm, -, htoken⟩ := Db.liveToken_some hd
  exact ⟨d, hd, (h.each d hm htoken).2, htoken⟩

end Db.Grants

section refreshes
variable {token : String} {expiresAt : Int} {claim : Claim} {clock : Clock} {generated : Generated}

theorem grants_create (hname : generated.refreshToken ≠ token) (userId clientId : Int) :
    Maintains (fun _ => True) (Db.Grants token expiresAt claim) (fun _ => True)
      (Tokens.create clock.stored generated.refreshToken userId clientId clock.created
        refreshTokenExpirationTime : RunWith AccessTokens Db Error _) := by
  refine .stmt fun t r t' hd hi => ?_
  obtain ⟨rfl, -, -, rfl⟩ := Db.insertToken_ok hi
  exact ⟨hd.append rfl hname, trivial⟩

theorem grants_newToken (hname : generated.refreshToken ≠ token) (userId clientId : Int) :
    Maintains (fun _ => True) (Db.Grants token expiresAt claim) (fun _ => True)
      (TokenStorage.newToken clock generated userId clientId : RunWith AccessTokens Db Error _) :=
  .bind (.modify fun _ _ => trivial) fun _ _ =>
    .bind (grants_create hname userId clientId) fun _ _ => .pure trivial

theorem grants_refresh (hname : generated.refreshToken ≠ token) {presented : String}
    (hother : presented ≠ token) (hlive : clock.purged < expiresAt) :
    Maintains (fun _ => True) (Db.Grants token expiresAt claim) (fun _ => True)
      (TokenStorage.refresh clock generated presented : RunWith AccessTokens Db Error _) := by
  refine .bind (Q := fun _ => True) (.transaction (.stmt fun t _ _ hd hdelete => ?_)) fun _ _ =>
    .transaction (.bind (Q := fun _ => True) (.query fun _ _ _ _ => trivial) fun found _ => ?_)
  · cases hdelete
    refine ⟨hd.deleteTokens fun r hr htoken => ?_, trivial⟩
    have hexpires : r.expiresAt = expiresAt := (hd.each r hr htoken).1
    simp only [decide_eq_false_iff_not]
    omega
  · cases found with
    | none => exact .pure trivial
    | some row =>
      refine .bind (Q := fun _ => True) (.stmt fun t _ _ hd hdelete => ?_) fun _ _ =>
        .bind (.modify fun _ _ => trivial) fun _ _ =>
          .bind (grants_create hname row.userId row.clientId) fun _ _ => .pure trivial
      cases hdelete
      exact ⟨hd.deleteTokens fun r hr htoken => by simp [htoken, Ne.symm hother], trivial⟩

end refreshes

theorem Oauth.refreshToken_refused {clock : Clock} {generated : Generated} {request : GetToken}
    {mem : AccessTokens} {db : Db} (h : request.client db = none) :
    ((refreshToken clock generated request : RunWith AccessTokens Db Error _) (mem, db)).2.2 = db := by
  obtain ⟨grantType, clientId, clientSecret, username, password, presented⟩ := request
  cases clientId with
  | none => rfl
  | some clientId =>
  cases clientSecret with
  | none => rfl
  | some clientSecret =>
  have hnone : db.clients.find? (fun c => c.clientId == clientId && c.clientSecret == clientSecret) =
      none := h
  rw [refreshToken]
  dsimp only
  rw [RunWith.run_bind_ok (Clients.findByClientIdAndSecret_with ..), hnone]
  rfl

namespace Server
variable {Url : Type} [UrlCrate Url] {K : Type} [Field K] [LinearOrder K] {config : Config K}
  {c : ClientRow} {token : String} {expiresAt : Int} {claim : Claim}

/-- The event uses the refresh token up, purges it or draws its text anew. -/
def Event.spends (token : String) (expiresAt : Int) (s : Server) : Event Url → Prop
  | .postToken clock generated request =>
    generated.refreshToken = token ∨
      request.grantType = some "refresh_token" ∧ (request.client s.db).isSome = true ∧
        ∃ presented ∈ request.refreshToken, presented = token ∨ expiresAt ≤ clock.purged
  | _ => False

theorem postToken_grants {s : Server} {clock : Clock} {generated : Generated}
    {request : Oauth.GetToken} (hs : s.db.Grants token expiresAt claim)
    (hspends : ¬ (Event.postToken clock generated request : Event Url).spends token expiresAt s) :
    (s.handle config (.postToken clock generated request : Event Url)).2.db.Grants token expiresAt
      claim := by
  have hname : generated.refreshToken ≠ token := fun h => hspends (.inl h)
  obtain ⟨grantType, clientId, clientSecret, username, password, presented⟩ := request
  dsimp only [Server.handle, Server.grant, Oauth.postToken]
  split
  · refine (?_ : Maintains (fun _ => True) (Db.Grants token expiresAt claim) (fun _ => True) _)
      (s.access, s.db) trivial hs |>.2.1
    cases username with
    | none => exact .fail _
    | some username =>
    cases password with
    | none => exact .fail _
    | some password =>
    cases clientId with
    | none => exact .fail _
    | some clientId =>
    cases clientSecret with
    | none => exact .fail _
    | some clientSecret =>
    refine .bind (Q := fun _ => True) (.transaction (.bind (findUser_harmless _ username password)
      fun found _ => ?_)) fun ids _ => .bind (grants_newToken hname _ _) fun _ _ => .pure trivial
    cases found with
    | none => exact .fail _
    | some u =>
      refine .bind (Q := fun _ => True) (.query fun _ _ _ _ => trivial) fun client _ => ?_
      cases client with
      | none => exact .fail _
      | some c => exact .pure trivial
  · by_cases hclient : Oauth.GetToken.client ⟨some "refresh_token", clientId, clientSecret, username,
        password, presented⟩ s.db = none
    · rw [Oauth.refreshToken_refused hclient]
      exact hs
    · have hspared : ∀ p ∈ presented, p ≠ token ∧ clock.purged < expiresAt := by
        intro p hp
        by_contra hspent
        refine hspends (.inr ⟨rfl, Option.isSome_iff_ne_none.mpr hclient, p, hp, ?_⟩)
        by_cases htoken : p = token
        · exact .inl htoken
        · exact .inr (by simpa [htoken] using hspent)
      refine (?_ : Maintains (fun _ => True) (Db.Grants token expiresAt claim) (fun _ => True) _)
        (s.access, s.db) trivial hs |>.2.1
      cases clientId with
      | none => exact .fail _
      | some clientId =>
      cases clientSecret with
      | none => exact .fail _
      | some clientSecret =>
      refine .bind (Q := fun _ => True) (.query fun _ _ _ _ => trivial) fun found _ => ?_
      cases found with
      | none => exact .fail _
      | some d =>
      cases presented with
      | none => exact .fail _
      | some presented =>
      obtain ⟨hother, hlive⟩ := hspared presented rfl
      refine .bind (grants_refresh hname hother hlive) fun newToken _ => ?_
      cases newToken with
      | none => exact .fail _
      | some newToken => exact .pure trivial
  · exact hs

structure SignedIn (c : ClientRow) (userId : Int) (token : String) (expiresAt : Int) (s : Server) :
    Prop where
  valid : s.db.Valid
  client : c ∈ s.db.clients
  grant : s.db.Grants token expiresAt ⟨userId, c.id⟩

def Event.leaves (c : ClientRow) (token : String) (expiresAt : Int) (s : Server) (event : Event Url) :
    Prop := ¬ event.dismisses c s ∧ ¬ event.spends token expiresAt s

theorem Right.keepsTokens (r : Right) :
    ∀ k ∈ r.statements, k ≠ .deleteClients → DbTable.tokens ∉ k.changes := by
  cases r <;> decide

theorem Event.keepsTokens {event : Event Url}
    (h : ∀ clock generated request, event ≠ .postToken clock generated request) :
    ∀ k ∈ event.statements, k ≠ .deleteClients → DbTable.tokens ∉ k.changes := by
  have hright {rights : List Right} {k : Statement} (hk : k ∈ rights.flatMap Right.statements)
      (hclients : k ≠ .deleteClients) : DbTable.tokens ∉ k.changes := by
    obtain ⟨r, -, hr⟩ := List.mem_flatMap.mp hk
    exact Right.keepsTokens r k hr hclients
  intro k hk hclients
  cases event with
  | postToken clock generated request => exact absurd rfl (h clock generated request)
  | api | web | fakeUi => exact hright hk hclients
  | doSetup | command =>
    have hall : ∀ k ∈ [Statement.insertUser, .insertClient, .updateEntries],
      DbTable.tokens ∉ k.changes := by decide
    exact hall k (by simp at hk ⊢; tauto)
  | _ => simp at hk

theorem handle_signedIn {userId : Int} {s : Server} (hs : s.SignedIn c userId token expiresAt)
    {event : Event Url} (h : event.leaves c token expiresAt s) :
    (s.handle config event).2.SignedIn c userId token expiresAt := by
  obtain ⟨hdismisses, hspends⟩ := h
  refine ⟨(s.handle_later event).valid hs.valid, handle_keepsClient hs.client hdismisses, ?_⟩
  by_cases hdelete : ∀ cookie htmx id, event ≠ .web cookie htmx (.doClientDelete id)
  · by_cases hpost : ∀ clock generated request, event ≠ .postToken clock generated request
    · have hwrites := s.handle_sparing config hdelete (Event.keepsTokens hpost)
      exact run_invariant (I := Db.Grants token expiresAt ⟨userId, c.id⟩)
        (fun t t' ht ⟨k, hk, hw⟩ => ht.of_eq (hw.frame hk).1) hs.grant hwrites
    · simp only [not_forall, not_not] at hpost
      obtain ⟨clock, generated, request, rfl⟩ := hpost
      exact postToken_grants hs.grant hspends
  · simp only [not_forall, not_not] at hdelete
    obtain ⟨cookie, htmx, id, rfl⟩ := hdelete
    rw [handle_doClientDelete]
    cases hcookie : s.sessionUser cookie with
    | none => exact hs.grant
    | some user =>
      refine hs.grant.deleteClients fun d hd hgone hid => ?_
      simp only [Bool.and_eq_true, beq_iff_eq] at hgone
      have hsame : d = c := hs.valid.clients.pk.eq_of_key hd hs.client hid
      subst hsame
      exact hdismisses ⟨hgone.2.symm, hcookie.trans (congrArg some hgone.1.symm)⟩

theorem serve_signedIn {userId : Int} {s : Server} (hs : s.SignedIn c userId token expiresAt)
    {events : List (Event Url)}
    (h : Along (handle config) (Event.leaves c token expiresAt) s events) :
    (serve config s events).SignedIn c userId token expiresAt := by
  induction events generalizing s with
  | nil => exact hs
  | cons event events ih => exact ih (handle_signedIn hs h.1) h.2

/-- What the token endpoint reads off the clock and draws when it hands out a pair. -/
structure Draw where
  clock : Clock
  generated : Generated

def Draw.refreshToken (d : Draw) : String := d.generated.refreshToken

def Draw.expires (d : Draw) : Int := d.clock.stored + refreshTokenExpirationTime

/-- The app's refresh, with what is asked of the server before it. -/
structure Round (Url : Type) [UrlCrate Url] where
  meanwhile : List (Event Url)
  draw : Draw

def Round.request (c : ClientRow) (d : Draw) (r : Round Url) : Event Url :=
  .postToken r.draw.clock r.draw.generated (.ask c d.refreshToken)

def asked (c : ClientRow) (d : Draw) : List (Round Url) → List (Event Url)
  | [] => []
  | r :: rounds => r.meanwhile ++ r.request c d :: asked c r.draw rounds

def refreshed (config : Config K) (c : ClientRow) (s : Server) (d : Draw) :
    List (Round Url) → List (Answer Url)
  | [] => []
  | r :: rounds =>
    let reply := (serve config s r.meanwhile).handle config (r.request c d)
    reply.1 :: refreshed config c reply.2 r.draw rounds

def lastDraw (d : Draw) (rounds : List (Round Url)) : Draw := rounds.foldl (fun _ r => r.draw) d

abbrev Draw.fresh (d : Draw) (s : Server) : Prop := ∀ r ∈ s.db.tokens, r.token ≠ d.refreshToken

/-- Nobody ends the login between the refreshes, and each comes before its token expires. -/
def InTime (config : Config K) (c : ClientRow) (s : Server) (d : Draw) : List (Round Url) → Prop
  | [] => True
  | r :: rounds =>
    Along (handle config) (Event.leaves c d.refreshToken d.expires) s r.meanwhile ∧
      r.draw.clock.purged < d.expires ∧ r.draw.fresh (serve config s r.meanwhile) ∧
      InTime config c ((serve config s r.meanwhile).handle config (r.request c d)).2 r.draw rounds

/-- The app is signed in with the pair: the access token is held, too. -/
structure Holding (c : ClientRow) (userId : Int) (d : Draw) (s : Server) : Prop where
  signedIn : s.SignedIn c userId d.refreshToken d.expires
  access : s.access d.generated.accessToken =
    some ⟨⟨userId, c.id⟩, d.clock.now + expirationTime⟩

theorem refresh_holding (config : Config K) {userId : Int} {s : Server} {d : Draw}
    (hs : s.SignedIn c userId d.refreshToken d.expires) {r : Round Url}
    (htime : r.draw.clock.purged < d.expires) (hfresh : r.draw.fresh s) :
    (s.handle config (r.request c d)).1 = .token (.ok (.ofNew
        ⟨r.draw.generated.accessToken, 3600, r.draw.refreshToken⟩)) ∧
      (s.handle config (r.request c d)).2.Holding c userId r.draw := by
  obtain ⟨client, -, -, -, hclient⟩ := Oauth.GetToken.client_ask hs.client d.refreshToken
  obtain ⟨row, hrow, hclaim, htoken⟩ := hs.grant.live htime
  have hrun : (Oauth.refreshToken r.draw.clock r.draw.generated (.ask c d.refreshToken) :
      RunWith AccessTokens Db Error Oauth.Token) (s.access, s.db) = (.ok _, (_, _)) :=
    (Oauth.refreshToken_ok_iff hs.valid).mpr ⟨client, row, hclient, hrow, rfl, rfl⟩
  rw [hclaim] at hrun
  have hstored := congrArg (fun r => r.2.2) hrun
  have hremembered := congrArg (fun r => r.2.1) hrun
  have hanswer := congrArg (fun r => (Answer.token r.1 : Answer Url)) hrun
  refine ⟨hanswer, ⟨(s.handle_later _).valid hs.valid, handle_keepsClient hs.client id, ?_⟩, ?_⟩
  · refine Db.Grants.of_eq (Db.Grants.issue r.draw.clock fun t ht => ?_) (congrArg Db.tokens hstored)
    have hthere : t ∈ s.db.tokens :=
      (Db.mem_purged.mp (List.mem_filter.mp ht).1).1
    exact hfresh t hthere
  · exact (congrFun hremembered _).trans (AccessTokens.insert_self ..)

/-- All refreshes succeed, and in the end the app holds the last pair. -/
theorem rounds_holding {userId : Int} {rounds : List (Round Url)} {s : Server} {d : Draw}
    (hs : s.Holding c userId d) (h : InTime config c s d rounds) :
    refreshed config c s d rounds = rounds.map (fun r => .token (.ok (.ofNew
        ⟨r.draw.generated.accessToken, 3600, r.draw.refreshToken⟩))) ∧
      (serve config s (asked c d rounds)).Holding c userId (lastDraw d rounds) := by
  induction rounds generalizing s d with
  | nil => exact ⟨rfl, hs⟩
  | cons r rounds ih =>
    obtain ⟨hleaves, htime, hfresh, hrest⟩ := h
    have hmeanwhile := serve_signedIn hs.signedIn hleaves
    obtain ⟨hanswer, hnew⟩ := refresh_holding config hmeanwhile htime hfresh
    obtain ⟨hanswers, hlast⟩ := ih hnew hrest
    constructor
    · rw [refreshed, List.map_cons, ← hanswers, ← hanswer]
    · rw [asked, serve_append]
      exact hlast

/-- A user who signs in with name and password, through an app that refreshes its tokens in time,
is not signed out before the client is deleted or the refresh token gets into other hands: every
refresh is answered with a new pair, and the last access token is good until it expires. -/
theorem stays_signed_in {s : Server} (hv : s.db.Valid) {u : UserRow} (hu : u ∈ s.db.users)
    (hc : c ∈ s.db.clients) (hown : c.userId = u.id) {password : String}
    (haccepted : config.verifyPassword password u.passwordHash = .ok true) {d : Draw}
    (hfresh : d.fresh s) {rounds : List (Round Url)} {after : List (Event Url)} :
    let signIn : Event Url := .postToken d.clock d.generated (.byPassword ⟨u.username, password⟩ c)
    let start : Server := (s.handle config signIn).2
    let last : Draw := lastDraw d rounds
    InTime config c start d rounds →
      (∀ event ∈ after,
        event.spares last.generated.accessToken (last.clock.now + expirationTime)) →
      refreshed config c start d rounds = rounds.map (fun r => .token (.ok (.ofNew
          ⟨r.draw.generated.accessToken, 3600, r.draw.refreshToken⟩))) ∧
        ∀ now ≤ last.clock.now + expirationTime, ∀ handler : Api.Handler Url,
          (serve config s (signIn :: asked c d rounds ++ after)).actor
            (.api now (some last.generated.accessToken) handler) = some u.id := by
  intro signIn start last hintime hspare
  have hgrant := grantedFor_found hv hu hc hown (foundUser_accepted hv hu haccepted) d.clock
    d.generated s.access
  have hstored := congrArg (fun r => r.2.2) hgrant
  have hremembered := congrArg (fun r => r.2.1) hgrant
  have hstart : start.Holding c u.id d := by
    constructor
    · exact ⟨(s.handle_later signIn).valid hv, handle_keepsClient hc id,
        Db.Grants.of_eq (Db.Grants.issue d.clock hfresh) (congrArg Db.tokens hstored)⟩
    · exact (congrFun hremembered _).trans (AccessTokens.insert_self ..)
  obtain ⟨hanswers, hlast⟩ := rounds_holding hstart hintime
  refine ⟨hanswers, fun now hnow handler => ?_⟩
  rw [serve_append]
  exact actor_holds (serve_holds hlast.access hspare) hnow handler

/-- Bob tries to delete Ada's client and presents a token that is not there; Ada's app refreshes
twice, the second time after the first access token has gone. -/
theorem stays_signed_in_refreshing :
    let start : Server := ⟨runCalls enrolled {}, fun _ => none, [2]⟩
    let client : ClientRow := ⟨1, "reader", "id", "secret", 1, 0⟩
    let signIn : Event HttpText :=
      .postToken ⟨50, 50, 50, 50⟩ ⟨"access", "refresh"⟩ (.byPassword ⟨"ada", "hash"⟩ client)
    let rounds : List (Round HttpText) :=
      [⟨[.web (some 2) false (.doClientDelete 1),
          .postToken ⟨60, 60, 60, 60⟩ ⟨"other", "more"⟩ (.ask client "none")],
        ⟨⟨2000, 2000, 2000, 2000⟩, ⟨"access2", "refresh2"⟩⟩⟩,
      ⟨[.gc 9000], ⟨⟨9000, 9000, 9000, 9000⟩, ⟨"access3", "refresh3"⟩⟩⟩]
    (serve plainConfig start (signIn :: asked client ⟨⟨50, 50, 50, 50⟩, ⟨"access", "refresh"⟩⟩ rounds ++
      [])).actor (.api 12600 (some "access3") .getTags : Event HttpText) = some 1 := by
  intro start client signIn rounds
  have hr : Reachable (runCalls enrolled {}) := Reachable.calls .refl enrolled
  have hintime : InTime plainConfig client (start.handle plainConfig signIn).2
      ⟨⟨50, 50, 50, 50⟩, ⟨"access", "refresh"⟩⟩ rounds := by
    refine ⟨⟨⟨?_, nofun⟩, ⟨nofun, ?_⟩, trivial⟩, by decide, by decide,
      ⟨⟨nofun, nofun⟩, trivial⟩, by decide, by decide, trivial⟩
    · rintro ⟨-, huser⟩
      exact absurd huser (by decide)
    · rintro (hdrawn | ⟨-, -, presented, hpresented, hspent⟩)
      · exact absurd hdrawn (by decide)
      · cases hpresented
        exact absurd hspent (by decide)
  have h := @stays_signed_in HttpText _ ℚ _ _ plainConfig client start hr.written.valid
    ⟨1, "ada", "", "", "hash", 0, 0⟩ (by decide) (by decide) rfl "hash" rfl
    ⟨⟨50, 50, 50, 50⟩, ⟨"access", "refresh"⟩⟩ (by decide) rounds [] hintime (by simp)
  exact h.2 12600 (by decide) .getTags

end Server
end Articler
