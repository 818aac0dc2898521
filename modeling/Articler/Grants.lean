import Articler.Access
import Articler.Lib.Memory

/-! What a request may do to tokens and accounts, whatever it asks for: tokens are handed out
on the ground of a user found or of a token held, and no user is ever deleted. -/
namespace Articler
open Txn Relation

/-- `M` of the access tokens and `D` of the database last while tokens are handed out, as long as
their users are as `P` says and their texts as `N` says. -/
structure Granting (P : Int → Prop) (N : String → Prop) (M : AccessTokens → Prop) (D : Db → Prop) :
    Prop where
  insert : ∀ access key token, N key → M access → P token.claim.userId → M (access.insert key token)
  insertToken : ∀ row r t t', (∀ i, (row i).id = i) → D t → t.insertToken row = .ok (r, t') →
    P r.userId → D t'
  deleteTokens : ∀ t p, D t → D (t.deleteTokens p)
  owner : ∀ t r, D t → r ∈ t.tokens → P r.userId

/-- They last while bearers are checked, too. -/
structure Tending (P : Int → Prop) (M : AccessTokens → Prop) (D : Db → Prop) : Prop
    extends Granting P (fun _ => True) M D where
  remove : ∀ access key, M access → M (access.remove key)
  held : ∀ access key token, M access → access key = some token → P token.claim.userId

namespace Granting
variable {P : Int → Prop} {N : String → Prop} {M : AccessTokens → Prop} {D : Db → Prop}
  (h : Granting P N M D)
include h

theorem issue (now : Int) (token : String) {userId : Int} (clientId createdAt expiresIn : Int)
    (huser : P userId) : Maintains M D (fun _ => True)
      (Tokens.create now token userId clientId createdAt expiresIn :
        RunWith AccessTokens Db Error _) := by
  refine .stmt fun t r t' hd hi => ⟨h.insertToken _ r t t' (fun _ => rfl) hd hi ?_, trivial⟩
  exact (Db.insertToken_ok hi).1 ▸ huser

theorem newToken (clock : Clock) (generated : Generated) (hname : N generated.accessToken)
    {userId : Int} (clientId : Int) (huser : P userId) : Maintains M D (fun _ => True)
      (TokenStorage.newToken clock generated userId clientId : RunWith AccessTokens Db Error _) :=
  .bind (.modify fun access hm => h.insert access _ _ hname hm huser) fun _ _ =>
    .bind (h.issue _ _ clientId _ _ huser) fun _ _ => .pure trivial

theorem refresh (clock : Clock) (generated : Generated) (hname : N generated.accessToken)
    (refreshToken : String) :
    Maintains M D (fun _ => True)
      (TokenStorage.refresh clock generated refreshToken : RunWith AccessTokens Db Error _) := by
  refine .bind (Q := fun _ => True) (.transaction (.stmt fun t _ _ hd hdelete => ?_)) fun _ _ =>
    .transaction (.bind (Q := fun r => ∀ row ∈ r, P row.userId) (.query fun t found hd hf => ?_)
      fun found hfound => ?_)
  · cases hdelete
    exact ⟨h.deleteTokens t _ hd, trivial⟩
  · cases hf
    exact fun row hrow => h.owner t row hd (List.mem_of_find?_eq_some hrow)
  · cases found with
    | none => exact .pure trivial
    | some row =>
      have huser : P row.userId := hfound row rfl
      refine .bind (Q := fun _ => True) (.stmt fun t _ _ hd hdelete => ?_) fun _ _ =>
        .bind (.modify fun access hm => h.insert access _ _ hname hm huser) fun _ _ =>
          .bind (h.issue _ _ _ _ _ huser) fun _ _ => .pure trivial
      cases hdelete
      exact ⟨h.deleteTokens t _ hd, trivial⟩

/-- A token is handed out to a user who was found by name and password, or who had one. -/
theorem postToken {verifyPassword : String → String → Except Error Bool} (clock : Clock)
    (generated : Generated) (hname : N generated.accessToken) (request : Oauth.GetToken)
    (hfind : ∀ username password, request.username = some username →
      request.password = some password → Maintains M D (fun r => ∀ w ∈ r, P w.id)
        (Oauth.findUser verifyPassword username password : RunWith AccessTokens Db Error _)) :
    Maintains M D (fun _ => True)
      (Oauth.postToken verifyPassword clock generated request : RunWith AccessTokens Db Error _) := by
  obtain ⟨grantType, clientId, clientSecret, username, password, presented⟩ := request
  unfold Oauth.postToken
  split
  · cases username with
    | none => exact .fail _
    | some username =>
    cases password with
    | none => exact .fail _
    | some password =>
    cases clientId with
    | none => exact .fail _
    | some clientId =>
    cases clientSecret with
    | none => exact .fail _
    | some clientSecret =>
    refine .bind (Q := fun ids => P ids.1.id) (.transaction (.bind (hfind username password rfl rfl)
      fun found hfound => ?_)) fun ids hids => .bind (h.newToken _ _ hname _ hids) fun _ _ => .pure trivial
    cases found with
    | none => exact .fail _
    | some w =>
      refine .bind (Q := fun _ => True) (.query fun _ _ _ _ => trivial) fun client _ => ?_
      cases client with
      | none => exact .fail _
      | some c => exact .pure (hfound w rfl)
  · cases clientId with
    | none => exact .fail _
    | some clientId =>
    cases clientSecret with
    | none => exact .fail _
    | some clientSecret =>
    refine .bind (Q := fun _ => True) (.query fun _ _ _ _ => trivial) fun client _ => ?_
    cases client with
    | none => exact .fail _
    | some c =>
    cases presented with
    | none => exact .fail _
    | some presented =>
    refine .bind (h.refresh _ _ hname _) fun newToken _ => ?_
    cases newToken with
    | none => exact .fail _
    | some newToken => exact .pure trivial
  · exact .fail _

end Granting

theorem Tending.authExtractor {P : Int → Prop} {M : AccessTokens → Prop} {D : Db → Prop}
    (h : Tending P M D) (now : Int) (credentials : Option String) :
    Maintains M D (fun claim => P claim.userId)
      (Oauth.authExtractor now credentials : RunWith AccessTokens Db Error _) := by
  cases credentials with
  | none => exact .fail _
  | some token =>
    refine .bind (Q := fun r => ∀ claim ∈ r, P claim.userId) ?_ fun found hfound => ?_
    · refine .bind .get fun access hm => ?_
      cases ht : access token with
      | none => exact .pure nofun
      | some t =>
        dsimp only
        split
        · exact .bind (.modify fun access hm => h.remove access token hm) fun _ _ => .pure nofun
        · refine .pure fun claim hclaim => ?_
          cases hclaim
          exact h.held access token t hm ht
    · cases found with
      | none => exact .fail _
      | some claim => exact .pure (hfound claim rfl)


section accounts
variable {G : Db → Db → Prop} {m : Type → Type} [Acquire Db Error m] (hrefl : ∀ s, G s s)
include hrefl

omit hrefl in
theorem Web.validated_built {α : Type} (r : Except Error α) {next : α → m Web.SetupResponse}
    (h : ∀ a, Built G (next a)) : Built G (Web.validated r next) := by
  unfold Web.validated
  split
  · exact h _
  · exact .pure _
  · exact .fail _

theorem Web.doSetup_built (h : Allows G .insertUser) (accounts : AccountCrates) (now : DateTime)
    (form : Web.SetupForm) : Built G (Web.doSetup accounts now form : m Web.SetupResponse) := by
  refine .bind (.query hrefl _) fun count => ?_
  split
  · exact .pure _
  refine validated_built _ fun username => validated_built _ fun password =>
    validated_built _ fun confirmPassword => ?_
  split
  · exact .pure _
  refine .bind (.ofExcept _) fun hash => .transaction (.bind (.query hrefl _) fun count => ?_)
  split
  · exact .pure _
  · exact .bind (Users.createUser_built h ..) fun _ => .pure _

theorem Cli.createUser_built (h : Allows G .insertUser) (accounts : AccountCrates) (now : DateTime)
    (username password name email : String) :
    Built G (Cli.createUser accounts now username password name email : m Unit) := by
  refine .transaction ?_
  split
  · exact .fail _
  refine .bind (.ofExcept _) fun username => .bind (.query hrefl _) fun found => ?_
  split
  · exact .fail _
  · exact .bind (.ofExcept _) fun _ => .bind (.ofExcept _) fun _ =>
      .bind (Users.createUser_built h ..) fun _ => .pure _

theorem Cli.createClient_built (h : Allows G .insertClient) (now : DateTime) (keys : ClientKeys)
    (username clientName : String) :
    Built G (Cli.createClient now keys username clientName : m ClientRow) := by
  refine .transaction (.bind (.query hrefl _) fun found => ?_)
  cases found with
  | none => exact .fail _
  | some user =>
    exact .bind (.ofExcept _) fun _ => .stmt fun s _ t hs => h s t (.insertClient (fun _ => rfl) hs)

theorem Web.login_built : Built G (Web.login : m Web.Entrance) := by
  refine .bind (.query hrefl _) fun count => ?_
  split <;> exact .pure _

theorem Web.setup_built : Built G (Web.setup : m Web.Entrance) := by
  refine .bind (.query hrefl _) fun count => ?_
  split <;> exact .pure _

end accounts

section writes
variable {Url : Type} [UrlCrate Url] {K : Type} [Field K] [LinearOrder K] {P : Statement → Prop}

theorem allows_write {k : Statement} (hk : P k) : Allows (ReflTransGen (WriteIn P)) k :=
  fun _ _ hw => .single ⟨k, hk, hw⟩

theorem Acts.writes {rights : List Right} {eng : Engine K} {u : Int} {α : Type} {x : Run Db Error α}
    (hx : Acts rights eng u x) (h : ∀ r ∈ rights, ∀ k ∈ r.statements, P k) : Writes P x :=
  .of_built (hx.built (fun _ => .refl) fun r hr k hk => allows_write (h r hr k hk))

theorem Right.keepsUsers (r : Right) : ∀ k ∈ r.statements, k ≠ .deleteUsers := by
  cases r <;> decide

theorem Acts.later {rights : List Right} {eng : Engine K} {u : Int} {α : Type} {x : Run Db Error α}
    (hx : Acts rights eng u x) (s : Db) : Later s (x s).2 :=
  (hx.writes (fun r _ => r.keepsUsers) s trivial).2.1

theorem Cli.Command.writes (accounts : AccountCrates) (eng : Engine K) (command : Cli.Command Url)
    (huser : P .insertUser) (hclient : P .insertClient) (hentries : P .updateEntries) :
    Writes P (command.run accounts eng : Run Db Error _) := by
  refine .of_built ?_
  cases command with
  | createUser now username password name email =>
    exact .bind (Cli.createUser_built (fun _ => .refl) (allows_write huser) ..) fun _ => .pure _
  | createClient now keys username clientName =>
    exact .bind (Cli.createClient_built (fun _ => .refl) (allows_write hclient) ..) fun _ => .pure _
  | reloadArticles now scraper username =>
    exact .bind (reloadArticles_built (fun _ => .refl) eng now scraper username
      fun _ _ _ _ _ _ _ _ _ _ h => allows_write hentries _ _ (.updateEntries h)) fun _ => .pure _

theorem writes_tending (db : Db) (hinsert : P .insertToken) (hdelete : P .deleteTokens) :
    Tending (fun _ => True) (fun _ => True) (ReflTransGen (WriteIn P) db) where
  insert _ _ _ _ _ _ := trivial
  remove _ _ _ := trivial
  held _ _ _ _ _ := trivial
  insertToken _ _ _ _ hid hd hi _ := hd.tail ⟨.insertToken, hinsert, .insertToken hid hi⟩
  deleteTokens t p hd := hd.tail ⟨.deleteTokens, hdelete, .deleteTokens t p⟩
  owner _ _ _ _ := trivial

theorem findUser_harmless {M : AccessTokens → Prop} {D : Db → Prop}
    (verifyPassword : String → String → Except Error Bool) (username password : String) :
    Maintains M D (fun r => ∀ w ∈ r, True)
      (Oauth.findUser verifyPassword username password : RunWith AccessTokens Db Error _) := by
  refine .bind (Q := fun _ => True) (.query fun _ _ _ _ => trivial) fun found _ => ?_
  cases found with
  | none => exact .pure nofun
  | some w =>
    refine .bind (Q := fun _ => True) (.ofExcept fun _ _ => trivial) fun accepted _ => ?_
    cases accepted <;> exact .pure fun _ _ => trivial

theorem Oauth.authExtractor_db (now : Int) (credentials : Option String) (s : AccessTokens × Db) :
    ((authExtractor now credentials : RunWith AccessTokens Db Error Claim) s).2.2 = s.2 := by
  obtain ⟨access, db⟩ := s
  cases credentials with
  | none => rfl
  | some token =>
    dsimp only [authExtractor]
    rw [RunWith.run_bind, TokenStorage.validate_run]
    cases access token with
    | none => rfl
    | some t =>
      by_cases hexpired : t.expiresAt < now
      · simp [hexpired]
      · simp [hexpired]

namespace Server

@[simp] def Event.statements : Event Url → List Statement
  | .postToken .. => [.insertToken, .deleteTokens]
  | .api _ _ handler => handler.rights.flatMap Right.statements
  | .web _ _ handler => handler.rights.flatMap Right.statements
  | .fakeUi _ handler => handler.rights.flatMap Right.statements
  | .doSetup .. => [.insertUser]
  | .command _ => [.insertUser, .insertClient, .updateEntries]
  | .version | .login | .doLogin .. | .logout | .setup | .gc _ => []

variable {config : Config K}

/-- One event writes by its statements. -/
theorem handle_writes (s : Server) (event : Event Url) (h : ∀ k ∈ event.statements, P k) :
    ReflTransGen (WriteIn P) s.db (s.handle config event).2.db := by
  have hrights {rights : List Right} (hstatements : ∀ k ∈ rights.flatMap Right.statements, P k) :
      ∀ r ∈ rights, ∀ k ∈ r.statements, P k :=
    fun r hr k hk => hstatements k (List.mem_flatMap.mpr ⟨r, hr, hk⟩)
  cases event with
  | version | logout | gc => exact .refl
  | postToken clock generated request =>
    have htending := writes_tending s.db (h .insertToken (by simp)) (h .deleteTokens (by simp))
    exact (htending.toGranting.postToken clock generated trivial request
      (fun username password _ _ => findUser_harmless _ username password) (s.access, s.db)
      trivial .refl).2.1
  | api now credentials handler =>
    have hdb := Oauth.authExtractor_db now credentials (s.access, s.db)
    dsimp only [Server.handle, Server.grant]
    rcases hrun : (Oauth.authExtractor now credentials : RunWith AccessTokens Db Error Claim)
      (s.access, s.db) with ⟨e | claim, access, db⟩ <;> rw [hrun] at hdb <;> cases hdb
    · exact .refl
    · exact ((Api.Handler.acts handler).writes (hrights h) s.db trivial).2.1
  | web cookie htmx handler =>
    dsimp only [Server.handle]
    cases s.sessionUser cookie with
    | none => exact .refl
    | some userId => exact ((Web.Handler.acts handler).writes (hrights h) s.db trivial).2.1
  | fakeUi cookie handler =>
    dsimp only [Server.handle]
    cases s.sessionUser cookie with
    | none => exact .refl
    | some userId =>
      have hacts : Acts handler.rights config.eng userId (handler.run userId) := handler.acts
      exact (hacts.writes (hrights h) s.db trivial).2.1
  | login =>
    have hwrites : Writes P (Web.login : Run Db Error _) := .of_built (Web.login_built fun _ => .refl)
    exact (hwrites s.db trivial).2.1
  | setup =>
    have hwrites : Writes P (Web.setup : Run Db Error _) := .of_built (Web.setup_built fun _ => .refl)
    exact (hwrites s.db trivial).2.1
  | doLogin form referer =>
    dsimp only [Server.handle, Server.query]
    rw [doLogin_run]
    rcases ((s.db.foundUser config.verifyPassword form).map _) with e | response <;> exact .refl
  | doSetup now form =>
    have hwrites : Writes P (Web.doSetup config.accounts now form : Run Db Error _) :=
      .of_built (Web.doSetup_built (fun _ => .refl) (allows_write (h .insertUser (by simp))) ..)
    exact (hwrites s.db trivial).2.1
  | command command =>
    exact (command.writes config.accounts config.eng (h _ (by simp)) (h _ (by simp))
      (h _ (by simp)) s.db trivial).2.1

theorem Event.keepsUsers (event : Event Url) : ∀ k ∈ event.statements, k ≠ .deleteUsers := by
  rintro k hk rfl
  have hright {rights : List Right} (hk : Statement.deleteUsers ∈ rights.flatMap Right.statements) :
      False := by
    obtain ⟨r, -, hr⟩ := List.mem_flatMap.mp hk
    exact r.keepsUsers _ hr rfl
  cases event with
  | api | web | fakeUi => exact hright hk
  | _ => simp at hk

theorem handle_later (s : Server) (event : Event Url) : Later s.db (s.handle config event).2.db :=
  s.handle_writes event event.keepsUsers

theorem serve_append (s : Server) (before after : List (Event Url)) :
    serve config s (before ++ after) = serve config (serve config s before) after :=
  List.foldl_append

theorem serve_later (s : Server) (events : List (Event Url)) :
    Later s.db (serve config s events).db := by
  induction events generalizing s with
  | nil => exact .refl
  | cons event events ih => exact (s.handle_later event).trans (ih _)

end Server
end writes
end Articler
