import Articler.Authority
import Articler.Views
import Articler.Lib.Unwinding

/-! What a user does with the articles he has, nobody else can see, the search aside: without
those requests every other answer of the server is the same. -/
namespace Articler
open Txn Rows Unwinding

/-- What a user may do to the articles and tags he has: the rows of everyone else, the accounts
and the ids given out stay. -/
structure OwnWork (u : UserRow) (s t : Db) : Prop where
  others : OthersSame u.id s t
  accounts : SameAccounts s t
  entriesSeq : t.entriesSeq = s.entriesSeq
  tagsSeq : t.tagsSeq = s.tagsSeq

section own
variable {u : UserRow} {s t : Db}

theorem OthersSame.symm {v : Int} (h : OthersSame v s t) : OthersSame v t s :=
  ⟨h.entries.symm, h.tags.symm, h.clients.symm, h.links.symm⟩

/-- Work of `u` on one side does not show. -/
theorem Unseen.of_ownWork {s' : Db} (h : Unseen u s t) (hsound : s'.Sound) (hwork : OwnWork u s s') :
    Unseen u s' t :=
  ⟨hsound, h.right, hwork.accounts.users ▸ h.user, hwork.accounts.symm.trans h.accounts,
    h.entriesSeq.trans hwork.entriesSeq.symm, h.tagsSeq.trans hwork.tagsSeq.symm,
    hwork.others.symm.trans h.others⟩

theorem Unseen.refl (hs : s.Sound) (hu : u ∈ s.users) : Unseen u s s :=
  ⟨hs, hs, hu, .refl s, rfl, rfl, .refl _ s⟩

/-- The rights to work on what is there. -/
def Right.onOwn : Right → Bool
  | .read | .search | .edit | .remove => true
  | .add | .tag | .clients => false

/-- Accounts, clients, tokens and the sequences stay. -/
def NothingNew (s t : Db) : Prop :=
  SameAccounts s t ∧ t.entriesSeq = s.entriesSeq ∧ t.tagsSeq = s.tagsSeq

theorem allows_nothingNew {r : Right} {k : Statement} (hr : r.onOwn = true)
    (hk : k ∈ r.statements) : Allows NothingNew k := by
  have hkinds : k = .updateEntries ∨ k = .deleteEntries ∨ k = .deleteTags ∨ k = .deleteEntryTags := by
    cases r <;> simp_all [Right.onOwn]
  intro s t hw
  rcases hkinds with rfl | rfl | rfl | rfl
  · cases hw with
    | updateEntries h =>
      obtain ⟨_, -, -, rfl⟩ := Db.updateEntries_ok h
      exact ⟨⟨rfl, rfl, rfl, rfl, rfl, rfl⟩, rfl, rfl⟩
  all_goals
    cases hw
    exact ⟨⟨rfl, rfl, rfl, rfl, rfl, rfl⟩, rfl, rfl⟩

variable {K : Type} [Field K] [LinearOrder K] {rights : List Right} {eng : Engine K} {α : Type}
  {x : Run Db Error α}

theorem Acts.nothingNew (hx : Acts rights eng u.id x) (h : ∀ r ∈ rights, r.onOwn = true) (s : Db) :
    NothingNew s (x s).2 :=
  run_invariant (fun _ _ h h' => ⟨h.1.trans h'.1, h'.2.1.trans h.2.1, h'.2.2.trans h.2.2⟩)
    ⟨.refl s, rfl, rfl⟩
    (((hx.built (fun s => ⟨.refl s, rfl, rfl⟩) fun r hr _ hk => allows_nothingNew (h r hr) hk).obeys
      (I := fun _ => True) fun _ _ _ _ => trivial) s trivial).2.1

theorem Acts.ownWork (hx : Acts rights eng u.id x) (h : ∀ r ∈ rights, r.onOwn = true) :
    Obeys Db.Sound (OwnWork u) (fun _ => True) x := by
  intro s hs
  obtain ⟨hsound, hothers, -⟩ := hx.isolated s hs
  obtain ⟨haccounts, hentriesSeq, htagsSeq⟩ := hx.nothingNew h s
  exact ⟨hsound, ⟨hothers, haccounts, hentriesSeq, htagsSeq⟩, fun _ _ => trivial⟩

end own

section accounts
variable {u : UserRow} {verifyPassword : String → String → Except Error Bool}

theorem findUser_paired (username password : String) :
    Paired (Unseen u) (Oauth.findUser verifyPassword username password) := by
  refine .bind (.query fun s t h => by rw [h.accounts.users]) fun found => ?_
  cases found with
  | none => exact .pure _
  | some w =>
    refine .bind (.ofExcept _) fun accepted => ?_
    split
    · exact .pure _
    · exact .pure _

theorem findUser_pairedWith (username password : String) :
    PairedWith (Unseen u) (Oauth.findUser verifyPassword username password :
      RunWith AccessTokens Db Error _) := by
  refine .bind (.query fun s t h => by rw [h.accounts.users]) fun found => ?_
  cases found with
  | none => exact .pure _
  | some w =>
    refine .bind (.ofExcept _) fun accepted => ?_
    split
    · exact .pure _
    · exact .pure _

theorem authExtractor_pairedWith (now : Int) (credentials : Option String) :
    PairedWith (Unseen u) (Oauth.authExtractor now credentials :
      RunWith AccessTokens Db Error _) := by
  cases credentials with
  | none => exact .fail _
  | some token =>
    refine .bind (.bind .get fun access => ?_) fun found => ?_
    · cases access token with
      | none => exact .pure _
      | some t =>
        dsimp only
        split
        · exact .bind (.modify _) fun _ => .pure _
        · exact .pure _
    · cases found with
      | none => exact .fail _
      | some claim => exact .pure _

theorem createToken_pairedWith (now : Int) (token : String) (userId clientId createdAt expiresIn : Int) :
    PairedWith (Unseen u) (Tokens.create now token userId clientId createdAt expiresIn :
      RunWith AccessTokens Db Error _) := .stmt fun _ _ h => h.insertToken fun _ => rfl

theorem refresh_pairedWith (clock : Clock) (generated : Generated) (refreshToken : String) :
    PairedWith (Unseen u) (TokenStorage.refresh clock generated refreshToken :
      RunWith AccessTokens Db Error _) := by
  refine .bind (.transaction (.stmt fun _ _ h => h.deleteTokens (fun _ => ()) _)) fun _ =>
    .transaction (.bind (.query fun s t h => by rw [h.accounts.tokens]) fun found => ?_)
  cases found with
  | none => exact .pure _
  | some row =>
    exact .bind (.stmt fun _ _ h => h.deleteTokens (fun tokens => tokens.find? _) _) fun _ =>
      .bind (.modify _) fun _ => .bind (createToken_pairedWith _ _ _ _ _ _) fun _ => .pure _

theorem postToken_pairedWith (clock : Clock) (generated : Generated) (request : Oauth.GetToken) :
    PairedWith (Unseen u) (Oauth.postToken verifyPassword clock generated request :
      RunWith AccessTokens Db Error _) := by
  obtain ⟨grantType, clientId, clientSecret, username, password, presented⟩ := request
  unfold Oauth.postToken
  split
  · cases username with
    | none => exact .fail _
    | some username =>
    cases password with
    | none => exact .fail _
    | some password =>
    cases clientId with
    | none => exact .fail _
    | some clientId =>
    cases clientSecret with
    | none => exact .fail _
    | some clientSecret =>
    refine .bind (.transaction (.bind (findUser_pairedWith _ _) fun found => ?_)) fun _ =>
      .bind (.bind (.modify _) fun _ => .bind (createToken_pairedWith _ _ _ _ _ _) fun _ => .pure _)
        fun _ => .pure _
    cases found with
    | none => exact .fail _
    | some w =>
      refine .bind (.query fun s t h => by rw [h.accounts.clients]) fun client => ?_
      cases client with
      | none => exact .fail _
      | some c => exact .pure _
  · cases clientId with
    | none => exact .fail _
    | some clientId =>
    cases clientSecret with
    | none => exact .fail _
    | some clientSecret =>
    refine .bind (.query fun s t h => by rw [h.accounts.clients]) fun client => ?_
    cases client with
    | none => exact .fail _
    | some c =>
    cases presented with
    | none => exact .fail _
    | some presented =>
    refine .bind (refresh_pairedWith _ _ _) fun newToken => ?_
    cases newToken with
    | none => exact .fail _
    | some newToken => exact .pure _
  · exact .fail _

theorem count_users_paired : Paired (Unseen u) Users.count :=
  .query fun s t h => by rw [h.accounts.users]

theorem createUser_paired (username passwordHash name email : String) (createdAt updatedAt : Int) :
    Paired (Unseen u) (Users.createUser username passwordHash name email createdAt updatedAt) :=
  .stmt fun _ _ h => h.insertUser fun _ => rfl

theorem findByUsername_paired (username : String) :
    Paired (Unseen u) (Users.findByUsername username) :=
  .query fun s t h => by rw [h.accounts.users]

theorem validated_paired {α : Type} (r : Except Error α) {next : α → Run Db Error Web.SetupResponse}
    (h : ∀ a, Paired (Unseen u) (next a)) : Paired (Unseen u) (Web.validated r next) := by
  unfold Web.validated
  split
  · exact h _
  · exact .pure _
  · exact .fail _

theorem doSetup_paired (accounts : AccountCrates) (now : DateTime) (form : Web.SetupForm) :
    Paired (Unseen u) (Web.doSetup accounts now form) := by
  refine .bind count_users_paired fun count => ?_
  split
  · exact .pure _
  refine validated_paired _ fun username => validated_paired _ fun password =>
    validated_paired _ fun confirmPassword => ?_
  split
  · exact .pure _
  refine .bind (.ofExcept _) fun hash => .transaction (.bind count_users_paired fun count => ?_)
  split
  · exact .pure _
  · exact .bind (createUser_paired _ _ _ _ _ _) fun _ => .pure _

section commands
variable {Url : Type} [UrlCrate Url] {K : Type} [Field K] [LinearOrder K]

theorem createUser_command_paired (accounts : AccountCrates) (now : DateTime)
    (username password name email : String) :
    Paired (Unseen u) (Cli.createUser accounts now username password name email) := by
  refine .transaction ?_
  split
  · exact .fail _
  refine .bind (.ofExcept _) fun username => .bind (findByUsername_paired _) fun found => ?_
  split
  · exact .fail _
  · exact .bind (.ofExcept _) fun _ => .bind (.ofExcept _) fun _ =>
      .bind (createUser_paired _ _ _ _ _ _) fun _ => .pure _

theorem createClient_command_paired (now : DateTime) (keys : ClientKeys)
    (username clientName : String) :
    Paired (Unseen u) (Cli.createClient now keys username clientName) := by
  refine .transaction (.bind (findByUsername_paired _) fun found => ?_)
  cases found with
  | none => exact .fail _
  | some w => exact .bind (.ofExcept _) fun _ => .stmt fun _ _ h => h.insertClient fun _ => rfl

theorem reloadArticles_paired (eng : Engine K) (now : Int → DateTime)
    (scraper : Option (ArticleUrl Url → Option (Document Url))) {username : String}
    (hno : username ≠ u.username) :
    Paired (Unseen u) (Cli.reloadArticles eng now scraper username) := by
  intro s t h
  unfold SameOutcome
  rw [Cli.reloadArticles_run, Cli.reloadArticles_run, h.accounts.users]
  cases hrow : s.users.find? fun w => w.username == username with
  | none => exact ⟨rfl, h⟩
  | some w =>
    have hother : w.id ≠ u.id := by
      intro hid
      obtain rfl := h.left.valid.users.pk.eq_of_key (List.mem_of_find?_eq_some hrow) h.user hid
      have hname := List.find?_some hrow
      exact hno (beq_iff_eq.mp hname).symm
    exact SameOutcome.transaction h
      ((Cli.reloadUser_acts now scraper).paired_unseen (.inl ⟨hother, by decide⟩) s t h)

theorem reloadArticles_ownWork (eng : Engine K) (now : Int → DateTime)
    (scraper : Option (ArticleUrl Url → Option (Document Url))) {s : Db} (hs : s.Sound) (hu : u ∈ s.users) :
    ((Cli.reloadArticles eng now scraper u.username : Run Db Error Unit) s).2.Sound ∧
      OwnWork u s ((Cli.reloadArticles eng now scraper u.username : Run Db Error Unit) s).2 := by
  have hfound : (s.users.find? fun w => w.username == u.username) = some u :=
    hs.valid.usernames.find_of_key hu (by simp) fun w hw => by simpa using hw
  rw [Cli.reloadArticles_run, hfound]
  have hacts := Acts.transaction (Cli.reloadUser_acts now scraper : Acts _ eng u.id _)
  obtain ⟨hsound, hwork, -⟩ := hacts.ownWork (by decide) s hs
  exact ⟨hsound, hwork⟩

end commands
end accounts

namespace Server
section events
variable {Url : Type} [UrlCrate Url] {K : Type} [Field K] [LinearOrder K] {config : Config K}

def Event.rights : Event Url → List Right
  | .api _ _ handler => handler.rights
  | .web _ _ handler => handler.rights
  | .fakeUi _ handler => handler.rights
  | _ => []

/-- The request is served for `u` and is about articles and tags, or his articles are reloaded. -/
def hides (u : UserRow) (s : Server) (event : Event Url) : Bool :=
  match event with
  | .command (.reloadArticles _ _ username) => username == u.username
  | _ => s.actor event == some u.id && !event.rights.contains .clients

/-- `u` adds no article and names no tags for any, not even none; nobody else searches. -/
def Discreet (u : UserRow) (s : Server) (event : Event Url) : Prop :=
  if hides u s event then .add ∉ event.rights ∧ .tag ∉ event.rights else .search ∉ event.rights

instance (u : UserRow) (s : Server) (event : Event Url) : Decidable (Discreet u s event) :=
  inferInstanceAs (Decidable (if hides u s event then .add ∉ event.rights ∧ .tag ∉ event.rights
    else .search ∉ event.rights))

/-- The two servers differ in the articles and tags of `u` only. -/
structure SameView (u : UserRow) (s t : Server) : Prop where
  access : t.access = s.access
  sessions : t.sessions = s.sessions
  db : Unseen u s.db t.db

section views
variable {u : UserRow} {s t : Server}

theorem SameView.sessionUser (h : SameView u s t) (cookie : Option Int) :
    t.sessionUser cookie = s.sessionUser cookie := by
  rw [Server.sessionUser, h.sessions, Server.sessionUser]

theorem SameView.query (h : SameView u s t) {α : Type} {x : Run Db Error α}
    (hx : Paired (Unseen u) x) :
    (s.query x).1 = (t.query x).1 ∧ SameView u (s.query x).2 (t.query x).2 := by
  obtain ⟨hsame, hdb⟩ := hx s.db t.db h.db
  exact ⟨hsame, h.access, h.sessions, hdb⟩

theorem SameView.grant (h : SameView u s t) {α : Type} {x : RunWith AccessTokens Db Error α}
    (hx : PairedWith (Unseen u) x) :
    (s.grant x).1 = (t.grant x).1 ∧ SameView u (s.grant x).2 (t.grant x).2 := by
  obtain ⟨hsame, hmemory, hdb⟩ := hx s.access s.db t.db h.db
  unfold Server.grant
  rw [h.access]
  exact ⟨hsame, hmemory.symm, h.sessions, hdb⟩

theorem actor_api (s : Server) (now : Int) (credentials : Option String)
    (handler : Api.Handler Url) : s.actor (.api now credentials handler) =
      (s.grant (Oauth.authExtractor now credentials)).1.toOption.map Claim.userId := rfl

theorem SameView.actor (h : SameView u s t) (event : Event Url) : t.actor event = s.actor event := by
  cases event with
  | api now credentials handler =>
    obtain ⟨hsame, -⟩ := h.grant (authExtractor_pairedWith now credentials)
    rw [actor_api, actor_api, hsame]
  | web cookie | fakeUi cookie => exact h.sessionUser cookie
  | version | postToken | login | doLogin | logout | setup | doSetup | command | gc => rfl

theorem SameView.hides (h : SameView u s t) (event : Event Url) :
    Server.hides u t event = Server.hides u s event := by
  unfold Server.hides
  rw [h.actor event]

theorem hides_served {event : Event Url} {userId : Int} (hactor : s.actor event = some userId) :
    Server.hides u s event = (userId == u.id && !event.rights.contains .clients) := by
  have hgeneral : (s.actor event == some u.id && !event.rights.contains .clients) =
      (userId == u.id && !event.rights.contains .clients) := by
    rw [hactor, Option.some_beq_some]
  cases event with
  | command => cases hactor
  | version | postToken | api | web | fakeUi | login | doLogin | logout | setup | doSetup | gc =>
    exact hgeneral

theorem shown_rights {event : Event Url} (hshown : hides u s event = false)
    (hplain : Discreet u s event) {userId : Int} (hactor : s.actor event = some userId)
    (hrights : .clients ∈ event.rights → ∀ r ∈ event.rights, r = .clients) :
    userId ≠ u.id ∧ .search ∉ event.rights ∨ ∀ r ∈ event.rights, r = .clients := by
  rw [Discreet, hshown] at hplain
  by_cases hid : userId = u.id
  · right
    rw [hides_served hactor] at hshown
    simp only [hid, BEq.rfl, Bool.true_and, Bool.not_eq_false', List.contains_iff_mem] at hshown
    exact hrights hshown
  · exact .inl ⟨hid, by simpa using hplain⟩

theorem grant_authExtractor {now : Int} {credentials : Option String} {claim : Claim} {s' : Server}
    (h : s.grant (Oauth.authExtractor now credentials) = (.ok claim, s')) : s' = s := by
  unfold Server.grant at h
  rcases hrun : (Oauth.authExtractor now credentials : RunWith AccessTokens Db Error Claim)
    (s.access, s.db) with ⟨r, access, db⟩
  rw [hrun] at h
  cases h
  obtain ⟨hsame, -⟩ := Oauth.authExtractor_ok hrun
  cases hsame
  rfl

theorem hidden_rights {event : Event Url} (hplain : Discreet u s event)
    (hhidden : hides u s event = true) {userId : Int} (hactor : s.actor event = some userId) :
    userId = u.id ∧ ∀ r ∈ event.rights, r.onOwn = true := by
  rw [Discreet, hhidden] at hplain
  rw [hides_served hactor] at hhidden
  simp only [Bool.and_eq_true, beq_iff_eq, Bool.not_eq_true', List.contains_eq_mem,
    decide_eq_false_iff_not] at hhidden
  refine ⟨hhidden.1, fun r hr => ?_⟩
  cases r with
  | read | search | edit | remove => rfl
  | add => exact absurd hr hplain.1
  | tag => exact absurd hr hplain.2
  | clients => exact absurd hr hhidden.2

theorem SameView.own (h : SameView u s t) {rights : List Right} {eng : Engine K} {α : Type}
    {x : Run Db Error α} (hx : Acts rights eng u.id x) (hrights : ∀ r ∈ rights, r.onOwn = true) :
    SameView u (s.query x).2 t := by
  obtain ⟨hsound, hwork, -⟩ := hx.ownWork hrights s.db h.db.left
  exact ⟨h.access, h.sessions, h.db.of_ownWork hsound hwork⟩

/-- A request that is hidden leaves the view as it was. -/
theorem SameView.hidden (h : SameView u s t) {event : Event Url} (hplain : Discreet u s event)
    (hhidden : Server.hides u s event = true) : SameView u (handle config s event).2 t := by
  cases event with
  | api now credentials handler =>
    dsimp only [handle]
    rcases hrun : s.grant (Oauth.authExtractor now credentials) with ⟨e | claim, s'⟩
    · have hnone : s.actor (.api now credentials handler : Event Url) = none := by
        rw [actor_api, hrun]
        rfl
      simp [Server.hides, hnone] at hhidden
    · have hactor : s.actor (.api now credentials handler : Event Url) = some claim.userId := by
        rw [actor_api, hrun]
        rfl
      obtain ⟨hid, hrights⟩ := hidden_rights hplain hhidden hactor
      have hown := h.own (handler.acts : Acts handler.rights config.eng u.id (handler.run config.crates config.eng u.id)) hrights
      rw [← hid, ← grant_authExtractor hrun] at hown
      exact hown
  | web cookie htmx handler =>
    dsimp only [handle]
    cases hcookie : s.sessionUser cookie with
    | none => simp [Server.hides, Server.actor, hcookie] at hhidden
    | some userId =>
      obtain ⟨rfl, hrights⟩ := hidden_rights hplain hhidden hcookie
      exact h.own handler.acts hrights
  | fakeUi cookie handler =>
    dsimp only [handle]
    cases hcookie : s.sessionUser cookie with
    | none => simp [Server.hides, Server.actor, hcookie] at hhidden
    | some userId =>
      obtain ⟨rfl, hrights⟩ := hidden_rights hplain hhidden hcookie
      have hacts : Acts handler.rights config.eng u.id (handler.run u.id) := handler.acts
      exact h.own hacts hrights
  | command command =>
    cases command with
    | reloadArticles now scraper username =>
      obtain rfl : username = u.username := by simpa [Server.hides] using hhidden
      obtain ⟨hsound, hwork⟩ :=
        reloadArticles_ownWork config.eng now scraper h.db.left h.db.user
      have hrun := run_discard (Cli.reloadArticles config.eng now scraper u.username :
        Run Db Error Unit) (none : Option ClientRow) s.db
      refine ⟨h.access, h.sessions, ?_⟩
      dsimp only [handle, Server.query, Cli.Command.run]
      rw [hrun]
      exact h.db.of_ownWork hsound hwork
    | createUser | createClient => simp [Server.hides, Server.actor] at hhidden
  | version | postToken | login | doLogin | logout | setup | doSetup | gc =>
    simp [Server.hides, Server.actor] at hhidden

/-- The event is answered alike, and leaves the same to see. -/
def SameReply (config : Config K) (u : UserRow) (s t : Server) (event : Event Url) : Prop :=
  (handle config s event).1 = (handle config t event).1 ∧
    SameView u (handle config s event).2 (handle config t event).2

theorem SameView.api (h : SameView u s t) {now : Int} {credentials : Option String}
    {handler : Api.Handler Url} (hplain : Discreet u s (.api now credentials handler))
    (hshown : Server.hides u s (.api now credentials handler) = false) :
    SameReply config u s t (.api now credentials handler) := by
  obtain ⟨hsame, hview⟩ := h.grant (authExtractor_pairedWith now credentials)
  dsimp only [SameReply, handle]
  rcases hs : s.grant (Oauth.authExtractor now credentials) with ⟨r, s'⟩
  rcases ht : t.grant (Oauth.authExtractor now credentials) with ⟨r', t'⟩
  rw [hs, ht] at hsame hview
  dsimp only at hsame
  subst hsame
  cases r with
  | error e => exact ⟨rfl, hview⟩
  | ok claim =>
    have hactor : s.actor (.api now credentials handler : Event Url) = some claim.userId := by
      rw [actor_api, hs]
      rfl
    have hacts : Acts handler.rights config.eng claim.userId
      (handler.run config.crates config.eng claim.userId) := handler.acts
    obtain ⟨hanswer, hview⟩ := hview.query (hacts.paired_unseen
      (shown_rights hshown hplain hactor fun hr => absurd hr (clients_only_api handler)))
    exact ⟨congrArg Answer.api hanswer, hview⟩

theorem SameView.web (h : SameView u s t) {cookie : Option Int} {htmx : Bool}
    {handler : Web.Handler Url} (hplain : Discreet u s (.web cookie htmx handler))
    (hshown : Server.hides u s (.web cookie htmx handler) = false) :
    SameReply config u s t (.web cookie htmx handler) := by
  dsimp only [SameReply, handle]
  rw [h.sessionUser cookie]
  cases hcookie : s.sessionUser cookie with
  | none => exact ⟨rfl, h⟩
  | some userId =>
    have hacts : Acts handler.rights config.eng userId
      (handler.run config.crates config.eng userId) := handler.acts
    obtain ⟨hanswer, hview⟩ := h.query (hacts.paired_unseen
      (shown_rights hshown hplain hcookie (clients_only_web handler)))
    exact ⟨congrArg Answer.web hanswer, hview⟩

theorem SameView.fakeUi (h : SameView u s t) (cookie : Option Int) (handler : FakeUi.Handler) :
    SameReply config u s t (.fakeUi cookie handler : Event Url) := by
  dsimp only [SameReply, handle]
  rw [h.sessionUser cookie]
  cases hcookie : s.sessionUser cookie with
  | none => exact ⟨rfl, h⟩
  | some userId =>
    have hacts : Acts handler.rights config.eng userId (handler.run userId) := handler.acts
    obtain ⟨hanswer, hview⟩ := h.query (hacts.paired_unseen (.inr (clients_only_fakeUi handler)))
    exact ⟨congrArg Answer.fakeUi hanswer, hview⟩

theorem SameView.doLogin (h : SameView u s t) (form : Web.LoginForm) (referer : Option String) :
    SameReply config u s t (.doLogin form referer : Event Url) := by
  obtain ⟨hsame, hview⟩ := h.query (x := Web.doLogin config.verifyPassword form referer)
    (.bind (findUser_paired _ _) fun found => by cases found <;> exact .pure _)
  dsimp only [SameReply, handle]
  rcases hs : s.query (Web.doLogin config.verifyPassword form referer) with ⟨r, s'⟩
  rcases ht : t.query (Web.doLogin config.verifyPassword form referer) with ⟨r', t'⟩
  rw [hs, ht] at hsame hview
  dsimp only at hsame
  subst hsame
  cases r with
  | error e => exact ⟨rfl, hview⟩
  | ok response =>
    refine ⟨rfl, hview.access, ?_, hview.db⟩
    dsimp only
    rw [hview.sessions]

theorem SameView.command (h : SameView u s t) {command : Cli.Command Url}
    (hshown : Server.hides u s (.command command) = false) :
    SameReply config u s t (.command command) := by
  have hpaired : Paired (Unseen u) (command.run config.accounts config.eng : Run Db Error _) := by
    cases command with
    | createUser => exact .bind (createUser_command_paired _ _ _ _ _ _) fun _ => .pure _
    | createClient => exact .bind (createClient_command_paired _ _ _ _) fun _ => .pure _
    | reloadArticles now scraper username =>
      have hother : username ≠ u.username := by simpa [Server.hides] using hshown
      exact .bind (reloadArticles_paired config.eng now scraper hother) fun _ => .pure _
  obtain ⟨hsame, hview⟩ := h.query hpaired
  exact ⟨congrArg Answer.command hsame, hview⟩

/-- A request that is shown has the same answer in both. -/
theorem SameView.shown (h : SameView u s t) {event : Event Url} (hplain : Discreet u s event)
    (hshown : Server.hides u s event = false) : SameReply config u s t event := by
  cases event with
  | version | logout => exact ⟨rfl, h⟩
  | postToken clock generated request =>
    have hpaired : PairedWith (Unseen u) (Oauth.postToken config.verifyPassword clock generated request :
      RunWith AccessTokens Db Error _) := postToken_pairedWith clock generated request
    obtain ⟨hsame, hview⟩ := h.grant hpaired
    exact ⟨congrArg Answer.token hsame, hview⟩
  | api now credentials handler => exact h.api hplain hshown
  | web cookie htmx handler => exact h.web hplain hshown
  | fakeUi cookie handler => exact h.fakeUi cookie handler
  | login =>
    obtain ⟨hsame, hview⟩ := h.query (x := Web.login)
      (.bind count_users_paired fun _ => by split <;> exact .pure _)
    exact ⟨congrArg Answer.entrance hsame, hview⟩
  | setup =>
    obtain ⟨hsame, hview⟩ := h.query (x := Web.setup)
      (.bind count_users_paired fun _ => by split <;> exact .pure _)
    exact ⟨congrArg Answer.entrance hsame, hview⟩
  | doLogin form referer => exact h.doLogin form referer
  | doSetup now form =>
    obtain ⟨hsame, hview⟩ := h.query (doSetup_paired config.accounts now form)
    exact ⟨congrArg Answer.setup hsame, hview⟩
  | command command => exact h.command hshown
  | gc now =>
    obtain ⟨-, hview⟩ := h.grant (x := TokenStorage.gc now) (.modify _)
    exact ⟨rfl, hview⟩

end views

theorem unwinds (config : Config K) (u : UserRow) :
    Unwinds (handle config : Server → Event Url → _) (hides u) (SameView u) (Discreet u) where
  hides _ _ _ h hplain hhidden := h.hidden hplain hhidden
  shows _ _ event h hplain hshown :=
    ⟨(h.hides event).trans hshown, h.shown hplain hshown⟩

/-- In a run in which `u` adds no article and puts no tags on one, and nobody else searches, the
requests of `u` about his articles can be left out: every other answer is the same, and so are the
articles and tags of everybody else in the end. -/
theorem work_unobserved {u : UserRow} {s : Server} (hs : s.db.Sound) (hu : u ∈ s.db.users)
    {events : List (Event Url)} (h : Along (handle config) (Discreet u) s events) :
    observed (handle config) (hides u) s (purge (handle config) (hides u) s events) =
        observed (handle config) (hides u) s events ∧
      Along (handle config) (fun s event => hides u s event = false) s
        (purge (handle config) (hides u) s events) ∧
      OthersSame u.id (serve config s events).db
        (serve config s (purge (handle config) (hides u) s events)).db := by
  have hview : SameView u s s := ⟨rfl, rfl, .refl hs hu⟩
  obtain ⟨hsame, hend⟩ := (unwinds config u).observed_purge hview h
  exact ⟨hsame, (unwinds config u).purge_shown hview h, hend.db.others⟩

end events

/-- Ada edits and deletes, Bob looks at his articles and at those of Ada. -/
def looking : List (Event HttpText) :=
  [.web (some 1) false (.doEditTitle ⟨200, by decide⟩ 1 "other" none .all),
    .web (some 2) false .index, .web (some 1) false (.doDelete 1 none none .all),
    .web (some 2) false (.article 1 none)]

theorem work_unobserved_looking :
    let start : Server := ⟨runCalls crossing {}, fun _ => none, [1, 2]⟩
    let ada : UserRow := ⟨1, "ada", "", "", "", 0, 0⟩
    observed (handle plainConfig) (hides ada) start
        (purge (handle plainConfig) (hides ada) start looking) =
      observed (handle plainConfig) (hides ada) start looking := by
  intro start ada
  have hr : Reachable (runCalls crossing {}) := Reachable.calls .refl crossing
  have hsound : start.db.Sound := ⟨hr.written.valid, hr.written.linksOwned⟩
  refine (work_unobserved hsound (u := ada) (by decide) ?_).1
  exact ⟨by decide, by decide, by decide, by decide, trivial⟩
end Server
end Articler
