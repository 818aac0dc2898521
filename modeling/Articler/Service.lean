import Articler.Authority
import Articler.Refusals

/-! The service over whole runs: as long as the clock does not go back and what is drawn is new, no
request runs into an error of the server's own. -/
namespace Articler
open Txn Rows Relation

section handlers
variable {Url : Type} [UrlCrate Url] {now now' last u : Int} {K : Type} [Field K] [LinearOrder K]
  {crates : Crates} {eng : Engine K} {s : Db}

/-- What is asked of a request: its clock is not behind the database's, what it stores for a url is
one, reading times are `i32`s, and its labels are parameters of one statement. -/
def Api.Handler.Proper (now now' : Int) : Api.Handler Url → Prop
  | .postEntries made _ extract addEntry => (now ≤ made.timestamp ∧ made.timestamp ≤ now') ∧
      (∀ url, fitsI32 (extract url).readingTime = true) ∧
      ∀ o, addEntry.originUrl = some o → ParsesAs Url o
  | .patchEntry made _ _ request => now ≤ made.timestamp ∧
      ∀ o, request.originUrl = some o → ParsesAs Url o
  | .deleteTagsByLabel labels => labels.length < Tags.maxVariableNumber
  | _ => True

/-- A search is a query, and the id of a client is one that nobody has. -/
def Web.Handler.Proper (eng : Engine K) (now now' : Int) (db : Db) : Web.Handler Url → Prop
  | .search _ _ query => ∀ fts, (eng.fts5.query fts query.q).isSome = true
  | .doArchive _ updated .. | .doFavourite _ updated .. => now ≤ updated.timestamp
  | .doEditTitle made .. => now ≤ made.timestamp
  | .doAdd made extract url => (now ≤ made.timestamp ∧ made.timestamp ≤ now') ∧
      (∀ url, fitsI32 (extract url).readingTime = true) ∧ ParsesAs Url url
  | .doCreateClient _ keys _ => ∀ c ∈ db.clients, c.clientId ≠ keys.clientId
  | _ => True

theorem serves_reply (hnow : now ≤ now') (hs : s.Serving Url now last u) {α β : Type}
    {x : Run Db Error α} (hx : Serves Url now last u (fun _ => True) x) (f : α → β) :
    Answered (fun db => db.Serving Url now' (last + 1) u) Error.Refusal (fun _ => True)
      ((x >>= fun a => pure (f a) : Run Db Error β) s) :=
  ((hx s hs).bind fun _ _ => .pure trivial).imp fun _ h => h.mono hnow

theorem Api.Handler.serves (hurl : UrlsParse Url) (hnow : now ≤ now') (hlast : last < 2 ^ 31)
    (hs : s.Serving Url now last u) {handler : Api.Handler Url} (h : handler.Proper now now') :
    Answered (fun db => db.Serving Url now' (last + 1) u) Error.Refusal (fun _ => True)
      ((handler.run crates eng u : Run Db Error _) s) := by
  cases handler with
  | entries request => exact serves_reply hnow hs (Api.entries_serves hurl eng hlast request) _
  | postEntries made uid extract addEntry =>
    exact (Api.postEntries_serves hurl crates hs h.1.1 h.1.2 uid h.2.1 h.2.2).bind
      fun _ _ => .pure trivial
  | «exists» => exact .ok (hs.mono hnow) trivial
  | patchEntry made uid entryId request =>
    exact serves_reply hnow hs (Api.patchEntry_serves hurl crates h.1 uid entryId h.2) _
  | deleteEntry entryId expect => exact serves_reply hnow hs (Api.deleteEntry_serves entryId expect) _
  | getTagsByEntry entryId => exact serves_reply hnow hs (Api.getTagsByEntry_serves entryId) _
  | postEntryTags entryId labels =>
    exact serves_reply hnow hs (Api.postEntryTags_serves crates entryId labels) _
  | deleteTagFromEntry entryId tagId =>
    exact serves_reply hnow hs (Api.deleteTagFromEntry_serves entryId tagId) _
  | getTags => exact serves_reply hnow hs (.bind (Q := fun _ => True) (.read fun _ _ => trivial)
      fun _ _ => .pure trivial) _
  | deleteTagsByLabel labels => exact serves_reply hnow hs (Api.deleteTagsByLabel_serves h) _
  | deleteTagById tagId => exact serves_reply hnow hs (Api.deleteTagById_serves tagId) _
  | deleteTagByLabel label => exact serves_reply hnow hs (Api.deleteTagByLabel_serves label) _

theorem Web.Handler.serves (hurl : UrlsParse Url) (hnow : now ≤ now') (hlast : last < 2 ^ 31)
    (hs : s.Serving Url now last u) {handler : Web.Handler Url} (h : handler.Proper eng now now' s) :
    Answered (fun db => db.Serving Url now' (last + 1) u) Error.Refusal (fun _ => True)
      ((handler.run crates eng u : Run Db Error _) s) := by
  cases handler with
  | index | all | favourite | archive =>
    exact serves_reply hnow hs (Web.main_serves eng hlast (.unsearched eng rfl) _) _
  | article id referer => exact serves_reply hnow hs (Web.article_serves id referer) _
  | clients => exact serves_reply hnow hs (.bind (Q := fun _ => True) (.read fun _ _ => trivial)
      fun _ _ => .pure trivial) _
  | partialArticles category =>
    exact serves_reply hnow hs (.bind (Web.loadArticles_serves eng hlast
      (Web.category_searchable eng category) _) fun _ _ => .pure trivial) _
  | partialCategories activeCategory =>
    exact serves_reply hnow hs (.bind (Web.counters_serves eng) fun _ _ => .pure trivial) _
  | search headers uri query => exact serves_reply hnow hs (Web.search_serves eng hlast headers uri h) _
  | doArchive made updated articleId archived source category =>
    exact serves_reply hnow hs (Web.edit_serves eng hlast (archiveUpdate_proper h archived) articleId source
      category) _
  | doFavourite made updated articleId starred source category =>
    exact serves_reply hnow hs (Web.edit_serves eng hlast (favouriteUpdate_proper h starred) articleId source
      category) _
  | doEditTitle made articleId title source category =>
    dsimp only [Web.Handler.run]
    exact serves_reply hnow hs (Web.doEditTitle_serves eng hlast h articleId title source category) _
  | doDelete articleId backLocation source category =>
    exact serves_reply hnow hs (Web.doDelete_serves eng hlast articleId backLocation source category) _
  | doAdd made extract url =>
    exact (Web.doAdd_serves hurl crates hs h.1.1 h.1.2 h.2.1 h.2.2).bind fun _ _ => .pure trivial
  | doClientDelete id =>
    exact serves_reply hnow hs (.bind (deleteClient_serves u id) fun _ _ => .pure trivial) _
  | doCreateClient made keys clientName =>
    dsimp only [Web.Handler.run]
    exact ((Web.doCreateClient_serves hs h made clientName).bind fun _ _ => .pure trivial).imp
      fun _ h => h.mono hnow

end handlers

namespace Server
section service
variable {Url : Type} [UrlCrate Url] {now now' : Int} {K : Type} [Field K] [LinearOrder K]
  {config : Config K} {s : Server}

/-- argon2 reports errors of its own. -/
structure Config.Sane (config : Config K) : Prop where
  verify : ∀ password hash e, config.verifyPassword password hash = .error e → e.Refusal
  hash : ∀ password e, config.accounts.hashPassword password = .error e → e.Refusal

/-- Whoever holds a token or a cookie has an account. -/
structure Intact (Url : Type) [UrlCrate Url] (now : Int) (s : Server) : Prop where
  db : s.db.Intact Url now
  access : ∀ key token, s.access key = some token → s.db.hasUser token.claim.userId = true
  sessions : ∀ u ∈ s.sessions, s.db.hasUser u = true

def Event.Proper (config : Config K) (now now' : Int) (s : Server) : Event Url → Prop
  | .api _ _ handler => handler.Proper now now'
  | .web _ _ handler => handler.Proper config.eng now now' s.db
  | .fakeUi _ (.postClientCreate _ keys _) => ∀ c ∈ s.db.clients, c.clientId ≠ keys.clientId
  | .command (.createClient _ keys _ _) => ∀ c ∈ s.db.clients, c.clientId ≠ keys.clientId
  | .command (.reloadArticles made scraper _) => (∀ id, now ≤ (made id).timestamp) ∧
      ∀ extract url doc, scraper = some extract → extract url = some doc →
        fitsI32 doc.readingTime = true
  | _ => True

def errorOf {α : Type} : Except Error α → Option Error
  | .ok _ => none
  | .error e => some e

omit [UrlCrate Url] [Field K] [LinearOrder K] in
theorem errorOf_some {α : Type} {r : Except Error α} {e : Error} (h : errorOf r = some e) :
    r = .error e := by
  cases r <;> cases h
  rfl

def Answer.error : Answer Url → Option Error
  | .token r => errorOf r
  | .api r => errorOf r
  | .web r => errorOf r
  | .fakeUi r => errorOf r
  | .entrance r => errorOf r
  | .login r => errorOf r
  | .setup r => errorOf r
  | .command r => errorOf r
  | .version _ | .unauthenticated _ | .seeOther _ | .silent => none

/-- What an event leaves and answers, in a run of which it is a part. -/
structure Served (Url : Type) [UrlCrate Url] (now : Int) (r : Answer Url × Server) : Prop where
  intact : r.2.Intact Url now
  refuses : ∀ e, r.1.error = some e → e.Refusal

theorem owned_tending (db : Db) :
    Tending (fun userId => db.hasUser userId = true)
      (fun access => ∀ key token, access key = some token → db.hasUser token.claim.userId = true)
      (fun t => t.users = db.users ∧ ∀ r ∈ t.tokens, db.hasUser r.userId = true) where
  insert access key token _ haccess huser x t ht := by
    rcases AccessTokens.of_insert ht with ⟨-, rfl⟩ | hold
    · exact huser
    · exact haccess x t hold
  insertToken row r t t' _ h hi hr := by
    obtain ⟨-, -, -, rfl⟩ := Db.insertToken_ok hi
    refine ⟨h.1, fun x hx => ?_⟩
    rcases List.mem_append.mp hx with hx | hx
    · exact h.2 x hx
    · exact List.mem_singleton.mp hx ▸ hr
  deleteTokens t p h := ⟨h.1, fun r hr => h.2 r (List.mem_filter.mp hr).1⟩
  owner t r h hr := h.2 r hr
  remove access key haccess x t ht := haccess x t (AccessTokens.of_remove ht)
  held access key token haccess ht := haccess key token ht

omit [Field K] [LinearOrder K] in
theorem findUser_owned (db : Db) (username password : String) :
    Maintains (fun access : AccessTokens => ∀ key token, access key = some token →
        db.hasUser token.claim.userId = true)
      (fun t => t.users = db.users ∧ ∀ r ∈ t.tokens, db.hasUser r.userId = true)
      (fun r => ∀ w ∈ r, db.hasUser w.id = true)
      (Oauth.findUser config.verifyPassword username password : RunWith AccessTokens Db Error _) := by
  refine .bind (Q := fun r => ∀ w ∈ r, db.hasUser w.id = true) (.query fun t found h hfound w hw => ?_)
    fun found hfound => ?_
  · cases hfound
    exact Db.hasUser_iff.mpr ⟨w, h.1 ▸ List.mem_of_find?_eq_some hw, rfl⟩
  · cases found with
    | none => exact .pure nofun
    | some w =>
      refine .bind (Q := fun _ => True) (.ofExcept fun _ _ => trivial) fun accepted _ => ?_
      cases accepted with
      | false => exact .pure nofun
      | true => exact .pure fun x hx => hfound x hx

theorem Intact.mono (h : s.Intact Url now) (hnow : now ≤ now') : s.Intact Url now' :=
  { h with db := h.db.mono hnow }

theorem Intact.writes (h : s.Intact Url now) {t : Db}
    (hw : ReflTransGen (WriteIn Statement.LeavesRows) s.db t) : t.Intact Url now :=
  run_invariant (I := fun t => t.Intact Url now) (fun _ _ ht ⟨_, hk, hw⟩ => ht.write hw hk) h.db hw

theorem Intact.query (h : s.Intact Url now) {α : Type} {x : Run Db Error α}
    (hx : Answered (fun db => db.Intact Url now') Error.Refusal (fun _ => True) (x s.db))
    (hlater : Later s.db (x s.db).2) : (s.query x).2.Intact Url now' :=
  ⟨hx.state, fun key token ht => hlater.hasUser (h.access key token ht),
    fun u hu => hlater.hasUser (h.sessions u hu)⟩

theorem Intact.serving (h : s.Intact Url now) {u : Int} (hu : s.db.hasUser u = true) :
    s.db.Serving Url now s.db.entriesSeq u := ⟨h.db, hu, le_rfl⟩

theorem Intact.sessionUser (h : s.Intact Url now) {cookie : Option Int} {userId : Int}
    (hcookie : s.sessionUser cookie = some userId) : s.db.hasUser userId = true := by
  have hissued := (Option.filter_eq_some_iff.mp hcookie).2
  exact h.sessions userId (by simpa using hissued)

section cases
variable (h : s.Intact Url now)
include h

theorem Intact.postToken (hsane : config.Sane) (clock : Clock) (generated : Generated)
    (request : Oauth.GetToken) :
    Served Url now (s.handle config (.postToken clock generated request : Event Url)) := by
  have hlater : Later s.db (s.handle config (.postToken clock generated request : Event Url)).2.db :=
    s.handle_later _
  have hkeeps : Maintains _ _ (fun _ => True)
      (Oauth.postToken config.verifyPassword clock generated request :
        RunWith AccessTokens Db Error _) :=
    (owned_tending s.db).toGranting.postToken clock generated trivial request
      fun username password _ _ => findUser_owned s.db username password
  have hgranted := hkeeps (s.access, s.db) h.access ⟨rfl, h.db.valid.tokensUser⟩
  have hwrites : ReflTransGen (WriteIn Statement.LeavesRows) s.db
      (s.handle config (.postToken clock generated request : Event Url)).2.db :=
    s.handle_writes _ (by simp [Statement.LeavesRows])
  refine ⟨⟨h.writes hwrites, fun key token ht => hlater.hasUser (hgranted.1 key token ht),
    fun u hu => hlater.hasUser (h.sessions u hu)⟩, fun e he => ?_⟩
  have hrefuses : Refuses (s.access, s.db) (Oauth.postToken config.verifyPassword clock generated
    request) := Oauth.postToken_refuses h.db.valid hsane.verify clock generated request
  exact hrefuses e (errorOf_some he)

theorem Intact.doLogin (hsane : config.Sane) (form : Web.LoginForm) (referer : Option String) :
    Served Url now (s.handle config (.doLogin form referer : Event Url)) := by
  dsimp only [Server.handle, Server.query]
  rw [doLogin_run]
  rcases hfound : s.db.foundUser config.verifyPassword form with d | _ | w
  · refine ⟨h, fun e he => ?_⟩
    cases he
    exact foundUser_refuses hsane.verify hfound
  · exact ⟨h, nofun⟩
  · refine ⟨⟨h.db, h.access, fun u hu => ?_⟩, nofun⟩
    rcases List.mem_cons.mp hu with rfl | hu
    · exact Db.hasUser_iff.mpr ⟨w, (foundUser_mem hfound).1, rfl⟩
    · exact h.sessions u hu

theorem Intact.fakeUi (cookie : Option Int) {handler : FakeUi.Handler}
    (hproper : (Event.fakeUi cookie handler : Event Url).Proper config now now' s) :
    Served Url now (s.handle config (.fakeUi cookie handler : Event Url)) := by
  have hacts {userId : Int} : Acts handler.rights config.eng userId (handler.run userId) :=
    handler.acts
  dsimp only [Server.handle]
  cases hcookie : s.sessionUser cookie with
  | none => exact ⟨h, nofun⟩
  | some userId =>
    have hserving := h.serving (h.sessionUser hcookie)
    have hserved : Answered (fun db => db.Serving Url now s.db.entriesSeq userId) Error.Refusal
        (fun _ => True) ((handler.run userId : Run Db Error _) s.db) := by
      cases handler with
      | developer =>
        have hserves : Serves Url now s.db.entriesSeq userId (fun _ => True)
            (FakeUi.developer userId) :=
          FakeUi.developer_alone userId ▸
            .bind (Q := fun _ => True) (.read fun _ _ => trivial) fun _ _ => .pure trivial
        exact hserves s.db hserving
      | getClientCreate => exact .ok hserving trivial
      | postClientCreate made keys name =>
        exact FakeUi.postClientCreate_serves hserving hproper made name
    exact ⟨h.query (hserved.imp fun _ hdb => hdb.toIntact) (hacts.later s.db),
      fun e he => hserved.error e (errorOf_some he)⟩

variable (hurl : UrlsParse Url)
include hurl

theorem Intact.command (hsane : config.Sane) (hroom : s.db.entriesSeq < 2 ^ 31)
    {command : Cli.Command Url} (hproper : (Event.command command).Proper config now now' s) :
    Served Url now (s.handle config (.command command)) := by
  have hlater : Later s.db (s.handle config (.command command)).2.db := s.handle_later _
  have hserved : Answered (fun db => db.Intact Url now) Error.Refusal (fun _ => True)
      ((command.run config.accounts config.eng : Run Db Error _) s.db) := by
    cases command with
    | createUser made username password name email =>
      exact (Cli.createUser_intact hsane.hash made username password name email s.db h.db).bind
        fun _ _ => .pure trivial
    | createClient made keys username clientName =>
      exact (Cli.createClient_intact h.db hproper made username clientName).bind
        fun _ _ => .pure trivial
    | reloadArticles made scraper username =>
      exact (Cli.reloadArticles_intact hurl config.eng h.db hroom hproper.1 hproper.2 username).bind
        fun _ _ => .pure trivial
  exact ⟨h.query hserved hlater, fun e he => hserved.error e (errorOf_some he)⟩

variable (hnow : now ≤ now') (hroom : s.db.entriesSeq < 2 ^ 31)
include hnow hroom

/-- The bearer is turned away, or served on the same database. -/
theorem Intact.api (instant : Int) (credentials : Option String) {handler : Api.Handler Url}
    (hproper : handler.Proper now now') :
    Served Url now' (s.handle config (.api instant credentials handler)) := by
  have hacts {userId : Int} : Acts handler.rights config.eng userId
    (handler.run config.crates config.eng userId) := handler.acts
  have hkeeps : Maintains _ _ (fun claim => s.db.hasUser claim.userId = true)
      (Oauth.authExtractor instant credentials : RunWith AccessTokens Db Error Claim) :=
    (owned_tending s.db).authExtractor instant credentials
  have hbearer := hkeeps (s.access, s.db) h.access ⟨rfl, h.db.valid.tokensUser⟩
  have hdb := Oauth.authExtractor_db instant credentials (s.access, s.db)
  dsimp only [Server.handle, Server.grant]
  rcases hrun : (Oauth.authExtractor instant credentials : RunWith AccessTokens Db Error Claim)
    (s.access, s.db) with ⟨d | claim, access, db⟩ <;> rw [hrun] at hbearer hdb <;> cases hdb
  · refine ⟨⟨h.db.mono hnow, hbearer.1, h.sessions⟩, fun e he => ?_⟩
    cases he
    exact Oauth.authExtractor_refuses (congrArg Prod.fst hrun)
  · have hheld : Server.Intact Url now { s with access := access } :=
      ⟨h.db, hbearer.1, h.sessions⟩
    have hserved : Answered (fun db => db.Serving Url now' (s.db.entriesSeq + 1) claim.userId)
        Error.Refusal (fun _ => True)
        ((handler.run config.crates config.eng claim.userId : Run Db Error _) s.db) :=
      Api.Handler.serves hurl hnow hroom (h.serving (hbearer.2.2 claim rfl)) hproper
    exact ⟨hheld.query (hserved.imp fun _ hdb => hdb.toIntact) (hacts.later s.db),
      fun e he => hserved.error e (errorOf_some he)⟩

theorem Intact.web (cookie : Option Int) (htmx : Bool) {handler : Web.Handler Url}
    (hproper : handler.Proper config.eng now now' s.db) :
    Served Url now' (s.handle config (.web cookie htmx handler)) := by
  have hacts {userId : Int} : Acts handler.rights config.eng userId
    (handler.run config.crates config.eng userId) := handler.acts
  dsimp only [Server.handle]
  cases hcookie : s.sessionUser cookie with
  | none => exact ⟨h.mono hnow, nofun⟩
  | some userId =>
    have hserved : Answered (fun db => db.Serving Url now' (s.db.entriesSeq + 1) userId) Error.Refusal
        (fun _ => True) ((handler.run config.crates config.eng userId : Run Db Error _) s.db) :=
      Web.Handler.serves hurl hnow hroom (h.serving (h.sessionUser hcookie)) hproper
    exact ⟨h.query (hserved.imp fun _ hdb => hdb.toIntact) (hacts.later s.db),
      fun e he => hserved.error e (errorOf_some he)⟩

end cases

theorem Served.mono {r : Answer Url × Server} (h : Served Url now r) (hnow : now ≤ now') :
    Served Url now' r := ⟨h.intact.mono hnow, h.refuses⟩

theorem Intact.handle (hurl : UrlsParse Url) (hsane : config.Sane) (h : s.Intact Url now)
    (hnow : now ≤ now') (hroom : s.db.entriesSeq < 2 ^ 31) {event : Event Url}
    (hproper : event.Proper config now now' s) : Served Url now' (s.handle config event) := by
  have hlater : Later s.db (s.handle config event).2.db := s.handle_later event
  cases event with
  | version | logout => exact ⟨h.mono hnow, nofun⟩
  | postToken clock generated request => exact (h.postToken hsane clock generated request).mono hnow
  | api instant credentials handler => exact h.api hurl hnow hroom instant credentials hproper
  | web cookie htmx handler => exact h.web hurl hnow hroom cookie htmx hproper
  | fakeUi cookie handler => exact (h.fakeUi cookie hproper).mono hnow
  | login =>
    have hserved : Answers (fun db => db.Intact Url now) Error.Refusal (fun _ => True) Web.login :=
      .bind (Q := fun _ => True) (.read fun _ _ => trivial) fun _ _ => by split <;> exact .pure trivial
    exact ⟨(h.query (hserved s.db h.db) hlater).mono hnow,
      fun e he => (hserved s.db h.db).error e (errorOf_some he)⟩
  | setup =>
    have hserved : Answers (fun db => db.Intact Url now) Error.Refusal (fun _ => True) Web.setup :=
      .bind (Q := fun _ => True) (.read fun _ _ => trivial) fun _ _ => by split <;> exact .pure trivial
    exact ⟨(h.query (hserved s.db h.db) hlater).mono hnow,
      fun e he => (hserved s.db h.db).error e (errorOf_some he)⟩
  | doLogin form referer => exact (h.doLogin hsane form referer).mono hnow
  | doSetup made form =>
    have hserved := Web.doSetup_intact hsane.hash made form s.db h.db
    exact ⟨(h.query hserved hlater).mono hnow, fun e he => hserved.error e (errorOf_some he)⟩
  | command command => exact (h.command hurl hsane hroom hproper).mono hnow
  | gc now =>
    exact ⟨⟨h.db.mono hnow, fun key token ht => h.access key token (AccessTokens.of_retain ht),
      h.sessions⟩, nofun⟩

/-- Every event of the run is proper when its turn comes, and the clock does not go back. -/
def Orderly (config : Config K) : Int → Server → List (Event Url) → Prop
  | _, _, [] => True
  | now, s, event :: events => ∃ now', now ≤ now' ∧ event.Proper config now now' s ∧
      Orderly config now' (s.handle config event).2 events

/-- In an orderly run from an intact server that gives out fewer than 2^31 entry ids, no answer tells
of a database error, of a row that does not convert or of an unexpected state, and in the end the
server is intact. -/
theorem only_refuses (hurl : UrlsParse Url) (hsane : config.Sane) {events : List (Event Url)}
    (h : s.Intact Url now) (hroom : (serve config s events).db.entriesSeq < 2 ^ 31)
    (horderly : Orderly config now s events) :
    (∃ now', (serve config s events).Intact Url now') ∧
      ∀ before event after, events = before ++ event :: after →
        ∀ e, ((serve config s before).handle config event).1.error = some e → e.Refusal := by
  induction events generalizing now s with
  | nil =>
    refine ⟨⟨now, h⟩, fun before event after hsplit => ?_⟩
    cases before <;> cases hsplit
  | cons event events ih =>
    obtain ⟨now', hnow, hproper, horderly⟩ := horderly
    have hgiven : s.db.entriesSeq ≤ (serve config s (event :: events)).db.entriesSeq :=
      (serve_later s (event :: events)).entriesSeq
    have hserved := h.handle hurl hsane hnow (hgiven.trans_lt hroom) hproper
    obtain ⟨hend, hrest⟩ := ih hserved.intact hroom horderly
    refine ⟨hend, fun before e after hsplit => ?_⟩
    cases before with
    | nil =>
      cases hsplit
      exact hserved.refuses
    | cons first before =>
      cases hsplit
      exact hrest before e after rfl

end service

theorem plainConfig_sane : plainConfig.Sane := ⟨fun _ _ _ h => (nomatch h), fun _ _ h => (nomatch h)⟩

theorem httpText_urls : UrlsParse HttpText := ⟨httpText_parses, by decide, by decide⟩

theorem empty_intact (now : Int) : Server.Intact HttpText now {} := by
  have hnone {p : EntryRecord → Prop} : ∀ e ∈ (Db.entries {}), p e :=
    fun _ h => absurd h List.not_mem_nil
  exact ⟨⟨Db.valid_empty, hnone, hnone, hnone, hnone, by decide⟩, nofun, nofun⟩

/-- Somebody sets up, logs in, adds an article, and wants to see one that is not there. -/
def settling : List (Event HttpText) :=
  [.doSetup ⟨70, by decide⟩ ⟨"ada", "secret", "secret"⟩, .doLogin ⟨"ada", "secret"⟩ none,
    .web (some 1) false (.doAdd ⟨71, by decide⟩ (fun url => page url.url) "https://d.org/"),
    .web (some 1) false (.article 7 none)]

theorem only_refuses_settling :
    (∃ now', (serve plainConfig {} settling).Intact HttpText now') ∧
      ∀ e, ((serve plainConfig {} (settling.take 3)).handle plainConfig
        (.web (some 1) false (.article 7 none) : Event HttpText)).1.error = some e →
          e.internal = false := by
  have horderly : Orderly plainConfig 70 {} settling :=
    ⟨70, le_rfl, trivial, 70, le_rfl, trivial, 71, by decide,
      ⟨⟨by decide, by decide⟩, fun _ => rfl, by decide⟩, 71, le_rfl, trivial, trivial⟩
  have hroom : (serve plainConfig {} settling).db.entriesSeq < 2 ^ 31 := by decide
  have h := only_refuses httpText_urls plainConfig_sane (empty_intact 70) hroom horderly
  exact ⟨h.1, h.2 (settling.take 3) _ [] rfl⟩

end Server
end Articler
