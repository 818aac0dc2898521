import Articler.Api.Entries
import Articler.Web.Session

/-! The server: which handler a request reaches, on whose behalf, and what it leaves of the
database, of the access tokens and of the session cookies. -/
namespace Articler
open Txn

namespace Api

/-- The handlers behind `auth_extractor`, with what they take from the request, from the
clock and from outside. -/
inductive Handler (Url : Type) [UrlCrate Url] where
  | entries (request : EntriesRequest)
  | postEntries (now : DateTime) (uid : String) (extract : ArticleUrl Url → Document Url)
      (addEntry : AddEntry Url)
  | exists
  | patchEntry (now : DateTime) (uid : String) (entryId : Int) (request : UpdateEntry Url)
  | deleteEntry (entryId : Int) (expect : Expect)
  | getTagsByEntry (entryId : Int)
  | postEntryTags (entryId : Int) (labels : List String)
  | deleteTagFromEntry (entryId tagId : Int)
  | getTags
  | deleteTagsByLabel (labels : List String)
  | deleteTagById (tagId : Int)
  | deleteTagByLabel (label : String)

inductive Reply (Url : Type) where
  | entries (entries : Entries Url)
  | added (response : AddEntryResponse Url)
  | exists (found : Bool)
  | entry (entry : Entry Url)
  | deleted (response : DeleteEntryResponse Url)
  | tags (tags : List Tag)
  | tag (tag : Tag)

/-- The handler's own work for the user of the token. -/
def Handler.run {Url : Type} [UrlCrate Url] {m : Type → Type} [Acquire Db Error m] {K : Type}
    [Field K] [LinearOrder K] (crates : Crates) (eng : Engine K) (userId : Int) :
    Handler Url → m (Reply Url)
  | .entries request => do return .entries (← Api.entries eng request userId)
  | .postEntries now uid extract addEntry => do
    return .added (← Api.postEntries crates now uid extract userId addEntry)
  | .exists => return .exists false
  | .patchEntry now uid entryId request => do
    return .entry (← Api.patchEntry crates now uid entryId request userId)
  | .deleteEntry entryId expect => do return .deleted (← Api.deleteEntry entryId expect userId)
  | .getTagsByEntry entryId => do return .tags (← Api.getTagsByEntry entryId userId)
  | .postEntryTags entryId labels => do
    return .entry (← Api.postEntryTags crates entryId labels userId)
  | .deleteTagFromEntry entryId tagId => do
    return .entry (← Api.deleteTagFromEntry entryId tagId userId)
  | .getTags => do return .tags (← Api.getTags userId)
  | .deleteTagsByLabel labels => do return .tags (← Api.deleteTagsByLabel labels userId)
  | .deleteTagById tagId => do return .tag (← Api.deleteTagById tagId userId)
  | .deleteTagByLabel label => do return .tag (← Api.deleteTagByLabel label userId)

end Api

namespace Web

/-- The handlers behind `SessionUser`. -/
inductive Handler (Url : Type) [UrlCrate Url] where
  | index
  | all
  | favourite
  | archive
  | article (id : Int) (referer : Option String)
  | clients
  | partialArticles (category : Category)
  | partialCategories (activeCategory : Category)
  | search (headers : HxHeaders) (uri : String) (query : SearchQuery)
  | doArchive (now updated : DateTime) (articleId : Int) (archived : Bool)
      (source : Option HxSource) (category : Category)
  | doFavourite (now updated : DateTime) (articleId : Int) (starred : Bool)
      (source : Option HxSource) (category : Category)
  | doEditTitle (now : DateTime) (articleId : Int) (title : String) (source : Option HxSource)
      (category : Category)
  | doDelete (articleId : Int) (backLocation : Option String) (source : Option HxSource)
      (category : Category)
  | doAdd (now : DateTime) (extract : ArticleUrl Url → Document Url) (url : String)
  | doClientDelete (id : Int)
  | doCreateClient (now : DateTime) (keys : ClientKeys) (clientName : String)

inductive Reply where
  | page (page : Page)
  | article (context : ArticleContext)
  | clients (clients : List Client)
  | response (response : Response)

/-- The handler's own work for the user of the session. -/
def Handler.run {Url : Type} [UrlCrate Url] {m : Type → Type} [Acquire Db Error m] {K : Type}
    [Field K] [LinearOrder K] (crates : Crates) (eng : Engine K) (userId : Int) :
    Handler Url → m Reply
  | .index => do return .page (← Web.index eng userId)
  | .all => do return .page (← Web.all eng userId)
  | .favourite => do return .page (← Web.favourite eng userId)
  | .archive => do return .page (← Web.archive eng userId)
  | .article id referer => do return .article (← Web.article id referer userId)
  | .clients => do return .clients (← Web.clients userId)
  | .partialArticles category => do return .page (← Web.partialArticles eng userId category)
  | .partialCategories activeCategory => do
    return .page (← Web.partialCategories eng userId activeCategory)
  | .search headers uri query => do return .page (← Web.search eng headers uri userId query)
  | .doArchive now updated articleId archived source category => do
    return .response (← Web.doArchive eng now updated articleId archived source userId category)
  | .doFavourite now updated articleId starred source category => do
    return .response (← Web.doFavourite eng now updated articleId starred source userId category)
  | .doEditTitle now articleId title source category => do
    return .response (← Web.doEditTitle eng now articleId title source userId category)
  | .doDelete articleId backLocation source category => do
    return .response (← Web.doDelete eng articleId backLocation source userId category)
  | .doAdd now extract url => do
    return .response (← Web.doAdd crates now extract url userId)
  | .doClientDelete id => do return .response (← Web.doClientDelete id userId)
  | .doCreateClient now keys clientName => do
    return .response (← Web.doCreateClient now keys clientName userId)

end Web

namespace FakeUi

/-- The handlers that look into the session themselves. -/
inductive Handler where
  | developer
  | getClientCreate
  | postClientCreate (now : DateTime) (keys : ClientKeys) (name : String)

def Handler.run {m : Type → Type} [Acquire Db Error m] (userId : Int) : Handler → m Page
  | .developer => FakeUi.developer userId
  | .getClientCreate => return .clientCreate
  | .postClientCreate now keys name => FakeUi.postClientCreate now keys name userId

end FakeUi

namespace Cli

/-- The commands of `articlerctl`, which has the database to itself. -/
inductive Command (Url : Type) [UrlCrate Url] where
  | createUser (now : DateTime) (username password name email : String)
  | createClient (now : DateTime) (keys : ClientKeys) (username clientName : String)
  | reloadArticles (now : Int → DateTime)
      (scraper : Option (ArticleUrl Url → Option (Document Url))) (username : String)

def Command.run {Url : Type} [UrlCrate Url] {m : Type → Type} [Acquire Db Error m] {K : Type}
    [Field K] [LinearOrder K] (accounts : AccountCrates) (eng : Engine K) :
    Command Url → m (Option ClientRow)
  | .createUser now username password name email => do
    Cli.createUser accounts now username password name email
    return none
  | .createClient now keys username clientName => do
    return some (← Cli.createClient now keys username clientName)
  | .reloadArticles now scraper username => do
    Cli.reloadArticles eng now scraper username
    return none

end Cli

/-- `sessions` are the users whose cookies were handed out: a cookie is sealed with the key of
the server, which keeps nothing of it and takes it back at any later time. -/
structure Server where
  db : Db := {}
  access : AccessTokens := fun _ => none
  sessions : List Int := []

namespace Server

/-- The third-party functions of a server. -/
structure Config (K : Type) where
  crates : Crates
  accounts : AccountCrates
  verifyPassword : String → String → Except Error Bool
  eng : Engine K

/-- A request, a command of the administrator, or the garbage collection of access tokens. -/
inductive Event (Url : Type) [UrlCrate Url] where
  | version
  | postToken (clock : Clock) (generated : Generated) (request : Oauth.GetToken)
  | api (now : Int) (credentials : Option String) (handler : Api.Handler Url)
  | web (cookie : Option Int) (htmx : Bool) (handler : Web.Handler Url)
  | fakeUi (cookie : Option Int) (handler : FakeUi.Handler)
  | login
  | doLogin (form : Web.LoginForm) (referer : Option String)
  | logout
  | setup
  | doSetup (now : DateTime) (form : Web.SetupForm)
  | command (command : Cli.Command Url)
  | gc (now : Int)

inductive Answer (Url : Type) where
  | version (version : String)
  | token (token : Except Error Oauth.Token)
  | api (reply : Except Error (Api.Reply Url))
  | web (reply : Except Error Web.Reply)
  | fakeUi (page : Except Error FakeUi.Page)
  /-- `Unauthenticated`: with the header of htmx the status is 403, and `HX-Redirect` is set. -/
  | unauthenticated (htmx : Bool)
  | entrance (entrance : Except Error Web.Entrance)
  | login (response : Except Error Web.LoginResponse)
  | seeOther (location : String)
  | setup (response : Except Error Web.SetupResponse)
  | command (client : Except Error (Option ClientRow))
  | silent

/-- The user of a session cookie that the server has handed out. -/
def sessionUser (s : Server) (cookie : Option Int) : Option Int :=
  cookie.filter fun userId => s.sessions.contains userId

def query {α : Type} (s : Server) (x : Run Db Error α) : Except Error α × Server :=
  ((x s.db).1, { s with db := (x s.db).2 })

def grant {α : Type} (s : Server) (x : RunWith AccessTokens Db Error α) : Except Error α × Server :=
  ((x (s.access, s.db)).1,
    { s with access := (x (s.access, s.db)).2.1, db := (x (s.access, s.db)).2.2 })

section handle
variable {Url : Type} [UrlCrate Url] {K : Type} [Field K] [LinearOrder K] (config : Config K)

def handle (s : Server) : Event Url → Answer Url × Server
  | .version => (.version "2.6.12", s)
  | .postToken clock generated request =>
    let (r, s) := s.grant (Oauth.postToken config.verifyPassword clock generated request)
    (.token r, s)
  | .api now credentials handler =>
    match s.grant (Oauth.authExtractor now credentials) with
    | (.error e, s) => (.api (.error e), s)
    | (.ok claim, s) =>
      let (r, s) := s.query (handler.run config.crates config.eng claim.userId)
      (.api r, s)
  | .web cookie htmx handler =>
    match s.sessionUser cookie with
    | none => (.unauthenticated htmx, s)
    | some userId =>
      let (r, s) := s.query (handler.run config.crates config.eng userId)
      (.web r, s)
  | .fakeUi cookie handler =>
    match s.sessionUser cookie with
    | none => (.unauthenticated false, s)
    | some userId =>
      let (r, s) := s.query (handler.run userId)
      (.fakeUi r, s)
  | .login => let (r, s) := s.query Web.login; (.entrance r, s)
  | .doLogin form referer =>
    match s.query (Web.doLogin config.verifyPassword form referer) with
    | (.error e, s) => (.login (.error e), s)
    | (.ok response, s) =>
      -- `session.insert` seals a new cookie
      (.login (.ok response), { s with sessions := response.userId.toList ++ s.sessions })
  | .logout => (.seeOther "/login", s)
  | .setup => let (r, s) := s.query Web.setup; (.entrance r, s)
  | .doSetup now form => let (r, s) := s.query (Web.doSetup config.accounts now form); (.setup r, s)
  | .command command =>
    let (r, s) := s.query (command.run config.accounts config.eng)
    (.command r, s)
  | .gc now => let (_, s) := s.grant (TokenStorage.gc now); (.silent, s)

/-- A run: the events one after the other. -/
def serve (s : Server) (events : List (Event Url)) : Server :=
  events.foldl (fun s event => (handle config s event).2) s

def actor (s : Server) : Event Url → Option Int
  | .api now credentials _ =>
    ((Oauth.authExtractor now credentials : RunWith AccessTokens Db Error Claim) (s.access, s.db)).1.toOption.map
      Claim.userId
  | .web cookie _ _ | .fakeUi cookie _ => s.sessionUser cookie
  | _ => none

end handle
end Server
end Articler
