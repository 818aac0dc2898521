import Articler.Web.Ui

/-! OAuth clients in the browser and on the command line: `server::web::ui`,
`server::web::fake_ui` and `cli::create_client`. -/
namespace Articler
open Txn

/-- What `generate_client_id` and `generate_client_secret` draw. -/
structure ClientKeys where
  clientId : String
  clientSecret : String

namespace Web
variable {m : Type → Type} [Acquire Db Error m]

structure Client where
  id : Int
  clientId : String
  clientName : String
  clientSecret : String
deriving DecidableEq, Repr

def Client.from (value : ClientRow) : Client where
  id := value.id
  clientId := value.clientId
  clientName := value.name
  clientSecret := value.clientSecret

def clients (userId : Int) : m (List Client) := do
  let rows ← Clients.findByUserId userId
  pure (rows.map Client.from)

def doCreateClient (now : DateTime) (keys : ClientKeys) (clientName : String) (userId : Int) :
    m Response :=
  match ClientName.tryFrom clientName with
  | .error (.validation message) => pure (.unprocessableEntity message)
  | .error e => fail e
  | .ok clientName => do
    let _ ← Clients.create userId clientName.val keys.clientId keys.clientSecret now.timestamp
    pure (.hxRedirect "/clients")

end Web

namespace FakeUi
variable {m : Type → Type} [Acquire Db Error m]

/-- What the mobile app and the browser extensions scrape. -/
inductive Page where
  | development (clients : List Web.Client)
  | empty
  | clientCreate
  | clientCreateResult (clientName clientId clientSecret : String)
deriving DecidableEq, Repr

def developer (userId : Int) : m Page := do
  match ← attempt (Clients.findByUserId userId) with
  | .ok clientRows => pure (.development (clientRows.map Web.Client.from))
  | .error _ => pure .empty

def postClientCreate (now : DateTime) (keys : ClientKeys) (name : String) (userId : Int) :
    m Page := do
  let clientName ← ofExcept (ClientName.tryFrom name)
  let client ← Clients.create userId clientName.val keys.clientId keys.clientSecret now.timestamp
  pure (.clientCreateResult client.name client.clientId client.clientSecret)

/-- With the database to itself the query does not fail. -/
theorem developer_alone (userId : Int) : (developer userId : Run Db Error Page) =
    (do let clientRows ← Clients.findByUserId userId
        pure (.development (clientRows.map Web.Client.from))) := rfl

end FakeUi

namespace Cli
variable {m : Type → Type} [Acquire Db Error m]

def createClient (now : DateTime) (keys : ClientKeys) (username clientName : String) :
    m ClientRow := transaction do
  match ← Users.findByUsername username with
  | some user => do
    let clientName ← ofExcept (ClientName.tryFrom clientName)
    Clients.create user.id clientName.val keys.clientId keys.clientSecret now.timestamp
  | none => fail .userNotFound

end Cli

end Articler
