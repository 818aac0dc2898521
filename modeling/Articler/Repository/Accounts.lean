import Articler.Constraints

/-! `db::repository::users`, `clients` and `tokens`. -/
namespace Articler
open Txn
variable {m : Type → Type} [Acquire Db Error m]

namespace Users

def createUser (username passwordHash name email : String) (createdAt updatedAt : Int) :
    m UserRow :=
  stmt fun db => db.insertUser fun id =>
    { id, username, email, name, passwordHash, createdAt, updatedAt }

def findByUsername (username : String) : m (Option UserRow) :=
  query fun db => .ok (db.users.find? fun u => u.username == username)

def count : m Int := query fun db => .ok db.users.length

end Users

namespace Clients

def create (userId : Int) (clientName clientId clientSecret : String) (createdAt : Int) :
    m ClientRow :=
  stmt fun db => db.insertClient fun id =>
    { id, name := clientName, clientId, clientSecret, userId, createdAt }

def deleteById (userId id : Int) : m Bool :=
  stmt fun db =>
    .ok (db.clients.any fun c => c.userId == userId && c.id == id,
      db.deleteClients fun c => c.userId == userId && c.id == id)

def findByUserIdClientIdAndSecret (userId : Int) (clientId clientSecret : String) :
    m (Option ClientRow) :=
  query fun db => .ok (db.clients.find? fun c =>
    c.userId == userId && c.clientId == clientId && c.clientSecret == clientSecret)

def findByClientIdAndSecret (clientId clientSecret : String) : m (Option ClientRow) :=
  query fun db => .ok (db.clients.find? fun c =>
    c.clientId == clientId && c.clientSecret == clientSecret)

/-- `ORDER BY id`. -/
def findByUserId (userId : Int) : m (List ClientRow) :=
  query fun db => .ok ((Rows.OrderBy.stable ClientRow).run (fun a b => a.id ≤ b.id)
    (db.clients.filter fun c => c.userId == userId))

end Clients

namespace Tokens

/-- `now` is the database's `strftime('%s', 'now')`. -/
def create (now : Int) (token : String) (userId clientId createdAt expiresIn : Int) : m TokenRow :=
  stmt fun db => db.insertToken fun id =>
    { id, token, createdAt, expiresAt := now + expiresIn, userId, clientId }

def delete (token : String) : m (Option TokenRow) :=
  stmt fun db => .ok (db.tokens.find? fun t => t.token == token,
    db.deleteTokens fun t => t.token == token)

def deleteExpired (now : Int) : m Unit :=
  stmt fun db => .ok ((), db.deleteTokens fun t => t.expiresAt ≤ now)

def find (token : String) : m (Option TokenRow) :=
  query fun db => .ok (db.tokens.find? fun t => t.token == token)

end Tokens
end Articler
