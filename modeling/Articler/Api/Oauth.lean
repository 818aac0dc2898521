import Articler.TokenStorage

/-! `wallabag_api::oauth`: the token endpoint and the bearer check, with
`auth::find_user`. -/
namespace Articler.Oauth
open Txn

structure GetToken where
  grantType : Option String := none
  clientId : Option String := none
  clientSecret : Option String := none
  username : Option String := none
  password : Option String := none
  refreshToken : Option String := none

structure Token where
  accessToken : String
  refreshToken : String
  expiresIn : Int
  tokenType : String
  scope : Option String
deriving DecidableEq, Repr

def bearer : String := "bearer"

/-- What the endpoint answers for a token that the storage hands out. -/
def Token.ofNew (newToken : NewToken) : Token where
  accessToken := newToken.accessToken
  expiresIn := newToken.expiresIn
  tokenType := bearer
  scope := none
  refreshToken := newToken.refreshToken

section
variable {m : Type → Type} [Acquire Db Error m]

/-- `verifyPassword password hash` is argon2's. -/
def findUser (verifyPassword : String → String → Except Error Bool) (username password : String) :
    m (Option UserRow) := do
  match ← Users.findByUsername username with
  | some userRow =>
    if ← ofExcept (verifyPassword password userRow.passwordHash) then return some userRow
    else return none
  | none => return none

variable [MonadState AccessTokens m]

def refreshToken (clock : Clock) (generated : Generated) (request : GetToken) : m Token := do
  let some clientId := request.clientId
    | fail (.oauth "invalid_client" "Client id was not found in the headers or body" 400)
  let some clientSecret := request.clientSecret
    | fail (.oauth "invalid_client" "The client credentials are invalid" 400)
  let some _ ← Clients.findByClientIdAndSecret clientId clientSecret
    | fail (.oauth "invalid_client" "The client credentials are invalid" 400)
  let some refreshToken := request.refreshToken
    | fail (.oauth "invalid_request" "No \"refresh_token\" parameter found" 400)
  let some newToken ← TokenStorage.refresh clock generated refreshToken
    | fail (.oauth "invalid_grant" "Invalid refresh token" 400)
  return .ofNew newToken

def newToken (verifyPassword : String → String → Except Error Bool) (clock : Clock)
    (generated : Generated) (request : GetToken) : m Token := do
  let some username := request.username
    | fail (.oauth "invalid_request"
        "Missing parameters. \"username\" and \"password\" required" 400)
  let some password := request.password
    | fail (.oauth "invalid_request"
        "Missing parameters. \"username\" and \"password\" required" 400)
  let some clientId := request.clientId
    | fail (.oauth "invalid_client" "Client id was not found in the headers or body" 400)
  let some clientSecret := request.clientSecret
    | fail (.oauth "invalid_client" "The client credentials are invalid" 400)
  let (userRow, clientRow) ← transaction do
    let some userRow ← findUser verifyPassword username password
      | fail (.oauth "invalid_grant" "Invalid username and password combination" 400)
    let some clientRow ← Clients.findByUserIdClientIdAndSecret userRow.id clientId clientSecret
      | fail (.oauth "invalid_client" "The client credentials are invalid" 400)
    return (userRow, clientRow)
  let newToken ← TokenStorage.newToken clock generated userRow.id clientRow.id
  return .ofNew newToken

def postToken (verifyPassword : String → String → Except Error Bool) (clock : Clock)
    (generated : Generated) (request : GetToken) : m Token :=
  match request.grantType with
  | some "password" => newToken verifyPassword clock generated request
  | some "refresh_token" => refreshToken clock generated request
  | _ => fail (.oauth "invalid_request" "Invalid grant_type parameter or parameter missing" 400)

/-- The claim of the bearer token goes with the request as its `UserInfo`. -/
def authExtractor (now : Int) (credentials : Option String) : m Claim := do
  let some token := credentials
    | fail (.oauth "access_denied" "OAuth2 authentication required" 401)
  let some claim ← TokenStorage.validate now token
    | fail (.oauth "invalid_grant" "The access token provided is invalid" 401)
  return claim

end

end Articler.Oauth
