import Articler.Repository.Accounts

/-! `server::web::setup` and `cli::create_user`: how users come into being. -/
namespace Articler
open Txn

/-- argon2 with a random salt, and the `email_address` crate. -/
structure AccountCrates where
  hashPassword : Password → Except Error String
  emailValid : String → Bool

namespace Web

structure SetupForm where
  username : String
  password : String
  confirmPassword : String

inductive SetupResponse where
  | found (location : String)
  | unprocessableEntity (message : String)
  | ok (hxRedirect : String)
deriving DecidableEq, Repr

variable {m : Type → Type} [Acquire Db Error m] (crates : AccountCrates)

/-- What does not validate is answered with its message. -/
def validated {α : Type} (r : Except Error α) (next : α → m SetupResponse) : m SetupResponse :=
  match r with
  | .ok a => next a
  | .error (.validation message) => pure (.unprocessableEntity message)
  | .error e => fail e

def doSetup (now : DateTime) (form : SetupForm) : m SetupResponse := do
  let count ← Users.count
  if 0 < count then pure (.found "/login")
  else
    validated (Username.tryFrom form.username) fun username =>
    validated (Password.tryFrom form.password) fun password =>
    validated (Password.tryFrom form.confirmPassword) fun confirmPassword =>
    if password ≠ confirmPassword then pure (.unprocessableEntity "Passwords do not match")
    else do
      let passwordHash ← ofExcept (crates.hashPassword password)
      transaction do
        let count ← Users.count
        if 0 < count then pure (.found "/login")
        else do
          let _ ← Users.createUser username.val passwordHash "" "" now.timestamp now.timestamp
          pure (.ok "/login")

end Web

namespace Cli
variable {m : Type → Type} [Acquire Db Error m] (crates : AccountCrates)

def createUser (now : DateTime) (username password name email : String) : m Unit :=
  transaction do
    if !crates.emailValid email then fail .emailInvalid
    else do
      let username ← ofExcept (Username.tryFrom username)
      let found ← Users.findByUsername username.val
      if found.isSome then fail .usernameBusy
      else do
        let password ← ofExcept (Password.tryFrom password)
        let passwordHash ← ofExcept (crates.hashPassword password)
        let _ ← Users.createUser username.val passwordHash name email now.timestamp now.timestamp
        pure ()

end Cli
end Articler
