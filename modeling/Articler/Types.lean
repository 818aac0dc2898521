import Articler.Lib.Txn
import Mathlib.Algebra.Group.Int.Defs
import Mathlib.Algebra.Group.Nat.Defs

/-! The validated types of the `types` crate, the errors of the crates, and what the
program takes from third-party crates: urls, timestamps, slugs, HTML cleaning. Ids,
timestamps and reading times are `Int`. -/
namespace Articler

/-- Wrap-around of `i64` arithmetic in the release profile. -/
def i64 (n : Int) : Int := Int.bmod n (2 ^ 64)

theorem i64_of_fits {n : Int} (h : -2 ^ 63 ≤ n ∧ n < 2 ^ 63) : i64 n = n := by
  unfold i64
  rw [Int.bmod_eq_of_le] <;> omega

inductive SqlxError where
  | foreignKey
  | unique
  | rowNotFound
  | notNull (column : String)
  | check (constraint : String)
  | decode (column : String)
  | fts5
  | busy
  | tooManyVariables
deriving DecidableEq, Repr

/-- The error enums of the crates; a wrapper is its inner error. -/
inductive Error where
  | sqlx (error : SqlxError)
  | notSupportedYet (msg : String)
  | tooManySqliteHostParameters (msg : String)
  | notImplemented (msg : String)
  | notFound (msg : String)
  | unexpectedState (msg : String)
  | urlFormat
  | timestampToDateTime (timestamp : Int)
  | httpClientInit
  | oauth (error description : String) (statusCode : Nat)
  | validation (message : String)
  | userNotFound
  | usernameBusy
  | emailInvalid
deriving DecidableEq, Repr

/-- `Option::ok_or`. -/
def okOr {α : Type} (e : Error) : Option α → Except Error α
  | some a => .ok a
  | none => .error e

@[simp] theorem okOr_eq_ok {α : Type} {e : Error} {o : Option α} {a : α} :
    okOr e o = .ok a ↔ o = some a := by
  cases o <;> simp [okOr]

/-- The White_Space property, which `str::trim` strips. -/
def isWhitespace (c : Char) : Bool :=
  let n := c.toNat
  (9 ≤ n && n ≤ 13) || n == 0x20 || n == 0x85 || n == 0xA0 || n == 0x1680 ||
    (0x2000 ≤ n && n ≤ 0x200A) || n == 0x2028 || n == 0x2029 || n == 0x202F || n == 0x205F ||
    n == 0x3000

def trimChars (cs : List Char) : List Char :=
  ((cs.dropWhile isWhitespace).reverse.dropWhile isWhitespace).reverse

def trim (s : String) : String := String.ofList (trimChars s.toList)

structure SafeHtml where
  val : String
deriving DecidableEq, Repr

structure Title where
  val : String
deriving DecidableEq, Repr

def Title.maxLength : Nat := 1024

def Title.tryFrom (value : String) : Except Error Title :=
  let value := trim value
  if value.toList.isEmpty then .error (.validation "Title can't be empty")
  else if Title.maxLength ≤ value.toList.length then
    .ok ⟨String.ofList (value.toList.take Title.maxLength)⟩
  else .ok ⟨value⟩

def Title.default : Title := ⟨"Title N/A"⟩

structure Username where
  val : String
  nonempty : val.toList ≠ []
  fits : val.toList.length ≤ 512
deriving DecidableEq

def Username.tryFrom (value : String) : Except Error Username :=
  let value := trim value
  if hempty : value.toList = [] then .error (.validation "Username can't be empty")
  else if hfits : value.toList.length ≤ 512 then .ok ⟨value, hempty, hfits⟩
  else .error (.validation "Username must be at most 512 characters")

structure Password where
  val : String
  nonempty : (trim val).toList ≠ []
  fits : val.toList.length < 512
deriving DecidableEq

def Password.tryFrom (value : String) : Except Error Password :=
  if hempty : (trim value).toList = [] then .error (.validation "Password can't be empty")
  else if hfits : value.toList.length < 512 then .ok ⟨value, hempty, hfits⟩
  else .error (.validation "Password must be shorter than 512 characters")

structure ClientName where
  val : String
  nonempty : val.toList ≠ []
  fits : val.utf8ByteSize < 1024
deriving DecidableEq

def ClientName.tryFrom (value : String) : Except Error ClientName :=
  let value := trim value
  if hempty : value.toList = [] then .error (.validation "Client name can't be empty")
  else if hfits : value.utf8ByteSize < 1024 then .ok ⟨value, hempty, hfits⟩
  else .error (.validation "Client name must be shorter than 1024")

/-- `DateTime<Utc>`, to the second, between `MIN_UTC` and `MAX_UTC`. -/
structure DateTime where
  timestamp : Int
  inRange : -8334601228800 ≤ timestamp ∧ timestamp ≤ 8210266876799
deriving DecidableEq

def DateTime.fromTimestampSecs (t : Int) : Option DateTime :=
  if h : -8334601228800 ≤ t ∧ t ≤ 8210266876799 then some ⟨t, h⟩ else none

/-- The `url` crate, as far as the handlers use it. -/
class UrlCrate (Url : Type) where
  parse : String → Option Url
  asStr : Url → String
  scheme : Url → String
  domain : Url → Option String
  hostStr : Url → Option String

/-- The other third-party functions: `slugify`, ammonia's `clean`, SHA-1 in hex. -/
structure Crates where
  slugify : String → String
  clean : String → String
  sha1Hex : String → String

def SafeHtml.ofStr (crates : Crates) (raw : String) : SafeHtml := ⟨crates.clean raw⟩

section url
variable {Url : Type} [UrlCrate Url]

/-- An article url is an http or https url. -/
structure ArticleUrl (Url : Type) [UrlCrate Url] where
  url : Url
  http : UrlCrate.scheme url = "http" ∨ UrlCrate.scheme url = "https"

def ArticleUrl.tryFrom (value : Url) : Except Error (ArticleUrl Url) :=
  if h : UrlCrate.scheme value = "http" ∨ UrlCrate.scheme value = "https" then .ok ⟨value, h⟩
  else .error (.validation "Article url must use http or https url scheme")

theorem ArticleUrl.tryFrom_ok {value : Url} {url : ArticleUrl Url} (h : tryFrom value = .ok url) :
    url.url = value := by
  unfold tryFrom at h
  split at h
  · cases h
    rfl
  · cases h

def hashUrl (crates : Crates) (url : Url) : String := crates.sha1Hex (UrlCrate.asStr url)

/-- What the scraper makes of a page. -/
structure Document (Url : Type) where
  title : Title
  contentHtml : SafeHtml
  contentText : String
  imageUrl : Option Url
  mimeType : Option String
  language : Option String
  publishedAt : Option DateTime
  readingTime : Int

end url

/-- Urls as texts that start with `http`, to run the program on. -/
abbrev HttpText := { s : String // s.toList.take 4 = "http".toList }

instance : UrlCrate HttpText where
  parse s := if h : s.toList.take 4 = "http".toList then some ⟨s, h⟩ else none
  asStr := Subtype.val
  scheme _ := "https"
  domain _ := none
  hostStr _ := none

/-- Slugs of the letters and digits in lower case. -/
def plainCrates : Crates where
  slugify s := String.ofList ((s.toList.filter Char.isAlphanum).map Char.toLower)
  clean := id
  sha1Hex := id

end Articler
