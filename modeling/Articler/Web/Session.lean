import Articler.Logins
import Articler.Web.Articles
import Articler.Web.Clients

/-! What a browser sees before it is logged in, and the page of one article. -/
namespace Articler.Web
open Txn
variable {m : Type → Type} [Acquire Db Error m]

structure PartialArticleContext where
  id : Int
  title : String
  content : String
  domain : String
  url : String
  readingTime : Int
  isArchived : Bool
  isStarred : Bool
  source : HxSource
deriving DecidableEq, Repr

structure ArticleContext where
  article : PartialArticleContext
  backLocation : Option String
deriving DecidableEq, Repr

def PartialArticleContext.from (article : EntryRow) : PartialArticleContext where
  id := article.id
  title := article.title
  content := article.content
  domain := article.domainName
  url := article.url
  readingTime := article.readingTime
  isArchived := article.isArchived
  isStarred := article.isStarred
  source := .article

/-- `referer` is the header, if it can be read. -/
def article (id : Int) (referer : Option String) (userId : Int) : m ArticleContext := do
  match ← Entries.findById userId id with
  | some (article, _) =>
    pure { article := .from article, backLocation := some (referer.getD "/") }
  | none => fail (.notFound "Article not found")

/-- A form to fill in, or where the browser is sent instead. -/
inductive Entrance where
  | form (template : String)
  | found (location : String)
deriving DecidableEq, Repr

def login : m Entrance := do
  let userCount ← Users.count
  if userCount = 0 then pure (.found "/setup") else pure (.form "login")

def setup : m Entrance := do
  let count ← Users.count
  if 0 < count then pure (.found "/login") else pure (.form "setup")

end Articler.Web
