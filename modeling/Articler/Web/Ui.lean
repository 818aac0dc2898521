import Articler.Repository.Accounts
import Articler.Repository.Entries

/-! The form handlers of `server::web::ui` and `cli::reload_articles`. What a handler
renders is the rows it hands to the template. -/
namespace Articler
open Txn

namespace Web

inductive Category where
  | all | unread | favourite | archived
deriving DecidableEq, Repr

inductive HxSource where
  | article
deriving DecidableEq, Repr

inductive Response where
  | seeOther
  | hxRedirect (location : String)
  | unprocessableEntity (message : String)
  | article (row : EntryRow)
  | articleCards (rows : List EntryMetadataRow)
deriving DecidableEq, Repr

def findParamsForCategory (userId : Int) (category : Category) : FindParams :=
  let all : FindParams := { userId, sort := some .created, order := some .desc }
  match category with
  | .all => all
  | .favourite => { all with starred := some true }
  | .archived => { all with archive := some true }
  | .unread => { all with archive := some false }

section handlers
variable {Url : Type} [UrlCrate Url] {m : Type → Type} [Acquire Db Error m] (crates : Crates)
  {K : Type} [Field K] [LinearOrder K] (eng : Engine K)

def renderArticle (userId articleId : Int) : m Response := do
  let found ← Entries.findById userId articleId
  match found with
  | some (article, _) => pure (.article article)
  | none => fail (.notFound "Article not found")

def renderArticleCards (userId : Int) (category : Category) : m Response := do
  let rows ← Entries.findAllMetadata eng (findParamsForCategory userId category)
  pure (.articleCards (rows.map Prod.fst))

/-- Where the form came from decides what is rendered; `category` is that of the referer. -/
def renderSource (source : Option HxSource) (userId articleId : Int) (category : Category) :
    m Response :=
  match source with
  | some .article => renderArticle userId articleId
  | none => renderArticleCards eng userId category

/-- An update of one flag; the clock is read for it and once more for `updated_at`. -/
def archiveUpdate (now updated : DateTime) (archived : Bool) : UpdateEntry where
  isArchived := some (some archived)
  archivedAt := some (if archived then some now.timestamp else none)
  updatedAt := updated.timestamp

def favouriteUpdate (now updated : DateTime) (starred : Bool) : UpdateEntry where
  isStarred := some (some starred)
  starredAt := some (if starred then some now.timestamp else none)
  updatedAt := updated.timestamp

def doArchive (now updated : DateTime) (articleId : Int) (archived : Bool)
    (source : Option HxSource) (userId : Int) (category : Category) : m Response := do
  let _ ← Entries.updateById userId articleId (archiveUpdate now updated archived)
  renderSource eng source userId articleId category

def doFavourite (now updated : DateTime) (articleId : Int) (starred : Bool)
    (source : Option HxSource) (userId : Int) (category : Category) : m Response := do
  let _ ← Entries.updateById userId articleId (favouriteUpdate now updated starred)
  renderSource eng source userId articleId category

def doEditTitle (now : DateTime) (articleId : Int) (title : String) (source : Option HxSource)
    (userId : Int) (category : Category) : m Response :=
  match Title.tryFrom title with
  | .error (.validation message) => pure (.unprocessableEntity message)
  | .error e => fail e
  | .ok title => do
    let _ ← Entries.updateById userId articleId
      { title := some (some title), updatedAt := now.timestamp }
    renderSource eng source userId articleId category

def doDelete (articleId : Int) (backLocation : Option String) (source : Option HxSource)
    (userId : Int) (category : Category) : m Response := do
  let _ ← Entries.deleteById userId articleId
  match source with
  | some .article => pure (.hxRedirect (backLocation.getD "/"))
  | none => renderArticleCards eng userId category

def doClientDelete (id userId : Int) : m Response := do
  let _ ← Clients.deleteById userId id
  pure .seeOther

def addedEntry (now : DateTime) (userId : Int) (url : ArticleUrl Url) (document : Document Url) :
    CreateEntry where
  userId := userId
  url := UrlCrate.asStr url.url
  hashedUrl := hashUrl crates url.url
  givenUrl := UrlCrate.asStr url.url
  hashedGivenUrl := hashUrl crates url.url
  title := document.title
  content := document.contentHtml
  contentText := document.contentText
  isArchived := false
  archivedAt := none
  isStarred := false
  starredAt := none
  createdAt := now.timestamp
  updatedAt := now.timestamp
  mimetype := document.mimeType
  language := document.language
  readingTime := document.readingTime
  domainName := ((UrlCrate.domain url.url).or (UrlCrate.hostStr url.url)).getD ""
  previewPicture := document.imageUrl.map UrlCrate.asStr
  originUrl := none
  publishedAt := document.publishedAt.map DateTime.timestamp
  publishedBy := none
  isPublic := none
  uid := none

def doAdd (now : DateTime) (extractOrFallback : ArticleUrl Url → Document Url) (url : String)
    (userId : Int) : m Response := do
  let url ← ofExcept (okOr .urlFormat (UrlCrate.parse url : Option Url))
  let url ← ofExcept (ArticleUrl.tryFrom url)
  let _ ← Entries.create (addedEntry crates now userId url (extractOrFallback url)) []
  pure .seeOther

end handlers
end Web

namespace Cli
variable {Url : Type} [UrlCrate Url] {m : Type → Type} [Acquire Db Error m]
  {K : Type} [Field K] [LinearOrder K] (eng : Engine K)

def reloadUpdate (now : DateTime) (doc : Document Url) : UpdateEntry where
  title := some (some doc.title)
  content := some (some doc.contentHtml)
  contentText := some (some doc.contentText)
  readingTime := some (some doc.readingTime)
  previewPicture := some (doc.imageUrl.map UrlCrate.asStr)
  publishedAt := some (doc.publishedAt.map DateTime.timestamp)
  updatedAt := now.timestamp

/-- The body of the loop; `extract` is `none` where the scraper fails. -/
def reloadEntry (now : Int → DateTime) (extract : ArticleUrl Url → Option (Document Url))
    (userId : Int) (e : EntryMetadataRow) : m Unit := do
  let url ← ofExcept (okOr .urlFormat (UrlCrate.parse e.url : Option Url))
  let url ← ofExcept (ArticleUrl.tryFrom url)
  match extract url with
  | some doc => do
    let _ ← Entries.updateById userId e.id (reloadUpdate (now e.id) doc)
  | none => pure ()

def reloadEntries (now : Int → DateTime) (extract : ArticleUrl Url → Option (Document Url))
    (userId : Int) : List EntryMetadataRow → m Unit
  | [] => pure ()
  | e :: rest => do
    reloadEntry now extract userId e
    reloadEntries now extract userId rest

/-- `scraper` is `none` where `Scraper::new` fails on the proxy that the environment names. -/
def reloadArticles (now : Int → DateTime) (scraper : Option (ArticleUrl Url → Option (Document Url)))
    (username : String) : m Unit := transaction do
  let found ← Users.findByUsername username
  let user ← ofExcept (okOr .userNotFound found)
  let rows ← Entries.findAllMetadata eng { userId := user.id }
  let extract ← ofExcept (okOr .httpClientInit scraper)
  reloadEntries now extract user.id (rows.map Prod.fst)

end Cli
end Articler
