import Articler.Web.Ui

/-! The pages of `server::web::ui` that show the counters of the sidebar. -/
namespace Articler.Web
open Txn

structure ArticleMetadata where
  id : Int
  title : String
  imageUrl : Option String
  domain : String
  readingTime : Int
  isArchived : Bool
  isStarred : Bool
deriving DecidableEq, Repr

def ArticleMetadata.from (entry : EntryMetadataRow) : ArticleMetadata where
  id := entry.id
  title := entry.title
  imageUrl := entry.previewPicture
  domain := entry.domainName
  readingTime := entry.readingTime
  isArchived := entry.isArchived
  isStarred := entry.isStarred

structure ArticleCounters where
  unread : Int
  all : Int
  starred : Int
  archived : Int
deriving DecidableEq, Repr

/-- `ArticlesContext` and `PartialArticlesContext`, which have the same fields. -/
structure ArticlesContext where
  articles : List ArticleMetadata
  counters : ArticleCounters
  activeCategory : Category
deriving DecidableEq, Repr

structure PartialCategoriesContext where
  counters : ArticleCounters
  activeCategory : Category
deriving DecidableEq, Repr

/-- A rendered template with its context. -/
inductive Page where
  | pageArticles (context : ArticlesContext)
  | articlesAndCategories (context : ArticlesContext)
  | articleCards (context : ArticlesContext) (hxPushUrl : String)
  | categories (context : PartialCategoriesContext)
deriving DecidableEq, Repr

def Page.counters : Page → ArticleCounters
  | .pageArticles context | .articlesAndCategories context | .articleCards context _ =>
    context.counters
  | .categories context => context.counters

/-- The headers that htmx sends, as far as `search` looks at them. -/
structure HxHeaders where
  request : Bool
  boosted : Bool
  historyRestoreRequest : Bool

structure SearchQuery where
  q : String
  category : Option Category := none

section handlers
variable {m : Type → Type} [Acquire Db Error m] {K : Type} [Field K] [LinearOrder K]
  (eng : Engine K)

/-- Four statements on the connection it is given. -/
def ArticleCounters.load (userId : Int) : m ArticleCounters := do
  let unread ← Entries.count eng { userId, archive := some false }
  let all ← Entries.count eng { userId }
  let starred ← Entries.count eng { userId, starred := some true }
  let archived ← Entries.count eng { userId, archive := some true }
  pure { unread, all, starred, archived }

def loadArticles (userId : Int) (params : FindParams) (activeCategory : Category) :
    m ArticlesContext := transaction do
  let rows ← Entries.findAllMetadata eng params
  let counters ← ArticleCounters.load eng userId
  pure { articles := rows.map fun e => ArticleMetadata.from e.1, counters, activeCategory }

def main (userId : Int) (entriesFilter : FindParams) (activeCategory : Category) : m Page := do
  let context ← loadArticles eng userId entriesFilter activeCategory
  pure (.pageArticles context)

def index (userId : Int) : m Page :=
  main eng userId { userId, archive := some false, sort := some .created, order := some .desc }
    .unread

def all (userId : Int) : m Page :=
  main eng userId { userId, sort := some .created, order := some .desc } .all

def favourite (userId : Int) : m Page :=
  main eng userId { userId, starred := some true, sort := some .created, order := some .desc }
    .favourite

def archive (userId : Int) : m Page :=
  main eng userId { userId, archive := some true, sort := some .created, order := some .desc }
    .archived

def partialArticles (userId : Int) (category : Category) : m Page := do
  let context ← loadArticles eng userId (findParamsForCategory userId category) category
  pure (.articlesAndCategories context)

/-- The counters come from the pool, without a transaction. -/
def partialCategories (userId : Int) (activeCategory : Category) : m Page := do
  let counters ← ArticleCounters.load eng userId
  pure (.categories { counters, activeCategory })

/-- The parameters of a search: the category's, without its order. -/
def searchParams (userId : Int) (query : SearchQuery) : FindParams :=
  { findParamsForCategory userId (query.category.getD .all) with
    search := some query.q
    order := none
    sort := none }

def search (headers : HxHeaders) (uri : String) (userId : Int) (query : SearchQuery) : m Page :=
  let category := query.category.getD .all
  if headers.request && !headers.boosted && !headers.historyRestoreRequest then do
    let context ← loadArticles eng userId (searchParams userId query) category
    pure (.articleCards context uri)
  else main eng userId (searchParams userId query) category

end handlers
end Articler.Web
