import Articler.Scraper.Pdf
import Articler.Titles

/-! `article_scraper`: the document that is made of what a web server answers. What third parties
read in pages and files is taken as `Tools`. -/
namespace Articler.Scraper

inductive ArticleMimeType where
  | pdf
  | html
deriving DecidableEq

def ArticleMimeType.toString : ArticleMimeType → String
  | .pdf => "application/pdf"
  | .html => "text/html"

def ArticleMimeType.ofStr (s : String) : Option ArticleMimeType :=
  if "text/html".toList.isPrefixOf s.toList then some .html
  else if "application/pdf".toList.isPrefixOf s.toList then some .pdf
  else none

inductive ExtractError where
  | wordCountOverflow
  | readabilityInit
  | readabilityParse
  | httpRequest
  | httpResponseParsing
  | mimeTypeNotSupported (mimeType : String)
deriving DecidableEq

/-- What `Readability` finds in a page. -/
structure Article where
  title : String
  content : String
  textContent : String
  image : Option String
  lang : Option String
  publishedTime : Option String

/-- With the pages, `none` where they cannot be loaded; a page that fails is `none` among them. -/
structure PdfFile (F : Type) extends PdfDocument F where
  pages : Option (List (Option (List (TextBlock F))))

/-- The third-party readers: `Readability::new` and `parse`, `dateparser::parse`,
`mupdf::Document::from_bytes`, and whether each segment that `WordSegmenter` cuts is like a word.
Words are not empty and do not overlap. -/
structure Tools (R F : Type) where
  newReadability : String → String → Option R
  parseArticle : R → Option Article
  parseDate : String → Option DateTime
  openPdf : List UInt8 → Option (PdfFile F)
  wordLike : String → List Bool
  words_le : ∀ text, (wordLike text).count true ≤ text.toList.length

/-- What a web server answers: the header `Content-Type`, the body as a text and as it is, `none`
where reading it fails. -/
structure Response where
  contentType : Option String
  text : Option String
  bytes : Option (List UInt8)

section reading
variable {R F : Type} (tools : Tools R F)

def averageReadingSpeed : Int := 230

def countWords (text : String) : Nat := (tools.wordLike text).count true

def readingTime (text : String) : Except ExtractError Int :=
  if countWords tools text ≤ 2147483647 then
    .ok ((countWords tools text : Int).tdiv averageReadingSpeed)
  else .error .wordCountOverflow

/-- The reading time that is shown of a text; none is of one that is too long to count. -/
def minutes (text : String) : Int := (readingTime tools text).toOption.getD 0

theorem minutes_empty : minutes tools "" = 0 := by
  have hwords : countWords tools "" = 0 := Nat.le_zero.mp (tools.words_le "")
  simp [minutes, readingTime, hwords, Except.toOption]

theorem minutes_bounds (text : String) : 0 ≤ minutes tools text ∧ minutes tools text ≤ 9336902 := by
  unfold minutes readingTime
  split
  · rename_i hfits
    have hdiv : (countWords tools text : Int).tdiv averageReadingSpeed =
        (countWords tools text : Int) / 230 := Int.tdiv_eq_ediv_of_nonneg (by omega)
    dsimp only [Except.toOption, Option.getD_some]
    rw [hdiv]
    omega
  · decide

theorem minutes_ok {text : String} {t : Int} (h : readingTime tools text = .ok t) :
    t = minutes tools text := by
  simp [minutes, h, Except.toOption]

end reading

section extract
variable {Url : Type} [UrlCrate Url] [UrlPath Url] {R F : Type} [F32 F] [Unicode]
  (crates : Crates) (tools : Tools R F)

/-- The last segment of the path, else the host, else all of the url. -/
def extractTitle (url : Url) : Title :=
  let segment := (lastSegment url).bind fun last =>
    if last.val = [] then none else some (String.ofList last.val)
  let s := ((segment.or (UrlCrate.domain url)).or (UrlCrate.hostStr url)).getD (UrlCrate.asStr url)
  (Title.tryFrom s).toOption.getD .default

omit [F32 F] [Unicode] in
def HtmlExtractor.extract (url : Url) (data : String) : Except ExtractError (Document Url) := do
  let some readability := tools.newReadability data (UrlCrate.asStr url)
    | throw .readabilityInit
  let some article := tools.parseArticle readability | throw .readabilityParse
  let readingTime ← readingTime tools article.textContent
  return {
    title := (Title.tryFrom article.title).toOption.getD (extractTitle url)
    contentHtml := .ofStr crates article.content
    contentText := article.textContent
    imageUrl := article.image.bind UrlCrate.parse
    mimeType := some ArticleMimeType.html.toString
    language := article.lang
    publishedAt := article.publishedTime.bind tools.parseDate
    readingTime }

def extractRawText (doc : PdfFile F) : Except Error (Option String) :=
  match doc.pages with
  | none => .error .pdfContentParsing
  | some pages =>
    let text := pages.reduceOption.flatMap fun blocks => blocks.flatMap fun block =>
      extractBlockText block ++ ['\n']
    if text.isEmpty then .ok none else .ok (some (String.ofList text))

/-- The stem of the file's name in the url, in lower case. -/
def stemTitle (url : Url) : Option Title :=
  (((getFileName url).map toLowercase).bind fileStem).bind fun s =>
    (Title.tryFrom (String.ofList s)).toOption

def pdfDocument (title : Title) (contentText : String) (readingTime : Int) : Document Url where
  title := title
  contentHtml := ⟨""⟩
  contentText := contentText
  imageUrl := none
  mimeType := some ArticleMimeType.pdf.toString
  language := none
  publishedAt := none
  readingTime := readingTime

/-- A file that is no PDF, or whose text fails, has no text. -/
def PdfExtractor.extract (url : Url) (data : List UInt8) : Document Url :=
  match tools.openPdf data with
  | none => pdfDocument ((stemTitle url).getD (extractTitle url)) "" 0
  | some doc =>
    let contentText := match extractRawText doc with
      | .ok (some text) => text
      | _ => ""
    pdfDocument (((getPdfTitle url doc.toPdfDocument).or (stemTitle url)).getD (extractTitle url))
      contentText (minutes tools contentText)

/-- `fetch` is `none` where the request fails. -/
def extract (fetch : Url → Option Response) (url : ArticleUrl Url) :
    Except ExtractError (Document Url) := do
  let some response := fetch url.url | throw .httpRequest
  let mimeType := response.contentType.getD ArticleMimeType.html.toString
  match ArticleMimeType.ofStr mimeType with
  | none => throw (.mimeTypeNotSupported mimeType)
  | some .html => do
    let some text := response.text | throw .httpResponseParsing
    HtmlExtractor.extract crates tools url.url text
  | some .pdf => do
    let some bytes := response.bytes | throw .httpResponseParsing
    return PdfExtractor.extract tools url.url bytes

def extractOrFallback (fetch : Url → Option Response) (url : ArticleUrl Url) : Document Url :=
  match extract crates tools fetch url with
  | .ok document => document
  | .error _ =>
    { title := extractTitle url.url
      contentHtml := ⟨""⟩
      contentText := ""
      imageUrl := none
      mimeType := none
      language := none
      publishedAt := none
      readingTime := 0 }

end extract
end Articler.Scraper
