import Articler.Lib.LastSplit
import Articler.Types

/-! The title of a PDF: from its metadata, from the text of its first page, from the file name in
the url. Texts are lists of characters where they are cut. -/
namespace Articler.Scraper
open LastSplit

/-- The tables of Unicode that `str::to_lowercase` reads. -/
class Unicode where
  lower : Char → List Char
  cased : Char → Bool
  caseIgnorable : Char → Bool
  lower_ascii : ∀ c, c.toNat < 128 → lower c = [c.toLower]
  lower_ne_nil : ∀ c, lower c ≠ []
  eq_dot : ∀ c, '.' ∈ lower c → c = '.'

/-- A segment of an url's path, percent-encoded. -/
structure PathSegment where
  val : List Char
  ascii : ∀ c ∈ val, c.toNat < 128
  noSlash : '/' ∉ val

/-- `Url::path_segments`. -/
class UrlPath (Url : Type) where
  pathSegments : Url → Option (List PathSegment)

/-- What the extractor does with sizes in `f32`. -/
class F32 (F : Type) where
  zero : F
  tenth : F
  sub : F → F → F
  abs : F → F
  max : F → F → F
  lt : F → F → Bool

structure TextChar (F : Type) where
  char : Option Char
  size : F

/-- The characters of a block's lines. -/
structure TextBlock (F : Type) where
  lines : List (List (TextChar F))

/-- What mupdf reads in a document, `none` where it fails: the title in the metadata, the blocks of
the first page. -/
structure PdfDocument (F : Type) where
  metadataTitle : Option String
  firstPage : Option (List (TextBlock F))

inductive Error where
  | pdfTitleFromMetadata
  | pdfContentParsing
deriving DecidableEq, Repr

section lowercase
variable [Unicode]

def caseIgnorableThenCased (cs : List Char) : Bool :=
  match cs.dropWhile Unicode.caseIgnorable with
  | c :: _ => Unicode.cased c
  | [] => false

/-- `before` is the text before, backwards: a sigma at the end of a word has its own form. -/
def lowerFrom (before : List Char) : List Char → List Char
  | [] => []
  | c :: cs =>
    if c = 'Σ' then
      (if caseIgnorableThenCased before && !caseIgnorableThenCased cs then 'ς' else 'σ') ::
        lowerFrom (c :: before) cs
    else Unicode.lower c ++ lowerFrom (c :: before) cs

def toLowercase (text : List Char) : List Char := lowerFrom [] text

end lowercase

section path

/-- `Path::file_name` of a path without slashes. -/
def fileName (path : List Char) : Option (List Char) :=
  if path = [] ∨ path = ['.'] ∨ path = ['.', '.'] then none else some path

def rsplitFileAtDot (file : List Char) : Option (List Char) × Option (List Char) :=
  if file = ['.', '.'] then (some file, none)
  else match rsplitOnce '.' file with
    | some (before, after) => if before = [] then (some file, none) else (some before, some after)
    | none => (none, some file)

def fileStem (path : List Char) : Option (List Char) :=
  (fileName path).bind fun file => (rsplitFileAtDot file).1.or (rsplitFileAtDot file).2

def extension (path : List Char) : Option (List Char) :=
  (fileName path).bind fun file =>
    (rsplitFileAtDot file).1.bind fun _ => (rsplitFileAtDot file).2

end path

section content
variable {F : Type} [F32 F]

def extractBlockText (block : TextBlock F) : List Char :=
  block.lines.flatMap fun line => line.filterMap TextChar.char ++ [' ']

def getBlockFontSize (block : TextBlock F) : F :=
  block.lines.flatten.foldl (fun maxSize ch => if F32.lt maxSize ch.size then ch.size else maxSize)
    F32.zero

/-- U+0021 to U+007E. -/
def isAsciiGraphic (c : Char) : Bool := 0x21 ≤ c.toNat && c.toNat ≤ 0x7E

def looksLikeValidTitle (text : List Char) : Bool :=
  let text := trimChars text
  let charCount := text.length
  if charCount < 10 then false
  else if charCount / 3 < text.countP (· == ' ') then false
  else if charCount / 10 < text.countP (fun c => !isAsciiGraphic c && !isWhitespace c) then false
  else true

/-- One block more: the texts so far with their sizes, and the greatest size. -/
def scanBlock (scanned : List (List Char × F) × F) (block : TextBlock F) :
    List (List Char × F) × F :=
  let blockText := extractBlockText block
  if (trimChars blockText).isEmpty then scanned
  else
    let fontSize := getBlockFontSize block
    (if F32.lt F32.zero fontSize then scanned.1 ++ [(blockText, fontSize)] else scanned.1,
      F32.max scanned.2 fontSize)

def extractTitleFromContent (doc : PdfDocument F) : Except Error (Option String) :=
  match doc.firstPage with
  | none => .error .pdfContentParsing
  | some page =>
    let (blocks, maxFontSize) := page.foldl scanBlock ([], F32.zero)
    let titleBlocks := blocks.filter fun b => F32.lt (F32.abs (F32.sub b.2 maxFontSize)) F32.tenth
    let title := [' '].intercalate (titleBlocks.map fun b => trimChars b.1)
    if blocks.isEmpty || titleBlocks.isEmpty then .ok none
    else if looksLikeValidTitle title then .ok (some (String.ofList title))
    else .ok none

def extractTitleFromMetadata (doc : PdfDocument F) : Except Error (Option String) :=
  match doc.metadataTitle with
  | none => .error .pdfTitleFromMetadata
  | some title => if (trim title).toList.isEmpty then .ok none else .ok (some title)

end content

section title
variable {Url : Type} [UrlPath Url] {F : Type} [F32 F] [Unicode]

def lastSegment (url : Url) : Option PathSegment :=
  (UrlPath.pathSegments url).bind List.getLast?

def getFileName (url : Url) : Option (List Char) :=
  (lastSegment url).bind fun last => if last.val = [] then none else some last.val

/-- What stands before the last dot, in lower case. -/
def titleBase (title : String) : List Char :=
  toLowercase (((rsplitOnce '.' title.toList).map Prod.fst).getD title.toList)

/-- An error in the metadata or in the content is logged. -/
def getPdfTitle (url : Url) (doc : PdfDocument F) : Option Title :=
  let title := match extractTitleFromMetadata doc with
    | .ok title => title
    | .error _ => none
  let filename := ((getFileName url).map toLowercase).bind fileStem
  let rest := match extractTitleFromContent doc with
    | .ok (some text) => (Title.tryFrom text).toOption
    | _ => filename.bind fun name => (Title.tryFrom (String.ofList name)).toOption
  match title with
  | none => rest
  | some title =>
    if filename = some (titleBase title) then rest else (Title.tryFrom title).toOption

end title

end Articler.Scraper
