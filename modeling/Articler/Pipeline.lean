import Articler.Edits
import Articler.FileNames
import Articler.Repository.Columns
import Articler.Scraper.Extract

/-! What is stored of an article that was scraped, whatever the web server answered and whatever
has been asked of this one since. -/
namespace Articler
open Txn Rows Scraper

def Title.Fits (t : Title) : Prop := t.val.toList ≠ [] ∧ t.val.toList.length ≤ Title.maxLength

theorem Title.tryFrom_fits {s : String} {t : Title} (h : Title.tryFrom s = .ok t) : t.Fits :=
  Title.tryFrom_length h

theorem Title.toOption_fits {s : String} {t : Title} (h : (Title.tryFrom s).toOption = some t) :
    t.Fits := by
  cases hs : Title.tryFrom s with
  | error e => simp [hs, Except.toOption] at h
  | ok title =>
    obtain rfl : title = t := by simpa [hs, Except.toOption] using h
    exact Title.tryFrom_fits hs

theorem Title.Fits.getD {t : Title} (h : t.Fits) {found : Option Title}
    (hfound : ∀ t, found = some t → t.Fits) : (found.getD t).Fits := by
  cases found with
  | none => exact h
  | some t => exact hfound t rfl

def Crates.Cleaned (crates : Crates) (content : String) : Prop :=
  content = "" ∨ ∃ raw, content = crates.clean raw

section documents
variable {Url : Type} [UrlCrate Url] [UrlPath Url] {R F : Type} [F32 F] [Unicode]
  {crates : Crates} {tools : Tools R F}

/-- What every document has. -/
structure Document.Made (crates : Crates) (tools : Tools R F) (d : Document Url) : Prop where
  title : d.title.Fits
  content : crates.Cleaned d.contentHtml.val
  readingTime : d.readingTime = minutes tools d.contentText
  mimeType : ∀ s ∈ d.mimeType, ∃ mimeType : ArticleMimeType, s = mimeType.toString

omit [Unicode] in
theorem extractTitle_fits (url : Url) : (extractTitle url).Fits := by
  have hdefault : Title.default.Fits := ⟨by decide, by decide⟩
  exact hdefault.getD fun _ => Title.toOption_fits

omit [UrlCrate Url] in
theorem stemTitle_fits {url : Url} {t : Title} (h : stemTitle url = some t) : t.Fits := by
  obtain ⟨s, -, ht⟩ := Option.bind_eq_some_iff.mp h
  exact Title.toOption_fits ht

omit [UrlCrate Url] in
theorem getPdfTitle_fits {url : Url} {doc : PdfDocument F} {t : Title}
    (h : getPdfTitle url doc = some t) : t.Fits := by
  unfold getPdfTitle at h
  dsimp only at h
  split at h
  · split at h
    · exact Title.toOption_fits h
    · exact stemTitle_fits h
  · split at h
    · split at h
      · exact Title.toOption_fits h
      · exact stemTitle_fits h
    · exact Title.toOption_fits h

theorem pdf_made (url : Url) (data : List UInt8) :
    (PdfExtractor.extract tools url data).Made crates tools := by
  unfold PdfExtractor.extract
  split
  · exact ⟨(extractTitle_fits url).getD fun _ => stemTitle_fits, .inl rfl,
      (minutes_empty tools).symm, fun s hs => ⟨.pdf, (Option.some.inj hs).symm⟩⟩
  · refine ⟨(extractTitle_fits url).getD fun t ht => ?_, .inl rfl, rfl,
      fun s hs => ⟨.pdf, (Option.some.inj hs).symm⟩⟩
    rcases Option.or_eq_some_iff.mp ht with hfound | ⟨-, hstem⟩
    · exact getPdfTitle_fits hfound
    · exact stemTitle_fits hstem

omit [F32 F] [Unicode] in
theorem html_made {url : Url} {data : String} {d : Document Url}
    (h : HtmlExtractor.extract crates tools url data = .ok d) : d.Made crates tools := by
  unfold HtmlExtractor.extract at h
  cases hnew : tools.newReadability data (UrlCrate.asStr url) with
  | none => simp [hnew] at h
  | some readability =>
  cases harticle : tools.parseArticle readability with
  | none => simp [hnew, harticle] at h
  | some article =>
  cases htime : readingTime tools article.textContent with
  | error e => simp [hnew, harticle, htime] at h
  | ok t =>
    simp only [hnew, harticle, htime] at h
    cases h
    exact ⟨(extractTitle_fits url).getD fun _ => Title.toOption_fits, .inr ⟨_, rfl⟩, minutes_ok tools htime,
      fun s hs => ⟨.html, (Option.some.inj hs).symm⟩⟩

theorem extract_made {fetch : Url → Option Response} {url : ArticleUrl Url} {d : Document Url}
    (h : extract crates tools fetch url = .ok d) : d.Made crates tools := by
  unfold extract at h
  cases hfetch : fetch url.url with
  | none => simp [hfetch] at h
  | some response =>
    simp only [hfetch] at h
    cases hmime : ArticleMimeType.ofStr (response.contentType.getD ArticleMimeType.html.toString) with
    | none => simp [hmime] at h
    | some mimeType =>
      simp only [hmime] at h
      cases mimeType with
      | html =>
        cases htext : response.text with
        | none => simp [htext] at h
        | some text =>
          simp only [htext] at h
          exact html_made h
      | pdf =>
        cases hbytes : response.bytes with
        | none => simp [hbytes] at h
        | some bytes =>
          simp only [hbytes] at h
          cases h
          exact pdf_made url.url bytes

omit [UrlCrate Url] [UrlPath Url] [F32 F] [Unicode] in
theorem blank_made {title : Title} (h : title.Fits) :
    Document.Made crates tools (⟨title, ⟨""⟩, "", none, none, none, none, 0⟩ : Document Url) where
  title := h
  content := .inl rfl
  readingTime := (minutes_empty tools).symm
  mimeType := nofun

theorem extractOrFallback_made (fetch : Url → Option Response) (url : ArticleUrl Url) :
    (extractOrFallback crates tools fetch url).Made crates tools := by
  unfold extractOrFallback
  cases hd : extract crates tools fetch url with
  | ok d => exact extract_made hd
  | error e => exact blank_made (extractTitle_fits url.url)

end documents

section articles
variable {Url : Type} [UrlCrate Url] [UrlPath Url] {R F : Type} [F32 F] [Unicode]

/-- What can be said of an article at any time: it is of an http or https url, its title fits, its
HTML came out of the sanitizer, its reading time is that of its text. -/
structure EntryRecord.Scraped (Url : Type) [UrlCrate Url] (crates : Crates) (tools : Tools R F)
    (e : EntryRecord) : Prop where
  link : ∃ u : ArticleUrl Url, e.url = UrlCrate.asStr u.url ∧ e.givenUrl = e.url ∧
    e.hashedUrl = hashUrl crates u.url ∧ e.hashedGivenUrl = e.hashedUrl ∧
      e.domainName = ((UrlCrate.domain u.url).or (UrlCrate.hostStr u.url)).getD ""
  title : Title.Fits ⟨e.title⟩
  content : crates.Cleaned e.content
  readingTime : e.readingTime = minutes tools e.contentText
  mimeType : ∀ s ∈ e.mimetype, ∃ mimeType : ArticleMimeType, s = mimeType.toString
  picture : ∀ s ∈ e.previewPicture, ∃ u : Url, s = UrlCrate.asStr u

/-- The job takes its documents from the scraper, whatever is fetched. -/
def Job.Scrapes (crates : Crates) (tools : Tools R F) : Job Url → Prop
  | .api _ (.postEntries _ _ extract _) | .web _ (.doAdd _ extract _) =>
    ∃ fetch, extract = extractOrFallback crates tools fetch
  | .command (.reloadArticles _ scraper _) => ∀ extract, scraper = some extract →
    ∃ fetch, extract = fun url => (Scraper.extract crates tools fetch url).toOption
  | _ => True

variable {K : Type} [Field K] [LinearOrder K] {config : Server.Config K} {tools : Tools R F}

omit [Field K] [LinearOrder K] in
/-- A row that a job inserts. -/
theorem Job.adds_scraped {job : Job Url} (hjob : job.Scrapes config.crates tools) {entry : CreateEntry}
    (h : job.Adds config entry) (id : Int) : (entry.record id).Scraped Url config.crates tools := by
  have hpicture (d : Document Url) :
      ∀ s ∈ d.imageUrl.map UrlCrate.asStr, ∃ u : Url, s = UrlCrate.asStr u := by
    intro s hs
    obtain ⟨u, -, rfl⟩ := Option.mem_map.mp hs
    exact ⟨u, rfl⟩
  cases job with
  | api u handler =>
    cases handler with
    | postEntries now uid extract addEntry =>
      obtain ⟨fetch, rfl⟩ := hjob
      obtain ⟨url, -, rfl⟩ := h
      have hmade : (extractOrFallback config.crates tools fetch url).Made config.crates tools :=
        extractOrFallback_made fetch url
      exact ⟨⟨url, rfl, rfl, rfl, rfl, rfl⟩, hmade.title, hmade.content, hmade.readingTime,
        hmade.mimeType, hpicture _⟩
    | _ => exact h.elim
  | web u handler =>
    cases handler with
    | doAdd now extract text =>
      obtain ⟨fetch, rfl⟩ := hjob
      obtain ⟨url, rfl⟩ := h
      have hmade : (extractOrFallback config.crates tools fetch url).Made config.crates tools :=
        extractOrFallback_made fetch url
      exact ⟨⟨url, rfl, rfl, rfl, rfl, rfl⟩, hmade.title, hmade.content, hmade.readingTime,
        hmade.mimeType, hpicture _⟩
    | _ => exact h.elim
  | _ => exact h.elim

/-- What an update may set. -/
structure UpdateEntry.Scraped (Url : Type) [UrlCrate Url] (crates : Crates) (tools : Tools R F)
    (update : UpdateEntry) : Prop where
  title : ∀ t, update.title = some (some t) → t.Fits
  content : ∀ c, update.content = some (some c) → crates.Cleaned c.val
  texts : update.contentText = none ∧ update.readingTime = none ∨
    ∃ text, update.contentText = some (some text) ∧ update.readingTime = some (some (minutes tools text))
  picture : ∀ s, update.previewPicture = some (some s) → ∃ u : Url, s = UrlCrate.asStr u

omit [UrlPath Url] [F32 F] [Unicode] in
theorem UpdateEntry.Scraped.updated {crates : Crates} {update : UpdateEntry}
    (h : update.Scraped Url crates tools) {e : EntryRecord} (he : e.Scraped Url crates tools) :
    (update.updated e).Scraped Url crates tools where
  link := he.link
  title := by
    rcases htitle : update.title with _ | _ | t
    · simpa [UpdateEntry.updated, htitle] using he.title
    · simpa [UpdateEntry.updated, htitle] using he.title
    · simpa [UpdateEntry.updated, htitle] using h.title t htitle
  content := by
    rcases hcontent : update.content with _ | _ | c
    · simpa [UpdateEntry.updated, hcontent] using he.content
    · simpa [UpdateEntry.updated, hcontent] using he.content
    · simpa [UpdateEntry.updated, hcontent] using h.content c hcontent
  readingTime := by
    rcases h.texts with ⟨htext, htime⟩ | ⟨text, htext, htime⟩
    · simpa [UpdateEntry.updated, htext, htime] using he.readingTime
    · simp [UpdateEntry.updated, htext, htime]
  mimeType := he.mimeType
  picture := by
    rcases hpicture : update.previewPicture with _ | s
    · simpa [UpdateEntry.updated, hpicture] using he.picture
    · intro t ht
      simp only [UpdateEntry.updated, hpicture, Option.getD_some] at ht
      exact h.picture t (hpicture.trans (congrArg some ht))

omit [UrlPath Url] [Unicode] in
theorem repoUpdate_fits {crates : Crates} {request : Api.UpdateEntry Url} {now : DateTime}
    {uid : String} {update : UpdateEntry} (h : request.repoUpdate crates now uid = .ok update)
    {t : Title} (ht : update.title = some (some t)) : t.Fits := by
  unfold Api.UpdateEntry.repoUpdate at h
  cases hrequest : request.title with
  | none =>
    rw [hrequest] at h
    cases h
    cases ht
  | some value =>
    rw [hrequest] at h
    obtain ⟨title, htitle, h⟩ := bind_eq_ok.mp h
    cases h
    obtain rfl : title = some (some t) := ht
    cases hvalue : Title.tryFrom value with
    | error e =>
      rw [hvalue] at htitle
      cases htitle
    | ok t =>
      rw [hvalue] at htitle
      cases htitle
      exact Title.tryFrom_fits hvalue

omit [Field K] [LinearOrder K] in
theorem Job.edits_scraped {job : Job Url} (hjob : job.Scrapes config.crates tools) {u id : Int}
    {update : UpdateEntry} (h : job.Edits config u id update) :
    update.Scraped Url config.crates tools := by
  cases job with
  | api owner handler =>
    cases handler with
    | patchEntry now uid entryId request =>
      obtain ⟨-, -, hupdate⟩ := h
      have hfits := fun t => repoUpdate_fits (t := t) hupdate
      obtain ⟨title, rest, hrest, rfl⟩ := Api.UpdateEntry.repoUpdate_ok hupdate
      cases hrest
      refine ⟨hfits, fun c hc => ?_, .inl ⟨rfl, rfl⟩, fun s hs => ?_⟩
      · obtain ⟨raw, -, hraw⟩ := Option.map_eq_some_iff.mp hc
        cases hraw
        exact .inr ⟨raw, rfl⟩
      · obtain ⟨u, -, hu⟩ := Option.map_eq_some_iff.mp hs
        cases hu
        exact ⟨u, rfl⟩
    | _ => exact h.elim
  | web owner handler =>
    cases handler with
    | doArchive | doFavourite =>
      obtain ⟨-, -, rfl⟩ := h
      exact ⟨nofun, nofun, .inl ⟨rfl, rfl⟩, nofun⟩
    | doEditTitle now articleId text source category =>
      obtain ⟨-, -, title, htitle, rfl⟩ := h
      refine ⟨fun t ht => ?_, nofun, .inl ⟨rfl, rfl⟩, nofun⟩
      cases ht
      exact Title.tryFrom_fits htitle
    | _ => exact h.elim
  | command command =>
    cases command with
    | reloadArticles now scraper username =>
      obtain ⟨extract, url, doc, hscraper, hdoc, rfl⟩ := h
      obtain ⟨fetch, rfl⟩ := hjob extract hscraper
      have hmade : doc.Made config.crates tools := by
        cases hextract : Scraper.extract config.crates tools fetch url with
        | error e => simp [hextract, Except.toOption] at hdoc
        | ok d =>
          obtain rfl : d = doc := by simpa [hextract, Except.toOption] using hdoc
          exact extract_made hextract
      refine ⟨fun t ht => ?_, fun c hc => ?_, .inr ⟨doc.contentText, rfl, ?_⟩, fun s hs => ?_⟩
      · cases ht
        exact hmade.title
      · cases hc
        exact hmade.content
      · rw [← hmade.readingTime]
        rfl
      · obtain ⟨u, -, rfl⟩ := Option.map_eq_some_iff.mp (Option.some.inj hs)
        exact ⟨u, rfl⟩
    | _ => exact h.elim
  | _ => exact h.elim

def Db.Scraped (Url : Type) [UrlCrate Url] (crates : Crates) (tools : Tools R F) (db : Db) : Prop :=
  ∀ e ∈ db.entries, e.Scraped Url crates tools

theorem Job.scraped {job : Job Url} (hjob : job.Scrapes config.crates tools) {s : Db}
    (hs : s.Scraped Url config.crates tools) :
    ((job.run config : Run Db Error (Job.Reply Url)) s).2.Scraped Url config.crates tools := by
  have hbuilt : Built (fun s t => s.Scraped Url config.crates tools → t.Scraped Url config.crates tools)
      (job.run config : Run Db Error (Job.Reply Url)) := by
    refine job.built_rows
      (G := fun s t => s.Scraped Url config.crates tools → t.Scraped Url config.crates tools) (fun _ h => h) (fun k hk s t hw hs e he => ?_) config
      (fun entry hadd s id t hi hs e he => ?_) (fun u id update hedit s n t hu hs e he => ?_)
    · exact hs e (hw.mem_entries hk he)
    · obtain ⟨-, -, -, rfl⟩ := Db.insertEntry_ok hi
      rcases List.mem_append.mp he with he | he
      · exact hs e he
      · rw [List.mem_singleton.mp he]
        exact adds_scraped hjob hadd _
    · obtain ⟨-, -, fts, rfl⟩ := Db.updateEntries_updated hu
      obtain ⟨d, hd, rfl⟩ := List.mem_map.mp he
      split
      · exact (edits_scraped hjob hedit).updated (hs d hd)
      · exact hs d hd
  exact hbuilt.invariant hs

omit [F32 F] [Unicode] [UrlPath Url] in
theorem EntryRecord.Scraped.timed {crates : Crates} {e : EntryRecord} (h : e.Scraped Url crates tools) :
    fitsI32 e.readingTime = true := by
  obtain ⟨hlow, hhigh⟩ := minutes_bounds tools e.contentText
  rw [h.readingTime]
  simp only [fitsI32, Bool.and_eq_true, decide_eq_true_eq]
  omega

omit [F32 F] [Unicode] [UrlPath Url] in
/-- Both listings of scraped articles read every column by its name. -/
theorem Db.Scraped.findAllNamed {crates : Crates} {db : Db} (h : db.Scraped Url crates tools)
    (eng : Engine K) (params : FindParams) :
    (Entries.findAllNamed eng params : Run Db Error _) db = (Entries.findAll eng params : Run Db Error _) db ∧
      (Entries.findAllMetadataNamed eng params : Run Db Error _) db =
        (Entries.findAllMetadata eng params : Run Db Error _) db :=
  ⟨Entries.findAllNamed_eq fun e he => (h e he).timed,
    Entries.findAllMetadataNamed_eq fun e he => (h e he).timed⟩

/-- Whatever web servers answer, whatever is asked of this one, and however it is interleaved, the
articles are as the scraper makes them. -/
theorem Job.articles_scraped (config : Server.Config K) (tools : Tools R F) (jobs : Nat → Job Url)
    (hjobs : ∀ i, (jobs i).Scrapes config.crates tools) {db : Db}
    (hdb : db.Scraped Url config.crates tools) {s : World Db Error (Job.Reply Url)}
    (hs : World.Reached db (Job.served config jobs) s) :
    ∀ e ∈ s.db.entries, e.Scraped Url config.crates tools := by
  have hsingle (i : Nat) : Single (jobs i).atOnce (Job.served config jobs i)
    (Job.alone config jobs i) := (jobs i).single config
  obtain ⟨-, hserial⟩ := World.Reached.in_order hsingle hs
  rw [hserial]
  exact inOrder_keeps (I := Db.Scraped Url config.crates tools)
    (fun i _ s hs => scraped (hjobs i) hs) hdb

end articles

/-- The only path is the one of a site. -/
instance : UrlPath HttpText where
  pathSegments _ := some [⟨[], nofun, nofun⟩]

/-- Every page is about the same, in words of one letter. -/
def plainTools : Tools String ℚ where
  newReadability data _ := some data
  parseArticle data := some ⟨"Joe Pass", data, "a b", none, some "en", none⟩
  parseDate _ := none
  openPdf _ := none
  wordLike text := text.toList.map Char.isAlphanum
  words_le _ := List.count_le_length.trans (List.length_map _).le

/-- A page is posted while somebody signs in. -/
def fetching : Nat → Job HttpText
  | 0 => .api 1 (.postEntries ⟨90, by decide⟩ "uid" (extractOrFallback Server.plainConfig.crates plainTools
      fun _ => some ⟨some "text/html; charset=utf-8", some "<p>a b</p>", none⟩)
      { url := ⟨"https://joe.org/", by decide⟩ })
  | _ => .login

theorem Job.articles_scraped_fetching :
    ∃ s : World Db Error (Job.Reply HttpText),
      World.Reached desk.val (Job.served Server.plainConfig fetching) s ∧
      (s.db.entries.map EntryRecord.title) = ["Joe Pass"] ∧
      ∀ e ∈ s.db.entries, e.Scraped HttpText Server.plainConfig.crates plainTools := by
  have hstart : World.Reached desk.val (Job.served Server.plainConfig fetching)
    (World.start desk.val (Job.served Server.plainConfig fetching)) := .refl
  have hentry := (hstart.step 0 (.enter rfl)).step 0 (.change rfl (by decide) rfl (.inl rfl))
  have hread := (hentry.step 0 (.look rfl rfl)).step 0 (.look rfl rfl)
  have hdone := hread.step 0 (.commit rfl rfl)
  refine ⟨_, hdone, rfl, articles_scraped Server.plainConfig plainTools fetching ?_ ?_ hdone⟩
  · intro i
    cases i with
    | zero => exact ⟨_, rfl⟩
    | succ i => exact trivial
  · exact fun e he => absurd he List.not_mem_nil

end Articler
