import Articler.ReadBack
import Articler.Updates

/-! Where the text of an entry comes from: its content, the text that is indexed and the
reading time are written apart, but belong to one scraped document. -/
namespace Articler
open Txn Rows Relation

section texts
variable {Url : Type} [UrlCrate Url]

/-- The entry holds the text of the document. -/
structure EntryRecord.Holds (e : EntryRecord) (d : Document Url) : Prop where
  content : e.content = d.contentHtml.val
  contentText : e.contentText = d.contentText
  readingTime : e.readingTime = d.readingTime

/-- Two states of one entry, with the same text. -/
structure EntryRecord.SameText (e e' : EntryRecord) : Prop where
  id : e'.id = e.id
  url : e'.url = e.url
  content : e'.content = e.content
  contentText : e'.contentText = e.contentText
  readingTime : e'.readingTime = e.readingTime

theorem EntryRecord.SameText.refl (e : EntryRecord) : e.SameText e := ⟨rfl, rfl, rfl, rfl, rfl⟩

theorem EntryRecord.SameText.trans {a b c : EntryRecord} (hab : a.SameText b)
    (hbc : b.SameText c) : a.SameText c :=
  ⟨hbc.id.trans hab.id, hbc.url.trans hab.url, hbc.content.trans hab.content,
    hbc.contentText.trans hab.contentText, hbc.readingTime.trans hab.readingTime⟩

omit [UrlCrate Url] in
theorem EntryRecord.SameText.holds {e e' : EntryRecord} (h : e.SameText e') {d : Document Url}
    (hd : e.Holds d) : e'.Holds d :=
  ⟨h.content.trans hd.content, h.contentText.trans hd.contentText,
    h.readingTime.trans hd.readingTime⟩

/-- What the request scrapes from the page that the text of a url names. -/
def Request.Scraped : Request Url → String → Document Url → Prop
  | .postEntries _ _ extract _ _, s, d => ∃ url, s = UrlCrate.asStr url.url ∧ d = extract url
  | .doAdd _ extract _ _, s, d => ∃ url, s = UrlCrate.asStr url.url ∧ d = extract url
  | .reloadArticles _ scraper _, s, d => ∃ extract url,
    scraper = some extract ∧ UrlCrate.parse s = some url.url ∧ extract url = some d
  | _, _, _ => False

/-- Every entry keeps its text, or holds a document that the request scraped. -/
def TextStep (r : Request Url) (s t : Db) : Prop :=
  ∀ e' ∈ t.entries, (∃ e ∈ s.entries, e.SameText e') ∨ ∃ d, r.Scraped e'.url d ∧ e'.Holds d

variable {crates : Crates} {r : Request Url} {s t : Db}

theorem TextStep.of_mem (h : ∀ e' ∈ t.entries, e' ∈ s.entries) : TextStep r s t :=
  fun e' he => .inl ⟨e', h e' he, .refl e'⟩

theorem TextStep.refl (s : Db) : TextStep r s s := .of_mem fun _ he => he

theorem TextStep.trans {u : Db} (hst : TextStep r s t) (htu : TextStep r t u) :
    TextStep r s u := by
  intro c hc
  rcases htu c hc with ⟨b, hb, hbc⟩ | hd
  · rcases hst b hb with ⟨a, ha, hab⟩ | ⟨d, hscraped, hd⟩
    · exact .inl ⟨a, ha, hab.trans hbc⟩
    · exact .inr ⟨d, hbc.url ▸ hscraped, hbc.holds hd⟩
  · exact .inr hd

theorem Request.insert_text {entry : CreateEntry} (h : r.Inserts crates entry) {id : Int}
    (hi : s.insertEntry entry.record = .ok (id, t)) : TextStep r s t := by
  obtain ⟨-, -, -, rfl⟩ := Db.insertEntry_ok hi
  intro e he
  rcases List.mem_append.mp he with he | he
  · exact .inl ⟨e, he, .refl e⟩
  · rw [List.mem_singleton.mp he]
    refine .inr ?_
    cases r with
    | postEntries now uid extract userId addEntry =>
      obtain ⟨url, -, rfl⟩ := h
      exact ⟨extract url, ⟨url, rfl, rfl⟩, rfl, rfl, rfl⟩
    | doAdd now extract _ userId =>
      obtain ⟨url, rfl⟩ := h
      exact ⟨extract url, ⟨url, rfl, rfl⟩, rfl, rfl, rfl⟩
    | _ => exact h.elim

theorem updateEntries_text {p : EntryRecord → Bool} {u : UpdateEntry} {n : Nat}
    (h : s.updateEntries p u.assignments = .ok (n, t))
    (hrow : ∀ e ∈ s.entries, p e = true → e.SameText (u.updated e) ∨
      ∃ d, r.Scraped e.url d ∧ (u.updated e).Holds d) : TextStep r s t := by
  obtain ⟨-, -, fts, rfl⟩ := Db.updateEntries_updated h
  intro e' he'
  obtain ⟨e, he, rfl⟩ := List.mem_map.mp he'
  split
  · rename_i hp
    exact (hrow e he hp).imp_left fun hsame => ⟨e, he, hsame⟩
  · exact .inl ⟨e, he, .refl e⟩

theorem UpdateEntry.sameText {u : UpdateEntry} (hcontent : u.content = none)
    (htext : u.contentText = none) (htime : u.readingTime = none) (e : EntryRecord) :
    e.SameText (u.updated e) := by
  refine ⟨rfl, rfl, ?_, ?_, ?_⟩
  · rw [updated, hcontent]
    rfl
  · rw [updated, htext]
    rfl
  · rw [updated, htime]
    rfl

/-- The patch gives an entry another content: it carries one, and nothing stops it. -/
def Request.Rewrites (crates : Crates) (s : Db) : Request Url → Prop
  | .patchEntry now uid entryId request userId => ∃ content update e,
    request.content = some content ∧ request.repoUpdate crates now uid = .ok update ∧
      (∀ labels, request.tags = some labels →
        labels.length ≤ Tags.sqliteLimitVariableNumber / 3) ∧
      e ∈ s.entries ∧ e.id = entryId ∧ e.userId = userId ∧ e.createdAt ≤ now.timestamp ∧
      (update.updated e).Readable Url ∧ e.content ≠ crates.clean content
  | _ => False

/-- A patch that does not give an entry another content leaves all texts. -/
theorem patchEntry_text (hv : s.Valid) {now : DateTime} {uid : String} {entryId userId : Int}
    {request : Api.UpdateEntry Url}
    (hr : ¬ (Request.patchEntry now uid entryId request userId).Rewrites crates s) {x : Except Error _}
    (h : (Api.patchEntry crates now uid entryId request userId : Run Db Error _) s = (x, t)) :
    TextStep r s t := by
  cases x with
  | error e =>
    rw [patchEntry_error crates h]
    exact .refl s
  | ok response =>
    obtain ⟨update, n, s', hparsed, hupdate, hentries, d, hd, hid, -, hread⟩ :=
      Api.patchEntry_entries h
    refine .trans (updateEntries_text hupdate fun e he hp => .inl ?_)
      (.of_mem fun e he => hentries ▸ he)
    obtain ⟨hcheck, -, fts, rfl⟩ := Db.updateEntries_updated hupdate
    have hkey : e.id = entryId ∧ e.userId = userId := by simpa using hp
    -- the row that was converted is the row that was patched
    have hread' : (update.updated e).Readable Url := by
      have hm : update.updated e ∈ t.entries := by
        rw [hentries]
        exact List.mem_map.mpr ⟨e, he, if_pos hp⟩
      have hvt : UniqueBy EntryRecord.id t.entries := hentries ▸ (hv.updateEntries hupdate).entries.pk
      rw [hvt.eq_of_key hm hd (hkey.1.trans hid.symm)]
      exact hread
    have hsame : ∀ content, request.content = some content → e.content = crates.clean content := by
      intro content hcontent
      by_contra hne
      exact hr ⟨content, update, e, hcontent, hparsed, fun _ => Api.patchEntry_tags h, he, hkey.1,
        hkey.2, Api.repoUpdate_updatedAt hparsed ▸ hcheck e he hp, hread', hne⟩
    obtain ⟨title, rest, hrest, rfl⟩ := Api.UpdateEntry.repoUpdate_ok hparsed
    cases hrest
    cases hcontent : request.content with
    | none => exact ⟨rfl, rfl, by simp [UpdateEntry.updated], rfl, rfl⟩
    | some content =>
      exact ⟨rfl, rfl, by simp [UpdateEntry.updated, SafeHtml.ofStr, hsame content hcontent], rfl, rfl⟩

section reload
variable {now : Int → DateTime} {scraper : Option (ArticleUrl Url → Option (Document Url))}
  {extract : ArticleUrl Url → Option (Document Url)} (hscraper : scraper = some extract)
  {username : String}

/-- Inside of a reload that began on `s`: the entries have kept their ids and urls. -/
def SameUrls (s t : Db) : Prop :=
  t.Valid ∧ ∀ e ∈ t.entries, ∃ d ∈ s.entries, e.id = d.id ∧ e.url = d.url

include hscraper in
/-- The body of the loop scrapes an entry from its own url. -/
theorem reloadEntry_text (hv : s.Valid) (userId : Int) {d : EntryRecord} (hd : d ∈ s.entries) :
    Obeys (SameUrls s) (TextStep (.reloadArticles now scraper username)) (fun _ => True)
      (Cli.reloadEntry now extract userId (EntryMetadataRow.fromRow d)) := by
  refine .given .refl fun parsed hparsed => .given .refl fun url hurl => ?_
  cases hdoc : extract url with
  | none => exact .pure .refl trivial
  | some doc =>
    have hupdate : Obeys (SameUrls s) (TextStep (.reloadArticles now scraper username))
        (fun _ => True) (Entries.updateById userId d.id (Cli.reloadUpdate (now d.id) doc)) := by
      refine .bind (fun _ _ _ => .trans) (.stmt (Q := fun _ => True) .refl fun t n u ht hu => ?_)
        fun _ _ => .pure .refl trivial
      refine ⟨⟨ht.1.updateEntries hu, ?_⟩, ?_, trivial⟩
      · obtain ⟨-, -, fts, rfl⟩ := Db.updateEntries_updated hu
        intro e' he'
        obtain ⟨e, he, rfl⟩ := List.mem_map.mp he'
        split <;> exact ht.2 e he
      · refine updateEntries_text hu fun e he hp => .inr ⟨doc, ?_, rfl, rfl, rfl⟩
        -- the row being updated is the row that was listed
        obtain ⟨b, hb, hid, hsame⟩ := ht.2 e he
        have hkey : e.id = d.id := by
          simp only [Bool.and_eq_true, beq_iff_eq] at hp
          exact hp.1
        obtain rfl : b = d := hv.entries.pk.eq_of_key hb hd (hid.symm.trans hkey)
        rw [hsame]
        refine ⟨extract, url, hscraper, ?_, hdoc⟩
        rw [ArticleUrl.tryFrom_ok hurl]
        exact okOr_eq_ok.mp hparsed
    exact .bind (fun _ _ _ => .trans) hupdate fun _ _ => .pure .refl trivial

include hscraper in
theorem reloadEntries_text (hv : s.Valid) (userId : Int) {rows : List EntryMetadataRow}
    (hrows : ∀ row ∈ rows, ∃ d ∈ s.entries, row = EntryMetadataRow.fromRow d) :
    Obeys (SameUrls s) (TextStep (.reloadArticles now scraper username)) (fun _ => True)
      (Cli.reloadEntries now extract userId rows) := by
  induction rows with
  | nil => exact .pure .refl trivial
  | cons row rows ih =>
    obtain ⟨d, hd, rfl⟩ := hrows row List.mem_cons_self
    exact .bind (fun _ _ _ => .trans) (reloadEntry_text hscraper hv userId hd)
      fun _ _ => ih fun r hr => hrows r (List.mem_cons_of_mem _ hr)

theorem reloadArticles_text {K : Type} [Field K] [LinearOrder K] (eng : Engine K) (hv : s.Valid) :
    TextStep (.reloadArticles now scraper username) s
      ((Cli.reloadArticles eng now scraper username : Run Db Error Unit) s).2 := by
  rcases h : (Cli.reloadArticles eng now scraper username : Run Db Error Unit) s with ⟨x, t⟩
  cases x with
  | error e =>
    have hsame := transaction_error (congrArg Prod.fst h)
    rw [← hsame]
    exact congrArg Prod.snd h ▸ .refl _
  | ok a =>
    rw [Cli.reloadArticles, transaction_ok_iff] at h
    obtain ⟨found, s1, hfound, h⟩ := bind_ok_inv h
    obtain ⟨-, rfl⟩ := query_ok_iff.mp hfound
    obtain ⟨user, s2, huser, h⟩ := bind_ok_inv h
    obtain ⟨-, rfl⟩ := ofExcept_ok_iff.mp huser
    obtain ⟨rows, s3, hlisted, h⟩ := bind_ok_inv h
    obtain rfl : s = s3 := findAllRows_reads eng hlisted
    obtain ⟨extract, s4, hextract, h⟩ := bind_ok_inv h
    obtain ⟨hscraper, rfl⟩ := ofExcept_ok_iff.mp hextract
    have hrows : ∀ row ∈ rows.map Prod.fst, ∃ d ∈ s.entries, row = EntryMetadataRow.fromRow d := by
      intro row hrow
      obtain ⟨r, hr, rfl⟩ := List.mem_map.mp hrow
      exact findAllRows_stored eng hv hlisted hr
    have hloop : TextStep (.reloadArticles now scraper username) s _ :=
      (reloadEntries_text (okOr_eq_ok.mp hscraper) hv user.id hrows s ⟨hv, fun e he => ⟨e, he, rfl, rfl⟩⟩).2.1
    rwa [h] at hloop

end reload

theorem Request.run_text {K : Type} [Field K] [LinearOrder K] (eng : Engine K) (hv : s.Valid)
    (hr : ¬ r.Rewrites crates s) :
    TextStep r s ((r.run crates eng : Run Db Error Unit) s).2 := by
  have hkeeps {k : Statement} (hk : k.LeavesRows) : Allows (TextStep r) k :=
    fun s t hw => .of_mem fun e he => hw.mem_entries hk he
  have hbuilt (hupdate : ∀ u, r.Updates crates u →
      u.content = none ∧ u.contentText = none ∧ u.readingTime = none) :
      TextStep r s ((r.run crates eng : Run Db Error Unit) s).2 := by
    have hb : Built (TextStep r) (r.run crates eng : Run Db Error Unit) :=
      Request.built crates .refl (fun k hk => hkeeps hk.1) eng r
        (fun _ hi _ _ _ h => Request.insert_text hi h)
        fun u hu _ _ _ _ h => updateEntries_text h fun e _ _ =>
          .inl (UpdateEntry.sameText (hupdate u hu).1 (hupdate u hu).2.1 (hupdate u hu).2.2 e)
    exact run_invariant (I := TextStep r s) (fun _ _ => .trans) (.refl s)
      (hb.obeys (I := fun _ => True) (fun _ _ _ _ => trivial) s trivial).2.1
  cases r with
  | patchEntry now uid entryId request userId =>
    rw [Request.run, run_discard]
    exact patchEntry_text hv hr rfl
  | reloadArticles => exact reloadArticles_text eng hv
  | doArchive | doFavourite =>
    exact hbuilt fun u hu => hu ▸ ⟨rfl, rfl, rfl⟩
  | doEditTitle =>
    refine hbuilt fun u hu => ?_
    obtain ⟨title, rfl⟩ := hu
    exact ⟨rfl, rfl, rfl⟩
  | _ => exact hbuilt fun u hu => hu.elim

end texts

section runs
variable {Url : Type} [UrlCrate Url] {K : Type} [Field K] [LinearOrder K] (crates : Crates)
  (eng : Engine K)

/-- The text of the entry comes from one request of the run: it scraped a document from the
entry's url, and ever since the entry has held content, text and reading time of that. -/
def Sourced (requests : List (Request Url)) (e : EntryRecord) : Prop :=
  ∃ before r after d, requests = before ++ r :: after ∧ r.Scraped e.url d ∧ e.Holds d ∧
    ∀ later, later <+: after →
      ∃ e' ∈ (serve crates eng (before ++ r :: later) {}).entries, e'.id = e.id ∧ e'.Holds d

variable {crates eng}

theorem serve_valid (requests : List (Request Url)) : (serve crates eng requests {}).Valid := by
  induction requests using List.reverseRecOn with
  | nil => exact Db.valid_empty
  | append_singleton requests r ih =>
    rw [serve_snoc]
    exact (r.run_writes crates eng).valid ih

theorem Sourced.snoc {requests : List (Request Url)} {r : Request Url} {e e' : EntryRecord}
    (h : Sourced crates eng requests e) (hsame : e.SameText e')
    (he' : e' ∈ (serve crates eng (requests ++ [r]) {}).entries) :
    Sourced crates eng (requests ++ [r]) e' := by
  obtain ⟨before, q, after, d, rfl, hscraped, hholds, hsince⟩ := h
  refine ⟨before, q, after ++ [r], d, by simp, hsame.url ▸ hscraped, hsame.holds hholds,
    fun later hlater => ?_⟩
  rcases List.prefix_concat_iff.mp hlater with rfl | hlater
  · exact ⟨e', by simpa using he', rfl, hsame.holds hholds⟩
  · obtain ⟨c, hc, hid, hd⟩ := hsince later hlater
    exact ⟨c, hc, hid.trans hsame.id.symm, hd⟩

/-- As long as no patch gives an entry another content, every text is of one piece. -/
theorem texts_sourced (requests : List (Request Url))
    (h : ∀ before r after, requests = before ++ r :: after →
      ¬ r.Rewrites crates (serve crates eng before {})) :
    ∀ e ∈ (serve crates eng requests {}).entries, Sourced crates eng requests e := by
  induction requests using List.reverseRecOn with
  | nil => exact fun e he => absurd he List.not_mem_nil
  | append_singleton requests r ih =>
    intro e' he'
    have hstep := Request.run_text (r := r) eng (serve_valid requests) (h requests r [] rfl)
    rw [← serve_snoc] at hstep
    rcases hstep e' he' with ⟨e, he, hsame⟩ | ⟨d, hscraped, hd⟩
    · refine (ih (fun before q after heq => ?_) e he).snoc hsame he'
      exact h before q (after ++ [r]) (by simp [heq])
    · refine ⟨requests, r, [], d, rfl, hscraped, hd, fun later hlater => ?_⟩
      obtain rfl := List.prefix_nil.mp hlater
      exact ⟨e', he', rfl, hd⟩

end runs

/-- One user posts one url and patches the entry. -/
def patching (request : Api.UpdateEntry HttpText) : List (Request HttpText) :=
  posting none ++ [.patchEntry ⟨20, by decide⟩ "" 1 request 1]

theorem texts_sourced_patching :
    (serve plainCrates plainEngine (patching { archive := some true }) {}).entries ≠ [] ∧
      ∀ e ∈ (serve plainCrates plainEngine (patching { archive := some true }) {}).entries,
        Sourced plainCrates plainEngine (patching { archive := some true }) e := by
  refine ⟨by decide, texts_sourced _ fun before r after heq => ?_⟩
  have hr : r ∈ patching { archive := some true } := by
    rw [heq]
    simp
  simp only [patching, posting, List.cons_append, List.nil_append, List.mem_cons,
    List.not_mem_nil, or_false] at hr
  rcases hr with rfl | rfl | rfl
  · exact id
  · exact id
  · rintro ⟨content, -, -, hcontent, -⟩
    cases hcontent

/-- A patch that carries a content leaves the text and the reading time of the old one. -/
theorem patched_text_is_stale :
    ¬ ∀ e ∈ (serve plainCrates plainEngine (patching { content := some "new" }) {}).entries,
      Sourced plainCrates plainEngine (patching { content := some "new" }) e := by
  intro h
  obtain ⟨e, he, hcontent⟩ : ∃ e ∈
      (serve plainCrates plainEngine (patching { content := some "new" }) {}).entries,
      e.content = "new" := ⟨_, List.mem_cons_self, rfl⟩
  obtain ⟨before, r, after, d, heq, hscraped, hholds, -⟩ := h e he
  have hr : r ∈ patching { content := some "new" } := by
    rw [heq]
    simp
  simp only [patching, posting, List.cons_append, List.nil_append, List.mem_cons,
    List.not_mem_nil, or_false] at hr
  rcases hr with rfl | rfl | rfl
  · exact hscraped
  · obtain ⟨url, -, rfl⟩ := hscraped
    exact absurd (hcontent.symm.trans hholds.content) (by decide : "new" ≠ "")
  · exact hscraped

end Articler
