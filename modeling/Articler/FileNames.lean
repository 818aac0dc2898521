import Articler.Scraper.Pdf
import Articler.Titles

/-! File names as titles: when `get_pdf_title` recognizes that the title in the metadata is the
name of the file, and looks at the first page instead. -/
namespace Articler.Scraper
open LastSplit Strip

theorem toLower_ascii {c : Char} (h : c.toNat < 128) : c.toLower.toNat < 128 := by
  have htable : ∀ n < 128, (Char.ofNat n).toLower.toNat < 128 := by decide
  rw [← Char.ofNat_toNat c]
  exact htable c.toNat h

theorem ascii_noSigma {cs : List Char} (h : ∀ c ∈ cs, c.toNat < 128) : 'Σ' ∉ cs :=
  fun hc => absurd (h _ hc) (by decide)

section lowercase
variable [Unicode] {cs : List Char}

theorem lowerFrom_flatMap (h : 'Σ' ∉ cs) (before : List Char) :
    lowerFrom before cs = cs.flatMap Unicode.lower := by
  induction cs generalizing before with
  | nil => rfl
  | cons c cs ih =>
    rw [List.mem_cons, not_or] at h
    rw [lowerFrom, if_neg (Ne.symm h.1), ih h.2, List.flatMap_cons]

theorem toLowercase_flatMap (h : 'Σ' ∉ cs) : toLowercase cs = cs.flatMap Unicode.lower :=
  lowerFrom_flatMap h []

theorem noSigma_of_lowerFrom {before : List Char} (h : ∀ c ∈ lowerFrom before cs, c.toNat < 128) :
    'Σ' ∉ cs := by
  induction cs generalizing before with
  | nil => exact List.not_mem_nil
  | cons c cs ih =>
    rw [lowerFrom] at h
    split at h
    · have hsigma := h _ List.mem_cons_self
      split at hsigma <;> exact absurd hsigma (by decide)
    · rename_i hc
      rw [List.mem_cons, not_or]
      exact ⟨Ne.symm hc, ih fun d hd => h d (List.mem_append_right _ hd)⟩

theorem noSigma_of_toLowercase (h : ∀ c ∈ toLowercase cs, c.toNat < 128) : 'Σ' ∉ cs :=
  noSigma_of_lowerFrom h

theorem ascii_toLowercase (h : ∀ c ∈ cs, c.toNat < 128) : ∀ c ∈ toLowercase cs, c.toNat < 128 := by
  rw [toLowercase_flatMap (ascii_noSigma h)]
  intro c hc
  obtain ⟨d, hd, hc⟩ := List.mem_flatMap.mp hc
  rw [Unicode.lower_ascii d (h d hd), List.mem_singleton] at hc
  exact hc ▸ toLower_ascii (h d hd)

theorem toLowercase_eq_nil_iff (h : 'Σ' ∉ cs) : toLowercase cs = [] ↔ cs = [] := by
  rw [toLowercase_flatMap h, List.flatMap_eq_nil_iff]
  constructor
  · intro hnil
    cases cs with
    | nil => rfl
    | cons c cs => exact absurd (hnil c List.mem_cons_self) (Unicode.lower_ne_nil c)
  · rintro rfl c hc
    cases hc

theorem lower_dot : Unicode.lower '.' = ['.'] := Unicode.lower_ascii '.' (by decide)

theorem rsplitOnce_toLowercase (h : 'Σ' ∉ cs) : rsplitOnce '.' (toLowercase cs) =
    (rsplitOnce '.' cs).map (Prod.map toLowercase toLowercase) := by
  rw [toLowercase_flatMap h, rsplitOnce_flatMap lower_dot fun c _ => Unicode.eq_dot c]
  cases hcut : rsplitOnce '.' cs with
  | none => rfl
  | some p =>
    obtain ⟨rfl, -⟩ := rsplitOnce_eq_some hcut
    rw [List.mem_append, List.mem_cons, not_or, not_or] at h
    rw [Option.map_some, Option.map_some, Prod.map, Prod.map, toLowercase_flatMap h.1,
      toLowercase_flatMap h.2.2]

end lowercase

section path
variable {path file : List Char}

theorem fileName_eq_some (h : fileName path = some file) : file = path := by
  rw [fileName] at h
  split at h
  · cases h
  · exact (Option.some.inj h).symm

theorem rsplitFileAtDot_cases (file : List Char) :
    (rsplitFileAtDot file = (some file, none) ∨ rsplitFileAtDot file = (none, some file)) ∨
      ∃ before after, before ≠ [] ∧ rsplitOnce '.' file = some (before, after) ∧
        rsplitFileAtDot file = (some before, some after) := by
  rw [rsplitFileAtDot]
  split
  · exact .inl (.inl rfl)
  · cases hcut : rsplitOnce '.' file with
    | none => exact .inl (.inr rfl)
    | some p =>
      dsimp only
      split
      · exact .inl (.inl rfl)
      · rename_i hbefore
        exact .inr ⟨p.1, p.2, hbefore, rfl, rfl⟩

/-- A path without an extension is its own stem, if it has one; else the extension is what stands
behind the last dot. -/
theorem fileStem_cases (path : List Char) :
    (fileStem path = fileName path ∧ extension path = none) ∨
      ∃ before after, rsplitOnce '.' path = some (before, after) ∧ fileStem path = some before ∧
        extension path = some after := by
  rw [fileStem, extension]
  cases hname : fileName path with
  | none => exact .inl ⟨rfl, rfl⟩
  | some file =>
    rw [Option.bind_some, Option.bind_some]
    rcases rsplitFileAtDot_cases file with (h | h) | ⟨before, after, -, hcut, h⟩
    · rw [h]
      exact .inl ⟨rfl, rfl⟩
    · rw [h]
      exact .inl ⟨rfl, rfl⟩
    · rw [h]
      exact .inr ⟨before, after, fileName_eq_some hname ▸ hcut, rfl, rfl⟩

theorem fileStem_cut_iff {before after : List Char}
    (hcut : rsplitOnce '.' path = some (before, after)) :
    fileStem path = some before ↔ (extension path).isSome := by
  rcases fileStem_cases path with ⟨hstem, hext⟩ | ⟨stem, ext, hname, hstem, hext⟩
  · refine iff_of_false (fun hbefore => ?_) (by simp [hext])
    have hwhole : before = path := fileName_eq_some (hstem.symm.trans hbefore)
    have hlength := congrArg List.length (rsplitOnce_eq_some hcut).1
    rw [hwhole, List.length_append, List.length_cons] at hlength
    omega
  · rw [hcut] at hname
    refine iff_of_true ?_ (by simp [hext])
    rw [hstem, (Prod.mk.inj (Option.some.inj hname)).1]

theorem fileStem_of_noDot (hne : path ≠ []) (h : '.' ∉ path) :
    fileStem path = some path := by
  have hname : fileName path = some path := by
    rw [fileName, if_neg]
    rintro (rfl | rfl | rfl) <;> simp at hne h
  rcases fileStem_cases path with ⟨hstem, -⟩ | ⟨before, after, hcut, -⟩
  · exact hstem.trans hname
  · rw [rsplitOnce_eq_none_iff.mpr h] at hcut
    cases hcut

theorem fileStem_ascii {stem : List Char} (h : ∀ c ∈ path, c.toNat < 128)
    (hstem : fileStem path = some stem) : ∀ c ∈ stem, c.toNat < 128 := by
  rcases fileStem_cases path with ⟨hname, -⟩ | ⟨before, after, hcut, hbefore, -⟩
  · rw [hname] at hstem
    obtain rfl := fileName_eq_some hstem
    exact h
  · obtain rfl := Option.some.inj (hbefore.symm.trans hstem)
    obtain ⟨rfl, -⟩ := rsplitOnce_eq_some hcut
    exact fun c hc => h c (List.mem_append_left _ hc)

variable [Unicode] {cs : List Char}

theorem toLowercase_concat_dot_iff (h : 'Σ' ∉ cs) (lowered : List Char) :
    toLowercase cs = lowered ++ ['.'] ↔
      ∃ before, cs = before ++ ['.'] ∧ toLowercase before = lowered := by
  have hcut := rsplitOnce_toLowercase h
  constructor
  · intro hdot
    rw [hdot, rsplitOnce_append lowered List.not_mem_nil] at hcut
    obtain ⟨⟨before, after⟩, hcs, hp⟩ := Option.map_eq_some_iff.mp hcut.symm
    obtain ⟨hbefore, hafter⟩ := Prod.mk.inj hp
    obtain ⟨rfl, -⟩ := rsplitOnce_eq_some hcs
    rw [List.mem_append, List.mem_cons, not_or, not_or] at h
    rw [(toLowercase_eq_nil_iff h.2.2).mp hafter]
    exact ⟨before, rfl, hbefore⟩
  · rintro ⟨before, rfl, rfl⟩
    rw [List.mem_append, not_or] at h
    rw [toLowercase_flatMap (by simpa using h), List.flatMap_append, toLowercase_flatMap h.1,
      List.flatMap_singleton, lower_dot]

theorem toLowercase_eq_dot_iff (h : 'Σ' ∉ cs) : toLowercase cs = ['.'] ↔ cs = ['.'] := by
  refine (toLowercase_concat_dot_iff h []).trans ⟨?_, ?_⟩
  · rintro ⟨before, rfl, hbefore⟩
    rw [List.mem_append, not_or] at h
    rw [(toLowercase_eq_nil_iff h.1).mp hbefore, List.nil_append]
  · rintro rfl
    exact ⟨[], rfl, rfl⟩

theorem toLowercase_eq_dots_iff (h : 'Σ' ∉ cs) : toLowercase cs = ['.', '.'] ↔ cs = ['.', '.'] := by
  refine (toLowercase_concat_dot_iff h ['.']).trans ⟨?_, ?_⟩
  · rintro ⟨before, rfl, hbefore⟩
    rw [List.mem_append, not_or] at h
    rw [(toLowercase_eq_dot_iff h.1).mp hbefore]
    rfl
  · rintro rfl
    exact ⟨['.'], rfl, (toLowercase_eq_dot_iff (by decide)).mpr rfl⟩

theorem fileName_toLowercase (h : 'Σ' ∉ cs) :
    fileName (toLowercase cs) = (fileName cs).map toLowercase := by
  simp only [fileName, toLowercase_eq_nil_iff h, toLowercase_eq_dot_iff h,
    toLowercase_eq_dots_iff h]
  split <;> rfl

theorem rsplitFileAtDot_toLowercase (h : 'Σ' ∉ cs) : rsplitFileAtDot (toLowercase cs) =
    Prod.map (Option.map toLowercase) (Option.map toLowercase) (rsplitFileAtDot cs) := by
  simp only [rsplitFileAtDot, toLowercase_eq_dots_iff h, rsplitOnce_toLowercase h]
  split
  · rfl
  · cases hcut : rsplitOnce '.' cs with
    | none => rfl
    | some p =>
      obtain ⟨rfl, -⟩ := rsplitOnce_eq_some hcut
      rw [List.mem_append, not_or] at h
      rw [Option.map_some]
      simp only [Prod.map, toLowercase_eq_nil_iff h.1]
      split <;> rfl

theorem fileStem_toLowercase (h : 'Σ' ∉ cs) :
    fileStem (toLowercase cs) = (fileStem cs).map toLowercase := by
  rw [fileStem, fileStem, fileName_toLowercase h]
  cases hname : fileName cs with
  | none => rfl
  | some file =>
    obtain rfl := fileName_eq_some hname
    rw [Option.map_some, Option.bind_some, Option.bind_some, rsplitFileAtDot_toLowercase h]
    rcases rsplitFileAtDot file with ⟨before | before, after⟩ <;> rfl

theorem extension_toLowercase (h : 'Σ' ∉ cs) :
    extension (toLowercase cs) = (extension cs).map toLowercase := by
  rw [extension, extension, fileName_toLowercase h]
  cases hname : fileName cs with
  | none => rfl
  | some file =>
    obtain rfl := fileName_eq_some hname
    rw [Option.map_some, Option.bind_some, Option.bind_some, rsplitFileAtDot_toLowercase h]
    rcases rsplitFileAtDot file with ⟨_ | before, after⟩ <;> rfl

end path

section document
variable {F : Type} [F32 F] {doc : PdfDocument F} {title text : String}

theorem extractTitleFromContent_accepted (h : extractTitleFromContent doc = .ok (some text)) :
    ∃ t, Title.tryFrom text = .ok t := by
  have hlooks : looksLikeValidTitle text.toList = true := by
    rw [extractTitleFromContent] at h
    split at h
    · cases h
    · dsimp only at h
      split at h
      · cases h
      · split at h
        · rename_i hlooks
          cases h
          rw [String.toList_ofList]
          exact hlooks
        · cases h
  have hne : (trim text).toList ≠ [] := by
    intro hnil
    rw [Title.trim_strip] at hnil
    rw [looksLikeValidTitle] at hlooks
    change trimChars text.toList = [] at hnil
    rw [hnil] at hlooks
    cases hlooks
  exact ⟨⟨_⟩, Title.tryFrom_ok_iff.mpr ⟨hne, String.toList_ofList⟩⟩

omit [F32 F] in
theorem extractTitleFromMetadata_some (h : doc.metadataTitle = some title) :
    extractTitleFromMetadata doc = .ok (if (trim title).toList = [] then none else some title) := by
  rw [extractTitleFromMetadata, h]
  dsimp only
  split
  · rename_i hempty
    rw [if_pos (List.isEmpty_iff.mp hempty)]
  · rename_i hempty
    rw [if_neg (mt List.isEmpty_iff.mpr hempty)]

theorem noDot_of_blank (h : (trim title).toList = []) : '.' ∉ title.toList := by
  intro hdot
  have hmem := mem_strip (p := isWhitespace) hdot (by decide)
  rw [← Title.trim_strip, h] at hmem
  cases hmem

end document

section title
variable {Url : Type} [UrlPath Url] {F : Type} [F32 F] [Unicode]

/-- The text is the segment or its stem, ignoring case. -/
def NamedAfter (text segment : List Char) : Prop :=
  toLowercase text = toLowercase segment ∨
    ∃ stem, fileStem segment = some stem ∧ toLowercase text = toLowercase stem

/-- The text has no dot, or it is the whole segment, which has an extension. -/
def Recognizable (text segment : List Char) : Prop :=
  '.' ∉ text ∨ toLowercase text = toLowercase segment ∧ (extension segment).isSome

variable {title : String} {segment : List Char}

theorem NamedAfter.noSigma {text : List Char} (h : ∀ c ∈ segment, c.toNat < 128)
    (hnamed : NamedAfter text segment) : 'Σ' ∉ text := by
  apply noSigma_of_toLowercase
  rcases hnamed with heq | ⟨stem, hstem, heq⟩
  · exact heq ▸ ascii_toLowercase h
  · exact heq ▸ ascii_toLowercase (fileStem_ascii h hstem)

theorem titleBase_noDot (h : rsplitOnce '.' title.toList = none) :
    titleBase title = toLowercase title.toList := by
  rw [titleBase, h, Option.map_none, Option.getD_none]

theorem titleBase_cut {before after : List Char}
    (h : rsplitOnce '.' title.toList = some (before, after)) :
    titleBase title = toLowercase before := by
  rw [titleBase, h, Option.map_some, Option.getD_some]

/-- The text up to its last dot is the stem of the name that it is after. -/
theorem titleBase_eq_iff (hascii : ∀ c ∈ segment, c.toNat < 128)
    (hnamed : NamedAfter title.toList segment) (hne : title.toList ≠ []) :
    fileStem (toLowercase segment) = some (titleBase title) ↔ Recognizable title.toList segment := by
  have hsegment : 'Σ' ∉ segment := ascii_noSigma hascii
  have htitle : 'Σ' ∉ title.toList := hnamed.noSigma hascii
  have hcut := rsplitOnce_toLowercase htitle
  cases htext : rsplitOnce '.' title.toList with
  | none =>
    refine iff_of_true ?_ (.inl (rsplitOnce_eq_none_iff.mp htext))
    rw [titleBase_noDot htext]
    rcases hnamed with heq | ⟨stem, hstem, heq⟩
    · rw [htext, Option.map_none, rsplitOnce_eq_none_iff] at hcut
      rw [← heq]
      exact fileStem_of_noDot (fun hnil => hne ((toLowercase_eq_nil_iff htitle).mp hnil)) hcut
    · rw [fileStem_toLowercase hsegment, hstem, Option.map_some, heq]
  | some p =>
    obtain ⟨before, after⟩ := p
    have hdot : '.' ∈ title.toList := by
      rw [(rsplitOnce_eq_some htext).1]
      simp
    rw [htext, Option.map_some, Prod.map_apply] at hcut
    rw [titleBase_cut htext, Recognizable, or_iff_right (not_not_intro hdot)]
    by_cases hwhole : toLowercase title.toList = toLowercase segment
    · rw [hwhole] at hcut
      rw [and_iff_right hwhole, fileStem_cut_iff hcut, extension_toLowercase hsegment,
        Option.isSome_map]
    · -- then the text is the stem, which is longer than what stands before its last dot
      obtain ⟨stem, hstem, heq⟩ := hnamed.resolve_left hwhole
      refine iff_of_false (fun hbase => ?_) fun h => hwhole h.1
      rw [fileStem_toLowercase hsegment, hstem, Option.map_some, ← heq] at hbase
      have hlength := congrArg List.length (rsplitOnce_eq_some hcut).1
      rw [Option.some.inj hbase, List.length_append, List.length_cons] at hlength
      omega

variable {url : Url} {doc : PdfDocument F} {segment : PathSegment}

theorem getFileName_stem (h : lastSegment url = some segment) :
    ((getFileName url).map toLowercase).bind fileStem = fileStem (toLowercase segment.val) := by
  rw [getFileName, h, Option.bind_some]
  split
  · rename_i hnil
    rw [hnil]
    rfl
  · rfl

/-- For a document whose metadata has the name of the file as its title, and whose first page has
a title: that one is returned exactly if the name is recognizable, or the two are the same. -/
theorem getPdfTitle_content_iff {title text : String} {t : Title}
    (hsegment : lastSegment url = some segment) (htitle : doc.metadataTitle = some title)
    (hnamed : NamedAfter title.toList segment.val)
    (htext : extractTitleFromContent doc = .ok (some text)) (ht : Title.tryFrom text = .ok t) :
    getPdfTitle url doc = some t ↔
      Recognizable title.toList segment.val ∨ Title.tryFrom title = .ok t := by
  have hcontent : (Title.tryFrom text).toOption = some t := by rw [ht]; rfl
  rw [getPdfTitle, extractTitleFromMetadata_some htitle, getFileName_stem hsegment, htext]
  dsimp only
  rw [hcontent]
  by_cases hblank : (trim title).toList = []
  · rw [if_pos hblank]
    exact iff_of_true rfl (.inl (.inl (noDot_of_blank hblank)))
  · rw [if_neg hblank]
    have hne : title.toList ≠ [] := by
      rintro hnil
      apply hblank
      rw [Title.trim_strip, hnil]
      rfl
    dsimp only
    split
    · rename_i hbase
      exact iff_of_true rfl (.inl ((titleBase_eq_iff segment.ascii hnamed hne).mp hbase))
    · rename_i hbase
      rw [or_iff_right (mt (titleBase_eq_iff segment.ascii hnamed hne).mpr hbase)]
      cases Title.tryFrom title <;> simp [Except.toOption]

end title

/-- The tables for ASCII. -/
instance : Unicode where
  lower c := if c.toNat < 128 then [c.toLower] else [c]
  cased := Char.isAlpha
  caseIgnorable c := c == '.' || c == ':' || c.toNat == 0x27
  lower_ascii c hc := if_pos hc
  lower_ne_nil c := by split <;> exact List.cons_ne_nil _ _
  eq_dot c hc := by
    split at hc
    · rename_i hascii
      have htable : ∀ n < 128, '.' = (Char.ofNat n).toLower → Char.ofNat n = '.' := by decide
      have hlower := htable c.toNat hascii
      rw [Char.ofNat_toNat] at hlower
      exact hlower (List.mem_singleton.mp hc)
    · exact (List.mem_singleton.mp hc).symm

instance : F32 ℚ where
  zero := 0
  tenth := 1 / 10
  sub := (· - ·)
  abs := abs
  max := max
  lt x y := x < y

/-- An url, as far as its path goes. -/
structure HttpPath where
  segments : List PathSegment

instance : UrlPath HttpPath where
  pathSegments url := some url.segments

def PathSegment.ofString (s : String) (h : s.toList.all (fun c => c.toNat < 128 && c != '/')) :
    PathSegment where
  val := s.toList
  ascii c hc := by simpa using (Bool.and_eq_true_iff.mp (List.all_eq_true.mp h c hc)).1
  noSlash hc := by simpa using (Bool.and_eq_true_iff.mp (List.all_eq_true.mp h _ hc)).2

def textBlock (text : String) (size : ℚ) : TextBlock ℚ :=
  ⟨[text.toList.map fun c => ⟨some c, size⟩]⟩

/-- A paper with one title in its metadata and another one on its first page. -/
def paper (title text : String) : PdfDocument ℚ where
  metadataTitle := some title
  firstPage := some [textBlock text 18, textBlock "Abstract" 9]

theorem getPdfTitle_content_neumann :
    getPdfTitle (⟨[.ofString "p48-neumann.pdf" (by decide)]⟩ : HttpPath)
      (paper "P48-Neumann" "A Critique of Modern SQL") = some ⟨"A Critique of Modern SQL"⟩ := by
  have htext : extractTitleFromContent (paper "P48-Neumann" "A Critique of Modern SQL") =
      .ok (some "A Critique of Modern SQL") := by decide +kernel
  have hnamed : NamedAfter "P48-Neumann".toList "p48-neumann.pdf".toList :=
    .inr ⟨"p48-neumann".toList, by decide, by decide⟩
  exact (getPdfTitle_content_iff rfl rfl hnamed htext (by decide)).mpr (.inl (.inl (by decide)))

/-- The name of a file with a dot of its own is taken for the title. -/
theorem getPdfTitle_arxiv : ∃ (url : HttpPath) (doc : PdfDocument ℚ) (segment : PathSegment)
    (title text : String) (t : Title), lastSegment url = some segment ∧
      doc.metadataTitle = some title ∧ NamedAfter title.toList segment.val ∧
      extractTitleFromContent doc = .ok (some text) ∧ Title.tryFrom text = .ok t ∧
      getPdfTitle url doc = some ⟨title⟩ ∧ t ≠ ⟨title⟩ :=
  ⟨⟨[.ofString "2310.11703v2.pdf" (by decide)]⟩,
    paper "2310.11703v2" "A Survey on Vector Database", .ofString "2310.11703v2.pdf" (by decide),
    "2310.11703v2", "A Survey on Vector Database", ⟨"A Survey on Vector Database"⟩, rfl, rfl,
    .inr ⟨"2310.11703v2".toList, by decide, rfl⟩, by decide +kernel, by decide,
    by decide +kernel, by decide⟩

end Articler.Scraper
