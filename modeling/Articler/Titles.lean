import Articler.Lib.Strip
import Articler.Listing
import Articler.Requests
import Articler.Updates

/-! Titles: what `Title::try_from` makes of a text, and what becomes of a title that is saved
once more as it is shown. -/
namespace Articler
open Txn Strip Relation

namespace Title

theorem trim_strip (s : String) : (trim s).toList = strip isWhitespace s.toList :=
  String.toList_ofList

theorem tryFrom_ok_iff {s : String} {t : Title} : tryFrom s = .ok t ↔
    (trim s).toList ≠ [] ∧ t.val.toList = (trim s).toList.take maxLength := by
  rw [tryFrom]
  by_cases hempty : (trim s).toList = []
  · simp [hempty]
  · rw [if_neg (by simpa using hempty), and_iff_right hempty]
    split
    · constructor
      · intro h
        rw [← Except.ok.inj h]
        simp only [String.toList_ofList]
      · intro h
        rw [← h, String.ofList_toList]
    · rename_i hlength
      rw [List.take_of_length_le (Nat.le_of_not_le hlength)]
      constructor
      · intro h
        rw [← Except.ok.inj h]
      · intro h
        rw [← String.toList_inj.mp h]

structure Normal (t : Title) : Prop where
  nonempty : t.val.toList ≠ []
  length : t.val.toList.length ≤ maxLength
  first : ∀ c, t.val.toList.head? = some c → isWhitespace c = false
  last : ∀ c, t.val.toList.getLast? = some c → isWhitespace c = false
  again : tryFrom t.val = .ok t

/-- The trimmed text is not cut right behind a blank. -/
def CutsWell (s : String) : Prop :=
  ∀ c, (trim s).toList[maxLength - 1]? = some c → isWhitespace c = false

theorem tryFrom_stripped_iff {s : String} {t : Title} (h : tryFrom s = .ok t) :
    Stripped isWhitespace t.val.toList ↔ CutsWell s := by
  rw [(tryFrom_ok_iff.mp h).2, CutsWell, trim_strip]
  exact (strip_stripped isWhitespace s.toList).take_iff

theorem tryFrom_length {s : String} {t : Title} (h : tryFrom s = .ok t) :
    t.val.toList ≠ [] ∧ t.val.toList.length ≤ maxLength := by
  obtain ⟨hne, htake⟩ := tryFrom_ok_iff.mp h
  rw [htake]
  refine ⟨fun hnil => ?_, List.length_take_le _ _⟩
  rcases List.take_eq_nil_iff.mp hnil with hzero | hnil
  · cases hzero
  · exact hne hnil

theorem normal_iff {s : String} {t : Title} (h : tryFrom s = .ok t) : t.Normal ↔ CutsWell s := by
  rw [← tryFrom_stripped_iff h]
  refine ⟨fun hnormal => ⟨hnormal.first, hnormal.last⟩, fun hstripped => ?_⟩
  obtain ⟨hne, hlength⟩ := tryFrom_length h
  have htrim : (trim t.val).toList = t.val.toList := (trim_strip _).trans hstripped.strip_eq
  refine ⟨hne, hlength, hstripped.first, hstripped.last, tryFrom_ok_iff.mpr ?_⟩
  rw [htrim, List.take_of_length_le hlength]
  exact ⟨hne, rfl⟩

end Title

section saving
variable {Url : Type} [UrlCrate Url] {K : Type} [Field K] [LinearOrder K]

def Titled (id : Int) (t : Title) (db : Db) : Prop := ∀ e ∈ db.entries, e.id = id → e.title = t.val

/-- Whoever saves the title that an entry shows, by the form or by a patch that changes other
fields as well, leaves the entry with that title, also where the request fails. -/
structure SavesAgain (Url : Type) [UrlCrate Url] (crates : Crates) (eng : Engine K) (t : Title) :
    Prop where
  editTitle : ∀ (db : Database), ∀ e ∈ db.val.entries, e.title = t.val →
    ∀ now source userId category, Titled e.id t
      ((Web.doEditTitle eng now e.id e.title source userId category :
        Run Db Error Web.Response) db.val).2
  patch : ∀ (db : Database), ∀ e ∈ db.val.entries, e.title = t.val →
    ∀ now uid (request : Api.UpdateEntry Url) userId, request.title = some e.title →
      Titled e.id t ((Api.patchEntry crates now uid e.id request userId :
        Run Db Error (Entry Url)) db.val).2

variable {t : Title}

theorem titled_of_mem (db : Database) {e : EntryRecord} (he : e ∈ db.val.entries)
    (htitle : e.title = t.val) : Titled e.id t db.val := by
  intro d hd hid
  rw [db.property.entries.pk.eq_of_key hd he hid, htitle]

theorem allowsUpdate_titled {id : Int} {u : UpdateEntry} (h : u.title = some (some t)) :
    AllowsUpdate (fun s s' => Titled id t s → Titled id t s') u := by
  intro s p n s' hupdate htitled
  obtain ⟨-, -, fts, rfl⟩ := Db.updateEntries_updated hupdate
  intro e' he' hid
  obtain ⟨e, he, rfl⟩ := List.mem_map.mp he'
  split at hid
  · rename_i hp
    rw [if_pos hp, UpdateEntry.updated, h]
    rfl
  · rename_i hp
    rw [if_neg hp]
    exact htitled e he hid

theorem doEditTitle_titled (eng : Engine K) (h : Title.tryFrom t.val = .ok t) {id : Int} {db : Db}
    (hdb : Titled id t db) (now : DateTime) (source : Option Web.HxSource) (userId : Int)
    (category : Web.Category) :
    Titled id t ((Web.doEditTitle eng now id t.val source userId category :
      Run Db Error Web.Response) db).2 := by
  have hbuilt : Built (fun s s' => Titled id t s → Titled id t s')
      (Web.doEditTitle eng now id t.val source userId category : Run Db Error Web.Response) := by
    rw [Web.doEditTitle, h]
    exact updateAndRender_built (fun _ hs => hs) eng (allowsUpdate_titled rfl) _ _ _ _
  exact hbuilt.invariant hdb

theorem patchEntry_titled (crates : Crates) (h : Title.tryFrom t.val = .ok t) {id : Int} {db : Db}
    (hdb : Titled id t db) (now : DateTime) (uid : String) {request : Api.UpdateEntry Url}
    (hrequest : request.title = some t.val) (userId : Int) :
    Titled id t ((Api.patchEntry crates now uid id request userId :
      Run Db Error (Entry Url)) db).2 := by
  have hupdate (u : UpdateEntry) (hu : request.repoUpdate crates now uid = .ok u) :
      u.title = some (some t) := by
    rw [Api.UpdateEntry.repoUpdate, hrequest] at hu
    dsimp only at hu
    rw [h] at hu
    cases hu
    rfl
  have hleaves (k : Statement) (hk : k.LeavesRows ∧ k ≠ .deleteUsers) :
      Allows (fun s s' => Titled id t s → Titled id t s') k :=
    fun s s' hw htitled e he => htitled e (hw.mem_entries hk.1 he)
  have hbuilt : Built (fun s s' => Titled id t s → Titled id t s')
      (Api.patchEntry crates now uid id request userId : Run Db Error (Entry Url)) :=
    patchEntry_built crates (fun _ hs => hs) hleaves now uid id request userId
      fun u hu => allowsUpdate_titled (hupdate u hu)
  exact hbuilt.invariant hdb

/-- A text that is accepted gives a title in normal form, which saving again leaves as it is,
exactly if the cut is not right behind a blank. -/
theorem Title.tryFrom_normal_iff (crates : Crates) (eng : Engine K) {s : String} {t : Title}
    (h : Title.tryFrom s = .ok t) :
    t.Normal ∧ SavesAgain Url crates eng t ↔ Title.CutsWell s := by
  rw [← Title.normal_iff h]
  refine and_iff_left_of_imp fun hnormal => ⟨?_, ?_⟩
  · intro db e he htitle now source userId category
    rw [htitle]
    exact doEditTitle_titled eng hnormal.again (titled_of_mem db he htitle) now source userId category
  · intro db e he htitle now uid request userId hrequest
    exact patchEntry_titled crates hnormal.again (titled_of_mem db he htitle) now uid
      (hrequest.trans (congrArg some htitle)) userId

end saving

theorem Title.tryFrom_normal_short :
    Title.Normal ⟨"A title"⟩ ∧ SavesAgain HttpText plainCrates plainEngine ⟨"A title"⟩ := by
  have h : Title.tryFrom " A title\n" = .ok ⟨"A title"⟩ := by decide
  exact (Title.tryFrom_normal_iff plainCrates plainEngine h).mpr nofun

/-- A text whose cut is right behind a blank, and its title once more. -/
theorem Title.tryFrom_cut {cs : List Char} (hcs : Stripped isWhitespace cs)
    (hlength : cs.length + 1 = Title.maxLength) :
    Title.tryFrom (String.ofList (cs ++ [' ', 'b'])) = .ok ⟨String.ofList (cs ++ [' '])⟩ ∧
      Title.tryFrom (String.ofList (cs ++ [' '])) = .ok ⟨String.ofList cs⟩ := by
  obtain ⟨a, rest, rfl⟩ : ∃ a rest, cs = a :: rest := by
    cases cs with
    | nil => cases hlength
    | cons a rest => exact ⟨a, rest, rfl⟩
  have ha : isWhitespace a = false := hcs.first a rfl
  have hcut : strip isWhitespace (a :: rest ++ [' ', 'b']) = a :: rest ++ [' ', 'b'] :=
    Stripped.strip_eq ⟨by simp [ha], fun c hc => by
      rw [List.getLast?_append] at hc
      cases hc
      rfl⟩
  have hagain : strip isWhitespace (a :: rest ++ [' ']) = a :: rest := by
    have hfirst : (a :: rest ++ [' ']).dropWhile isWhitespace = a :: rest ++ [' '] :=
      List.dropWhile_cons_of_neg (by simp [ha])
    rw [strip, hfirst, List.rdropWhile_concat_pos _ _ _ (by decide), List.rdropWhile_eq_self_iff]
    exact fun hne => by simp [hcs.last _ (List.getLast?_eq_some_getLast hne)]
  constructor
  · rw [Title.tryFrom_ok_iff, Title.trim_strip, String.toList_ofList, hcut, String.toList_ofList,
      ← hlength]
    refine ⟨by simp, ?_⟩
    rw [List.take_length_add_append]
    rfl
  · rw [Title.tryFrom_ok_iff, Title.trim_strip, String.toList_ofList, hagain, String.toList_ofList,
      List.take_of_length_le (by omega)]
    exact ⟨by simp, rfl⟩

/-- As many letters as leave room for one blank. -/
def letters : List Char := List.replicate (Title.maxLength - 1) 'a'

/-- The title of this text ends in the blank, and loses it when it is saved again. -/
theorem letters_shrink : ∃ t t', Title.tryFrom (String.ofList (letters ++ [' ', 'b'])) = .ok t ∧
    t.val.toList.getLast? = some ' ' ∧ Title.tryFrom t.val = .ok t' ∧ t' ≠ t := by
  have hletter {c : Char} (hc : c ∈ letters) : isWhitespace c = false := by
    rw [List.eq_of_mem_replicate hc]
    decide
  have hstripped : Stripped isWhitespace letters :=
    ⟨fun c hc => hletter (List.mem_of_mem_head? hc), fun c hc => hletter (List.mem_of_mem_getLast? hc)⟩
  have hlength : letters.length + 1 = Title.maxLength := by
    rw [letters, List.length_replicate]
    rfl
  obtain ⟨hcut, hagain⟩ := Title.tryFrom_cut hstripped hlength
  refine ⟨_, _, hcut, ?_, hagain, fun heq => ?_⟩
  · rw [String.toList_ofList, List.getLast?_append]
    rfl
  · have hlists := String.ofList_injective (congrArg Title.val heq)
    exact absurd (congrArg List.length hlists) (by simp)

end Articler
