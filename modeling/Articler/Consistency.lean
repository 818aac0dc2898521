import Articler.Lib.Sessions
import Articler.ReadBack
import Articler.Updates

/-! The flags of an entry and what goes with them: when it was archived or starred, the
uid it is shared under, and the order of its two timestamps. -/
namespace Articler
open Txn Rows

structure EntryRecord.Consistent (e : EntryRecord) : Prop where
  archived : e.isArchived = true ↔ e.archivedAt.isSome = true
  starred : e.isStarred = true ↔ e.starredAt.isSome = true
  shared : e.isPublic = some true ↔ e.uid.isSome = true
  stamped : e.createdAt ≤ e.updatedAt

def Db.Consistent (db : Db) : Prop := ∀ e ∈ db.entries, e.Consistent

/-- An update leaves a flag and its companion, or sets both to what fits. -/
def SetTogether {α : Type} (flag : UpdateField Bool) (value : UpdateField α) : Prop :=
  flag = none ∧ value = none ∨
    ∃ b v, flag = some (some b) ∧ value = some v ∧ (b = true ↔ v.isSome = true)

structure UpdateEntry.Paired (u : UpdateEntry) : Prop where
  archived : SetTogether u.isArchived u.archivedAt
  starred : SetTogether u.isStarred u.starredAt
  shared : SetTogether u.isPublic u.uid

section updates
variable {α : Type} {flag : UpdateField Bool} {value : UpdateField α}

theorem SetTogether.none : SetTogether none (none : UpdateField α) := .inl ⟨rfl, rfl⟩

theorem SetTogether.keeps (h : SetTogether flag value) {b : Bool} {v : Option α}
    (hold : b = true ↔ v.isSome = true) :
    flag.join.getD b = true ↔ (value.getD v).isSome = true := by
  rcases h with ⟨rfl, rfl⟩ | ⟨c, w, rfl, rfl, hnew⟩
  · exact hold
  · exact hnew

theorem SetTogether.keepsNullable (h : SetTogether flag value) {b : Option Bool} {v : Option α}
    (hold : b = some true ↔ v.isSome = true) :
    flag.getD b = some true ↔ (value.getD v).isSome = true := by
  rcases h with ⟨rfl, rfl⟩ | ⟨c, w, rfl, rfl, hnew⟩
  · exact hold
  · rw [Option.getD_some, Option.getD_some, Option.some.injEq]
    exact hnew

theorem UpdateEntry.Paired.updated {u : UpdateEntry} (h : u.Paired) {e : EntryRecord}
    (hcheck : e.createdAt ≤ u.updatedAt) (he : e.Consistent) : (u.updated e).Consistent where
  archived := h.archived.keeps he.archived
  starred := h.starred.keeps he.starred
  shared := h.shared.keepsNullable he.shared
  stamped := hcheck

end updates

section requests
variable {Url : Type} [UrlCrate Url] {crates : Crates} {r : Request Url}

theorem Request.inserts_consistent {entry : CreateEntry} (h : r.Inserts crates entry) (id : Int) :
    (entry.record id).Consistent := by
  cases r with
  | postEntries now uid extract userId addEntry =>
    obtain ⟨url, -, rfl⟩ := h
    have hstamp (b : Bool) :
        b = true ↔ (if b then some now.timestamp else Option.none).isSome = true := by
      cases b <;> simp
    refine ⟨hstamp _, hstamp _, ?_, Int.le_refl _⟩
    change addEntry.isPublic = some true ↔
      ((addEntry.isPublic.filter fun b => b).map fun _ => uid).isSome = true
    rcases addEntry.isPublic with _ | _ | _ <;> simp
  | doAdd now extract _ userId =>
    obtain ⟨url, rfl⟩ := h
    exact ⟨by simp [CreateEntry.record, Web.addedEntry], by simp [CreateEntry.record, Web.addedEntry],
      by simp [CreateEntry.record, Web.addedEntry], Int.le_refl _⟩
  | _ => exact h.elim

theorem Api.stamp_together (now : DateTime) (flag : Option Bool) :
    SetTogether (flag.map some) (stamp now flag) := by
  rcases flag with _ | _ | _
  · exact .none
  · exact .inr ⟨false, none, rfl, rfl, by simp⟩
  · exact .inr ⟨true, some now.timestamp, rfl, rfl, by simp⟩

theorem Api.repoUpdate_paired {request : Api.UpdateEntry Url} {now : DateTime} {uid : String}
    {update : Articler.UpdateEntry} (h : request.repoUpdate crates now uid = .ok update) :
    update.Paired := by
  obtain ⟨title, rest, hrest, rfl⟩ := UpdateEntry.repoUpdate_ok h
  cases hrest
  refine ⟨stamp_together now _, stamp_together now _, ?_⟩
  dsimp only
  rcases request.isPublic with _ | _ | _
  · exact .none
  · exact .inr ⟨false, none, rfl, rfl, by simp⟩
  · exact .inr ⟨true, some uid, rfl, rfl, by simp⟩

theorem Request.updates_paired {update : UpdateEntry} (h : r.Updates crates update) :
    update.Paired := by
  have hset (flag : Bool) (now : DateTime) :
      SetTogether (some (some flag)) (some (if flag then some now.timestamp else none)) :=
    .inr ⟨flag, _, rfl, rfl, by cases flag <;> simp⟩
  cases r with
  | patchEntry => exact Api.repoUpdate_paired h
  | doArchive now updated _ archived =>
    obtain rfl := h
    exact ⟨hset archived now, .none, .none⟩
  | doFavourite now updated _ starred =>
    obtain rfl := h
    exact ⟨.none, hset starred now, .none⟩
  | doEditTitle =>
    obtain ⟨title, rfl⟩ := h
    exact ⟨.none, .none, .none⟩
  | reloadArticles =>
    obtain ⟨-, id, -, doc, -, -, rfl⟩ := h
    exact ⟨.none, .none, .none⟩
  | _ => exact h.elim

theorem Request.built_consistent {m : Type → Type} [Acquire Db Error m] {K : Type} [Field K]
    [LinearOrder K] (crates : Crates) (eng : Engine K) (r : Request Url) :
    Built (fun s t => s.Consistent → t.Consistent) (r.run crates eng : m Unit) := by
  refine Request.built (G := fun s t => s.Consistent → t.Consistent) crates (fun _ => id)
    (fun k hk s t hw hs e he => ?_) eng r (fun entry hi s id t h hs e he => ?_)
    (fun update hu s p n t h hs e he => ?_)
  · exact hs e (hw.mem_entries hk.1 he)
  · obtain ⟨-, -, -, rfl⟩ := Db.insertEntry_ok h
    rcases List.mem_append.mp he with he | he
    · exact hs e he
    · rw [List.mem_singleton.mp he]
      exact inserts_consistent hi _
  · obtain ⟨hcheck, -, fts, rfl⟩ := Db.updateEntries_updated h
    obtain ⟨d, hd, rfl⟩ := List.mem_map.mp he
    split
    · rename_i hp
      exact (updates_paired hu).updated (hcheck d hd hp) (hs d hd)
    · exact hs d hd

end requests

/-- Whatever requests are served, and however their statements interleave, every entry is
consistent. -/
theorem entries_consistent {Url : Type} [UrlCrate Url] {K : Type} [Field K] [LinearOrder K]
    (crates : Crates) (eng : Nat → Engine K) (requests : Nat → Request Url)
    {s : World Db Error Unit}
    (h : World.Reached {} (fun i => (requests i).run crates (eng i)) s) :
    ∀ e ∈ s.db.entries, e.Consistent := by
  have hserial := h.serial (G := fun s t => s.Consistent → t.Consistent) (fun _ => id)
    (fun _ _ _ hst htu => htu ∘ hst) fun i => (requests i).built_consistent crates (eng i)
  exact hserial.keeps (I := Db.Consistent) (fun _ _ _ hG => hG)
    fun e he => absurd he List.not_mem_nil

/-- One session makes a user while the other begins to post an archived and shared entry. -/
def sharing : Nat → Request HttpText
  | 0 => .createUser "ada" "" "" "" 0 0
  | _ => .postEntries ⟨11, by decide⟩ "uid" (fun url => page url.url) 1
      { url := ⟨"https://c.org/", by decide⟩, archive := some true, isPublic := some true }

theorem sharing_reached : ∃ s : World Db Error Unit,
    World.Reached {} (fun i => (sharing i).run plainCrates plainEngine) s ∧
      s.db.entries.length = 1 := by
  have hstart : World.Reached {} (fun i => (sharing i).run plainCrates plainEngine)
    (World.start {} fun i => (sharing i).run plainCrates plainEngine) := .refl
  have huser := (hstart.step 1 (.enter rfl)).step 0 (.write rfl (by decide) rfl)
  have hentry := huser.step 1 (.change rfl (by decide) rfl (.inl rfl))
  have hread := (hentry.step 1 (.look rfl rfl)).step 1 (.look rfl rfl)
  exact ⟨_, hread.step 1 (.commit rfl rfl), rfl⟩

theorem entries_consistent_sharing : ∃ s : World Db Error Unit,
    World.Reached {} (fun i => (sharing i).run plainCrates plainEngine) s ∧
      s.db.entries.length = 1 ∧ ∀ e ∈ s.db.entries, e.Consistent := by
  obtain ⟨s, h, hlength⟩ := sharing_reached
  exact ⟨s, h, hlength, entries_consistent plainCrates (fun _ => plainEngine) sharing h⟩

end Articler
