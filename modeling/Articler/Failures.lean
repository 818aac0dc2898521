import Articler.Api.Entries
import Articler.Lib.Faults

/-! Mutations of entries that fail, in whatever call of the database and for whatever
reason. -/
namespace Articler
open Txn

/-- `entries::create` and the handlers that change an entry. -/
inductive Mutation (Url : Type) where
  | create (entry : CreateEntry) (tags : List Tags.CreateTag)
  | patchEntry (now : DateTime) (uid : String) (entryId : Int) (request : Api.UpdateEntry Url)
      (userId : Int)
  | postEntryTags (entryId : Int) (labels : List String) (userId : Int)
  | deleteTagFromEntry (entryId tagId userId : Int)
  | deleteEntry (entryId : Int) (expect : Api.Expect) (userId : Int)

section
variable {Url : Type} [UrlCrate Url] {m : Type → Type} [Acquire Db Error m]

def Mutation.run (crates : Crates) : Mutation Url → m Unit
  | create entry tags => do let _ ← Entries.create entry tags
  | patchEntry now uid entryId request userId => do
    let _ ← Api.patchEntry crates now uid entryId request userId
  | postEntryTags entryId labels userId => do
    let _ ← (Api.postEntryTags crates entryId labels userId : m (Entry Url))
  | deleteTagFromEntry entryId tagId userId => do
    let _ ← (Api.deleteTagFromEntry entryId tagId userId : m (Entry Url))
  | deleteEntry entryId expect userId => do
    let _ ← (Api.deleteEntry entryId expect userId : m (Api.DeleteEntryResponse Url))

end

section
variable {μ : Type} {faults : Nat → Option Error} {s t : Course μ Db} {e : Error}

theorem Entries.findById_faulty {userId id : Int} {found : Option FullEntry}
    (h : (findById userId id : Faulty μ Db Error _) faults s = (.ok found, t)) :
    found = (s.store.entries.find? fun e => e.userId == userId && e.id == id).map (fun e =>
      (EntryRow.fromRow e, linkedTags id s.store)) ∧ t.store = s.store := by
  obtain ⟨u, -, hu, -, rfl⟩ := Faulty.transaction_ok_inv h
  obtain ⟨entry, s1, hentry, h⟩ := Faulty.bind_ok_inv hu
  obtain ⟨-, hfound, rfl⟩ := Faulty.query_ok_inv hentry
  have hfound : (s.store.entries.find? fun e => e.userId == userId && e.id == id) = entry :=
    Except.ok.inj hfound
  rw [hfound]
  cases entry with
  | none =>
    cases h
    exact ⟨rfl, rfl⟩
  | some e =>
    obtain ⟨tagRows, s2, htags, h⟩ := Faulty.bind_ok_inv h
    obtain ⟨-, hlinked, rfl⟩ := Faulty.query_ok_inv htags
    cases hlinked
    cases h
    exact ⟨rfl, rfl⟩

end

section handlers
variable {Url : Type} [UrlCrate Url] {crates : Crates} {μ : Type} {faults : Nat → Option Error}
  {s t : Course μ Db} {e : Error}

/-- A handler that commits and then answers: if what it committed along with an error is
nothing, a failure leaves nothing. -/
theorem error_of_result {α : Type} {x : Faulty μ Db Error (Except Error α)}
    (hx : ∀ e u, x faults s.called = (.ok (.error e), u) → u.store = s.store)
    (h : (transaction x >>= fun result => ofExcept result : Faulty μ Db Error α) faults s =
      (.error e, t)) : t.store = s.store := by
  rcases Faulty.bind_error_inv h with h | ⟨result, u, hresult, h⟩
  · exact Faulty.transaction_error h
  · obtain ⟨v, -, hv, -, rfl⟩ := Faulty.transaction_ok_inv hresult
    obtain rfl := Faulty.ofExcept_error h
    cases result with
    | ok a => cases h
    | error e => exact hx e v hv

theorem Api.postEntryTags_error {entryId userId : Int} {labels : List String}
    (h : (postEntryTags crates entryId labels userId : Faulty μ Db Error (Entry Url)) faults s =
      (.error e, t)) : t.store = s.store := by
  refine error_of_result (fun e u h => ?_) h
  obtain ⟨found, s1, hfound, h⟩ := Faulty.bind_ok_inv h
  obtain ⟨-, hstore⟩ := Articler.Entries.findById_faulty hfound
  split at h
  · obtain ⟨_, s2, -, h⟩ := Faulty.bind_ok_inv h
    obtain ⟨_, s3, -, h⟩ := Faulty.bind_ok_inv h
    obtain ⟨_, s4, -, h⟩ := Faulty.bind_ok_inv h
    obtain ⟨_, s5, -, h⟩ := Faulty.bind_ok_inv h
    cases h
  · cases h
    exact hstore

/-- The state that the handler does not expect never comes about: what it has deleted is a
link, and the entry is still there. -/
theorem Api.deleteTagFromEntry_error {entryId tagId userId : Int}
    (h : (deleteTagFromEntry entryId tagId userId : Faulty μ Db Error (Entry Url)) faults s =
      (.error e, t)) : t.store = s.store := by
  refine error_of_result (fun e u h => ?_) h
  obtain ⟨found, s1, hexists, h⟩ := Faulty.bind_ok_inv h
  obtain ⟨-, hfound, rfl⟩ := Faulty.query_ok_inv hexists
  split at h
  · rename_i htrue
    obtain ⟨_, s2, hdelete, h⟩ := Faulty.bind_ok_inv h
    obtain ⟨-, hdeleted, -⟩ := Faulty.stmt_ok_inv hdelete
    have hentries : s2.store.entries = s.store.entries :=
      (congrArg Db.entries (Prod.mk.inj (Except.ok.inj hdeleted)).2.symm).trans rfl
    obtain ⟨full, s3, hfull, h⟩ := Faulty.bind_ok_inv h
    obtain ⟨rfl, -⟩ := Articler.Entries.findById_faulty hfull
    have hsome : (s2.store.entries.find? fun e => e.userId == userId && e.id == entryId).isSome := by
      rw [hentries, List.find?_isSome, ← List.any_eq_true]
      exact (Except.ok.inj hfound).trans htrue
    obtain ⟨row, hrow⟩ := Option.isSome_iff_exists.mp hsome
    rw [hrow] at h
    obtain ⟨_, s4, -, h⟩ := Faulty.bind_ok_inv h
    cases h
  · cases h
    rfl

/-- Whatever fails, a mutation that returns an error leaves all tables as they were. -/
theorem Mutation.error_leaves {mutation : Mutation Url}
    (h : (mutation.run crates : Faulty μ Db Error Unit) faults s = (.error e, t)) :
    t.store = s.store := by
  cases mutation with
  | create entry tags => exact Faulty.transaction_error (Faulty.mapped_error h)
  | patchEntry now uid entryId request userId =>
    rcases Faulty.bind_error_inv (Faulty.mapped_error h) with h | ⟨update, u, hupdate, h⟩
    · rw [Faulty.ofExcept_error h]
    · rw [Faulty.transaction_error h, (Faulty.ofExcept_ok_inv hupdate).2]
  | postEntryTags entryId labels userId =>
    exact Api.postEntryTags_error (Faulty.mapped_error h)
  | deleteTagFromEntry entryId tagId userId =>
    exact Api.deleteTagFromEntry_error (Faulty.mapped_error h)
  | deleteEntry entryId expect userId => exact Faulty.transaction_error (Faulty.mapped_error h)

end handlers

/-- The tag is in when the database fails to link it. -/
def tagging : Except Error Unit × Course Unit Db :=
  (Mutation.postEntryTags 2 ["go", "rust"] 1 : Mutation HttpText).run plainCrates
    (m := Faulty Unit Db Error) (fun k => if k = 7 then some (.sqlx .busy) else none)
    ⟨0, (), shelf.val⟩

theorem Mutation.error_leaves_tagging :
    tagging.1 = .error (.sqlx .busy) ∧ tagging.2.store = shelf.val :=
  have h : tagging = (.error (.sqlx .busy), tagging.2) := rfl
  ⟨rfl, error_leaves h⟩

end Articler
