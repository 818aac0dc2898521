import Articler.Repository.Accounts
import Articler.Repository.Entries

/-! Runs of the database: which calls write, which statements they issue, and the
states that any sequence of calls can reach. -/
namespace Articler
open Txn Rows Relation

/-- A call of a repository function that writes. No function deletes a user; the
foreign keys say what happens when one is deleted by hand. -/
inductive Call where
  | createUser (username passwordHash name email : String) (createdAt updatedAt : Int)
  | deleteUser (id : Int)
  | create (entry : CreateEntry) (tags : List Tags.CreateTag)
  | updateById (userId id : Int) (update : UpdateEntry)
  | deleteById (userId id : Int)
  | deleteTagByTagId (userId id tagId : Int)
  | createAndLink (userId entryId : Int) (tags : List Tags.CreateTag)
  | updateTagsByEntryId (userId entryId : Int) (tags : List Tags.CreateTag)
  | deleteByLabel (userId : Int) (label : String)
  | deleteAllByLabel (userId : Int) (labels : List String)
  | deleteTagById (userId id : Int)
  | createClient (userId : Int) (clientName clientId clientSecret : String) (createdAt : Int)
  | deleteClientById (userId id : Int)
  | createToken (now : Int) (token : String) (userId clientId createdAt expiresIn : Int)
  | deleteToken (token : String)
  | deleteExpired (now : Int)

def Call.run {m : Type → Type} [Acquire Db Error m] : Call → m Unit
  | .createUser username passwordHash name email createdAt updatedAt => do
    let _ ← Users.createUser username passwordHash name email createdAt updatedAt
  | .deleteUser id => stmt fun db => .ok ((), db.deleteUsers fun u => u.id == id)
  | .create entry tags => do let _ ← Entries.create entry tags
  | .updateById userId id update => do let _ ← Entries.updateById userId id update
  | .deleteById userId id => do let _ ← Entries.deleteById userId id
  | .deleteTagByTagId userId id tagId => do let _ ← Entries.deleteTagByTagId userId id tagId
  | .createAndLink userId entryId tags => do let _ ← Tags.createAndLink userId entryId tags
  | .updateTagsByEntryId userId entryId tags => do
    let _ ← Tags.updateTagsByEntryId userId entryId tags
  | .deleteByLabel userId label => do let _ ← Tags.deleteByLabel userId label
  | .deleteAllByLabel userId labels => do let _ ← Tags.deleteAllByLabel userId labels
  | .deleteTagById userId id => do let _ ← Tags.deleteById userId id
  | .createClient userId clientName clientId clientSecret createdAt => do
    let _ ← Clients.create userId clientName clientId clientSecret createdAt
  | .deleteClientById userId id => do let _ ← Clients.deleteById userId id
  | .createToken now token userId clientId createdAt expiresIn => do
    let _ ← Tokens.create now token userId clientId createdAt expiresIn
  | .deleteToken token => do let _ ← Tokens.delete token
  | .deleteExpired now => Tokens.deleteExpired now

def Call.Step (s t : Db) : Prop := ∃ c : Call, t = ((c.run : Run Db Error Unit) s).2

/-- The states of runs from the empty database. -/
def Reachable (db : Db) : Prop := ReflTransGen Call.Step {} db

def runCalls (calls : List Call) (db : Db) : Db :=
  calls.foldl (fun db c => ((c.run : Run Db Error Unit) db).2) db

theorem Reachable.calls {db : Db} (h : Reachable db) (calls : List Call) :
    Reachable (runCalls calls db) := by
  induction calls generalizing db with
  | nil => exact h
  | cons c calls ih => exact ih (h.tail ⟨c, rfl⟩)

/-- The writing statements of the repository. -/
inductive Statement where
  | insertUser | deleteUsers
  | insertEntry | updateEntries | deleteEntries
  | insertTags | deleteTags | linkLabels | deleteEntryTags
  | insertClient | deleteClients
  | insertToken | deleteTokens
deriving DecidableEq, Repr

/-- What each of them does, as the repository issues it. -/
inductive Write : Statement → Db → Db → Prop where
  | insertUser {s t : Db} {row : Int → UserRow} {u : UserRow} (hid : ∀ i, (row i).id = i)
      (h : s.insertUser row = .ok (u, t)) : Write .insertUser s t
  | deleteUsers (s : Db) (p : UserRow → Bool) : Write .deleteUsers s (s.deleteUsers p)
  | insertEntry {s t : Db} {row : Int → EntryRecord} {id : Int} (hid : ∀ i, (row i).id = i)
      (h : s.insertEntry row = .ok (id, t)) : Write .insertEntry s t
  | updateEntries {s t : Db} {p : EntryRecord → Bool} {as : List Assign} {n : Nat}
      (h : s.updateEntries p as = .ok (n, t)) : Write .updateEntries s t
  | deleteEntries (s : Db) (p : EntryRecord → Bool) : Write .deleteEntries s (s.deleteEntries p)
  | insertTags (s : Db) (userId : Int) (tags : List Tags.CreateTag)
      (h : s.hasUser userId = true ∨ (Tags.insertTags userId tags s).tags = s.tags) :
      Write .insertTags s (Tags.insertTags userId tags s)
  | deleteTags (s : Db) (p : TagRow → Bool) : Write .deleteTags s (s.deleteTags p)
  | linkLabels (s : Db) (userId entryId : Int) (labels : List String) :
      Write .linkLabels s (s.insertEntryTags (Tags.labelLinks userId entryId labels s))
  | deleteEntryTags (s : Db) (p : EntryTag → Bool) :
      Write .deleteEntryTags s (s.deleteEntryTags p)
  | insertClient {s t : Db} {row : Int → ClientRow} {c : ClientRow} (hid : ∀ i, (row i).id = i)
      (h : s.insertClient row = .ok (c, t)) : Write .insertClient s t
  | deleteClients (s : Db) (p : ClientRow → Bool) : Write .deleteClients s (s.deleteClients p)
  | insertToken {s t : Db} {row : Int → TokenRow} {r : TokenRow} (hid : ∀ i, (row i).id = i)
      (h : s.insertToken row = .ok (r, t)) : Write .insertToken s t
  | deleteTokens (s : Db) (p : TokenRow → Bool) : Write .deleteTokens s (s.deleteTokens p)

/-- The tables, each with its row of `sqlite_sequence`. -/
inductive DbTable where
  | users | entries | tags | entryTags | clients | tokens
deriving DecidableEq, Repr

/-- The tables that a statement may change, by itself, by a trigger or by a cascade. -/
def Statement.changes : Statement → List DbTable
  | .insertUser => [.users]
  | .deleteUsers => [.users, .entries, .tags, .entryTags, .clients, .tokens]
  | .insertEntry | .updateEntries => [.entries]
  | .deleteEntries => [.entries, .entryTags]
  | .insertTags => [.tags]
  | .deleteTags => [.tags, .entryTags]
  | .linkLabels | .deleteEntryTags => [.entryTags]
  | .insertClient => [.clients]
  | .deleteClients => [.clients, .tokens]
  | .insertToken | .deleteTokens => [.tokens]

def DbTable.Same (s t : Db) : DbTable → Prop
  | users => t.users = s.users ∧ t.usersSeq = s.usersSeq
  | entries => t.entries = s.entries ∧ t.entriesSeq = s.entriesSeq ∧ t.entriesFts = s.entriesFts
  | tags => t.tags = s.tags ∧ t.tagsSeq = s.tagsSeq
  | entryTags => t.entryTags = s.entryTags
  | clients => t.clients = s.clients ∧ t.clientsSeq = s.clientsSeq
  | tokens => t.tokens = s.tokens ∧ t.tokensSeq = s.tokensSeq

/-- A statement changes no other table. -/
theorem Write.frame {k : Statement} {s t : Db} (hw : Write k s t) {table : DbTable}
    (h : table ∉ k.changes) : table.Same s t := by
  cases hw with
  | insertUser hid hi =>
    obtain ⟨-, -, rfl⟩ := Db.insertUser_ok hi
    cases table <;> simp_all [Statement.changes, DbTable.Same]
  | insertEntry hid hi =>
    obtain ⟨-, -, -, rfl⟩ := Db.insertEntry_ok hi
    cases table <;> simp_all [Statement.changes, DbTable.Same]
  | updateEntries hu =>
    obtain ⟨_, -, -, rfl⟩ := Db.updateEntries_ok hu
    cases table <;> simp_all [Statement.changes, DbTable.Same]
  | insertTags _ userId tags =>
    obtain ⟨new, heq, -⟩ := Tags.insertTags_shape s userId tags
    rw [heq]
    cases table <;> simp_all [Statement.changes, DbTable.Same]
  | insertClient hid hi =>
    obtain ⟨-, -, -, rfl⟩ := Db.insertClient_ok hi
    cases table <;> simp_all [Statement.changes, DbTable.Same]
  | insertToken hid hi =>
    obtain ⟨-, -, -, rfl⟩ := Db.insertToken_ok hi
    cases table <;> simp_all [Statement.changes, DbTable.Same]
  | deleteUsers => cases table <;> simp [Statement.changes] at h
  | deleteEntries | deleteTags | linkLabels | deleteEntryTags | deleteClients | deleteTokens =>
    cases table <;> simp_all [Statement.changes, DbTable.Same, Db.deleteEntries, Db.deleteTags,
      Db.insertEntryTags, Db.deleteEntryTags, Db.deleteClients, Db.deleteTokens]

def WriteIn (K : Statement → Prop) (s t : Db) : Prop := ∃ k, K k ∧ Write k s t

abbrev AnyWrite : Db → Db → Prop := WriteIn fun _ => True

/-- The states that statements of the repository lead to. -/
def Written (db : Db) : Prop := ReflTransGen AnyWrite {} db

abbrev Writes {α : Type} (K : Statement → Prop) (x : Run Db Error α) : Prop :=
  Obeys (fun _ => True) (ReflTransGen (WriteIn K)) (fun _ => True) x

namespace Writes
variable {α : Type} {K : Statement → Prop} {x : Run Db Error α}

theorem of_built (hx : Built (ReflTransGen (WriteIn K)) x) : Writes K x := by
  have h := hx.obeys (I := fun _ => True) fun _ _ _ _ => trivial
  rwa [reflTransGen_eq_self] at h

theorem keeps (hx : Writes K x) {I : Db → Prop}
    (hI : ∀ k s t, K k → Write k s t → I s → I t) {db : Db} (h : I db) : I (x db).2 :=
  run_invariant (fun s t hs ⟨k, hk, hw⟩ => hI k s t hk hw hs) h (hx db trivial).2.1

end Writes

/-- Whatever a statement of the kind `k` does, it moves the database along `G`. -/
def Allows (G : Db → Db → Prop) (k : Statement) : Prop := ∀ s t, Write k s t → G s t

section functions
variable {m : Type → Type} [Acquire Db Error m] {G : Db → Db → Prop} (userId id : Int)

theorem Users.createUser_built (h : Allows G .insertUser)
    (username passwordHash name email : String) (createdAt updatedAt : Int) :
    Built G (createUser username passwordHash name email createdAt updatedAt : m UserRow) :=
  .stmt fun s _ t hs => h s t (.insertUser (fun _ => rfl) hs)

theorem Entries.updateById_built {update : UpdateEntry}
    (h : ∀ s n t, s.updateEntries (fun e => e.id == id && e.userId == userId) update.assignments =
      .ok (n, t) → G s t) : Built G (updateById userId id update : m Bool) :=
  .bind (.stmt h) fun _ => .pure _

theorem Entries.deleteById_built (h : Allows G .deleteEntries) :
    Built G (deleteById userId id : m Bool) :=
  .stmt fun s _ t hs => by
    cases hs
    exact h s _ (.deleteEntries s _)

theorem Entries.deleteTagByTagId_built (h : Allows G .deleteEntryTags) (tagId : Int) :
    Built G (deleteTagByTagId userId id tagId : m Bool) :=
  .stmt fun s _ t hs => by
    cases hs
    exact h s _ (.deleteEntryTags s _)

theorem Entries.findById_built (hrefl : ∀ s, G s s) :
    Built G (findById userId id : m (Option FullEntry)) := by
  refine .transaction (.bind (.query hrefl _) fun found => ?_)
  cases found with
  | none => exact .pure _
  | some e => exact .bind (.query hrefl _) fun _ => .pure _

theorem Tags.createAndLink_built (hrefl : ∀ s, G s s) (hinsert : Allows G .insertTags)
    (hlink : Allows G .linkLabels) (tags : List CreateTag) :
    Built G (createAndLink userId id tags : m (List TagRow)) := by
  unfold createAndLink
  split
  · exact .pure _
  split
  · exact .fail _
  refine .transaction (.bind (.stmt fun s _ t hs => ?_) fun _ =>
    .bind (.stmt fun s _ t hs => ?_) fun _ => .query hrefl _)
  · split at hs
    · rename_i hguard
      cases hs
      exact hinsert s _ (.insertTags s userId tags (by simpa using hguard))
    · cases hs
  · cases hs
    exact hlink s _ (.linkLabels s userId id _)

theorem Tags.updateTagsByEntryId_built (hrefl : ∀ s, G s s) (hinsert : Allows G .insertTags)
    (hlink : Allows G .linkLabels) (hdelete : Allows G .deleteEntryTags) (tags : List CreateTag) :
    Built G (updateTagsByEntryId userId id tags : m (List TagRow)) := by
  refine .bind (createAndLink_built userId id hrefl hinsert hlink tags) fun _ =>
    .bind (.stmt fun s _ t hs => ?_) fun _ => .pure _
  cases hs
  exact hdelete s _ (.deleteEntryTags s _)

theorem Tags.deleteReturning_built (h : Allows G .deleteTags) (p : TagRow → Bool) :
    Built G (deleteReturning p : m (List TagRow)) :=
  .stmt fun s _ t hs => by
    cases hs
    exact h s _ (.deleteTags s p)

theorem Entries.create_built (hrefl : ∀ s, G s s) {entry : CreateEntry}
    (hinsert : ∀ s i t, s.insertEntry entry.record = .ok (i, t) → G s t)
    (htags : Allows G .insertTags) (hlink : Allows G .linkLabels) (tags : List Tags.CreateTag) :
    Built G (create entry tags : m FullEntry) := by
  refine .transaction (.bind (.stmt hinsert) fun _ => .bind ?_ fun _ =>
    .bind (.query hrefl _) fun _ => .bind (.query hrefl _) fun _ => .pure _)
  split
  · exact .pure _
  · exact Tags.createAndLink_built _ _ hrefl htags hlink _

theorem Clients.deleteById_built (h : Allows G .deleteClients) :
    Built G (deleteById userId id : m Bool) :=
  .stmt fun s _ t hs => by
    cases hs
    exact h s _ (.deleteClients s _)

theorem Tokens.deleteTokens_built (h : Allows G .deleteTokens) {α : Type} (f : Db → α)
    (p : TokenRow → Bool) :
    Built G (stmt fun db => .ok (f db, db.deleteTokens p) : m α) :=
  .stmt fun s _ t hs => by
    cases hs
    exact h s _ (.deleteTokens s p)

end functions

@[simp] def Call.statements : Call → List Statement
  | .createUser .. => [.insertUser]
  | .deleteUser .. => [.deleteUsers]
  | .create .. => [.insertEntry, .insertTags, .linkLabels]
  | .updateById .. => [.updateEntries]
  | .deleteById .. => [.deleteEntries]
  | .deleteTagByTagId .. => [.deleteEntryTags]
  | .createAndLink .. => [.insertTags, .linkLabels]
  | .updateTagsByEntryId .. => [.insertTags, .linkLabels, .deleteEntryTags]
  | .deleteByLabel .. | .deleteAllByLabel .. | .deleteTagById .. => [.deleteTags]
  | .createClient .. => [.insertClient]
  | .deleteClientById .. => [.deleteClients]
  | .createToken .. => [.insertToken]
  | .deleteToken .. | .deleteExpired .. => [.deleteTokens]

/-- A call is put together from statements of its kinds. -/
theorem Call.run_built {m : Type → Type} [Acquire Db Error m] {G : Db → Db → Prop}
    (hrefl : ∀ s, G s s) (c : Call) (h : ∀ k ∈ c.statements, Allows G k) :
    Built G (c.run : m Unit) := by
  cases c with
  | createUser => exact .bind (Users.createUser_built (h _ (by simp)) ..) fun _ => .pure _
  | deleteUser id =>
    refine .stmt fun s _ t hs => ?_
    cases hs
    exact h .deleteUsers (by simp) s _ (.deleteUsers s _)
  | create entry tags =>
    refine .bind (Entries.create_built hrefl (fun s _ t hs => ?_) (h _ (by simp)) (h _ (by simp)) _)
      fun _ => .pure _
    exact h .insertEntry (by simp) s t (.insertEntry (fun _ => rfl) hs)
  | updateById userId id update =>
    refine .bind (Entries.updateById_built userId id fun s _ t hs => ?_) fun _ => .pure _
    exact h .updateEntries (by simp) s t (.updateEntries hs)
  | deleteById userId id =>
    exact .bind (Entries.deleteById_built userId id (h _ (by simp))) fun _ => .pure _
  | deleteTagByTagId userId id tagId =>
    exact .bind (Entries.deleteTagByTagId_built userId id (h _ (by simp)) tagId) fun _ => .pure _
  | createAndLink userId entryId tags =>
    exact .bind (Tags.createAndLink_built userId entryId hrefl (h _ (by simp)) (h _ (by simp)) tags)
      fun _ => .pure _
  | updateTagsByEntryId userId entryId tags =>
    exact .bind (Tags.updateTagsByEntryId_built userId entryId hrefl (h _ (by simp))
      (h _ (by simp)) (h _ (by simp)) tags) fun _ => .pure _
  | deleteByLabel | deleteTagById =>
    exact .bind (.bind (Tags.deleteReturning_built (h _ (by simp)) _) fun _ => .pure _)
      fun _ => .pure _
  | deleteAllByLabel =>
    exact .bind (.bind (.ofExcept _) fun _ => Tags.deleteReturning_built (h _ (by simp)) _)
      fun _ => .pure _
  | createClient =>
    exact .bind (.stmt fun s _ t hs => h .insertClient (by simp) s t (.insertClient (fun _ => rfl) hs))
      fun _ => .pure _
  | deleteClientById userId id =>
    exact .bind (Clients.deleteById_built userId id (h _ (by simp))) fun _ => .pure _
  | createToken =>
    exact .bind (.stmt fun s _ t hs => h .insertToken (by simp) s t (.insertToken (fun _ => rfl) hs))
      fun _ => .pure _
  | deleteToken =>
    exact .bind (Tokens.deleteTokens_built (h _ (by simp)) _ _) fun _ => .pure _
  | deleteExpired => exact Tokens.deleteTokens_built (h _ (by simp)) _ _

theorem Call.run_writes (c : Call) :
    Writes (fun k => k ∈ c.statements) (c.run : Run Db Error Unit) :=
  .of_built (c.run_built (fun _ => .refl) fun k hk _ _ hw => .single ⟨k, hk, hw⟩)

/-- Whatever calls do, they do by statements. -/
theorem Reachable.written {db : Db} (h : Reachable db) : Written db := by
  refine run_invariant (I := Written) (fun s t hs hst => ?_) .refl h
  obtain ⟨c, rfl⟩ := hst
  exact c.run_writes.keeps (I := Written) (fun k s t _ hw hs => hs.tail ⟨k, trivial, hw⟩) hs

end Articler
