import Articler.Rotation

/-! Refresh tokens rotate: no token is refreshed twice or after it expired, and access
tokens stay with the claim they began with. -/
namespace Articler.Rotation
open Txn Relation

section history
variable {history : List Event} {e : Event} {g : Generated} {x : String} {claim : Claim}

@[simp] theorem mem_used_cons :
    x ∈ used (e :: history) ↔ x ∈ strings e.generated ∨ x ∈ used history := by
  simp [used]

theorem access_mem_strings (g : Generated) : g.accessToken ∈ strings g := by simp [strings]

theorem refresh_mem_strings (g : Generated) : g.refreshToken ∈ strings g := by simp [strings]

theorem used_of_rootOf (h : rootOf history x = some claim) : x ∈ used history := by
  induction history generalizing x with
  | nil => cases h
  | cons e history ih =>
    rw [rootOf] at h
    rw [mem_used_cons]
    split at h
    · exact .inl ‹_›
    · exact .inr (ih h)

theorem rootOf_cons (hg : Fresh history e.generated) (h : rootOf history x = some claim) :
    rootOf (e :: history) x = some claim := by
  have hnew : x ∉ strings e.generated := fun hx => hg.unused x hx (used_of_rootOf h)
  rw [rootOf, if_neg hnew]
  exact h

theorem rootOf_new (claim : Claim) (hx : x ∈ strings g) :
    rootOf (⟨g, .newToken claim⟩ :: history) x = some claim := by
  rw [rootOf, if_pos hx]

theorem rootOf_refresh {token : String} (h : rootOf history token = some claim)
    (hx : x ∈ strings g) : rootOf (⟨g, .refresh token⟩ :: history) x = some claim := by
  rw [rootOf, if_pos hx]
  exact h

end history

/-- A refresh token that was generated and is not in the table yet. -/
def Phase.pending : Phase → Option String
  | .drawn _ _ g | .removed _ _ g | .mapped _ g | .stored _ g _ | .minting _ _ g | .minted _ g =>
    some g.refreshToken
  | _ => none

def Phase.purgedAt : Phase → Option Int
  | .purging _ t | .purged _ t => some t
  | .found r | .drawn r _ _ | .removed r _ _ | .mapped r _ | .stored r _ _ => some r.purgedAt
  | _ => none

/-- A row of a token that was issued and not refreshed, and that knows its root. -/
structure RowOk (history : List Event) (issued refreshed : List (String × Int)) (t : TokenRow) :
    Prop where
  root : rootOf history t.token = some t.claim
  issued : ∃ issuedAt, (t.token, issuedAt) ∈ issued ∧
    t.expiresAt = issuedAt + refreshTokenExpirationTime
  unspent : ∀ p ∈ refreshed, p.1 ≠ t.token

def Rooted (history : List Event) (g : Generated) (claim : Claim) : Prop :=
  ∀ x ∈ strings g, rootOf history x = some claim

namespace Sys
variable (s : Sys)

/-- The table, the map and what happened so far fit together. -/
structure Ledger : Prop where
  rows : ∀ t ∈ s.db.tokens, RowOk s.history s.issued s.refreshed t
  access : ∀ x t, s.access x = some t → rootOf s.history x = some t.claim
  issued : ∀ p ∈ s.issued, p.1 ∈ used s.history
  once : (s.refreshed.map Prod.fst).Nodup
  inTime : ∀ p ∈ s.refreshed, ∃ issuedAt, (p.1, issuedAt) ∈ s.issued ∧
    p.2 < issuedAt + refreshTokenExpirationTime

/-- Strings that wait to be stored are nobody else's. -/
structure Waiting : Prop where
  used : ∀ i x, (s.calls i).pending = some x → x ∈ used s.history
  unissued : ∀ i x, (s.calls i).pending = some x → ∀ p ∈ s.issued, p.1 ≠ x
  unique : ∀ i j x, (s.calls i).pending = some x → (s.calls j).pending = some x → i = j

def After (purgedAt : Int) : Prop :=
  purgedAt ≤ s.clock ∧ ∀ t ∈ s.db.tokens, purgedAt < t.expiresAt

structure Snapshot (r : Rotating) : Prop where
  after : s.After r.purgedAt
  token : r.row.token = r.token
  root : rootOf s.history r.token = some r.row.claim
  old : r.version ≤ s.version
  row : r.version = s.version → r.row ∈ s.db.tokens

structure Holds (i : Nat) (r : Rotating) (g : Generated) (w : Db) : Prop where
  writer : s.writer = some (i, w)
  after : s.After r.purgedAt
  token : r.row.token = r.token
  row : r.row ∈ s.db.tokens
  rooted : Rooted s.history g r.row.claim

/-- What a call may rely on. -/
def PhaseOk (i : Nat) : Phase → Prop
  | .purging _ purgedAt => purgedAt ≤ s.clock ∧ s.writer = some (i, s.db.purged purgedAt)
  | .purged _ purgedAt => s.After purgedAt
  | .found r => s.Snapshot r
  | .drawn r _ g => s.Snapshot r ∧ Rooted s.history g r.row.claim
  | .removed r _ g | .mapped r g => ∃ w, s.Holds i r g w ∧
      ∀ t ∈ w.tokens, t ∈ s.db.tokens ∧ t.token ≠ r.token
  | .stored r g issuedAt => ∃ w, s.Holds i r g w ∧
      (∀ t ∈ w.tokens, (t ∈ s.db.tokens ∧ t.token ≠ r.token) ∨
        (t.token = g.refreshToken ∧ t.claim = r.row.claim ∧
          t.expiresAt = issuedAt + refreshTokenExpirationTime)) ∧
      ∀ j purgedAt, (s.calls j).purgedAt = some purgedAt → purgedAt ≤ issuedAt
  | .minting claim _ g | .minted claim g => Rooted s.history g claim
  | _ => True

structure Inv : Prop where
  ledger : s.Ledger
  waiting : s.Waiting
  phases : ∀ i, s.PhaseOk i (s.calls i)

end Sys

section ledger
variable {s s' : Sys} {i : Nat} {p : Phase}

theorem Sys.Ledger.shrink (h : s.Ledger) (htokens : s'.db.tokens ⊆ s.db.tokens)
    (haccess : ∀ x t, s'.access x = some t → s.access x = some t)
    (hhistory : s'.history = s.history) (hissued : s'.issued = s.issued)
    (hrefreshed : s'.refreshed = s.refreshed) : s'.Ledger where
  rows t ht := by
    rw [hhistory, hissued, hrefreshed]
    exact h.rows t (htokens ht)
  access x t ht := by
    rw [hhistory]
    exact h.access x t (haccess x t ht)
  issued := by
    rw [hhistory, hissued]
    exact h.issued
  once := by
    rw [hrefreshed]
    exact h.once
  inTime := by
    rw [hrefreshed, hissued]
    exact h.inTime

theorem Sys.Ledger.goto (h : s.Ledger) : (s.goto i p).Ledger := ⟨h.1, h.2, h.3, h.4, h.5⟩

theorem Sys.Ledger.record (h : s.Ledger) {e : Event} (hg : Fresh s.history e.generated) :
    (s.record e).Ledger where
  rows t ht := { h.rows t ht with root := rootOf_cons hg (h.rows t ht).root }
  access x t ht := rootOf_cons hg (h.access x t ht)
  issued p hp := mem_used_cons.mpr (.inr (h.issued p hp))
  once := h.once
  inTime := h.inTime

theorem Sys.Ledger.insert (h : s.Ledger) {x : String} {t : InternalToken}
    (hroot : rootOf s.history x = some t.claim) :
    (s.modify fun tokens => tokens.insert x t).Ledger where
  rows := h.rows
  access y u hu := by
    rcases AccessTokens.of_insert hu with ⟨rfl, rfl⟩ | hu
    · exact hroot
    · exact h.access y u hu
  issued := h.issued
  once := h.once
  inTime := h.inTime

theorem Sys.Ledger.issue (h : s.Ledger) {w : Db} {token : String} {claim : Claim} {issuedAt : Int}
    (hroot : rootOf s.history token = some claim) (hnew : ∀ p ∈ s.issued, p.1 ≠ token)
    (hw : ∀ t ∈ w.tokens, t ∈ s.db.tokens ∨ (t.token = token ∧ t.claim = claim ∧
      t.expiresAt = issuedAt + refreshTokenExpirationTime)) :
    ((s.commit w).issue token issuedAt).Ledger where
  rows t ht := by
    rcases hw t ht with hold | ⟨rfl, rfl, hexpires⟩
    · obtain ⟨hr, ⟨at', hissued, hexpires⟩, hunspent⟩ := h.rows t hold
      exact ⟨hr, ⟨at', List.mem_cons_of_mem _ hissued, hexpires⟩, hunspent⟩
    · refine ⟨hroot, ⟨issuedAt, List.mem_cons_self, hexpires⟩, fun q hq => ?_⟩
      obtain ⟨at', hissued, -⟩ := h.inTime q hq
      exact hnew (q.1, at') hissued
  access := h.access
  issued q hq := by
    rcases List.mem_cons.mp hq with rfl | hq
    · exact used_of_rootOf hroot
    · exact h.issued q hq
  once := h.once
  inTime q hq := by
    obtain ⟨at', hissued, hlt⟩ := h.inTime q hq
    exact ⟨at', List.mem_cons_of_mem _ hissued, hlt⟩

theorem Sys.Ledger.finish (h : s.Ledger) {r : Rotating}
    (hissued : ∃ issuedAt, (r.token, issuedAt) ∈ s.issued ∧
      r.purgedAt < issuedAt + refreshTokenExpirationTime)
    (hunspent : ∀ q ∈ s.refreshed, q.1 ≠ r.token)
    (hgone : ∀ t ∈ s.db.tokens, t.token ≠ r.token) : (s.finish r).Ledger where
  rows t ht := by
    refine { h.rows t ht with unspent := fun q hq => ?_ }
    rcases List.mem_cons.mp hq with rfl | hq
    · exact (hgone t ht).symm
    · exact (h.rows t ht).unspent q hq
  access := h.access
  issued := h.issued
  once := by
    refine List.nodup_cons.mpr ⟨fun hm => ?_, h.once⟩
    obtain ⟨q, hq, heq⟩ := List.mem_map.mp hm
    exact hunspent q hq heq
  inTime q hq := by
    rcases List.mem_cons.mp hq with rfl | hq
    · exact hissued
    · exact h.inTime q hq

end ledger

section waiting
variable {s : Sys} {i : Nat} {p : Phase}

theorem Sys.Waiting.goto (h : s.Waiting)
    (hp : ∀ x, p.pending = some x → (s.calls i).pending = some x) : (s.goto i p).Waiting := by
  have hold (j : Nat) (x : String) (hx : ((s.goto i p).calls j).pending = some x) :
      (s.calls j).pending = some x := by
    by_cases hj : j = i
    · subst hj
      rw [goto_calls] at hx
      exact hp x hx
    · rwa [goto_calls_of_ne s hj] at hx
  exact ⟨fun j x hx => h.used j x (hold j x hx), fun j x hx => h.unissued j x (hold j x hx),
    fun j k x hj hk => h.unique j k x (hold j x hj) (hold k x hk)⟩

/-- A new pair is nobody's yet. -/
theorem Sys.Waiting.draw (h : s.Waiting) (hl : s.Ledger) {e : Event}
    (hg : Fresh s.history e.generated) (hp : p.pending = some e.generated.refreshToken) :
    ((s.record e).goto i p).Waiting := by
  have hnew := hg.unused _ (refresh_mem_strings e.generated)
  have hcase (j : Nat) (x : String) (hx : (((s.record e).goto i p).calls j).pending = some x) :
      j = i ∧ x = e.generated.refreshToken ∨ j ≠ i ∧ (s.calls j).pending = some x := by
    by_cases hj : j = i
    · subst hj
      rw [goto_calls, hp] at hx
      exact .inl ⟨rfl, (Option.some.inj hx).symm⟩
    · rw [goto_calls_of_ne _ hj] at hx
      exact .inr ⟨hj, hx⟩
  refine ⟨fun j x hx => ?_, fun j x hx q hq => ?_, fun j k x hj hk => ?_⟩
  · rcases hcase j x hx with ⟨-, rfl⟩ | ⟨-, hx⟩
    · exact mem_used_cons.mpr (.inl (refresh_mem_strings _))
    · exact mem_used_cons.mpr (.inr (h.used j x hx))
  · rcases hcase j x hx with ⟨-, rfl⟩ | ⟨-, hx⟩
    · exact fun heq => hnew (heq ▸ hl.issued q hq)
    · exact h.unissued j x hx q hq
  · rcases hcase j x hj with ⟨rfl, rfl⟩ | ⟨hj, hjx⟩ <;>
      rcases hcase k _ hk with ⟨rfl, hkx⟩ | ⟨hk, hkx⟩
    · rfl
    · exact absurd (h.used k _ hkx) hnew
    · exact absurd (h.used j _ (hkx ▸ hjx)) hnew
    · exact h.unique j k x hjx hkx

theorem Sys.Waiting.commit (h : s.Waiting) (w : Db) : (s.commit w).Waiting := ⟨h.1, h.2, h.3⟩

theorem Sys.Waiting.issue (h : s.Waiting) {token : String} (issuedAt : Int)
    (hi : (s.calls i).pending = some token) : ((s.issue token issuedAt).goto i .idle).Waiting := by
  have hold (j : Nat) (x : String)
      (hx : (((s.issue token issuedAt).goto i .idle).calls j).pending = some x) :
      j ≠ i ∧ (s.calls j).pending = some x := by
    by_cases hj : j = i
    · subst hj
      rw [goto_calls] at hx
      cases hx
    · rw [goto_calls_of_ne _ hj] at hx
      exact ⟨hj, hx⟩
  refine ⟨fun j x hx => h.used j x (hold j x hx).2, fun j x hx q hq => ?_,
    fun j k x hj hk => h.unique j k x (hold j x hj).2 (hold k x hk).2⟩
  obtain ⟨hj, hx⟩ := hold j x hx
  rcases List.mem_cons.mp hq with rfl | hq
  · rintro rfl
    exact hj (h.unique j i _ hx hi)
  · exact h.unissued j x hx q hq

end waiting
/-- What a step of call `i` means for the others: time passes, roots stay, a writer keeps
its copy, and tokens that are new in the table outlive every purge. -/
structure Frame (i : Nat) (s s' : Sys) : Prop where
  clock : s.clock ≤ s'.clock
  roots : ∀ x claim, rootOf s.history x = some claim → rootOf s'.history x = some claim
  calls : ∀ j, j ≠ i → s'.calls j = s.calls j
  purged : ∀ t, (s'.calls i).purgedAt = some t → (s.calls i).purgedAt = some t ∨ s.writer = none
  writer : ∀ j w, j ≠ i → s.writer = some (j, w) → s'.writer = some (j, w)
  table : (s'.db = s.db ∧ s'.version = s.version) ∨
    (s'.writer = none ∧ s.version < s'.version ∧ ∀ t ∈ s'.db.tokens, t ∈ s.db.tokens ∨
      ∀ j purgedAt, (s.calls j).purgedAt = some purgedAt → purgedAt < t.expiresAt)

namespace Frame
variable {s s' u : Sys} {i j : Nat} {p : Phase}

theorem goto (hf : Frame i s u) (hcalls : u.calls = s.calls)
    (hp : ∀ t, p.purgedAt = some t → (s.calls i).purgedAt = some t ∨ s.writer = none) :
    Frame i s (u.goto i p) where
  clock := hf.clock
  roots := hf.roots
  calls j hj := by rw [u.goto_calls_of_ne hj, hcalls]
  purged t ht := by
    rw [u.goto_calls] at ht
    exact hp t ht
  writer := hf.writer
  table := hf.table

theorem refl : Frame i s s where
  clock := le_rfl
  roots _ _ h := h
  calls _ _ := rfl
  purged _ h := .inl h
  writer _ _ _ h := h
  table := .inl ⟨rfl, rfl⟩

def Alone (s : Sys) (i : Nat) : Prop := ∀ j w, j ≠ i → s.writer ≠ some (j, w)

theorem alone_of_none (h : s.writer = none) : Alone s i := fun j w _ => by simp [h]

theorem alone_of_some {w : Db} (h : s.writer = some (i, w)) : Alone s i := fun _ _ hj heq =>
  hj (congrArg Prod.fst (Option.some.inj (heq.symm.trans h)))

theorem modify (f : AccessTokens → AccessTokens) : Frame i s (s.modify f) :=
  { (refl : Frame i s s) with }

theorem record {e : Event} (hg : Fresh s.history e.generated) : Frame i s (s.record e) :=
  { (refl : Frame i s s) with roots := fun _ _ h => rootOf_cons hg h }

theorem commit (h : Alone s i) {w : Db} (hw : ∀ t ∈ w.tokens, t ∈ s.db.tokens ∨
      ∀ j purgedAt, (s.calls j).purgedAt = some purgedAt → purgedAt < t.expiresAt) :
    Frame i s (s.commit w) := by
  refine { (refl : Frame i s s) with writer := fun j v hj hw => absurd hw (h j v hj), table := ?_ }
  by_cases hsame : w = s.db
  · exact .inl ⟨hsame, if_pos hsame⟩
  · exact .inr ⟨rfl, (Nat.lt_succ_self _).trans_eq (if_neg hsame).symm, hw⟩

theorem issue (hf : Frame i s u) (token : String) (issuedAt : Int) :
    Frame i s (u.issue token issuedAt) := ⟨hf.1, hf.2, hf.3, hf.4, hf.5, hf.6⟩

theorem finish (hf : Frame i s u) (r : Rotating) : Frame i s (u.finish r) :=
  ⟨hf.1, hf.2, hf.3, hf.4, hf.5, hf.6⟩

variable (hf : Frame i s s')
include hf

theorem after {purgedAt : Int} (hj : (s.calls j).purgedAt = some purgedAt)
    (h : s.After purgedAt) : s'.After purgedAt := by
  refine ⟨h.1.trans hf.clock, fun t ht => ?_⟩
  rcases hf.table with ⟨hdb, -⟩ | ⟨-, -, hnew⟩
  · exact h.2 t (hdb ▸ ht)
  · rcases hnew t ht with hold | hlate
    · exact h.2 t hold
    · exact hlate j purgedAt hj

theorem rooted {g : Generated} {claim : Claim} (h : Rooted s.history g claim) :
    Rooted s'.history g claim := fun x hx => hf.roots x claim (h x hx)

theorem snapshot {r : Rotating} (hj : (s.calls j).purgedAt = some r.purgedAt)
    (h : s.Snapshot r) : s'.Snapshot r := by
  have hold := h.old
  refine ⟨hf.after hj h.after, h.token, hf.roots _ _ h.root, ?_, fun hv => ?_⟩ <;>
    rcases hf.table with ⟨hdb, hversion⟩ | ⟨-, hversion, -⟩
  · omega
  · omega
  · rw [hdb]
    exact h.row (hv.trans hversion)
  · omega

theorem same {w : Db} (hj : j ≠ i) (hw : s.writer = some (j, w)) :
    s'.writer = some (j, w) ∧ s'.db = s.db := by
  have hw' := hf.writer j w hj hw
  rcases hf.table with ⟨hdb, -⟩ | ⟨hnone, -⟩
  · exact ⟨hw', hdb⟩
  · rw [hnone] at hw'
    cases hw'

theorem holds {r : Rotating} {g : Generated} {w : Db} (hj : j ≠ i)
    (hp : (s.calls j).purgedAt = some r.purgedAt) (h : s.Holds j r g w) : s'.Holds j r g w := by
  obtain ⟨hw, hdb⟩ := hf.same hj h.writer
  exact ⟨hw, hf.after hp h.after, h.token, hdb ▸ h.row, hf.rooted h.rooted⟩

theorem holds_next {r : Rotating} {g : Generated} {w w' : Db}
    (hp : (s.calls i).purgedAt = some r.purgedAt) (h : s.Holds i r g w) (hdb : s'.db = s.db)
    (hw : s'.writer = some (i, w')) : s'.Holds i r g w' :=
  ⟨hw, hf.after hp h.after, h.token, hdb ▸ h.row, hf.rooted h.rooted⟩

theorem phaseOk (hj : j ≠ i) (h : s.PhaseOk j (s.calls j)) : s'.PhaseOk j (s'.calls j) := by
  rw [hf.calls j hj]
  cases hc : s.calls j <;> rw [hc] at h
  case idle | refreshing | rejected => trivial
  case purging =>
    obtain ⟨hw, hdb⟩ := hf.same hj h.2
    exact ⟨h.1.trans hf.clock, hdb ▸ hw⟩
  case purged => exact hf.after (j := j) (by rw [hc]; exact rfl) h
  case found => exact hf.snapshot (j := j) (by rw [hc]; exact rfl) h
  case drawn => exact ⟨hf.snapshot (j := j) (by rw [hc]; exact rfl) h.1, hf.rooted h.2⟩
  case removed | mapped =>
    obtain ⟨w, hh, hw⟩ := h
    obtain ⟨-, hdb⟩ := hf.same hj hh.writer
    exact ⟨w, hf.holds hj (by rw [hc]; exact rfl) hh, hdb ▸ hw⟩
  case stored =>
    obtain ⟨w, hh, hw, hlate⟩ := h
    obtain ⟨-, hdb⟩ := hf.same hj hh.writer
    refine ⟨w, hf.holds hj (by rw [hc]; exact rfl) hh, hdb ▸ hw, fun k t hk => ?_⟩
    by_cases hki : k = i
    · subst hki
      rcases hf.purged t hk with hk | hnone
      · exact hlate k t hk
      · rw [hh.writer] at hnone
        cases hnone
    · rw [hf.calls k hki] at hk
      exact hlate k t hk
  case minting | minted => exact hf.rooted h

end Frame

/-- A step of call `i` that keeps its own promise keeps everybody's. -/
theorem Sys.Inv.call {s s' : Sys} {i : Nat} (h : s.Inv) (hf : Frame i s s') (hl : s'.Ledger)
    (hw : s'.Waiting) (hp : s'.PhaseOk i (s'.calls i)) : s'.Inv := by
  refine ⟨hl, hw, fun j => ?_⟩
  by_cases hj : j = i
  · exact hj ▸ hp
  · exact hf.phaseOk hj (h.phases j)

theorem Sys.Inv.world {s s' : Sys} (h : s.Inv) (hf : ∀ i, Frame i s s') (hl : s'.Ledger)
    (hw : s'.Waiting) : s'.Inv :=
  ⟨hl, hw, fun j => (hf (j + 1)).phaseOk (by omega) (h.phases j)⟩

section statements
variable {db w : Db} {token : String} {now : Int}

theorem deleteExpired_run (h : (Tokens.deleteExpired now : Run Db Error Unit) db = (.ok (), w)) :
    w = db.purged now := (Prod.mk.inj h).2.symm

theorem find_run {row : TokenRow}
    (h : (Tokens.find token : Run Db Error _) db = (.ok (some row), w)) :
    row ∈ db.tokens ∧ row.token = token := by
  have hf := Except.ok.inj (query_ok_iff.mp h).1
  exact ⟨List.mem_of_find?_eq_some hf, by simpa using List.find?_some hf⟩

theorem mem_of_delete {row : Option TokenRow}
    (h : (Tokens.delete token : Run Db Error _) db = (.ok row, w)) {t : TokenRow}
    (ht : t ∈ w.tokens) : t ∈ db.tokens ∧ t.token ≠ token := by
  rw [← (Prod.mk.inj h).2] at ht
  simpa [Db.deleteTokens] using ht

theorem mem_of_create {claim : Claim} {created : Int} {row : TokenRow}
    (h : (Tokens.create now token claim.userId claim.clientId created
      refreshTokenExpirationTime : Run Db Error _) db = (.ok row, w)) {t : TokenRow}
    (ht : t ∈ w.tokens) : t ∈ db.tokens ∨ (t.token = token ∧ t.claim = claim ∧
      t.expiresAt = now + refreshTokenExpirationTime) := by
  obtain ⟨rfl, -, -, rfl⟩ := Db.insertToken_ok (stmt_ok_iff.mp h)
  rcases List.mem_append.mp ht with ht | ht
  · exact .inl ht
  · rw [List.mem_singleton.mp ht]
    exact .inr ⟨rfl, rfl, rfl⟩

theorem tokens_of_call {c : Call} (hc : .insertToken ∉ c.statements) (db : Db) :
    ((c.run : Run Db Error Unit) db).2.tokens ⊆ db.tokens := by
  refine c.run_writes.keeps (I := fun s => s.tokens ⊆ db.tokens) (fun k s t hk hw hs => ?_)
    (List.Subset.refl _)
  have hframe (h : DbTable.tokens ∉ k.changes) : t.tokens = s.tokens := (hw.frame h).1
  cases hw with
  | deleteUsers =>
    exact fun t ht => hs (List.mem_filter.mp (List.mem_filter.mp ht).1).1
  | deleteClients | deleteTokens => exact fun t ht => hs (List.mem_filter.mp ht).1
  | insertToken => exact absurd hk hc
  | _ => exact hframe (by decide) ▸ hs

end statements

section steps
variable {s : Sys} {i : Nat}

theorem Sys.Inv.purgedAt_le (h : s.Inv) {t : Int} (ht : (s.calls i).purgedAt = some t) :
    t ≤ s.clock := by
  have hp := h.phases i
  cases hc : s.calls i <;> rw [hc] at hp ht <;> cases ht
  case purging => exact hp.1
  case purged => exact hp.1
  case found => exact hp.after.1
  case drawn => exact hp.1.after.1
  case removed | mapped | stored =>
    obtain ⟨w, hh, -⟩ := hp
    exact hh.after.1

theorem Sys.Inv.found (h : s.Inv) {token : String} {purgedAt : Int} {row : TokenRow}
    (hafter : s.After purgedAt) (hrow : row ∈ s.db.tokens) (htoken : row.token = token) :
    s.Snapshot ⟨token, purgedAt, row, s.version⟩ := by
  subst htoken
  exact ⟨hafter, rfl, (h.ledger.rows row hrow).root, le_rfl, fun _ => hrow⟩

/-- The commit of a refresh: the old token has gone, and was issued in time. -/
theorem Sys.Inv.commitRefresh (h : s.Inv) {r : Rotating} {g : Generated} {issuedAt : Int} {w : Db}
    (hc : s.calls i = .stored r g issuedAt) (hw : s.writer = some (i, w)) :
    ((((s.commit w).issue g.refreshToken issuedAt).finish r).goto i .idle).Inv := by
  have hp := h.phases i
  rw [hc] at hp
  obtain ⟨w', hh, htokens, hlate⟩ := hp
  obtain rfl : w = w' := congrArg Prod.snd (Option.some.inj (hw.symm.trans hh.writer))
  obtain ⟨-, ⟨t, hissued, hexpires⟩, hunspent⟩ := h.ledger.rows r.row hh.row
  rw [hh.token] at hissued hunspent
  have hgood : r.purgedAt < t + refreshTokenExpirationTime := hexpires ▸ hh.after.2 r.row hh.row
  have hpending : (s.calls i).pending = some g.refreshToken := by rw [hc]; rfl
  have hnew := h.waiting.unissued i _ hpending
  have hroot := hh.rooted _ (refresh_mem_strings g)
  have hissue : ((s.commit w).issue g.refreshToken issuedAt).Ledger :=
    h.ledger.issue hroot hnew fun t ht => (htokens t ht).imp And.left id
  have hfinish : (((s.commit w).issue g.refreshToken issuedAt).finish r).Ledger := by
    refine hissue.finish ⟨t, List.mem_cons_of_mem _ hissued, hgood⟩ hunspent fun u hu => ?_
    rcases htokens u hu with ⟨-, hne⟩ | ⟨heq, -⟩
    · exact hne
    · rw [heq]
      exact (hnew _ hissued).symm
  have hframe : Frame i s (s.commit w) := by
    refine .commit (Frame.alone_of_some hw) fun u hu => ?_
    refine (htokens u hu).imp And.left fun hu j p hj => ?_
    have hbefore := hlate j p hj
    have htime : 0 < refreshTokenExpirationTime := by decide
    rw [hu.2.2]
    omega
  refine h.call (((hframe.issue _ _).finish r).goto rfl nofun) hfinish.goto ?_ ?_
  · obtain ⟨h1, h2, h3⟩ := (h.waiting.commit w).issue issuedAt hpending
    exact ⟨h1, h2, h3⟩
  · rw [Sys.goto_calls]
    trivial

theorem Sys.Inv.createNew (h : s.Inv) {claim : Claim} {g : Generated} {created : Int}
    {row : TokenRow} {w : Db} (hc : s.calls i = .minted claim g) (hw : s.writer = none)
    (hrun : (Tokens.create s.clock g.refreshToken claim.userId claim.clientId created
      refreshTokenExpirationTime : Run Db Error _) s.db = (.ok row, w)) :
    (((s.commit w).issue g.refreshToken s.clock).goto i .idle).Inv := by
  have hp := h.phases i
  rw [hc] at hp
  have hpending : (s.calls i).pending = some g.refreshToken := by rw [hc]; rfl
  have hframe : Frame i s (s.commit w) := by
    refine .commit (Frame.alone_of_none hw) fun u hu => ?_
    refine (mem_of_create hrun hu).imp id fun hu j p hj => ?_
    have hbefore : p ≤ s.clock := h.purgedAt_le hj
    have htime : 0 < refreshTokenExpirationTime := by decide
    rw [hu.2.2]
    omega
  refine h.call ((hframe.issue _ _).goto rfl nofun) (Sys.Ledger.goto ?_)
    ((h.waiting.commit w).issue s.clock hpending) ?_
  · exact h.ledger.issue (hp _ (refresh_mem_strings g)) (h.waiting.unissued i _ hpending)
      fun u hu => mem_of_create hrun hu
  · rw [Sys.goto_calls]
    trivial

theorem Sys.Inv.advance (h : s.Inv) {writer : Option (Nat × Db)} {p : Phase}
    (hw : writer = s.writer ∨ Frame.Alone s i)
    (hpurged : ∀ t, p.purgedAt = some t → (s.calls i).purgedAt = some t ∨ s.writer = none)
    (hpending : ∀ x, p.pending = some x → (s.calls i).pending = some x)
    (hp : Frame i s ({ s with writer := writer }.goto i p) →
      ({ s with writer := writer }.goto i p).PhaseOk i p) :
    ({ s with writer := writer }.goto i p).Inv := by
  have hf : Frame i s { s with writer := writer } := by
    refine { (Frame.refl : Frame i s s) with
      writer := fun j v hj hv => ?_, table := .inl ⟨rfl, rfl⟩ }
    rcases hw with rfl | halone
    · exact hv
    · exact absurd hv (halone j v hj)
  have hg := hf.goto rfl hpurged
  refine h.call hg (h.ledger.shrink (List.Subset.refl _) (fun _ _ ht => ht) rfl rfl rfl) ?_ ?_
  · obtain ⟨h1, h2, h3⟩ := h.waiting.goto hpending
    exact ⟨h1, h2, h3⟩
  · rw [Sys.goto_calls]
    exact hp hg

theorem Sys.Inv.remember (h : s.Inv) {f : AccessTokens → AccessTokens} {p : Phase}
    (hl : (s.modify f).Ledger)
    (hpurged : ∀ t, p.purgedAt = some t → (s.calls i).purgedAt = some t)
    (hpending : ∀ x, p.pending = some x → (s.calls i).pending = some x)
    (hp : Frame i s ((s.modify f).goto i p) → ((s.modify f).goto i p).PhaseOk i p) :
    ((s.modify f).goto i p).Inv := by
  have hg := (Frame.modify (i := i) (s := s) f).goto (p := p) rfl fun t ht => .inl (hpurged t ht)
  refine h.call hg hl.goto ?_ ?_
  · obtain ⟨h1, h2, h3⟩ := h.waiting.goto hpending
    exact ⟨h1, h2, h3⟩
  · rw [Sys.goto_calls]
    exact hp hg

theorem Sys.Inv.draw (h : s.Inv) {e : Event} (hg : Fresh s.history e.generated) {p : Phase}
    (hpurged : ∀ t, p.purgedAt = some t → (s.calls i).purgedAt = some t)
    (hpending : p.pending = some e.generated.refreshToken)
    (hp : Frame i s ((s.record e).goto i p) → ((s.record e).goto i p).PhaseOk i p) :
    ((s.record e).goto i p).Inv := by
  have hf := (Frame.record (i := i) hg).goto (p := p) rfl fun t ht => .inl (hpurged t ht)
  refine h.call hf (h.ledger.record hg).goto (h.waiting.draw h.ledger hg hpending) ?_
  rw [Sys.goto_calls]
  exact hp hf

theorem Sys.Inv.purge (h : s.Inv) {w : Db} (token : String) (hw : s.writer = none)
    (hrun : (Tokens.deleteExpired s.clock : Run Db Error Unit) s.db = (.ok (), w)) :
    ((s.work i w).goto i (.purging token s.clock)).Inv := by
  obtain rfl := deleteExpired_run hrun
  exact h.advance (.inr (Frame.alone_of_none hw)) (fun _ _ => .inr hw) nofun fun _ => ⟨le_rfl, rfl⟩

/-- The commit of the purge: what is left has not expired. -/
theorem Sys.Inv.commitPurge (h : s.Inv) {token : String} {purgedAt : Int} {w : Db}
    (hc : s.calls i = .purging token purgedAt) (hw : s.writer = some (i, w)) :
    ((s.commit w).goto i (.purged token purgedAt)).Inv := by
  have hp := h.phases i
  rw [hc] at hp
  obtain ⟨htime, hw'⟩ := hp
  obtain rfl : w = s.db.purged purgedAt :=
    congrArg Prod.snd (Option.some.inj (hw.symm.trans hw'))
  have hsub : (s.db.purged purgedAt).tokens ⊆ s.db.tokens :=
    fun t ht => (Db.mem_purged.mp ht).1
  have hf := (Frame.commit (Frame.alone_of_some hw) fun t ht => .inl (hsub ht)).goto
    (p := .purged token purgedAt) rfl fun t ht => .inl (by rw [hc]; exact ht)
  refine h.call hf (h.ledger.shrink hsub (fun _ _ ht => ht) rfl rfl rfl)
    ((h.waiting.commit _).goto nofun) ?_
  rw [Sys.goto_calls]
  exact ⟨htime, fun t ht => (Db.mem_purged.mp ht).2⟩

theorem Sys.Inv.find (h : s.Inv) {token : String} {purgedAt : Int} {row : TokenRow}
    (hc : s.calls i = .purged token purgedAt)
    (hrun : (Tokens.find token : Run Db Error _) s.db = (.ok (some row), s.db)) :
    (s.goto i (.found ⟨token, purgedAt, row, s.version⟩)).Inv := by
  have hp := h.phases i
  rw [hc] at hp
  obtain ⟨hrow, htoken⟩ := find_run hrun
  have hpurged : (s.calls i).purgedAt = some purgedAt := by rw [hc]; rfl
  exact h.advance (.inl rfl) (fun t ht => .inl (hpurged.trans ht)) nofun
    fun hf => hf.snapshot hpurged (h.found hp hrow htoken)

/-- The token is deleted on the snapshot that it was read from. -/
theorem Sys.Inv.delete (h : s.Inv) {r : Rotating} {now : Int} {g : Generated}
    {row : Option TokenRow} {w : Db} (hc : s.calls i = .drawn r now g) (hw : s.writer = none)
    (hv : s.version = r.version)
    (hrun : (Tokens.delete r.token : Run Db Error _) s.db = (.ok row, w)) :
    ((s.work i w).goto i (.removed r now g)).Inv := by
  have hp := h.phases i
  rw [hc] at hp
  obtain ⟨hsnap, hrooted⟩ := hp
  have hpurged : (s.calls i).purgedAt = some r.purgedAt := by rw [hc]; rfl
  refine h.advance (.inr (Frame.alone_of_none hw)) (fun t ht => .inl (hpurged.trans ht))
    (by rw [hc]; exact fun x hx => hx) fun hf => ⟨w, ?_, fun t ht => mem_of_delete hrun ht⟩
  exact ⟨rfl, hf.after hpurged hsnap.after, hsnap.token, hsnap.row hv.symm, hf.rooted hrooted⟩

/-- The new row expires later than any call has purged. -/
theorem Sys.Inv.create (h : s.Inv) {r : Rotating} {g : Generated} {created : Int} {row : TokenRow}
    {w v : Db} (hc : s.calls i = .mapped r g) (hw : s.writer = some (i, w))
    (hrun : (Tokens.create s.clock g.refreshToken r.row.userId r.row.clientId created
      refreshTokenExpirationTime : Run Db Error _) w = (.ok row, v)) :
    ((s.work i v).goto i (.stored r g s.clock)).Inv := by
  have hp := h.phases i
  rw [hc] at hp
  obtain ⟨w', hh, hkept⟩ := hp
  obtain rfl : w = w' := congrArg Prod.snd (Option.some.inj (hw.symm.trans hh.writer))
  have hpurged : (s.calls i).purgedAt = some r.purgedAt := by rw [hc]; rfl
  refine h.advance (.inr (Frame.alone_of_some hw)) (fun t ht => .inl (hpurged.trans ht))
    (by rw [hc]; exact fun x hx => hx)
    fun hf => ⟨v, hf.holds_next hpurged hh rfl rfl, fun t ht => ?_, fun j t hj => ?_⟩
  · exact (mem_of_create hrun ht).imp (hkept t) id
  · by_cases hji : j = i
    · subst hji
      rw [Sys.goto_calls] at hj
      exact h.purgedAt_le (hpurged.trans hj)
    · rw [Sys.goto_calls_of_ne _ hji] at hj
      exact h.purgedAt_le hj

theorem Sys.Inv.abort (h : s.Inv) (i : Nat) : ((s.release i).goto i .idle).Inv := by
  refine h.advance ?_ nofun nofun fun _ => trivial
  rcases hw : s.writer with _ | ⟨k, w⟩
  · exact .inl rfl
  · by_cases hk : k = i
    · subst hk
      exact .inr (Frame.alone_of_some hw)
    · exact .inl (by simp [hk])

theorem Step.inv {s s' : Sys} (hs : Step s s') (h : s.Inv) : s'.Inv := by
  have hphase (i : Nat) (p : Phase) (hc : s.calls i = p) : s.PhaseOk i p := hc ▸ h.phases i
  cases hs with
  | tick hclock =>
    exact h.world (fun _ => { (Frame.refl : Frame _ s s) with clock := hclock })
      (h.ledger.shrink (List.Subset.refl _) (fun _ _ ht => ht) rfl rfl rfl)
      ⟨h.waiting.1, h.waiting.2, h.waiting.3⟩
  | refresh token hc => exact h.advance (.inl rfl) nofun nofun fun _ => trivial
  | purge hc hw hrun => exact h.purge _ hw hrun
  | commitPurge hc hw => exact h.commitPurge hc hw
  | findNone hc hrun => exact h.advance (.inl rfl) nofun nofun fun _ => trivial
  | find hc hrun => exact h.find hc hrun
  | @generate i r g hc hg =>
    have hpurged : (s.calls i).purgedAt = some r.purgedAt := by rw [hc]; rfl
    have hsnap : s.Snapshot r := hphase i _ hc
    exact h.draw hg (fun t ht => hpurged.trans ht) rfl
      fun hf => ⟨hf.snapshot hpurged hsnap, fun x hx => rootOf_refresh hsnap.root hx⟩
  | delete hc hw hv hrun => exact h.delete hc hw hv hrun
  | @insert i r now g hc =>
    have hpurged : (s.calls i).purgedAt = some r.purgedAt := by rw [hc]; rfl
    obtain ⟨w, hh, hw⟩ := hphase i _ hc
    exact h.remember (h.ledger.insert (hh.rooted _ (access_mem_strings g)))
      (fun t ht => hpurged.trans ht) (by rw [hc]; exact fun x hx => hx)
      fun hf => ⟨w, hf.holds_next hpurged hh rfl hh.writer, hw⟩
  | create hc hw hrun => exact h.create hc hw hrun
  | commitRefresh hc hw => exact h.commitRefresh hc hw
  | newToken claim hc hg =>
    exact h.draw hg nofun rfl fun _ x hx => rootOf_new claim hx
  | @insertNew i claim now g hc =>
    have hrooted : Rooted s.history g claim := hphase i _ hc
    exact h.remember (h.ledger.insert (hrooted _ (access_mem_strings g))) nofun
      (by rw [hc]; exact fun x hx => hx) fun hf => hf.rooted hrooted
  | createNew hc hw hrun => exact h.createNew hc hw hrun
  | reject hc ht hexpired => exact h.advance (.inl rfl) nofun nofun fun _ => trivial
  | remove hc =>
    refine h.remember ?_ nofun nofun fun _ => trivial
    exact h.ledger.shrink (List.Subset.refl _) (fun _ _ => AccessTokens.of_remove) rfl rfl rfl
  | gc =>
    exact h.world (fun _ => .modify _)
      (h.ledger.shrink (List.Subset.refl _) (fun _ _ => AccessTokens.of_retain) rfl rfl rfl)
      ⟨h.waiting.1, h.waiting.2, h.waiting.3⟩
  | abort i => exact h.abort i
  | restart =>
    exact ⟨h.ledger.shrink (List.Subset.refl _) nofun rfl rfl rfl, ⟨nofun, nofun, nofun⟩,
      fun _ => trivial⟩
  | elsewhere c hc hw =>
    have hsub := tokens_of_call hc s.db
    exact h.world (fun _ => .commit (Frame.alone_of_none hw) fun t ht => .inl (hsub ht))
      (h.ledger.shrink hsub (fun _ _ ht => ht) rfl rfl rfl) (h.waiting.commit _)

end steps

theorem start_inv (clock : Int) {db : Db} (h : db.tokens = []) : (start clock db).Inv where
  ledger := ⟨by simp [start, h], nofun, nofun, .nil, nofun⟩
  waiting := ⟨nofun, nofun, nofun⟩
  phases _ := trivial

theorem Reached.inv {s : Sys} (h : Reached s) : s.Inv := by
  obtain ⟨clock, db, htokens, hrun⟩ := h
  exact run_invariant (I := Sys.Inv) (fun _ _ hi hs => hs.inv hi) (start_inv clock htokens) hrun

theorem Sys.validate_some {s : Sys} {x : String} {claim : Claim} (h : s.validate x = some claim) :
    ∃ t, s.access x = some t ∧ s.clock ≤ t.expiresAt ∧ t.claim = claim := by
  rw [validate, TokenStorage.validate_run] at h
  cases ht : s.access x with
  | none => simp [ht] at h
  | some t =>
    simp only [ht] at h
    by_cases hexpired : t.expiresAt < s.clock
    · rw [if_pos hexpired] at h
      cases h
    · rw [if_neg hexpired] at h
      exact ⟨t, rfl, not_lt.mp hexpired, Option.some.inj h⟩

/-- In every run, under every interleaving: no refresh token is refreshed twice; each one
that is was issued, and not yet 30 days old at the purge of the call; an access token that
is accepted carries the claim at the root of its chain. -/
theorem Reached.rotation {s : Sys} (h : Reached s) :
    (s.refreshed.map Prod.fst).Nodup ∧
    (∀ p ∈ s.refreshed, ∃ issuedAt, (p.1, issuedAt) ∈ s.issued ∧
      p.2 < issuedAt + 30 * 24 * 60 * 60) ∧
    ∀ x claim, s.validate x = some claim → rootOf s.history x = some claim := by
  have hl := h.inv.ledger
  refine ⟨hl.once, hl.inTime, fun x claim hx => ?_⟩
  obtain ⟨t, ht, -, rfl⟩ := Sys.validate_some hx
  exact hl.access x t ht

/-- A user with a client and the given refresh tokens. -/
def oneClient (tokens : List TokenRow) (tokensSeq : Int) : Db where
  users := [⟨1, "ada", "", "", "", 0, 0⟩]
  usersSeq := 1
  clients := [⟨1, "reader", "id1", "secret1", 1, 5⟩]
  clientsSeq := 1
  tokens := tokens
  tokensSeq := tokensSeq

def row0 : TokenRow := ⟨1, "refresh0", 10, 10 + refreshTokenExpirationTime, 1, 1⟩

def row1 : TokenRow := ⟨2, "refresh1", 10, 10 + refreshTokenExpirationTime, 1, 1⟩

/-- Two calls refresh the same token: one finds it before the other purges nothing, and deletes it
after that. -/
theorem Reached.rotation_racing : ∃ s, Reached s ∧ s.refreshed = [("refresh0", 10)] ∧
    s.validate "access1" = some ⟨1, 1⟩ ∧ rootOf s.history "access1" = some ⟨1, 1⟩ := by
  have hrun : Reached _ := ⟨10, oneClient [] 0, rfl,
    .head (.newToken (i := 0) (g := ⟨"access0", "refresh0"⟩) ⟨1, 1⟩ rfl ⟨by decide, by decide⟩) <|
    .head (.insertNew (i := 0) rfl) <|
    .head (.createNew (i := 0) (w := oneClient [row0] 1) rfl rfl rfl) <|
    .head (.refresh (i := 1) "refresh0" rfl) <| .head (.refresh (i := 2) "refresh0" rfl) <|
    .head (.purge (i := 1) (w := oneClient [row0] 1) rfl rfl rfl) <|
    .head (.commitPurge (i := 1) rfl rfl) <| .head (.find (i := 1) rfl rfl) <|
    .head (.purge (i := 2) (w := oneClient [row0] 1) rfl rfl rfl) <|
    .head (.commitPurge (i := 2) rfl rfl) <| .head (.find (i := 2) rfl rfl) <|
    .head (.generate (i := 1) (g := ⟨"access1", "refresh1"⟩) rfl ⟨by decide, by decide⟩) <|
    .head (.generate (i := 2) (g := ⟨"access2", "refresh2"⟩) rfl ⟨by decide, by decide⟩) <|
    .head (.delete (i := 1) (w := oneClient [] 1) rfl rfl rfl rfl) <|
    .head (.insert (i := 1) rfl) <|
    .head (.create (i := 1) (v := oneClient [row1] 2) rfl rfl rfl) <|
    .head (.commitRefresh (i := 1) rfl rfl) <|
    .head (.abort 2) .refl⟩
  exact ⟨_, hrun, rfl, rfl, hrun.rotation.2.2 _ _ rfl⟩

end Articler.Rotation
