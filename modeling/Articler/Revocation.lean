import Articler.Links
import Articler.RotationSafety

/-! Deleting a client: its refresh tokens are gone at once, an access token that was handed
out lives on until it expires. -/
namespace Articler.Rotation
open Txn Relation

def FreshAll : List Event → Prop
  | [] => True
  | e :: history => Fresh history e.generated ∧ FreshAll history

section history
variable {history : List Event} {e d : Event} {x y : String}

theorem mem_used (he : e ∈ history) (hx : x ∈ strings e.generated) : x ∈ used history :=
  List.mem_flatMap.mpr ⟨e, he, hx⟩

theorem FreshAll.eq_of_string (h : FreshAll history) (he : e ∈ history) (hd : d ∈ history)
    (hxe : x ∈ strings e.generated) (hxd : x ∈ strings d.generated) : e = d := by
  induction history with
  | nil => cases he
  | cons first history ih =>
    rcases List.mem_cons.mp he with rfl | he' <;> rcases List.mem_cons.mp hd with rfl | hd'
    · rfl
    · exact absurd (mem_used hd' hxd) (h.1.unused x hxe)
    · exact absurd (mem_used he' hxe) (h.1.unused x hxd)
    · exact ih h.2 he' hd'

theorem FreshAll.rootOf_eq (h : FreshAll history) (he : e ∈ history) (hx : x ∈ strings e.generated)
    (hy : y ∈ strings e.generated) : rootOf history x = rootOf history y := by
  induction history with
  | nil => cases he
  | cons first history ih =>
    rcases List.mem_cons.mp he with rfl | he
    · rw [rootOf, rootOf, if_pos hx, if_pos hy]
    · have hold {z : String} (hz : z ∈ strings e.generated) : z ∉ strings first.generated :=
        fun hf => h.1.unused z hf (mem_used he hz)
      rw [rootOf, rootOf, if_neg (hold hx), if_neg (hold hy)]
      exact ih h.2 he

end history

def Phase.pair : Phase → Option Generated
  | .drawn _ _ g | .removed _ _ g | .mapped _ g | .stored _ g _ | .minting _ _ g | .minted _ g =>
    some g
  | _ => none

/-- What the call read off the clock for a token that is not in the map yet. -/
def Phase.readAt : Phase → Option Int
  | .drawn _ now _ | .removed _ now _ | .minting _ now _ => some now
  | _ => none

/-- The pair that waits for the commit, with the time of its INSERT. -/
def Phase.storedAt : Phase → Option (Generated × Int)
  | .stored _ g issuedAt => some (g, issuedAt)
  | _ => none

theorem Phase.pending_of_pair {p : Phase} {g : Generated} (h : p.pair = some g) :
    p.pending = some g.refreshToken := by
  cases p <;> cases h <;> rfl

theorem Phase.pair_of_storedAt {p : Phase} {g : Generated} {issuedAt : Int}
    (h : p.storedAt = some (g, issuedAt)) : p.pair = some g := by
  cases p <;> cases h
  rfl

/-- The next phase knows nothing that this one does not. -/
structure Phase.Keeps (p p' : Phase) : Prop where
  pair : ∀ g, p'.pair = some g → p.pair = some g
  readAt : ∀ now, p'.readAt = some now → p.readAt = some now
  storedAt : ∀ x, p'.storedAt = some x → p.storedAt = some x

theorem Phase.Keeps.refl {p : Phase} : p.Keeps p := ⟨fun _ h => h, fun _ h => h, fun _ h => h⟩

namespace Sys

/-- The pair was stored at that time, or is about to be committed. -/
def Dated (s : Sys) (g : Generated) (issuedAt : Int) : Prop :=
  (g.refreshToken, issuedAt) ∈ s.issued ∨ ∃ i, (s.calls i).storedAt = some (g, issuedAt)

/-- An access token expires at most its lifetime after its refresh token was stored. -/
structure Timed (s : Sys) : Prop where
  fresh : FreshAll s.history
  drawn : ∀ i g, (s.calls i).pair = some g → ∃ e ∈ s.history, e.generated = g
  read : ∀ i now, (s.calls i).readAt = some now → now ≤ s.clock
  access : ∀ x t, s.access x = some t → t.expiresAt ≤ s.clock + expirationTime
  issued : ∀ p ∈ s.issued, p.2 ≤ s.clock
  stored : ∀ i x, (s.calls i).storedAt = some x → x.2 ≤ s.clock
  bound : ∀ e ∈ s.history, ∀ issuedAt, s.Dated e.generated issuedAt →
    ∀ t, s.access e.generated.accessToken = some t → t.expiresAt ≤ issuedAt + expirationTime

end Sys

section timed
variable {s s' : Sys} {i : Nat} {p : Phase} {g : Generated}

theorem Sys.goto_or (s : Sys) (i : Nat) (p : Phase) (j : Nat) :
    j = i ∧ (s.goto i p).calls j = p ∨ (s.goto i p).calls j = s.calls j := by
  by_cases hj : j = i
  · subst hj
    exact .inl ⟨rfl, s.goto_calls j p⟩
  · exact .inr (s.goto_calls_of_ne hj p)

theorem Sys.goto_some {β : Type} {f : Phase → Option β} {b : β} {j : Nat}
    (h : f ((s.goto i p).calls j) = some b) :
    j = i ∧ f p = some b ∨ f (s.calls j) = some b := by
  rcases s.goto_or i p j with ⟨hji, hj⟩ | hj <;> rw [hj] at h
  · exact .inl ⟨hji, h⟩
  · exact .inr h

theorem Sys.keeps_goto (h : (s.calls i).Keeps p) (j : Nat) :
    (s.calls j).Keeps ((s.goto i p).calls j) := by
  rcases s.goto_or i p j with ⟨rfl, hj⟩ | hj <;> rw [hj]
  · exact h
  · exact .refl

theorem Sys.Timed.pair_eq (h : s.Timed) (hp : (s.calls i).pair = some g) {e : Event}
    (he : e ∈ s.history) {x : String} (hxe : x ∈ strings e.generated) (hxg : x ∈ strings g) :
    e.generated = g := by
  obtain ⟨d, hd, rfl⟩ := h.drawn i g hp
  rw [h.fresh.eq_of_string he hd hxe hxg]

theorem Sys.Timed.shrink (h : s.Timed) (hclock : s.clock ≤ s'.clock)
    (hhistory : s'.history = s.history) (hissued : s'.issued = s.issued)
    (haccess : ∀ x t, s'.access x = some t → s.access x = some t)
    (hcalls : ∀ i, (s.calls i).Keeps (s'.calls i)) : s'.Timed where
  fresh := hhistory ▸ h.fresh
  drawn i g hg := hhistory ▸ h.drawn i g ((hcalls i).pair g hg)
  read i now hnow := (h.read i now ((hcalls i).readAt now hnow)).trans hclock
  access x t ht := by
    have hle := h.access x t (haccess x t ht)
    omega
  issued p hp := (h.issued p (hissued ▸ hp)).trans hclock
  stored i x hx := (h.stored i x ((hcalls i).storedAt x hx)).trans hclock
  bound e he issuedAt hdated t ht := by
    refine h.bound e (hhistory ▸ he) issuedAt ?_ t (haccess _ t ht)
    rcases hdated with hin | ⟨i, hi⟩
    · exact .inl (hissued ▸ hin)
    · exact .inr ⟨i, (hcalls i).storedAt _ hi⟩

/-- A pair that was just generated has not been stored. -/
theorem Sys.Timed.draw (h : s.Timed) (hl : s.Ledger) {e : Event}
    (hg : Fresh s.history e.generated) (hpair : p.pair = some e.generated)
    (hread : p.readAt = some s.clock) (hstored : p.storedAt = none) :
    ((s.record e).goto i p).Timed := by
  have hdated (d : Event) (issuedAt : Int)
      (hd : ((s.record e).goto i p).Dated d.generated issuedAt) :
      s.Dated d.generated issuedAt := by
    rcases hd with hin | ⟨j, hj⟩
    · exact .inl hin
    · rcases Sys.goto_some hj with ⟨-, hp⟩ | hj
      · cases hstored.symm.trans hp
      · exact .inr ⟨j, hj⟩
  refine ⟨⟨hg, h.fresh⟩, fun j g hj => ?_, fun j now hj => ?_, h.access, h.issued,
    fun j x hj => ?_, fun d hd issuedAt hdd t ht => ?_⟩
  · rcases Sys.goto_some hj with ⟨-, hp⟩ | hj
    · exact ⟨e, List.mem_cons_self, Option.some.inj (hpair.symm.trans hp)⟩
    · obtain ⟨d, hd, rfl⟩ := h.drawn j g hj
      exact ⟨d, List.mem_cons_of_mem _ hd, rfl⟩
  · rcases Sys.goto_some hj with ⟨-, hp⟩ | hj
    · exact (Option.some.inj (hread.symm.trans hp)).ge
    · exact h.read j now hj
  · rcases Sys.goto_some hj with ⟨-, hp⟩ | hj
    · cases hstored.symm.trans hp
    · exact h.stored j x hj
  · rcases List.mem_cons.mp hd with rfl | hd
    · rcases hdated d issuedAt hdd with hin | ⟨j, hj⟩
      · exact absurd (hl.issued _ hin) (hg.unused _ (refresh_mem_strings _))
      · obtain ⟨d', hd', heq⟩ := h.drawn j _ (Phase.pair_of_storedAt hj)
        exact absurd (mem_used hd' (heq ▸ refresh_mem_strings _))
          (hg.unused _ (refresh_mem_strings _))
    · exact h.bound d hd issuedAt (hdated d issuedAt hdd) t ht

/-- An access token enters the map before its refresh token is stored. -/
theorem Sys.Timed.insert (h : s.Timed) (hw : s.Waiting) {claim : Claim} {now : Int}
    (hpair : (s.calls i).pair = some g) (hread : (s.calls i).readAt = some now)
    (hstored : (s.calls i).storedAt = none) (hp : (s.calls i).Keeps p) :
    ((s.modify fun tokens => tokens.insert g.accessToken
      ⟨claim, now + expirationTime⟩).goto i p).Timed := by
  have hnow := h.read i now hread
  have hkeeps := Sys.keeps_goto (s := s.modify fun tokens => tokens.insert g.accessToken
    ⟨claim, now + expirationTime⟩) hp
  have hpending := Phase.pending_of_pair hpair
  refine ⟨h.fresh, fun j k hj => h.drawn j k ((hkeeps j).pair k hj),
    fun j n hj => h.read j n ((hkeeps j).readAt n hj), fun x t ht => ?_, h.issued,
    fun j x hj => h.stored j x ((hkeeps j).storedAt x hj), fun e he issuedAt hdated t ht => ?_⟩
  · rcases AccessTokens.of_insert ht with ⟨-, rfl⟩ | ht
    · exact Int.add_le_add_right hnow _
    · exact h.access x t ht
  have hdated' : s.Dated e.generated issuedAt :=
    hdated.imp id fun ⟨j, hj⟩ => ⟨j, (hkeeps j).storedAt _ hj⟩
  rcases AccessTokens.of_insert ht with ⟨hkey, -⟩ | ht
  · -- the pair is still pending, so it was not stored
    have heq := h.pair_eq hpair he (access_mem_strings _) (hkey ▸ access_mem_strings g)
    rw [heq] at hdated'
    rcases hdated' with hin | ⟨j, hj⟩
    · exact absurd rfl (hw.unissued i _ hpending _ hin)
    · have hji := hw.unique j i _ (Phase.pending_of_pair (Phase.pair_of_storedAt hj)) hpending
      rw [hji, hstored] at hj
      cases hj
  · exact h.bound e he issuedAt hdated' t ht

theorem Sys.Timed.create (h : s.Timed) {r : Rotating} (hc : s.calls i = .mapped r g)
    (v : Db) : ((s.work i v).goto i (.stored r g s.clock)).Timed := by
  have hpair : (s.calls i).pair = some g := by rw [hc]; rfl
  refine ⟨h.fresh, fun j k hj => ?_, fun j n hj => ?_, h.access, h.issued, fun j x hj => ?_,
    fun e he issuedAt hdated t ht => ?_⟩
  · rcases Sys.goto_some hj with ⟨rfl, hp⟩ | hj
    · exact h.drawn j k (hpair.trans hp)
    · exact h.drawn j k hj
  · rcases Sys.goto_some hj with ⟨-, hp⟩ | hj
    · cases hp
    · exact h.read j n hj
  · rcases Sys.goto_some hj with ⟨-, hp⟩ | hj
    · cases hp
      exact le_rfl
    · exact h.stored j x hj
  · rcases hdated with hin | ⟨j, hj⟩
    · exact h.bound e he issuedAt (.inl hin) t ht
    rcases Sys.goto_some hj with ⟨-, hp⟩ | hj
    · cases hp
      exact h.access _ t ht
    · exact h.bound e he issuedAt (.inr ⟨j, hj⟩) t ht

theorem Sys.Timed.issue (h : s.Timed) (w : Db) {issuedAt : Int}
    (hpair : (s.calls i).pair = some g)
    (hat : (s.calls i).storedAt = some (g, issuedAt) ∨ issuedAt = s.clock) :
    (((s.commit w).issue g.refreshToken issuedAt).goto i .idle).Timed := by
  have hkeeps := Sys.keeps_goto (s := (s.commit w).issue g.refreshToken issuedAt) (i := i)
    (p := .idle) ⟨nofun, nofun, nofun⟩
  refine ⟨h.fresh, fun j k hj => h.drawn j k ((hkeeps j).pair k hj),
    fun j n hj => h.read j n ((hkeeps j).readAt n hj), h.access, fun q hq => ?_,
    fun j x hj => h.stored j x ((hkeeps j).storedAt x hj), fun e he t0 hdated t ht => ?_⟩
  · rcases List.mem_cons.mp hq with rfl | hq
    · rcases hat with hi | rfl
      · exact h.stored i _ hi
      · exact le_rfl
    · exact h.issued q hq
  · rcases hdated with hin | ⟨j, hj⟩
    · rcases List.mem_cons.mp hin with heq | hin
      · obtain ⟨htoken, rfl⟩ := Prod.mk.inj heq
        have hg := h.pair_eq hpair he (refresh_mem_strings _) (htoken ▸ refresh_mem_strings g)
        rcases hat with hi | rfl
        · exact h.bound e he t0 (.inr ⟨i, hg ▸ hi⟩) t ht
        · exact h.access _ t ht
      · exact h.bound e he t0 (.inl hin) t ht
    · exact h.bound e he t0 (.inr ⟨j, (hkeeps j).storedAt _ hj⟩) t ht

/-- Every step keeps the times. -/
theorem Step.timed (hs : Step s s') (hi : s.Inv) (h : s.Timed) : s'.Timed := by
  have hquiet (j : Nat) {q : Phase} (hq : q.pair = none) (hr : q.readAt = none)
      (hx : q.storedAt = none) : (s.calls j).Keeps q := ⟨by simp [hq], by simp [hr], by simp [hx]⟩
  have hstay (u : Sys) (hclock : u.clock = s.clock) (hhistory : u.history = s.history)
      (hissued : u.issued = s.issued) (haccess : ∀ x t, u.access x = some t → s.access x = some t)
      {j : Nat} {q : Phase} (hcalls : u.calls = Function.update s.calls j q)
      (hq : (s.calls j).Keeps q) : u.Timed :=
    h.shrink hclock.ge hhistory hissued haccess fun k => hcalls ▸ Sys.keeps_goto hq k
  cases hs with
  | tick hclock =>
    exact h.shrink hclock rfl rfl (fun _ _ ht => ht) fun _ => .refl
  | refresh | purge | commitPurge | findNone | find | reject | abort =>
    exact hstay _ rfl rfl rfl (fun _ _ ht => ht) rfl (hquiet _ rfl rfl rfl)
  | generate hc hg => exact h.draw hi.ledger hg rfl rfl rfl
  | newToken claim hc hg => exact h.draw hi.ledger hg rfl rfl rfl
  | delete hc hw hv hrun =>
    exact hstay _ rfl rfl rfl (fun _ _ ht => ht) rfl
      (by rw [hc]; exact ⟨fun _ h => h, fun _ h => h, nofun⟩)
  | insert hc =>
    exact h.insert hi.waiting (by rw [hc]; rfl) (by rw [hc]; rfl) (by rw [hc]; rfl)
      (by rw [hc]; exact ⟨fun _ h => h, nofun, nofun⟩)
  | insertNew hc =>
    exact h.insert hi.waiting (by rw [hc]; rfl) (by rw [hc]; rfl) (by rw [hc]; rfl)
      (by rw [hc]; exact ⟨fun _ h => h, nofun, nofun⟩)
  | create hc hw hrun => exact h.create hc _
  | commitRefresh hc hw =>
    obtain ⟨h1, h2, h3, h4, h5, h6, h7⟩ := h.issue _ (by rw [hc]; rfl) (.inl (by rw [hc]; rfl))
    exact ⟨h1, h2, h3, h4, h5, h6, h7⟩
  | createNew hc hw hrun => exact h.issue _ (by rw [hc]; rfl) (.inr rfl)
  | remove =>
    exact hstay _ rfl rfl rfl (fun _ _ => AccessTokens.of_remove) rfl (hquiet _ rfl rfl rfl)
  | gc =>
    exact h.shrink le_rfl rfl rfl (fun _ _ => AccessTokens.of_retain) fun _ => .refl
  | restart => exact h.shrink le_rfl rfl rfl nofun fun j => hquiet j rfl rfl rfl
  | elsewhere =>
    exact h.shrink le_rfl rfl rfl (fun _ _ ht => ht) fun _ => .refl

end timed

/-- The client is gone, and no new one will get its id. -/
structure Gone (c : Int) (db : Db) : Prop where
  used : c ≤ db.clientsSeq
  missing : ∀ r ∈ db.clients, r.id ≠ c

section clients
variable {c : Int} {db : Db}

theorem Gone.of_write {k : Statement} {s t : Db} (hw : Write k s t) (h : Gone c s) : Gone c t := by
  have hframe (hk : DbTable.clients ∉ k.changes) :
      t.clients = s.clients ∧ t.clientsSeq = s.clientsSeq := hw.frame hk
  cases hw with
  | insertClient hid hi =>
    obtain ⟨rfl, -, -, rfl⟩ := Db.insertClient_ok hi
    have hused := h.used
    refine ⟨by dsimp only; omega, fun r hr => ?_⟩
    rcases List.mem_append.mp hr with hr | hr
    · exact h.missing r hr
    · rw [List.mem_singleton.mp hr, hid]
      omega
  | deleteUsers | deleteClients =>
    exact ⟨h.used, fun r hr => h.missing r (List.mem_filter.mp hr).1⟩
  | _ =>
    obtain ⟨hclients, hseq⟩ := hframe (by decide)
    exact ⟨hseq ▸ h.used, hclients ▸ h.missing⟩

theorem Gone.hasClient (h : Gone c db) : db.hasClient c = false := by
  rw [← Bool.not_eq_true, Db.hasClient_iff]
  rintro ⟨r, hr, hid⟩
  exact h.missing r hr hid

theorem gone_of_delete (hv : db.Valid) {u : Int} {t : Db}
    (h : (Clients.deleteById u c : Run Db Error _) db = (.ok true, t)) : Gone c t := by
  obtain ⟨hfound, rfl⟩ := Prod.mk.inj h
  obtain ⟨r, hr, hmatch⟩ := List.any_eq_true.mp (Except.ok.inj hfound)
  simp only [Bool.and_eq_true, beq_iff_eq] at hmatch
  refine ⟨hmatch.2 ▸ hv.clients.seq r hr, fun d hd hid => ?_⟩
  obtain ⟨hd, hkeep⟩ := List.mem_filter.mp hd
  obtain rfl : d = r := hv.clients.pk.eq_of_key hd hr (hid.trans hmatch.2.symm)
  simp [hmatch] at hkeep

end clients

namespace Sys

/-- It holds of the database and of the copy of the writer. -/
structure Everywhere (P : Db → Prop) (s : Sys) : Prop where
  db : P s.db
  writer : ∀ i w, s.writer = some (i, w) → P w

theorem Everywhere.commit {P : Db → Prop} (s : Sys) {w : Db} (h : P w) :
    (s.commit w).Everywhere P := by
  refine ⟨h, fun i v hv => ?_⟩
  cases hv

end Sys

/-- What every statement keeps, a step keeps. -/
theorem Step.everywhere {P : Db → Prop} (hP : ∀ k s t, Write k s t → P s → P t) {s s' : Sys}
    (hs : Step s s') (h : s.Everywhere P) : s'.Everywhere P := by
  have hwrite {u : Sys} {i : Nat} {w : Db} (hdb : u.db = s.db) (hwriter : u.writer = some (i, w))
      (hw : P w) : u.Everywhere P := by
    refine ⟨hdb ▸ h.db, fun j v hv => ?_⟩
    obtain rfl : w = v := congrArg Prod.snd (Option.some.inj (hwriter.symm.trans hv))
    exact hw
  have hcommit {u : Sys} {w : Db} (hdb : u.db = w) (hwriter : u.writer = none) (hw : P w) :
      u.Everywhere P := ⟨hdb ▸ hw, by simp [hwriter]⟩
  have hinsert {now : Int} {token : String} {userId clientId created : Int} {row : TokenRow}
      {d w : Db} (hrun : (Tokens.create now token userId clientId created
        refreshTokenExpirationTime : Run Db Error _) d = (.ok row, w)) (hd : P d) : P w :=
    hP _ _ _ (.insertToken (fun _ => rfl) (stmt_ok_iff.mp hrun)) hd
  cases hs with
  | tick | refresh | findNone | find | generate | insert | newToken | insertNew | reject | remove
  | gc => exact ⟨h.db, h.writer⟩
  | purge hc hw hrun =>
    cases hrun
    exact hwrite rfl rfl (hP _ _ _ (.deleteTokens _ _) h.db)
  | delete hc hw hv hrun =>
    cases hrun
    exact hwrite rfl rfl (hP _ _ _ (.deleteTokens _ _) h.db)
  | create hc hw hrun => exact hwrite rfl rfl (hinsert hrun (h.writer _ _ hw))
  | commitPurge hc hw => exact hcommit rfl rfl (h.writer _ _ hw)
  | commitRefresh hc hw => exact hcommit rfl rfl (h.writer _ _ hw)
  | createNew hc hw hrun => exact hcommit rfl rfl (hinsert hrun h.db)
  | abort i => exact ⟨h.db, fun j w hw => h.writer j w (Option.filter_eq_some_iff.mp hw).1⟩
  | restart => exact ⟨h.db, nofun⟩
  | elsewhere c hc hw =>
    exact hcommit rfl rfl (c.run_writes.keeps (fun k s t _ hw hp => hP k s t hw hp) h.db)

def Served (s : Sys) (token : String) : Prop :=
  ∃ claim, rootOf s.history token = some claim ∧ s.db.hasClient claim.clientId = true

/-- What a step adds to the tokens issued and to those refreshed is of clients that are
there. -/
theorem Step.issues {s s' : Sys} (hs : Step s s') (h : s.Inv) (hv : s.db.Valid) :
    (∀ x claim, rootOf s.history x = some claim → rootOf s'.history x = some claim) ∧
      (∀ p ∈ s'.issued, p ∈ s.issued ∨ Served s p.1) ∧
      ∀ p ∈ s'.refreshed, p ∈ s.refreshed ∨ Served s p.1 := by
  have hphase (i : Nat) (p : Phase) (hc : s.calls i = p) : s.PhaseOk i p := hc ▸ h.phases i
  have hroots : ∀ x claim, rootOf s.history x = some claim → rootOf s.history x = some claim :=
    fun _ _ hx => hx
  have hcons {p : String × Int} {l : List (String × Int)} (hserved : Served s p.1) :
      ∀ q ∈ p :: l, q ∈ l ∨ Served s q.1 := by
    intro q hq
    rcases List.mem_cons.mp hq with rfl | hq
    · exact .inr hserved
    · exact .inl hq
  cases hs with
  | generate hc hg =>
    exact ⟨fun x claim hx => rootOf_cons hg hx, fun _ hp => .inl hp, fun _ hp => .inl hp⟩
  | newToken claim hc hg =>
    exact ⟨fun x claim hx => rootOf_cons hg hx, fun _ hp => .inl hp, fun _ hp => .inl hp⟩
  | @commitRefresh i r g issuedAt w hc hw =>
    obtain ⟨v, hh, -⟩ := hphase i _ hc
    have hclient : s.db.hasClient r.row.claim.clientId = true := hv.tokensClient r.row hh.row
    have hroot := (h.ledger.rows r.row hh.row).root
    rw [hh.token] at hroot
    exact ⟨hroots, hcons ⟨_, hh.rooted _ (refresh_mem_strings g), hclient⟩,
      hcons ⟨_, hroot, hclient⟩⟩
  | @createNew i claim g created row w hc hw hrun =>
    obtain ⟨rfl, -, hclient, -⟩ := Db.insertToken_ok (stmt_ok_iff.mp hrun)
    have hrooted : Rooted s.history g claim := hphase i _ hc
    exact ⟨hroots, hcons ⟨claim, hrooted _ (refresh_mem_strings g), hclient⟩,
      fun _ hp => .inl hp⟩
  | tick | refresh | purge | commitPurge | findNone | find | delete | insert | create | insertNew
  | reject | remove | gc | abort | restart | elsewhere =>
    exact ⟨hroots, fun _ hp => .inl hp, fun _ hp => .inl hp⟩

def Elsewhere (c : Int) (s : Sys) (token : String) : Prop :=
  ∃ claim, rootOf s.history token = some claim ∧ claim.clientId ≠ c

/-- Since `old` the client has been gone, and got no token. -/
structure Revoked (c : Int) (old s : Sys) : Prop where
  inv : s.Inv
  timed : s.Timed
  valid : s.Everywhere Db.Valid
  gone : s.Everywhere (Gone c)
  issued : ∀ p ∈ s.issued, p ∈ old.issued ∨ Elsewhere c s p.1
  refreshed : ∀ p ∈ s.refreshed, p ∈ old.refreshed ∨ Elsewhere c s p.1

theorem Step.revoked {c : Int} {old s s' : Sys} (hs : Step s s') (h : Revoked c old s) :
    Revoked c old s' := by
  obtain ⟨hroots, hissued, hrefreshed⟩ := hs.issues h.inv h.valid.db
  have hkeeps {x : String} (hx : Elsewhere c s x) : Elsewhere c s' x := by
    obtain ⟨claim, hroot, hne⟩ := hx
    exact ⟨claim, hroots x claim hroot, hne⟩
  have hserved {x : String} (hx : Served s x) : Elsewhere c s x := by
    obtain ⟨claim, hroot, hclient⟩ := hx
    refine ⟨claim, hroot, ?_⟩
    rintro rfl
    rw [h.gone.db.hasClient] at hclient
    cases hclient
  refine ⟨hs.inv h.inv, hs.timed h.inv h.timed, hs.everywhere (fun _ _ _ hw hv => hw.valid hv) h.valid,
    hs.everywhere (fun _ _ _ => Gone.of_write) h.gone, fun p hp => ?_, fun p hp => ?_⟩
  · rcases hissued p hp with hp | hp
    · exact (h.issued p hp).imp id hkeeps
    · exact .inr (hkeeps (hserved hp))
  · rcases hrefreshed p hp with hp | hp
    · exact (h.refreshed p hp).imp id hkeeps
    · exact .inr (hkeeps (hserved hp))

/-- A call that stored its refresh token handed out the access token. -/
def Sys.HandedOut (s : Sys) (x : String) : Prop :=
  ∃ e ∈ s.history, e.generated.accessToken = x ∧
    ∃ issuedAt, (e.generated.refreshToken, issuedAt) ∈ s.issued

/-- The states of runs that begin in a database with its constraints and without refresh
tokens. -/
def Started (s : Sys) : Prop :=
  ∃ clock, ∃ db : Database, db.val.tokens = [] ∧ ReflTransGen Step (start clock db.val) s

theorem start_timed (clock : Int) (db : Db) : (start clock db).Timed :=
  ⟨trivial, nofun, nofun, nofun, nofun, nofun, nofun⟩

theorem Started.inv {s : Sys} (h : Started s) : s.Inv ∧ s.Timed ∧ s.Everywhere Db.Valid := by
  obtain ⟨clock, db, htokens, hrun⟩ := h
  refine run_invariant (I := fun s => s.Inv ∧ s.Timed ∧ s.Everywhere Db.Valid) ?_ ?_ hrun
  · rintro s s' ⟨hi, ht, hv⟩ hs
    exact ⟨hs.inv hi, hs.timed hi ht, hs.everywhere (fun _ _ _ hw hv => hw.valid hv) hv⟩
  · exact ⟨start_inv clock htokens, start_timed clock db.val, db.property, nofun⟩

section deleted
variable {s s' : Sys} {u c : Int} {db : Db}

/-- The deletion itself, and all that happens after it. -/
theorem Started.revoked (h : Started s) (hw : s.writer = none)
    (hdelete : (Clients.deleteById u c : Run Db Error Bool) s.db = (.ok true, db))
    (hrun : ReflTransGen Step (s.commit db) s') : Revoked c s s' := by
  obtain ⟨hi, ht, hv⟩ := h.inv
  have hcall : ((Call.deleteClientById u c).run : Run Db Error Unit) s.db = (.ok (), db) := by
    rw [Call.run, run_bind_ok hdelete]
    rfl
  have hstep : Step s (s.commit db) := by
    have helsewhere := Step.elsewhere (s := s) (.deleteClientById u c) (by simp) hw
    rwa [hcall] at helsewhere
  refine run_invariant (I := Revoked c s) (fun _ _ hr hs => hs.revoked hr) ?_ hrun
  exact ⟨hstep.inv hi, hstep.timed hi ht, hstep.everywhere (fun _ _ _ hw hv => hw.valid hv) hv,
    Sys.Everywhere.commit s (gone_of_delete hv.db hdelete), fun _ hp => .inl hp, fun _ hp => .inl hp⟩

theorem Revoked.row {old : Sys} (h : Revoked c old s) {t : TokenRow} (ht : t ∈ s.db.tokens) :
    t.clientId ≠ c := by
  rintro rfl
  have hclient := h.valid.db.tokensClient t ht
  rw [h.gone.db.hasClient] at hclient
  cases hclient

/-- Once `delete_by_id` has returned true, in every run, under every interleaving: the
refresh grant accepts no refresh token issued to the client, and none of them is
exchanged any more; an access token of the client that was handed out is accepted for
an hour at most. -/
theorem Started.client_deleted (h : Started s) (hw : s.writer = none)
    (hdelete : (Clients.deleteById u c : Run Db Error Bool) s.db = (.ok true, db))
    (hrun : ReflTransGen Step (s.commit db) s') :
    (∀ token claim, rootOf s'.history token = some claim → claim.clientId = c →
      (∀ clock g, ((TokenStorage.refresh clock g token : RunWith AccessTokens Db Error _)
        (s'.access, s'.db)).1 = .ok none) ∧
      ∀ p ∈ s'.refreshed, p.1 = token → p ∈ s.refreshed) ∧
    ∀ x claim, s'.validate x = some claim → claim.clientId = c → s'.HandedOut x →
      s'.clock ≤ s.clock + 60 * 60 := by
  have hr := h.revoked hw hdelete hrun
  obtain ⟨-, htimed, -⟩ := h.inv
  have helsewhere {token : String} {claim : Claim} (hroot : rootOf s'.history token = some claim)
      (hclient : claim.clientId = c) : ¬ Elsewhere c s' token := by
    rintro ⟨claim', hroot', hne⟩
    obtain rfl : claim = claim' := Option.some.inj (hroot.symm.trans hroot')
    exact hne hclient
  refine ⟨fun token claim hroot hclient => ⟨fun clock g => ?_, fun p hp htoken => ?_⟩,
    fun x claim hx hclient hout => ?_⟩
  · have hnone : s'.db.liveToken clock.purged token = none := by
      rw [Option.eq_none_iff_forall_ne_some]
      intro row hrow
      obtain ⟨hmem, -, rfl⟩ := Db.liveToken_some hrow
      have hrowroot := (hr.inv.ledger.rows row hmem).root
      obtain rfl : claim = row.claim := Option.some.inj (hroot.symm.trans hrowroot)
      exact hr.row hmem hclient
    rw [TokenStorage.refresh_none clock g s'.access hnone]
  · exact (hr.refreshed p hp).resolve_right (htoken ▸ helsewhere hroot hclient)
  · obtain ⟨e, he, rfl, issuedAt, hin⟩ := hout
    obtain ⟨t, ht, hlive, rfl⟩ := Sys.validate_some hx
    have hroot : rootOf s'.history e.generated.refreshToken = some t.claim := by
      rw [← hr.inv.ledger.access _ t ht]
      exact hr.timed.fresh.rootOf_eq he (refresh_mem_strings _) (access_mem_strings _)
    have hold := (hr.issued _ hin).resolve_right (helsewhere hroot hclient)
    have hbefore : issuedAt ≤ s.clock := htimed.issued _ hold
    have hexpires : t.expiresAt ≤ issuedAt + 60 * 60 := hr.timed.bound e he issuedAt (.inl hin) t ht
    omega

end deleted

/-- The desk after a `new_token`, and after the deletion of its client. -/
def deskIssued : Db :=
  { desk.val with
    tokens := [⟨1, "refresh0", 10, 10 + refreshTokenExpirationTime, 1, 1⟩], tokensSeq := 1 }

def deskClosed : Db := { desk.val with clients := [], tokensSeq := 1 }

theorem started_desk : ∃ s, Started s ∧ s.writer = none ∧ s.db = deskIssued ∧ s.clock = 10 ∧
    (s.commit deskClosed).HandedOut "access0" ∧
    s.access "access0" = some ⟨⟨1, 1⟩, 10 + expirationTime⟩ ∧
    rootOf s.history "refresh0" = some ⟨1, 1⟩ := by
  refine ⟨_, ⟨10, desk, rfl,
    .head (.newToken (i := 0) (g := ⟨"access0", "refresh0"⟩) ⟨1, 1⟩ rfl ⟨by decide, by decide⟩) <|
    .head (.insertNew (i := 0) rfl) <|
    .head (.createNew (i := 0) (w := deskIssued) rfl rfl rfl) .refl⟩, rfl, rfl, rfl, ?_, rfl, rfl⟩
  exact ⟨_, List.mem_cons_self, rfl, 10, List.mem_cons_self⟩

theorem Started.client_deleted_desk : ∃ s s' : Sys, Started s ∧ s'.clock = 3610 ∧
    s'.validate "access0" = some ⟨1, 1⟩ ∧ s'.clock ≤ s.clock + 60 * 60 ∧
    ((TokenStorage.refresh ⟨20, 20, 20, 20⟩ ⟨"access1", "refresh1"⟩ "refresh0" :
      RunWith AccessTokens Db Error _) (s'.access, s'.db)).1 = .ok none := by
  obtain ⟨s, hs, hwriter, hdb, hclock, hout, haccess, hroot⟩ := started_desk
  have hdelete : (Clients.deleteById 1 1 : Run Db Error Bool) s.db = (.ok true, deskClosed) := by
    rw [hdb]
    rfl
  have hlater : Step (s.commit deskClosed) { s.commit deskClosed with clock := 3610 } :=
    .tick (hclock.le.trans (by decide))
  have hvalid : ({ s.commit deskClosed with clock := 3610 } : Sys).validate "access0" =
      some ⟨1, 1⟩ := by
    rw [Sys.validate, TokenStorage.validate_run, Sys.commit, haccess]
    rfl
  obtain ⟨hrefresh, hexpires⟩ := hs.client_deleted hwriter hdelete (.single hlater)
  exact ⟨s, _, hs, rfl, hvalid, hexpires _ _ hvalid rfl hout, (hrefresh _ _ hroot rfl).1 _ _⟩

/-- The access token of a client that was just deleted is accepted. -/
theorem Started.deleted_accepted : ∃ s db, Started s ∧ s.writer = none ∧
    (Clients.deleteById 1 1 : Run Db Error Bool) s.db = (.ok true, db) ∧
    (s.commit db).validate "access0" = some ⟨1, 1⟩ := by
  obtain ⟨s, hs, hwriter, hdb, hclock, -, haccess, -⟩ := started_desk
  refine ⟨s, deskClosed, hs, hwriter, by rw [hdb]; rfl, ?_⟩
  rw [Sys.validate, TokenStorage.validate_run, Sys.commit, haccess, hclock]
  rfl

end Articler.Rotation
