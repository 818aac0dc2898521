import Articler.TokenStorage

/-! Expiry of access tokens. Two places decide it, `validate` and `gc`; they disagree about
the second in which a token expires. -/
namespace Articler.Collection
open Txn

/-- A call of the token storage, with what it reads off the clock and what it draws. -/
inductive TokenCall where
  | newToken (clock : Clock) (generated : Generated) (userId clientId : Int)
  | refresh (clock : Clock) (generated : Generated) (refreshToken : String)
  | validate (now : Int) (accessToken : String)
  | gc (now : Int)

namespace TokenCall

def run : TokenCall → RunWith AccessTokens Db Error Unit
  | newToken clock generated userId clientId => do
    let _ ← TokenStorage.newToken clock generated userId clientId
  | refresh clock generated token => do let _ ← TokenStorage.refresh clock generated token
  | validate now token => do let _ ← TokenStorage.validate now token
  | gc now => TokenStorage.gc now

/-- The times a call reads, in its order. -/
def times : TokenCall → List Int
  | newToken clock .. => [clock.now, clock.created, clock.stored]
  | refresh clock .. => [clock.purged, clock.now, clock.created, clock.stored]
  | validate now _ | gc now => [now]

def drawn : TokenCall → Option String
  | newToken _ generated .. | refresh _ generated _ => some generated.accessToken
  | validate .. | gc _ => none

end TokenCall

structure Issue where
  accessToken : String
  claim : Claim
  issuedAt : Int

namespace Issue
variable (i : Issue)

def expiresAt : Int := i.issuedAt + expirationTime

def token : InternalToken := ⟨i.claim, i.expiresAt⟩

/-- The answer that depends on nothing but the claim, the time of issue and the time. -/
def answer (now : Int) : Option Claim := if now ≤ i.expiresAt then some i.claim else none

end Issue

def TokenCall.issue (c : TokenCall) (db : Db) : Option Issue :=
  match c with
  | newToken clock generated userId clientId =>
    some ⟨generated.accessToken, ⟨userId, clientId⟩, clock.now⟩
  | refresh clock generated token =>
    (db.liveToken clock.purged token).map fun row =>
      ⟨generated.accessToken, row.claim, clock.now⟩
  | validate .. | gc _ => none

/-- What a run of calls leaves in memory and in the database. -/
def after (calls : List TokenCall) (s : AccessTokens × Db) : AccessTokens × Db :=
  calls.foldl (fun s c => (c.run s).2) s

def issues : List TokenCall → AccessTokens × Db → List Issue
  | [], _ => []
  | c :: calls, s => (c.issue s.2).toList ++ issues calls (c.run s).2

def validateAt (now : Int) (token : String) (s : AccessTokens × Db) : Except Error (Option Claim) :=
  ((TokenStorage.validate now token : RunWith AccessTokens Db Error _) s).1

def NonDecreasing (calls : List TokenCall) : Prop :=
  (calls.flatMap TokenCall.times).Pairwise (· ≤ ·)

def Fresh (calls : List TokenCall) : Prop := (calls.filterMap TokenCall.drawn).Nodup

instance (calls : List TokenCall) : Decidable (NonDecreasing calls) :=
  inferInstanceAs (Decidable (List.Pairwise _ _))

instance (calls : List TokenCall) : Decidable (Fresh calls) :=
  inferInstanceAs (Decidable (List.Nodup _))

theorem after_snoc (calls : List TokenCall) (c : TokenCall) (s : AccessTokens × Db) :
    after (calls ++ [c]) s = (c.run (after calls s)).2 := by
  rw [after, List.foldl_append]
  rfl

theorem issues_snoc (calls : List TokenCall) (c : TokenCall) (s : AccessTokens × Db) :
    issues (calls ++ [c]) s = issues calls s ++ (c.issue (after calls s).2).toList := by
  induction calls generalizing s with
  | nil => exact List.append_nil _
  | cons d calls ih =>
    rw [List.cons_append, issues, ih, issues, List.append_assoc]
    rfl

section memory
variable (s : AccessTokens × Db)

theorem TokenCall.run_issue {c : TokenCall} {x : String} (hdrawn : c.drawn = some x) :
    (c.run s).2.1 = match c.issue s.2 with
      | some i => s.1.insert i.accessToken i.token
      | none => s.1 := by
  cases c with
  | newToken clock generated userId clientId =>
    rw [run, RunWith.run_discard]
    exact TokenStorage.newToken_memory clock generated s.1 s.2 userId clientId
  | refresh clock generated token =>
    rw [run, RunWith.run_discard, TokenStorage.refresh_memory clock generated s.1 s.2 token, issue]
    cases s.2.liveToken clock.purged token <;> rfl
  | validate | gc => cases hdrawn

theorem TokenCall.issue_drawn {c : TokenCall} {db : Db} {i : Issue} (h : c.issue db = some i) :
    c.drawn = some i.accessToken ∧ i.issuedAt ∈ c.times := by
  cases c with
  | newToken clock generated userId clientId =>
    cases h
    exact ⟨rfl, List.mem_cons_self⟩
  | refresh clock generated token =>
    obtain ⟨row, -, rfl⟩ := Option.map_eq_some_iff.mp h
    exact ⟨rfl, List.mem_cons_of_mem _ List.mem_cons_self⟩
  | validate | gc => cases h

/-- May the entry of a token stay in the map? -/
def TokenCall.keeps (c : TokenCall) (x : String) (t : InternalToken) : Bool :=
  match c with
  | newToken .. | refresh .. => true
  | validate now token => !(token == x && t.expiresAt < now)
  | gc now => now < t.expiresAt

/-- A call that does not draw a token can only drop its entry. -/
theorem TokenCall.run_other {c : TokenCall} {x : String} (hx : c.drawn ≠ some x) :
    (c.run s).2.1 x = (s.1 x).filter (c.keeps x) := by
  cases c with
  | newToken | refresh =>
    rw [run_issue s rfl]
    have hkeep : (s.1 x).filter (fun _ => true) = s.1 x := by cases s.1 x <;> rfl
    split
    · rename_i i hi
      have hne : x ≠ i.accessToken := by
        rintro rfl
        exact hx (issue_drawn hi).1
      exact (Function.update_of_ne hne ..).trans hkeep.symm
    · exact hkeep.symm
  | validate now token =>
    rw [run, RunWith.run_discard, TokenStorage.validate_run]
    by_cases hxt : token = x
    · subst hxt
      cases ht : s.1 token with
      | none => exact ht
      | some t =>
        rw [Option.filter_some]
        by_cases hlate : t.expiresAt < now
        · simp [keeps, hlate, AccessTokens.remove]
        · simp [keeps, hlate, ht]
    · have hkeep : (s.1 x).filter (keeps (validate now token) x) = s.1 x := by
        cases s.1 x with
        | none => rfl
        | some t => simp [keeps, hxt]
      rw [hkeep]
      cases s.1 token with
      | none => rfl
      | some t =>
        dsimp only
        split
        · exact Function.update_of_ne (Ne.symm hxt) ..
        · rfl
  | gc now => rfl

end memory

/-- The entry of a token that was issued: it is there with what it was issued with, unless
somebody dropped it, and `gc` dropped it if it ran late enough. -/
structure Kept (calls : List TokenCall) (access : AccessTokens) (i : Issue) : Prop where
  entry : ∀ t, access i.accessToken = some t → t = i.token
  gone : access i.accessToken = none →
    (∃ t ∈ calls.flatMap TokenCall.times, i.expiresAt < t) ∨ .gc i.expiresAt ∈ calls
  collected : ∀ t, .gc t ∈ calls → i.expiresAt ≤ t → access i.accessToken = none

section kept
variable {calls : List TokenCall} {s : AccessTokens × Db} {c : TokenCall} {i : Issue}

theorem Kept.call (h : Kept calls s.1 i) (hdrawn : c.drawn ≠ some i.accessToken) :
    Kept (calls ++ [c]) (c.run s).2.1 i := by
  have hrun := TokenCall.run_other s hdrawn
  constructor
  · intro t ht
    rw [hrun] at ht
    exact h.entry t (Option.filter_eq_some_iff.mp ht).1
  · intro hnone
    rw [hrun] at hnone
    cases ht : s.1 i.accessToken with
    | none =>
      refine (h.gone ht).imp (fun ⟨t, hm, hlate⟩ => ⟨t, ?_, hlate⟩) (List.mem_append_left _)
      rw [List.flatMap_append]
      exact List.mem_append_left _ hm
    | some t =>
      obtain rfl := h.entry t ht
      rw [ht, Option.filter_eq_none_iff] at hnone
      have hdropped := hnone _ rfl
      have htime (now : Int) (hnow : now ∈ c.times) :
          now ∈ (calls ++ [c]).flatMap TokenCall.times :=
        List.mem_flatMap.mpr ⟨c, List.mem_append_right _ List.mem_cons_self, hnow⟩
      cases c with
      | newToken | refresh => exact absurd rfl hdropped
      | validate now token =>
        simp only [TokenCall.keeps, Bool.not_eq_true', Bool.not_eq_false, Bool.and_eq_true,
          decide_eq_true_eq] at hdropped
        exact .inl ⟨now, htime now List.mem_cons_self, hdropped.2⟩
      | gc now =>
        simp only [TokenCall.keeps, decide_eq_true_eq, not_lt] at hdropped
        rcases lt_or_eq_of_le hdropped with hlate | hnow
        · exact .inl ⟨now, htime now List.mem_cons_self, hlate⟩
        · rw [← show i.token.expiresAt = i.expiresAt from rfl, hnow]
          exact .inr (List.mem_append_right _ List.mem_cons_self)
  · intro t ht hlate
    rw [hrun]
    rcases List.mem_append.mp ht with ht | ht
    · rw [h.collected t ht hlate]
      rfl
    · obtain rfl := List.mem_singleton.mp ht
      rw [Option.filter_eq_none_iff]
      intro u hu
      obtain rfl := h.entry u hu
      exact fun hkept => absurd hlate (not_le.mpr (of_decide_eq_true hkept))

theorem Kept.new (htimes : NonDecreasing (calls ++ [c])) (h : c.issue s.2 = some i) :
    Kept (calls ++ [c]) (c.run s).2.1 i := by
  obtain ⟨hdrawn, hissued⟩ := TokenCall.issue_drawn h
  have hentry : (c.run s).2.1 i.accessToken = some i.token := by
    rw [TokenCall.run_issue s hdrawn, h]
    exact AccessTokens.insert_self ..
  refine ⟨fun t ht => Option.some.inj (ht.symm.trans hentry),
    fun hnone => absurd (hentry.symm.trans hnone) (Option.some_ne_none _), fun t ht hlate => ?_⟩
  rcases List.mem_append.mp ht with ht | ht
  · rw [NonDecreasing, List.flatMap_append, List.pairwise_append] at htimes
    have hle := htimes.2.2 t (List.mem_flatMap.mpr ⟨_, ht, List.mem_cons_self⟩) i.issuedAt
      (List.mem_flatMap.mpr ⟨c, List.mem_cons_self, hissued⟩)
    have hlong : 0 < expirationTime := by decide
    rw [Issue.expiresAt] at hlate
    omega
  · obtain rfl := List.mem_singleton.mp ht
    cases hdrawn

theorem NonDecreasing.left {calls rest : List TokenCall} (h : NonDecreasing (calls ++ rest)) :
    NonDecreasing calls := by
  rw [NonDecreasing, List.flatMap_append] at h
  exact (List.pairwise_append.mp h).1

theorem drawn_of_issues (hi : i ∈ issues calls s) :
    i.accessToken ∈ calls.filterMap TokenCall.drawn := by
  induction calls generalizing s with
  | nil => cases hi
  | cons c calls ih =>
    rcases List.mem_append.mp hi with hi | hi
    · exact List.mem_filterMap.mpr
        ⟨c, List.mem_cons_self, (TokenCall.issue_drawn (Option.mem_toList.mp hi)).1⟩
    · obtain ⟨d, hd, hdrawn⟩ := List.mem_filterMap.mp (ih hi)
      exact List.mem_filterMap.mpr ⟨d, List.mem_cons_of_mem _ hd, hdrawn⟩

/-- Over a run, the entry of every token that was issued is as it should be. -/
theorem kept_of_run (hfresh : Fresh calls) (htimes : NonDecreasing calls)
    (hi : i ∈ issues calls s) : Kept calls (after calls s).1 i := by
  induction calls using List.reverseRecOn generalizing i with
  | nil => cases hi
  | append_singleton calls c ih =>
    rw [after_snoc]
    rw [issues_snoc] at hi
    rw [Fresh, List.filterMap_append, List.nodup_append] at hfresh
    rcases List.mem_append.mp hi with hi | hi
    · refine (ih hfresh.1 htimes.left hi).call fun hdrawn => ?_
      exact hfresh.2.2 _ (drawn_of_issues hi) _
        (List.mem_filterMap.mpr ⟨c, List.mem_cons_self, hdrawn⟩) rfl
    · exact .new htimes (Option.mem_toList.mp hi)

/-- In every run, `validate` answers by the claim, the time of issue and the time alone,
exactly if `gc` has not run in the second in which the token expires and is presented. -/
theorem validate_iff {now : Int} (hfresh : Fresh calls)
    (htimes : NonDecreasing (calls ++ [.validate now i.accessToken])) (hi : i ∈ issues calls s) :
    validateAt now i.accessToken (after calls s) = .ok (i.answer now) ↔
      ¬ (now = i.expiresAt ∧ .gc now ∈ calls) := by
  have hkept := kept_of_run hfresh htimes.left hi
  have hclock (t : Int) (ht : t ∈ calls.flatMap TokenCall.times) : t ≤ now := by
    rw [NonDecreasing, List.flatMap_append, List.pairwise_append] at htimes
    exact htimes.2.2 t ht now List.mem_cons_self
  rw [validateAt, ← Prod.mk.eta (p := after calls s), TokenStorage.validate_run]
  cases ht : (after calls s).1 i.accessToken with
  | some t =>
    obtain rfl := hkept.entry t ht
    refine iff_of_true ?_ fun ⟨hnow, hgc⟩ => ?_
    · dsimp only [Issue.answer, Issue.token]
      split
      · rw [if_neg (by omega)]
      · rw [if_pos (by omega)]
    · rw [hkept.collected now hgc hnow.ge] at ht
      cases ht
  | none =>
    dsimp only
    rcases hkept.gone ht with ⟨t, hm, hlate⟩ | hgc
    · have hnow := hclock t hm
      refine iff_of_true ?_ fun ⟨heq, _⟩ => by omega
      rw [Issue.answer, if_neg (by omega)]
    · have hnow := hclock _ (List.mem_flatMap.mpr ⟨_, hgc, List.mem_cons_self⟩)
      rcases eq_or_lt_of_le hnow with heq | hlate
      · refine iff_of_false (fun hans => ?_) fun hnot => hnot ⟨heq.symm, heq ▸ hgc⟩
        rw [Issue.answer, if_pos heq.ge] at hans
        cases hans
      · refine iff_of_true ?_ fun ⟨heq, _⟩ => by omega
        rw [Issue.answer, if_neg (by omega)]

end kept

/-- A token of the second zero, and later a collection. -/
def collecting (now : Int) : List TokenCall :=
  [.newToken ⟨0, 0, 0, 0⟩ ⟨"access1", "refresh1"⟩ 1 1, .gc now]

theorem validate_collecting :
    validateAt 3600 "access1" (after (collecting 3599) (fun _ => none, desk.val)) =
      .ok (some ⟨1, 1⟩) :=
  (validate_iff (i := ⟨"access1", ⟨1, 1⟩, 0⟩) (by decide) (by decide) List.mem_cons_self).mpr
    fun ⟨_, hgc⟩ => by simp [collecting] at hgc

/-- In the second in which it expires the token is good until `gc` runs. -/
theorem collected_early :
    Fresh (collecting 3600) ∧
      NonDecreasing (collecting 3600 ++ [.validate 3600 "access1"]) ∧
      validateAt 3600 "access1" (after ((collecting 3600).take 1) (fun _ => none, desk.val)) =
        .ok (some ⟨1, 1⟩) ∧
      validateAt 3600 "access1" (after (collecting 3600) (fun _ => none, desk.val)) = .ok none :=
  ⟨by decide, by decide, rfl, rfl⟩

end Articler.Collection
