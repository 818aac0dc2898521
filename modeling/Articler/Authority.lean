import Articler.Grants

/-! Nobody acts for a user who has not shown that user's password: whatever requests come,
in whatever order, a user's data stays as it was unless one of them carries the name and the
password of that user. -/
namespace Articler
open Txn Rows Relation

/-- The link belongs to an entry of `u`. -/
def ownLink (u : Int) (db : Db) (l : EntryTag) : Bool :=
  db.entries.any fun e => e.userId == u && e.id == l.entryId

/-- The account of `u`, and all that belongs to it, is the same in both states. -/
structure SameData (u : Int) (s t : Db) : Prop where
  users : (t.users.filter fun r => r.id == u) = s.users.filter fun r => r.id == u
  entries : (t.entries.filter fun e => e.userId == u) = s.entries.filter fun e => e.userId == u
  tags : (t.tags.filter fun r => r.userId == u) = s.tags.filter fun r => r.userId == u
  clients : (t.clients.filter fun c => c.userId == u) = s.clients.filter fun c => c.userId == u
  links : t.entryTags.filter (ownLink u t) = s.entryTags.filter (ownLink u s)

section data
variable {u v : Int} {s t r : Db}

theorem SameData.refl (u : Int) (s : Db) : SameData u s s := ⟨rfl, rfl, rfl, rfl, rfl⟩

theorem SameData.trans (h : SameData u s t) (h' : SameData u t r) : SameData u s r :=
  ⟨h'.users.trans h.users, h'.entries.trans h.entries, h'.tags.trans h.tags,
    h'.clients.trans h.clients, h'.links.trans h.links⟩

theorem filter_own_others {α : Type} (userId : α → Int) (huv : u ≠ v) (rows : List α) :
    ((rows.filter fun a => userId a != v).filter fun a => userId a == u) =
      rows.filter fun a => userId a == u := by
  rw [List.filter_filter]
  refine List.filter_congr fun a _ => ?_
  by_cases ha : userId a = u
  · simp [ha, huv]
  · simp [ha]

theorem filter_own_congr {α : Type} (userId : α → Int) (huv : u ≠ v) {rows rows' : List α}
    (h : (rows'.filter fun a => userId a != v) = rows.filter fun a => userId a != v) :
    (rows'.filter fun a => userId a == u) = rows.filter fun a => userId a == u := by
  rw [← filter_own_others userId huv, h, filter_own_others userId huv]

theorem ownLink_eq_any (u : Int) (db : Db) (l : EntryTag) : ownLink u db l =
    (db.entries.filter fun e => e.userId == u).any fun e => e.id == l.entryId := by
  rw [ownLink, List.any_filter]

theorem ownLink_foreign (huv : u ≠ v) (db : Db) {l : EntryTag} (h : ownLink u db l = true) :
    foreignLink v db l = true := by
  simp only [ownLink, List.any_eq_true, Bool.and_eq_true, beq_iff_eq] at h
  obtain ⟨e, he, hu, hid⟩ := h
  exact foreignLink_iff.mpr ⟨e, he, hu ▸ huv, hid⟩

theorem filter_ownLink_foreign (huv : u ≠ v) (db : Db) :
    (db.entryTags.filter (foreignLink v db)).filter (ownLink u db) =
      db.entryTags.filter (ownLink u db) := by
  rw [List.filter_filter]
  refine List.filter_congr fun l _ => ?_
  cases hl : ownLink u db l with
  | false => simp
  | true => simp [ownLink_foreign huv db hl]

theorem OthersSame.sameData (h : OthersSame v s t) (huv : u ≠ v) (husers : t.users = s.users) :
    SameData u s t where
  users := by rw [husers]
  entries := filter_own_congr EntryRecord.userId huv h.entries
  tags := filter_own_congr TagRow.userId huv h.tags
  clients := filter_own_congr ClientRow.userId huv h.clients
  links := by
    have hown : ownLink u t = ownLink u s := by
      funext l
      rw [ownLink_eq_any, ownLink_eq_any, filter_own_congr EntryRecord.userId huv h.entries]
    rw [← filter_ownLink_foreign huv t, h.links, hown, filter_ownLink_foreign huv s]

end data

section quiet
variable {K : Type} [Field K] [LinearOrder K]

def Quiet (s t : Db) : Prop := t.users = s.users ∧ ∀ r ∈ t.tokens, r ∈ s.tokens

theorem Quiet.refl (s : Db) : Quiet s s := ⟨rfl, fun _ hr => hr⟩

theorem Quiet.trans {s t r : Db} (h : Quiet s t) (h' : Quiet t r) : Quiet s r :=
  ⟨h'.1.trans h.1, fun x hx => h.2 x (h'.2 x hx)⟩

theorem allows_quiet {r : Right} {k : Statement} (hk : k ∈ r.statements) : Allows Quiet k := by
  have hframes : DbTable.users ∉ k.changes ∧ (k ≠ .deleteClients → DbTable.tokens ∉ k.changes) := by
    revert k
    cases r <;> decide
  obtain ⟨husers, htokens⟩ := hframes
  intro s t hw
  refine ⟨(hw.frame husers).1, fun r hr => ?_⟩
  by_cases hdelete : k = .deleteClients
  · subst hdelete
    cases hw
    exact (List.mem_filter.mp hr).1
  · exact (hw.frame (htokens hdelete)).1 ▸ hr

theorem createClient_isolated (u : Int) (clientName clientId clientSecret : String)
    (createdAt : Int) : Isolated u (fun _ => True)
      (Clients.create u clientName clientId clientSecret createdAt) := by
  refine .stmt .insertClient fun s c t _ h => ⟨.insertClient (fun _ => rfl) h, ?_, trivial⟩
  obtain ⟨hc, -, -, rfl⟩ := Db.insertClient_ok h
  exact ⟨rfl, rfl, by simp [hc], rfl⟩

variable {rights : List Right} {eng : Engine K} {v : Int} {α : Type} {x : Run Db Error α}

theorem Acts.isolated (hx : Acts rights eng v x) : Isolated v (fun _ => True) x := by
  refine hx.obeys (.refl v) (fun _ _ _ h h' => h.trans h') (fun o _ s hs => ?_)
    fun _ _ _ _ _ => createClient_isolated v _ _ _ _
  obtain ⟨hi, hothers, -⟩ := o.run_isolated eng v s hs
  exact ⟨hi, hothers, fun _ _ => trivial⟩

theorem Acts.quiet (hx : Acts rights eng v x) (s : Db) : Quiet s (x s).2 :=
  run_invariant (fun _ _ h h' => h.trans h') (.refl s)
    (((hx.built Quiet.refl fun _ _ _ hk => allows_quiet hk).obeys (I := fun _ => True)
      fun _ _ _ _ => trivial) s trivial).2.1

end quiet

namespace Server
section lockout
variable {Url : Type} [UrlCrate Url] {K : Type} [Field K] [LinearOrder K] {config : Config K}

/-- The request shows the name and the password of the user, or it is a command for him. -/
def Event.SpeaksFor (verifyPassword : String → String → Except Error Bool) (u : UserRow) :
    Event Url → Prop
  | .postToken _ _ request => ∃ password, request.username = some u.username ∧
      request.password = some password ∧ verifyPassword password u.passwordHash = .ok true
  | .doLogin form _ => form.username = u.username ∧
      verifyPassword form.password u.passwordHash = .ok true
  | .command (.createClient _ _ username _) | .command (.reloadArticles _ _ username) =>
    username = u.username
  | _ => False

def Barred (u : Int) (access : AccessTokens) : Prop :=
  ∀ x t, access x = some t → t.claim.userId ≠ u

/-- No token and no session cookie is of `u`. -/
structure Locked (u : Int) (s : Server) : Prop where
  access : Barred u s.access
  tokens : ∀ r ∈ s.db.tokens, r.userId ≠ u
  sessions : u ∉ s.sessions

/-- The database, while `u` is locked out: as it was in `s` for all that is his. -/
structure Untouched (s : Db) (u : UserRow) (t : Db) : Prop where
  sound : t.Sound
  user : u ∈ t.users
  same : SameData u.id s t
  tokens : ∀ r ∈ t.tokens, r.userId ≠ u.id

section statements
variable {s t t' : Db} {u : UserRow}

theorem Untouched.insertToken (h : Untouched s u t) {row : Int → TokenRow} {r : TokenRow}
    (hid : ∀ i, (row i).id = i) (hi : t.insertToken row = .ok (r, t')) (hr : r.userId ≠ u.id) :
    Untouched s u t' := by
  have hsound := (Write.insertToken hid hi).sound h.sound
  obtain ⟨-, -, -, rfl⟩ := Db.insertToken_ok hi
  refine ⟨hsound, h.user, h.same.trans ⟨rfl, rfl, rfl, rfl, rfl⟩, fun x hx => ?_⟩
  rcases List.mem_append.mp hx with hx | hx
  · exact h.tokens x hx
  · exact List.mem_singleton.mp hx ▸ hr

theorem Untouched.deleteTokens (h : Untouched s u t) (p : TokenRow → Bool) :
    Untouched s u (t.deleteTokens p) :=
  ⟨(Write.deleteTokens t p).sound h.sound, h.user, h.same.trans ⟨rfl, rfl, rfl, rfl, rfl⟩,
    fun r hr => h.tokens r (List.mem_filter.mp hr).1⟩

theorem Untouched.insertUser (h : Untouched s u t) {row : Int → UserRow} {w : UserRow}
    (hid : ∀ i, (row i).id = i) (hi : t.insertUser row = .ok (w, t')) : Untouched s u t' := by
  have hsound := (Write.insertUser hid hi).sound h.sound
  obtain ⟨hw, -, rfl⟩ := Db.insertUser_ok hi
  have hnew : w.id ≠ u.id := by
    have := h.sound.valid.users.seq u h.user
    rw [hw, hid]
    omega
  exact ⟨hsound, List.mem_append_left _ h.user,
    h.same.trans ⟨by simp [List.filter_append, hnew], rfl, rfl, rfl, rfl⟩, h.tokens⟩

theorem Untouched.user_eq (h : Untouched s u t) {w : UserRow} (hw : w ∈ t.users) :
    w.id = u.id ↔ w.username = u.username := by
  constructor
  · exact fun hid => congrArg _ (h.sound.valid.users.pk.eq_of_key hw h.user hid)
  · exact fun hname => congrArg _ (h.sound.valid.usernames.eq_of_key hw h.user hname)

end statements

/-- A program of the database under which `u` stays locked out. -/
abbrev Leaves {α : Type} (s : Db) (u : UserRow) (Q : α → Prop) (x : Run Db Error α) : Prop :=
  Obeys (Untouched s u) (fun _ _ => True) Q x

section programs
variable {s : Db} {u : UserRow}

namespace Leaves
variable {α β : Type} {Q : α → Prop} {P : β → Prop}

theorem bind {x : Run Db Error α} {f : α → Run Db Error β} (hx : Leaves s u Q x)
    (hf : ∀ a, Q a → Leaves s u P (f a)) : Leaves s u P (x >>= f) :=
  Obeys.bind (fun _ _ _ _ _ => trivial) hx hf

theorem transaction {x : Run Db Error α} (hx : Leaves s u Q x) :
    Leaves s u Q (Txn.transaction x : Run Db Error α) := Obeys.transaction (fun _ => trivial) hx

theorem fail (e : Error) : Leaves s u Q (Txn.fail e : Run Db Error α) :=
  Obeys.fail (fun _ => trivial) e

theorem done (a : α) : Leaves s u (fun _ => True) (pure a : Run Db Error α) :=
  Obeys.pure (fun _ => trivial) trivial

theorem given (r : Except Error α) : Leaves s u (fun _ => True) (ofExcept r : Run Db Error α) :=
  Obeys.ofExcept (fun _ => trivial) r

end Leaves

theorem acts_leaves {rights : List Right} {eng : Engine K} {v : Int} {α : Type}
    {x : Run Db Error α} (hx : Acts rights eng v x) (hv : v ≠ u.id) :
    Leaves s u (fun _ => True) x := by
  intro t h
  obtain ⟨hsound, hothers, -⟩ := hx.isolated t h.sound
  have hquiet := hx.quiet t
  exact ⟨⟨hsound, hquiet.1 ▸ h.user, h.same.trans (hothers.sameData hv.symm hquiet.1),
    fun r hr => h.tokens r (hquiet.2 r hr)⟩, trivial, fun _ _ => trivial⟩

theorem findByUsername_leaves (username : String) :
    Leaves s u (fun r => ∀ w ∈ r, w.username = username ∧ (w.id = u.id ↔ username = u.username))
      (Users.findByUsername username) := by
  refine .query (fun _ => trivial) fun t found h hfound w hw => ?_
  cases hfound
  have hname : w.username = username := by simpa using List.find?_some hw
  exact ⟨hname, hname ▸ h.user_eq (List.mem_of_find?_eq_some hw)⟩

theorem insertUser_leaves {α : Type} {x : Run Db Error α}
    (hx : Built (fun t t' => Untouched s u t → Untouched s u t') x) :
    Leaves s u (fun _ => True) x := fun _ h => ⟨hx.invariant h, trivial, fun _ _ => trivial⟩

theorem allows_insertUser :
    Allows (fun t t' => Untouched s u t → Untouched s u t') .insertUser := by
  intro t t' hw h
  cases hw with
  | insertUser hid hi => exact h.insertUser hid hi

/-- A command for the account of somebody else. -/
theorem command_leaves (command : Cli.Command Url)
    (hno : ¬ (Event.command command).SpeaksFor config.verifyPassword u) :
    Leaves s u (fun _ => True) (command.run config.accounts config.eng) := by
  cases command with
  | createUser now username password name email =>
    exact Leaves.bind (insertUser_leaves (Cli.createUser_built (fun _ => id) allows_insertUser ..))
      fun _ _ => Leaves.done _
  | createClient now keys username clientName =>
    refine Leaves.bind (Q := fun _ => True) (Leaves.transaction
      (Leaves.bind (findByUsername_leaves username) fun found hfound => ?_)) fun _ _ => Leaves.done _
    cases found with
    | none => exact Leaves.fail _
    | some user =>
      have hother : user.id ≠ u.id := mt (hfound user rfl).2.mp hno
      exact Leaves.bind (Leaves.given _) fun clientName _ =>
        acts_leaves (.createClient (by decide) _ _ _ _ : Acts [.clients] config.eng user.id _) hother
  | reloadArticles now scraper username =>
    refine Leaves.bind (Q := fun _ => True) (Leaves.transaction
      (Leaves.bind (findByUsername_leaves username) fun found hfound => ?_)) fun _ _ => Leaves.done _
    cases found with
    | none => exact Leaves.bind (Q := fun _ => False) (Leaves.fail _) fun _ h => h.elim
    | some user =>
      have hother : user.id ≠ u.id := mt (hfound user rfl).2.mp hno
      exact Leaves.bind (Q := fun w => w.id ≠ u.id) (Obeys.pure (fun _ => trivial) hother)
        fun w hw => Leaves.bind (acts_leaves
          (.findAllMetadata _ rfl (by simp) : Acts [.read] config.eng w.id _) hw) fun rows _ =>
            Leaves.bind (Leaves.given _) fun extract _ => acts_leaves (Cli.reloadEntries_acts (by decide) now extract _ :
              Acts [.edit] config.eng w.id _) hw

end programs

section tokens
variable {s : Db} {u : UserRow} {verifyPassword : String → String → Except Error Bool}

theorem findUser_maintains {username password : String}
    (hno : ¬ (username = u.username ∧ verifyPassword password u.passwordHash = .ok true)) :
    Maintains (Barred u.id) (Untouched s u) (fun r => ∀ w ∈ r, w.id ≠ u.id)
      (Oauth.findUser verifyPassword username password : RunWith AccessTokens Db Error _) := by
  refine .bind (.query fun t found h hfound => ?_) fun found (hfound : ∀ w ∈ found,
    w.id = u.id → w = u ∧ username = u.username) => ?_
  · cases hfound
    intro w hw hid
    have hm := List.mem_of_find?_eq_some hw
    have hname : w.username = username := by simpa using List.find?_some hw
    have heq : w = u := h.sound.valid.users.pk.eq_of_key hm h.user hid
    exact ⟨heq, by rw [← hname, heq]⟩
  · cases found with
    | none => exact .pure nofun
    | some w =>
      refine .bind (.ofExcept fun accepted haccepted => haccepted) fun accepted haccepted => ?_
      cases accepted with
      | false => exact .pure nofun
      | true =>
        refine .pure fun x hx hid => ?_
        cases hx
        obtain ⟨rfl, hname⟩ := hfound w rfl hid
        exact hno ⟨hname, haccepted⟩

theorem locked_tending : Tending (fun userId => userId ≠ u.id) (Barred u.id) (Untouched s u) where
  insert access key token _ haccess huser x t ht := by
    rcases AccessTokens.of_insert ht with ⟨-, rfl⟩ | hold
    · exact huser
    · exact haccess x t hold
  remove access key haccess x t ht := haccess x t (AccessTokens.of_remove ht)
  held access key token haccess ht := haccess key token ht
  insertToken row r t t' hid h hi hr := h.insertToken hid hi hr
  deleteTokens t p h := h.deleteTokens p
  owner t r h hr := h.tokens r hr

end tokens

section runs
variable {u : UserRow} {s : Server} {db : Db}

/-- The server, while `u` is locked out. -/
structure Shut (db : Db) (u : UserRow) (s : Server) : Prop where
  access : Barred u.id s.access
  db : Untouched db u s.db
  sessions : u.id ∉ s.sessions

theorem Shut.query (h : Shut db u s) {α : Type} {Q : α → Prop} {x : Run Db Error α}
    (hx : Leaves db u Q x) : Shut db u (s.query x).2 := ⟨h.access, (hx s.db h.db).1, h.sessions⟩

theorem Shut.grant (h : Shut db u s) {α : Type} {Q : α → Prop} {x : RunWith AccessTokens Db Error α}
    (hx : Maintains (Barred u.id) (Untouched db u) Q x) : Shut db u (s.grant x).2 :=
  ⟨(hx (s.access, s.db) h.access h.db).1, (hx (s.access, s.db) h.access h.db).2.1, h.sessions⟩

theorem Shut.sessionUser (h : Shut db u s) {cookie : Option Int} {userId : Int}
    (hcookie : s.sessionUser cookie = some userId) : userId ≠ u.id := by
  rintro rfl
  have hissued := (Option.filter_eq_some_iff.mp hcookie).2
  exact h.sessions (by simpa using hissued)

omit [Field K] [LinearOrder K] in
theorem doLogin_leaves {form : Web.LoginForm} {referer : Option String}
    (hno : ¬ (Event.doLogin form referer : Event Url).SpeaksFor config.verifyPassword u) :
    Leaves db u (fun response => ∀ userId ∈ response.userId, userId ≠ u.id)
      (Web.doLogin config.verifyPassword form referer) := by
  intro t h
  rw [doLogin_run]
  refine ⟨h, trivial, fun response hresponse => ?_⟩
  have hkeeps : Maintains (Barred u.id) (Untouched db u) (fun r => ∀ w ∈ r, w.id ≠ u.id)
    (Oauth.findUser config.verifyPassword form.username form.password) := findUser_maintains hno
  obtain ⟨-, -, hfound⟩ := hkeeps (fun _ => none, t) nofun h
  rw [findUser_with] at hfound
  dsimp only at hfound hresponse
  rcases hrow : t.foundUser config.verifyPassword form with e | _ | w <;> rw [hrow] at hresponse
  · cases hresponse
  · cases hresponse
    exact nofun
  · cases hresponse
    intro userId hid
    cases hid
    exact hfound (some w) hrow w rfl

/-- One event: whoever does not speak for `u` is not served as `u`, and does not open the door. -/
theorem Shut.handle (h : Shut db u s) (event : Event Url)
    (hno : ¬ event.SpeaksFor config.verifyPassword u) :
    Shut db u (s.handle config event).2 ∧ s.actor event ≠ some u.id := by
  cases event with
  | version | logout => exact ⟨h, nofun⟩
  | postToken clock generated request =>
    refine ⟨h.grant (locked_tending.toGranting.postToken clock generated trivial request
      fun username password hname hpassword => findUser_maintains fun ⟨heq, haccepted⟩ => hno ?_),
      nofun⟩
    exact ⟨password, hname.trans (congrArg some heq), hpassword, haccepted⟩
  | api now credentials handler =>
    have hkeeps : Maintains (Barred u.id) (Untouched db u) (fun claim => claim.userId ≠ u.id)
      (Oauth.authExtractor now credentials) := locked_tending.authExtractor now credentials
    have hshut := h.grant hkeeps
    obtain ⟨-, -, hclaim⟩ := hkeeps (s.access, s.db) h.access h.db
    dsimp only [Server.handle, actor]
    rcases hrun : s.grant (Oauth.authExtractor now credentials) with ⟨e | claim, s'⟩ <;>
      rw [hrun] at hshut <;> have hfirst := congrArg Prod.fst hrun <;>
      dsimp only [Server.grant] at hfirst <;> rw [hfirst]
    · exact ⟨hshut, nofun⟩
    · exact ⟨hshut.query (acts_leaves handler.acts (hclaim claim hfirst)),
        fun hid => hclaim claim hfirst (Option.some.inj hid)⟩
  | web cookie htmx handler =>
    dsimp only [Server.handle, actor]
    cases hcookie : s.sessionUser cookie with
    | none => exact ⟨h, nofun⟩
    | some userId => exact ⟨h.query (acts_leaves handler.acts (h.sessionUser hcookie)),
        fun hid => h.sessionUser hcookie (Option.some.inj hid)⟩
  | fakeUi cookie handler =>
    dsimp only [Server.handle, actor]
    cases hcookie : s.sessionUser cookie with
    | none => exact ⟨h, nofun⟩
    | some userId =>
      have hacts : Acts handler.rights config.eng userId (handler.run userId) := handler.acts
      exact ⟨h.query (acts_leaves hacts (h.sessionUser hcookie)),
        fun hid => h.sessionUser hcookie (Option.some.inj hid)⟩
  | login => exact ⟨h.query (insertUser_leaves (Web.login_built fun _ => id)), nofun⟩
  | setup => exact ⟨h.query (insertUser_leaves (Web.setup_built fun _ => id)), nofun⟩
  | doLogin form referer =>
    refine ⟨?_, nofun⟩
    have hleaves : Leaves db u (fun response => ∀ userId ∈ response.userId, userId ≠ u.id)
      (Web.doLogin config.verifyPassword form referer) := doLogin_leaves hno
    obtain ⟨-, -, hresponse⟩ := hleaves s.db h.db
    have hshut := h.query hleaves
    dsimp only [Server.handle]
    rcases hrun : s.query (Web.doLogin config.verifyPassword form referer) with ⟨e | response, s'⟩ <;>
      rw [hrun] at hshut
    · exact hshut
    · refine ⟨hshut.access, hshut.db, fun hmem => ?_⟩
      rcases List.mem_append.mp hmem with hmem | hmem
      · exact hresponse response (congrArg Prod.fst hrun) u.id (by simpa using hmem) rfl
      · exact hshut.sessions hmem
  | doSetup now form =>
    exact ⟨h.query (insertUser_leaves (Web.doSetup_built (fun _ => id) allows_insertUser ..)), nofun⟩
  | command command => exact ⟨h.query (command_leaves command hno), nofun⟩
  | gc now =>
    exact ⟨h.grant (.modify fun _ haccess x t ht => haccess x t (AccessTokens.of_retain ht)), nofun⟩

theorem Shut.serve (h : Shut db u s) {events : List (Event Url)}
    (hno : ∀ event ∈ events, ¬ event.SpeaksFor config.verifyPassword u) :
    Shut db u (serve config s events) := by
  induction events generalizing s with
  | nil => exact h
  | cons event events ih =>
    exact ih (h.handle event (hno event List.mem_cons_self)).1
      fun e he => hno e (List.mem_cons_of_mem event he)

/-- In any run none of whose events shows the password of `u` or is a command for `u`, the account
and the data of `u` stay as they were, nothing is served for `u`, and in the end there is still no
token and no session of `u`. -/
theorem locked_out (hs : s.db.Sound) (hu : u ∈ s.db.users) (hl : Locked u.id s)
    {events : List (Event Url)} (hno : ∀ event ∈ events, ¬ event.SpeaksFor config.verifyPassword u) :
    SameData u.id s.db (serve config s events).db ∧ Locked u.id (serve config s events) ∧
      ∀ before event after, events = before ++ event :: after →
        (serve config s before).actor event ≠ some u.id := by
  have hstart : Shut s.db u s := ⟨hl.access, ⟨hs, hu, .refl _ _, hl.tokens⟩, hl.sessions⟩
  have hend := hstart.serve hno
  refine ⟨hend.db.same, ⟨hend.access, hend.db.tokens, hend.sessions⟩, ?_⟩
  rintro before event after rfl
  have hbefore := hstart.serve fun e he => hno e (List.mem_append_left _ he)
  exact (hbefore.handle event (hno event (by simp))).2

end runs
end lockout

/-- Passwords are their own hashes. -/
def plainConfig : Config ℚ where
  crates := plainCrates
  accounts := Setup.plainAccounts
  verifyPassword := plainVerify
  eng := plainEngine

/-- Somebody guesses at a password, logs in with his own, and deletes the first article. -/
def intruding : List (Event HttpText) :=
  [.doLogin ⟨"ada", "guess"⟩ none, .doLogin ⟨"bob", ""⟩ none,
    .web (some 2) false (.doDelete 1 none none .all)]

theorem locked_out_intruding :
    SameData 1 (runCalls crossing {}) (serve plainConfig ⟨runCalls crossing {}, fun _ => none, []⟩
      intruding).db := by
  have hr : Reachable (runCalls crossing {}) := Reachable.calls .refl crossing
  let start : Server := ⟨runCalls crossing {}, fun _ => none, []⟩
  let ada : UserRow := ⟨1, "ada", "", "", "", 0, 0⟩
  have hsound : start.db.Sound := ⟨hr.written.valid, hr.written.linksOwned⟩
  have hlocked : Locked ada.id start := ⟨nofun, by decide, by decide⟩
  exact (locked_out hsound (u := ada) (by decide) hlocked
    (by simp [intruding, Event.SpeaksFor, plainConfig, plainVerify, ada])).1

end Server
end Articler
