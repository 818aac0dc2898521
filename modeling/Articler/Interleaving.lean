import Articler.Counters
import Articler.Lib.Atomic
import Articler.Authority

/-! Requests that are served at the same time. Each has one connection of the pool, which it
asks for one statement or one transaction before it does anything else with the database. -/
namespace Articler
open Txn Relation

section repository
variable {K : Type} [Field K] [LinearOrder K] (eng : Engine K) (userId id : Int)

theorem findAllRows_twin {R : Type} (params : FindParams) (fromRow : EntryRecord → R) :
    Twin (Entries.findAllRows eng params fromRow : Prog Db Error _)
      (Entries.findAllRows eng params fromRow) :=
  .bind (.ofExcept _) fun _ => .query _

omit [Field K] [LinearOrder K] in
theorem count_twin (params : FindParams) :
    Twin (Entries.count eng params : Prog Db Error _) (Entries.count eng params) :=
  .bind (.ofExcept _) fun _ => .query _

theorem findById_single {exact : Prop} : Single exact
    (Entries.findById userId id : Prog Db Error _) (Entries.findById userId id) := by
  refine .transaction (.bind (.query _) fun found => ?_)
  cases found with
  | none => exact .pure _
  | some e => exact .bind (.query _) fun _ => .pure _

theorem findById_twin : Twin (Entries.findById userId id : Prog Db Error _)
    (Entries.findById userId id) :=
  have hsingle : Single True (Entries.findById userId id : Prog Db Error _) _ :=
    findById_single userId id
  hsingle.twin

theorem updateById_twin (update : UpdateEntry) :
    Twin (Entries.updateById userId id update : Prog Db Error _)
      (Entries.updateById userId id update) :=
  .bind (.stmt _) fun _ => .pure _

theorem createAndLink_twin (tags : List Tags.CreateTag) :
    Twin (Tags.createAndLink userId id tags : Prog Db Error _)
      (Tags.createAndLink userId id tags) := by
  unfold Tags.createAndLink
  split
  · exact .pure _
  split
  · exact .fail _
  · exact .transaction (.bind (.stmt _) fun _ => .bind (.stmt _) fun _ => .query _)

theorem updateTagsByEntryId_twin (tags : List Tags.CreateTag) :
    Twin (Tags.updateTagsByEntryId userId id tags : Prog Db Error _)
      (Tags.updateTagsByEntryId userId id tags) :=
  .bind (createAndLink_twin userId id tags) fun _ => .bind (.stmt _) fun _ => .pure _

theorem create_single {exact : Prop} (entry : CreateEntry) (tags : List Tags.CreateTag) :
    Single exact (Entries.create entry tags : Prog Db Error _) (Entries.create entry tags) := by
  refine .transaction (.bind (.stmt _) fun _ => .bind ?_ fun _ =>
    .bind (.query _) fun _ => .bind (.query _) fun _ => .pure _)
  split
  · exact .pure _
  · exact createAndLink_twin _ _ _

omit [Field K] [LinearOrder K] in
theorem loadCounters_twin : Twin (Web.ArticleCounters.load eng userId : Prog Db Error _)
    (Web.ArticleCounters.load eng userId) :=
  .bind (count_twin eng _) fun _ => .bind (count_twin eng _) fun _ =>
    .bind (count_twin eng _) fun _ => .bind (count_twin eng _) fun _ => .pure _

end repository

section api
variable {Url : Type} [UrlCrate Url] (crates : Crates) {exact : Prop} (userId entryId : Int)

theorem readFull_twin : Twin
    (Entries.findById userId entryId >>= fun found =>
      ofExcept (okOr (.notFound "Entry not found") found) >>= fun full =>
        ofExcept (Entry.tryFromFull full) : Prog Db Error (Entry Url))
    (Entries.findById userId entryId >>= fun found =>
      ofExcept (okOr (.notFound "Entry not found") found) >>= fun full =>
        ofExcept (Entry.tryFromFull full)) :=
  .bind (findById_twin _ _) fun _ => .bind (.ofExcept _) fun _ => .ofExcept _

theorem Api.entries_single {K : Type} [Field K] [LinearOrder K] (eng : Engine K)
    (request : Api.EntriesRequest) :
    Single exact (Api.entries eng request userId : Prog Db Error (Api.Entries Url))
      (Api.entries eng request userId) := by
  refine .ends (.transaction (.bind (count_twin eng _) fun _ => ?_)) fun _ => ?_
  · cases request.detail with
    | full | metadata =>
      exact .bind (findAllRows_twin eng _ _) fun _ => .bind (.ofExcept _) fun _ => .pure _
  · dsimp only
    split
    · exact .fail _
    · exact .given _ fun _ => .pure _

theorem Api.postEntries_single (now : DateTime) (uid : String)
    (extract : ArticleUrl Url → Document Url) (addEntry : Api.AddEntry Url) :
    Single exact (Api.postEntries crates now uid extract userId addEntry : Prog Db Error _)
      (Api.postEntries crates now uid extract userId addEntry) := by
  unfold Api.postEntries
  split
  · exact .fail _
  · exact .given fun url _ => (create_single _ _).ends fun _ => .given _ fun _ =>
      .given _ fun _ => .pure _

theorem Api.patchEntry_single (now : DateTime) (uid : String) (request : Api.UpdateEntry Url) :
    Single exact (Api.patchEntry crates now uid entryId request userId : Prog Db Error _)
      (Api.patchEntry crates now uid entryId request userId) := by
  refine .given fun update _ => .transaction (.bind (updateById_twin _ _ _) fun _ => ?_)
  split
  · refine .bind ?_ fun _ => readFull_twin _ _
    split
    · exact updateTagsByEntryId_twin _ _ _
    · exact .pure _
  · exact .fail _

theorem Api.deleteEntry_single (expect : Api.Expect) :
    Single exact (Api.deleteEntry entryId expect userId : Prog Db Error (Api.DeleteEntryResponse Url))
      (Api.deleteEntry entryId expect userId) := by
  refine .transaction ?_
  cases expect with
  | id =>
    refine .bind (.stmt _) fun _ => ?_
    split
    · exact .pure _
    · exact .fail _
  | full =>
    refine .bind (findById_twin _ _) fun _ => .bind (.ofExcept _) fun _ =>
      .bind (.stmt _) fun _ => ?_
    split
    · exact .bind (.ofExcept _) fun _ => .pure _
    · exact .fail _

theorem Api.getTagsByEntry_single :
    Single exact (Api.getTagsByEntry entryId userId : Prog Db Error _)
      (Api.getTagsByEntry entryId userId) := by
  refine .ends (.transaction (.bind (.query _) fun _ => ?_)) fun _ => .ofExcept _
  split
  · exact .bind (.query _) fun _ => .pure _
  · exact .pure _

theorem Api.postEntryTags_single (labels : List String) :
    Single exact (Api.postEntryTags crates entryId labels userId : Prog Db Error (Entry Url))
      (Api.postEntryTags crates entryId labels userId) := by
  refine .ends (.transaction (.bind (findById_twin _ _) fun _ => ?_)) fun _ => .ofExcept _
  split
  · exact .bind (updateTagsByEntryId_twin _ _ _) fun _ => .bind (findById_twin _ _) fun _ =>
      .bind (.ofExcept _) fun _ => .bind (.ofExcept _) fun _ => .pure _
  · exact .pure _

theorem Api.deleteTagFromEntry_single (tagId : Int) :
    Single exact (Api.deleteTagFromEntry entryId tagId userId : Prog Db Error (Entry Url))
      (Api.deleteTagFromEntry entryId tagId userId) := by
  refine .ends (.transaction (.bind (.query _) fun _ => ?_)) fun _ => .ofExcept _
  split
  · refine .bind (.stmt _) fun _ => .bind (findById_twin _ _) fun _ => ?_
    split
    · exact .bind (.ofExcept _) fun _ => .pure _
    · exact .pure _
  · exact .pure _

theorem Api.Handler.single {K : Type} [Field K] [LinearOrder K] (eng : Engine K)
    (handler : Api.Handler Url) :
    Single exact (handler.run crates eng userId : Prog Db Error _)
      (handler.run crates eng userId) := by
  cases handler with
  | entries request => exact (Api.entries_single userId eng request).map _
  | postEntries now uid extract addEntry =>
    exact (Api.postEntries_single crates userId now uid extract addEntry).map _
  | «exists» => exact .pure _
  | patchEntry now uid entryId request =>
    exact (Api.patchEntry_single crates userId entryId now uid request).map _
  | deleteEntry entryId expect => exact (Api.deleteEntry_single userId entryId expect).map _
  | getTagsByEntry entryId => exact (Api.getTagsByEntry_single userId entryId).map _
  | postEntryTags entryId labels =>
    exact (Api.postEntryTags_single crates userId entryId labels).map _
  | deleteTagFromEntry entryId tagId =>
    exact (Api.deleteTagFromEntry_single userId entryId tagId).map _
  | getTags => exact ((Single.stmt _).map _).map _
  | deleteTagsByLabel => exact ((Single.given fun _ _ => .stmt _).map _).map _
  | deleteTagById | deleteTagByLabel =>
    exact (((Single.stmt _).map _).ends fun _ => .ofExcept _).map _

end api

section web
variable {Url : Type} [UrlCrate Url] (crates : Crates) {K : Type} [Field K] [LinearOrder K]
  (eng : Engine K) {exact : Prop} (userId : Int)

theorem Web.loadArticles_single (params : FindParams) (category : Web.Category) :
    Single exact (Web.loadArticles eng userId params category : Prog Db Error _)
      (Web.loadArticles eng userId params category) :=
  .transaction (.bind (findAllRows_twin eng _ _) fun _ =>
    .bind (loadCounters_twin eng userId) fun _ => .pure _)

theorem Web.main_single (params : FindParams) (category : Web.Category) :
    Single exact (Web.main eng userId params category : Prog Db Error _)
      (Web.main eng userId params category) :=
  (Web.loadArticles_single eng userId params category).map _

theorem Web.renderSource_twin (source : Option Web.HxSource) (articleId : Int)
    (category : Web.Category) :
    Twin (Web.renderSource eng source userId articleId category : Prog Db Error _)
      (Web.renderSource eng source userId articleId category) := by
  unfold Web.renderSource
  split
  · refine .bind (findById_twin _ _) fun found => ?_
    split
    · exact .pure _
    · exact .fail _
  · exact .bind (findAllRows_twin eng _ _) fun _ => .pure _

/-- A form that updates an article does so in one step; what it shows then is read later. -/
theorem Web.edit_single (articleId : Int) (update : UpdateEntry) (source : Option Web.HxSource)
    (category : Web.Category) :
    Single False
      (Entries.updateById userId articleId update >>= fun _ =>
        Web.renderSource eng source userId articleId category : Prog Db Error _)
      (Entries.updateById userId articleId update >>= fun _ =>
        Web.renderSource eng source userId articleId category) :=
  .reads ((Single.stmt _).map _) (fun _ => Web.renderSource_twin eng userId source articleId category)
    fun _ => renderSource_built (fun _ => rfl) eng source userId articleId category

/-- A page or form whose answer is that of one step. -/
@[simp] def Web.Handler.atOnce : Web.Handler Url → Prop
  | .partialCategories _ | .doArchive .. | .doFavourite .. | .doEditTitle ..
  | .doDelete _ _ none _ => False
  | _ => True

theorem Web.Handler.single (handler : Web.Handler Url) :
    Single handler.atOnce (handler.run crates eng userId : Prog Db Error _)
      (handler.run crates eng userId) := by
  cases handler with
  | index | all | favourite | archive => exact (Web.main_single eng userId _ _).map _
  | article id referer =>
    refine ((findById_single userId id).ends fun found => ?_).map _
    cases found with
    | none => exact .fail _
    | some found => exact .pure _
  | clients => exact ((Single.stmt _).map _).map _
  | partialArticles category => exact ((Web.loadArticles_single eng userId _ _).map _).map _
  | partialCategories activeCategory =>
    have hload : Single False (Web.ArticleCounters.load eng userId : Prog Db Error _)
        (Web.ArticleCounters.load eng userId) :=
      ⟨(loadCounters_built (fun _ => rfl) eng userId).closes, loadCounters_twin eng userId⟩
    exact (hload.map _).map _
  | search headers uri query =>
    refine .map ?_ _
    unfold Web.search
    dsimp only
    split
    · exact (Web.loadArticles_single eng userId _ _).map _
    · exact Web.main_single eng userId _ _
  | doArchive | doFavourite => exact (Web.edit_single eng userId _ _ _ _).map _
  | doEditTitle now articleId title source category =>
    refine .map ?_ _
    unfold Web.doEditTitle
    split
    · exact .pure _
    · exact .fail _
    · exact Web.edit_single eng userId _ _ _ _
  | doDelete articleId backLocation source category =>
    cases source with
    | some source => exact ((Single.stmt _).map _).map _
    | none =>
      have hcards : Single False
          (Web.doDelete eng articleId backLocation none userId category : Prog Db Error _)
          (Web.doDelete eng articleId backLocation none userId category) :=
        .reads (.stmt _) (fun _ => Web.renderSource_twin eng userId none articleId category)
          fun _ => renderSource_built (fun _ => rfl) eng none userId articleId category
      exact hcards.map _
  | doAdd now extract url =>
    exact Single.map (.given fun _ _ => .given fun _ _ => (create_single _ _).map _) _
  | doClientDelete id => exact ((Single.stmt _).map _).map _
  | doCreateClient now keys clientName =>
    refine .map ?_ _
    unfold Web.doCreateClient
    split
    · exact .pure _
    · exact .fail _
    · exact (Single.stmt _).map _

end web

section commands
variable {exact : Prop}

theorem Cli.createUser_single (accounts : AccountCrates) (now : DateTime)
    (username password name email : String) :
    Single exact (Cli.createUser accounts now username password name email : Prog Db Error _)
      (Cli.createUser accounts now username password name email) := by
  refine .transaction ?_
  split
  · exact .fail _
  refine .bind (.ofExcept _) fun username => .bind (.query _) fun found => ?_
  split
  · exact .fail _
  · exact .bind (.ofExcept _) fun _ => .bind (.ofExcept _) fun _ =>
      .bind (.stmt _) fun _ => .pure _

theorem Cli.createClient_single (now : DateTime) (keys : ClientKeys)
    (username clientName : String) :
    Single exact (Cli.createClient now keys username clientName : Prog Db Error _)
      (Cli.createClient now keys username clientName) := by
  refine .transaction (.bind (.query _) fun found => ?_)
  cases found with
  | none => exact .fail _
  | some user => exact .bind (.ofExcept _) fun _ => .stmt _

theorem Cli.reloadArticles_single {Url : Type} [UrlCrate Url] {K : Type} [Field K] [LinearOrder K]
    (eng : Engine K) (now : Int → DateTime)
    (scraper : Option (ArticleUrl Url → Option (Document Url))) (username : String) :
    Single exact (Cli.reloadArticles eng now scraper username : Prog Db Error _)
      (Cli.reloadArticles eng now scraper username) := by
  have hentry (extract : ArticleUrl Url → Option (Document Url)) (userId : Int)
      (e : EntryMetadataRow) :
      Twin (Cli.reloadEntry now extract userId e : Prog Db Error _)
        (Cli.reloadEntry now extract userId e) := by
    refine .bind (.ofExcept _) fun _ => .bind (.ofExcept _) fun url => ?_
    cases extract url with
    | none => exact .pure _
    | some doc => exact .bind (updateById_twin _ _ _) fun _ => .pure _
  refine .transaction (.bind (.query _) fun _ => .bind (.ofExcept _) fun user =>
    .bind (findAllRows_twin eng _ _) fun rows => .bind (.ofExcept _) fun extract => ?_)
  induction rows.map Prod.fst with
  | nil => exact .pure _
  | cons e rest ih => exact .bind (hentry extract user.id e) fun _ => ih

end commands

section jobs
variable {Url : Type} [UrlCrate Url] {K : Type} [Field K] [LinearOrder K]

/-- What the database is asked for: by a request of the API or of the web UI whose user is
known, by one that needs no user, or by a command. -/
inductive Job (Url : Type) [UrlCrate Url] where
  | api (userId : Int) (handler : Api.Handler Url)
  | web (userId : Int) (handler : Web.Handler Url)
  | fakeUi (userId : Int) (handler : FakeUi.Handler)
  | login
  | setup
  | doLogin (form : Web.LoginForm) (referer : Option String)
  | command (c : Cli.Command Url)

inductive Job.Reply (Url : Type) where
  | api (reply : Api.Reply Url)
  | web (reply : Web.Reply)
  | fakeUi (page : FakeUi.Page)
  | entrance (entrance : Web.Entrance)
  | login (response : Web.LoginResponse)
  | command (client : Option ClientRow)

def Job.run {m : Type → Type} [Acquire Db Error m] (config : Server.Config K) :
    Job Url → m (Job.Reply Url)
  | .api userId handler => do return .api (← handler.run config.crates config.eng userId)
  | .web userId handler => do return .web (← handler.run config.crates config.eng userId)
  | .fakeUi userId handler => do return .fakeUi (← handler.run userId)
  | .login => do return .entrance (← Web.login)
  | .setup => do return .entrance (← Web.setup)
  | .doLogin form referer => do
    return .login (← Web.doLogin config.verifyPassword form referer)
  | .command c => do return .command (← c.run config.accounts config.eng)

/-- Is the answer that of one step? `developer` answers a read that fails with an empty page. -/
@[simp] def Job.atOnce : Job Url → Prop
  | .web _ handler => handler.atOnce
  | .fakeUi _ .developer => False
  | _ => True

theorem Job.single (config : Server.Config K) (job : Job Url) :
    Single job.atOnce (job.run config : Prog Db Error _) (job.run config) := by
  cases job with
  | api userId handler => exact (handler.single config.crates userId config.eng).map _
  | web userId handler => exact (handler.single config.crates config.eng userId).map _
  | fakeUi userId handler =>
    refine .map ?_ _
    cases handler with
    | developer =>
      have hread : Single False
          (Clients.findByUserId userId >>= fun rows =>
            pure (.development (rows.map Web.Client.from)) : Prog Db Error FakeUi.Page)
          (Clients.findByUserId userId >>= fun rows =>
            pure (.development (rows.map Web.Client.from))) := (Single.stmt _).map _
      exact hread
    | getClientCreate => exact .pure _
    | postClientCreate => exact .given fun _ _ => (Single.stmt _).map _
  | login | setup =>
    refine ((Single.stmt _).ends fun count => ?_).map _
    split <;> exact .pure _
  | doLogin form referer =>
    have hfind : Single True
        (Oauth.findUser config.verifyPassword form.username form.password : Prog Db Error _)
        (Oauth.findUser config.verifyPassword form.username form.password) := by
      refine (Single.stmt _).ends fun found => ?_
      cases found with
      | none => exact .pure _
      | some user => exact .given _ fun verified => by cases verified <;> exact .pure _
    exact (hfind.ends fun found => by cases found <;> exact .pure _).map _
  | command c =>
    refine .map ?_ _
    cases c with
    | createUser now username password name email =>
      exact (Cli.createUser_single config.accounts now username password name email).map _
    | createClient now keys username clientName =>
      exact (Cli.createClient_single now keys username clientName).map _
    | reloadArticles now scraper username =>
      exact (Cli.reloadArticles_single config.eng now scraper username).map _

/-- The jobs as they interleave, and as each of them would run alone. -/
def Job.served (config : Server.Config K) (jobs : Nat → Job Url) (i : Nat) :
    Prog Db Error (Job.Reply Url) := (jobs i).run config

def Job.alone (config : Server.Config K) (jobs : Nat → Job Url) (i : Nat) :
    Run Db Error (Job.Reply Url) := (jobs i).run config

/-- However jobs interleave, they leave what a serial order of those that committed leaves;
and a job that is answered got the answer of one place in that order: after everything that was
committed before it began, and right before its own commit if it wrote. -/
theorem Job.serializable (config : Server.Config K) (jobs : Nat → Job Url) {db : Db}
    {w s : World Db Error (Job.Reply Url)} (hw : World.Reached db (Job.served config jobs) w)
    (hws : World.LeadsTo w s) :
    s.order.Nodup ∧ s.db = inOrder (Job.alone config jobs) db s.order ∧
      ∀ i reply, (jobs i).atOnce → w.sessions i = { prog := Job.served config jobs i } →
        i ∉ w.order → (s.sessions i).prog = .done (.ok reply) →
        ∃ before later, s.order = before ++ later ∧ w.order <+: before ∧
          let start := inOrder (Job.alone config jobs) db before
          (Job.alone config jobs i start).1 = .ok reply ∧
            ((Job.alone config jobs i start).2 = start ∨ later.head? = some i) := by
  have hsingle (i : Nat) : Single (jobs i).atOnce (Job.served config jobs i)
    (Job.alone config jobs i) := (jobs i).single config
  obtain ⟨hnodup, hdb⟩ := World.Reached.in_order hsingle (hw.leadsTo hws)
  refine ⟨hnodup, hdb, fun i reply hatOnce hfresh hnew hanswer => ?_⟩
  exact World.Reached.answered hsingle hw hws hfresh hnew hatOnce hanswer

end jobs

/-- A tag is taken off an article, and then somebody looks at its tags. -/
def untagging : Nat → Job HttpText
  | 0 => .api 1 (.deleteTagFromEntry 1 1)
  | _ => .api 1 (.getTagsByEntry 1)

theorem Job.serializable_untagging :
    ∃ s : World Db Error (Job.Reply HttpText),
      World.Reached shelf.val (Job.served Server.plainConfig untagging) s ∧
      s.db = inOrder (Job.alone Server.plainConfig untagging) shelf.val s.order ∧
      ∃ before later, s.order = before ++ later ∧ [0] <+: before ∧
        (Job.alone Server.plainConfig untagging 1
          (inOrder (Job.alone Server.plainConfig untagging) shelf.val before)).1 =
            .ok (.api (.tags [])) := by
  have hstart : World.Reached shelf.val (Job.served Server.plainConfig untagging)
    (World.start shelf.val (Job.served Server.plainConfig untagging)) := .refl
  have hexists := (hstart.step 0 (.enter rfl)).step 0 (.look rfl rfl)
  have huntag := hexists.step 0 (.change rfl (by decide) rfl (.inl rfl))
  have hread := ((huntag.step 0 (.enter rfl)).step 0 (.look rfl rfl)).step 0 (.look rfl rfl)
  have hcommit := (hread.step 0 (.savepoint rfl)).step 0 (.commit rfl rfl)
  have hlook := ((hcommit.stays.step 1 (.enter rfl)).step 1 (.look rfl rfl)).step 1 (.look rfl rfl)
  have hdone := hlook.step 1 (.close rfl (.inr nofun))
  obtain ⟨-, hdb, hanswers⟩ := serializable Server.plainConfig untagging hcommit hdone
  obtain ⟨before, later, horder, hprefix, hanswer, -⟩ := hanswers 1 _ trivial rfl (by decide) rfl
  exact ⟨_, hcommit.leadsTo hdone, hdb, before, later, horder, hprefix, hanswer⟩

end Articler
