import Articler.Lib.Sqlite

/-! The migrations that rebuild a table, on the schema each of them finds. The search index,
which the second one finds too, has no part in them. -/
namespace Articler.Migrations
open Sqlite

def users : Table where
  name := "users"
  columns := ["id", "username", "email", "name", "password_hash", "created_at", "updated_at"]
  notNull := ["id", "username", "email", "name", "password_hash", "created_at", "updated_at"]
  uniques := [["id"], ["username"]]
  checks := [("created_at", "updated_at")]

def entries : Table where
  name := "entries"
  columns := ["id", "user_id", "url", "hashed_url", "given_url", "hashed_given_url", "title",
    "content", "is_archived", "archived_at", "is_starred", "starred_at", "created_at",
    "updated_at", "mimetype", "language", "reading_time", "domain_name", "preview_picture",
    "origin_url", "published_at", "published_by", "is_public", "uid"]
  notNull := ["id", "user_id", "url", "hashed_url", "given_url", "hashed_given_url", "title",
    "content", "is_archived", "is_starred", "created_at", "updated_at", "reading_time",
    "domain_name"]
  uniques := [["id"]]
  checks := [("created_at", "updated_at")]
  foreignKeys := [⟨"user_id", "users"⟩]

def tags : Table where
  name := "tags"
  columns := ["id", "user_id", "label", "slug"]
  notNull := ["id", "user_id", "label", "slug"]
  uniques := [["id"], ["label"], ["slug"]]
  foreignKeys := [⟨"user_id", "users"⟩]

def entryTags : Table where
  name := "entry_tags"
  columns := ["entry_id", "tag_id"]
  notNull := ["entry_id", "tag_id"]
  uniques := [["entry_id", "tag_id"]]
  foreignKeys := [⟨"entry_id", "entries"⟩, ⟨"tag_id", "tags"⟩]

def annotations : Table where
  name := "annotations"
  columns := ["id", "entry_id", "annotator_schema_version", "text", "created_at", "updated_at",
    "quote"]
  notNull := ["id", "entry_id", "annotator_schema_version", "text", "created_at", "updated_at",
    "quote"]
  uniques := [["id"]]
  checks := [("created_at", "updated_at")]
  foreignKeys := [⟨"entry_id", "entries"⟩]

def annotationRanges : Table where
  name := "annotation_ranges"
  columns := ["id", "annotation_id", "start", "end", "start_offset", "end_offset"]
  notNull := ["id", "annotation_id", "start", "end", "start_offset", "end_offset"]
  uniques := [["id"]]
  foreignKeys := [⟨"annotation_id", "annotations"⟩]

def clients : Table where
  name := "clients"
  columns := ["id", "name", "client_id", "client_secret", "user_id", "created_at"]
  notNull := ["id", "name", "client_id", "client_secret", "user_id", "created_at"]
  uniques := [["id"], ["name"], ["client_id"], ["user_id", "client_id"]]
  foreignKeys := [⟨"user_id", "users"⟩]

def tokens : Table where
  name := "tokens"
  columns := ["id", "token", "user_id", "client_id", "created_at", "expires_at"]
  notNull := ["id", "token", "user_id", "client_id", "created_at", "expires_at"]
  uniques := [["id"]]
  foreignKeys := [⟨"user_id", "users"⟩, ⟨"client_id", "clients"⟩]

/-- The tables after `20260205192557_refresh_token`. -/
def schema20260205192557 : List Table :=
  [users, entries, tags, entryTags, annotations, annotationRanges, clients, tokens]

def entriesNew : Table where
  name := "entries_new"
  columns := ["id", "user_id", "url", "hashed_url", "given_url", "hashed_given_url", "title",
    "content", "content_text", "is_archived", "archived_at", "is_starred", "starred_at",
    "created_at", "updated_at", "mimetype", "language", "reading_time", "domain_name",
    "preview_picture", "origin_url", "published_at", "published_by", "is_public", "uid"]
  notNull := ["id", "user_id", "url", "hashed_url", "given_url", "hashed_given_url", "title",
    "content", "content_text", "is_archived", "is_starred", "created_at", "updated_at",
    "reading_time", "domain_name"]
  uniques := [["id"]]
  checks := [("created_at", "updated_at")]
  foreignKeys := [⟨"user_id", "users"⟩]

def entriesSelect : List (String × Expr) :=
  [("id", .column "id"), ("user_id", .column "user_id"), ("url", .column "url"),
    ("hashed_url", .column "hashed_url"), ("given_url", .column "given_url"),
    ("hashed_given_url", .column "hashed_given_url"), ("title", .column "title"),
    ("content", .column "content"), ("content_text", .value (.text "")),
    ("is_archived", .column "is_archived"), ("archived_at", .column "archived_at"),
    ("is_starred", .column "is_starred"), ("starred_at", .column "starred_at"),
    ("created_at", .column "created_at"), ("updated_at", .column "updated_at"),
    ("mimetype", .column "mimetype"), ("language", .column "language"),
    ("reading_time", .column "reading_time"), ("domain_name", .column "domain_name"),
    ("preview_picture", .column "preview_picture"), ("origin_url", .column "origin_url"),
    ("published_at", .column "published_at"), ("published_by", .column "published_by"),
    ("is_public", .column "is_public"), ("uid", .column "uid")]

/-- `20260227020848_content_text_column`. -/
def contentTextColumn : Migration where
  noTransaction := false
  script := [
    .pragmaForeignKeys false,
    .createTable entriesNew,
    .insertSelect "entries_new" entriesSelect "entries",
    .dropTable "entries",
    .renameTable "entries_new" "entries",
    .pragmaForeignKeys true]

/-- The tables that `20260313100939_remove_unique_client_name` finds. -/
def schema20260313005121 : List Table :=
  [users, tags, entryTags, annotations, annotationRanges, clients, tokens,
    { entriesNew with name := "entries" }]

def clientsNew : Table where
  name := "clients_new"
  columns := ["id", "name", "client_id", "client_secret", "user_id", "created_at"]
  notNull := ["id", "name", "client_id", "client_secret", "user_id", "created_at"]
  uniques := [["id"], ["user_id", "client_id"]]
  foreignKeys := [⟨"user_id", "users"⟩]

def clientsSelect : List (String × Expr) :=
  [("id", .column "id"), ("name", .column "name"), ("client_id", .column "client_id"),
    ("client_secret", .column "client_secret"), ("user_id", .column "user_id"),
    ("created_at", .column "created_at")]

/-- `20260313100939_remove_unique_client_name`. -/
def removeUniqueClientName : Migration where
  noTransaction := false
  script := [
    .pragmaForeignKeys false,
    .createTable clientsNew true,
    .insertSelect "clients_new" clientsSelect "clients",
    .dropTable "clients",
    .renameTable "clients_new" "clients",
    .pragmaForeignKeys true]

/-- A connection as the server opens it. -/
def opened (schema : List Table) (rows : Rows) : Conn where
  schema := schema
  rows := rows
  foreignKeys := true
  inTransaction := false

theorem entriesNew_copies : Copies entries entriesNew entriesSelect := by decide

theorem clientsNew_copies : Copies clients clientsNew clientsSelect := by decide

/-- A migration that rebuilds a table in the migrator's transaction. -/
theorem migrate_rebuild {schema : List Table} {rows : Rows} {t new : Table}
    {columns : List (String × Expr)} (hv : (opened schema rows).Valid) (ht : t ∈ schema)
    (hnew : (opened schema rows).hasTable new.name = false) (hcopy : Copies t new columns)
    (hself : ∀ fk ∈ t.foreignKeys, fk.parent ≠ t.name) (ifNotExists : Bool) :
    ∃ c, migrate ⟨false, rebuild new ifNotExists columns t.name⟩ (opened schema rows) = some c ∧
      (∀ r ∈ c.rows t.name, ∃ s ∈ rows t.name, select columns s = r) ∧
      (Kept (opened schema rows) c ↔
        ∀ u ∈ schema, (∃ fk ∈ u.foreignKeys, fk.parent = t.name) → rows u.name = []) := by
  have hv' : Conn.Valid { opened schema rows with inTransaction := true } := ⟨hv.names, hv.accepts⟩
  obtain ⟨c, hrun, hfrom, hkept⟩ := rebuild_inside hv' rfl rfl ht hnew hcopy hself ifNotExists
  exact ⟨{ c with inTransaction := false }, by simp [migrate, hrun], hfrom, hkept⟩

theorem contentTextColumn_keeps_iff {rows : Rows} (hv : (opened schema20260205192557 rows).Valid) :
    ∃ c, migrate contentTextColumn (opened schema20260205192557 rows) = some c ∧
      (∀ r ∈ c.rows "entries", r "content_text" = .text "") ∧
      (Kept (opened schema20260205192557 rows) c ↔
        rows "entry_tags" = [] ∧ rows "annotations" = []) := by
  obtain ⟨c, hrun, hfrom, hkept⟩ := migrate_rebuild hv (by decide) rfl entriesNew_copies
    (by decide) false
  refine ⟨c, hrun, fun r hr => ?_, hkept.trans ⟨fun h => ?_, fun h u hu hfk => ?_⟩⟩
  · obtain ⟨s, -, rfl⟩ := hfrom r hr
    rfl
  · exact ⟨h entryTags (by decide) (by decide), h annotations (by decide) (by decide)⟩
  · have hchild : ∀ u ∈ schema20260205192557, (∃ fk ∈ u.foreignKeys, fk.parent = entries.name) →
        u.name = "entry_tags" ∨ u.name = "annotations" := by decide
    rcases hchild u hu hfk with heq | heq <;> rw [heq]
    · exact h.1
    · exact h.2

theorem removeUniqueClientName_keeps_iff {rows : Rows}
    (hv : (opened schema20260313005121 rows).Valid) :
    ∃ c, migrate removeUniqueClientName (opened schema20260313005121 rows) = some c ∧
      (Kept (opened schema20260313005121 rows) c ↔ rows "tokens" = []) := by
  obtain ⟨c, hrun, -, hkept⟩ := migrate_rebuild hv (by decide) rfl clientsNew_copies
    (by decide) true
  refine ⟨c, hrun, hkept.trans ⟨fun h => h tokens (by decide) (by decide), fun h u hu hfk => ?_⟩⟩
  have hchild : ∀ u ∈ schema20260313005121, (∃ fk ∈ u.foreignKeys, fk.parent = clients.name) →
      u.name = "tokens" := by decide
  rw [hchild u hu hfk]
  exact h

/-- The same scripts, marked `-- no-transaction`, would keep everything. -/
theorem keeps_without_transaction (rows : Rows) :
    ((opened schema20260205192557 rows).Valid →
      ∃ c, migrate { contentTextColumn with noTransaction := true }
          (opened schema20260205192557 rows) = some c ∧
        Kept (opened schema20260205192557 rows) c) ∧
    ((opened schema20260313005121 rows).Valid →
      ∃ c, migrate { removeUniqueClientName with noTransaction := true }
          (opened schema20260313005121 rows) = some c ∧
        Kept (opened schema20260313005121 rows) c) := by
  refine ⟨fun hv => ?_, fun hv => ?_⟩
  · obtain ⟨c, hrun, hkept⟩ := rebuild_outside hv rfl rfl
      (show entries ∈ schema20260205192557 by decide) rfl entriesNew_copies false
    exact ⟨{ c with inTransaction := false }, congrArg (Option.map _) hrun, hkept⟩
  · obtain ⟨c, hrun, hkept⟩ := rebuild_outside hv rfl rfl
      (show clients ∈ schema20260313005121 by decide) rfl clientsNew_copies true
    exact ⟨{ c with inTransaction := false }, congrArg (Option.map _) hrun, hkept⟩

/-- Both migrations go through. The first keeps all data where no entry has a tag or an
annotation, the second where there is no token. -/
theorem rebuilds_keep_iff (rows : Rows) :
    ((opened schema20260205192557 rows).Valid →
      ∃ c, migrate contentTextColumn (opened schema20260205192557 rows) = some c ∧
        (∀ r ∈ c.rows "entries", r "content_text" = .text "") ∧
        (Kept (opened schema20260205192557 rows) c ↔
          rows "entry_tags" = [] ∧ rows "annotations" = [])) ∧
    ((opened schema20260313005121 rows).Valid →
      ∃ c, migrate removeUniqueClientName (opened schema20260313005121 rows) = some c ∧
        (Kept (opened schema20260313005121 rows) c ↔ rows "tokens" = [])) :=
  ⟨contentTextColumn_keeps_iff, removeUniqueClientName_keeps_iff⟩

def row (values : List (String × Value)) : Row := fun c => (values.lookup c).getD .null

/-- One user with an entry, a tag, a client, and the given links and refresh tokens. -/
def account (links refreshTokens : List Row) (contentText : List (String × Value)) : Rows
  | "users" => [row [("id", .int 1), ("username", .text "ada"), ("email", .text ""),
      ("name", .text ""), ("password_hash", .text ""), ("created_at", .int 0),
      ("updated_at", .int 0)]]
  | "entries" => [row (contentText ++ [("id", .int 1), ("user_id", .int 1),
      ("url", .text "https://a.org/"), ("hashed_url", .text "h"),
      ("given_url", .text "https://a.org/"), ("hashed_given_url", .text "h"),
      ("title", .text "A"), ("content", .text "a"), ("is_archived", .int 0),
      ("is_starred", .int 0), ("created_at", .int 10), ("updated_at", .int 10),
      ("reading_time", .int 1), ("domain_name", .text "a.org")])]
  | "tags" => [row [("id", .int 1), ("user_id", .int 1), ("label", .text "rust"),
      ("slug", .text "rust")]]
  | "clients" => [row [("id", .int 1), ("name", .text "reader"), ("client_id", .text "id1"),
      ("client_secret", .text "secret1"), ("user_id", .int 1), ("created_at", .int 5)]]
  | "entry_tags" => links
  | "tokens" => refreshTokens
  | _ => []

theorem rebuilds_keep_account :
    (∃ c, migrate contentTextColumn (opened schema20260205192557 (account [] [] [])) = some c ∧
      Kept (opened schema20260205192557 (account [] [] [])) c) ∧
    ∃ c, migrate removeUniqueClientName
        (opened schema20260313005121 (account [] [] [("content_text", .text "a")])) = some c ∧
      Kept (opened schema20260313005121 (account [] [] [("content_text", .text "a")])) c := by
  obtain ⟨h1, -⟩ := rebuilds_keep_iff (account [] [] [])
  obtain ⟨-, h2⟩ := rebuilds_keep_iff (account [] [] [("content_text", .text "a")])
  obtain ⟨c, hrun, -, hkept⟩ := h1 ⟨by decide, by decide⟩
  obtain ⟨d, hrun', hkept'⟩ := h2 ⟨by decide, by decide⟩
  exact ⟨⟨c, hrun, hkept.mpr ⟨rfl, rfl⟩⟩, d, hrun', hkept'.mpr rfl⟩

def link : Row := row [("entry_id", .int 1), ("tag_id", .int 1)]

def refreshToken : Row := row [("id", .int 1), ("token", .text "refresh1"), ("user_id", .int 1),
  ("client_id", .int 1), ("created_at", .int 10), ("expires_at", .int 2592010)]

/-- The first migration unlinks the tag, the second one revokes the token. -/
theorem rebuilds_lose_children :
    ((opened schema20260205192557 (account [link] [] [])).Valid ∧
      ∃ c, migrate contentTextColumn (opened schema20260205192557 (account [link] [] [])) = some c ∧
        ¬ Kept (opened schema20260205192557 (account [link] [] [])) c) ∧
    (opened schema20260313005121 (account [] [refreshToken] [("content_text", .text "a")])).Valid ∧
      ∃ c, migrate removeUniqueClientName (opened schema20260313005121
          (account [] [refreshToken] [("content_text", .text "a")])) = some c ∧
        ¬ Kept (opened schema20260313005121
          (account [] [refreshToken] [("content_text", .text "a")])) c := by
  have hv1 : (opened schema20260205192557 (account [link] [] [])).Valid := ⟨by decide, by decide⟩
  have hv2 : (opened schema20260313005121
      (account [] [refreshToken] [("content_text", .text "a")])).Valid := ⟨by decide, by decide⟩
  obtain ⟨c, hrun, -, hkept⟩ := contentTextColumn_keeps_iff hv1
  obtain ⟨d, hrun', hkept'⟩ := removeUniqueClientName_keeps_iff hv2
  refine ⟨⟨hv1, c, hrun, fun h => ?_⟩, hv2, d, hrun', fun h => ?_⟩
  · exact List.cons_ne_nil _ _ (hkept.mp h).1
  · exact List.cons_ne_nil _ _ (hkept'.mp h)

end Articler.Migrations
