import Mathlib.Data.List.Forall2
import Mathlib.Data.List.Nodup
import Mathlib.Logic.Function.Basic

/-! SQL scripts that change the schema of an SQLite database: what their statements do
to the rows, with foreign keys on or off, inside a transaction or not. -/
namespace Sqlite

inductive Value where
  | null
  | int (n : Int)
  | text (s : String)
deriving DecidableEq, Repr

/-- A row gives a value to each column. -/
abbrev Row := String → Value

/-- `FOREIGN KEY (column) REFERENCES parent(id) ON DELETE CASCADE`. -/
structure ForeignKey where
  column : String
  parent : String
deriving DecidableEq, Repr

/-- A table; a check `(a, b)` is `b >= a`, the uniques include the primary key. -/
structure Table where
  name : String
  columns : List String
  notNull : List String
  uniques : List (List String)
  checks : List (String × String) := []
  foreignKeys : List ForeignKey := []
deriving DecidableEq, Repr

abbrev Rows := String → List Row

structure Conn where
  schema : List Table
  rows : Rows
  foreignKeys : Bool
  inTransaction : Bool

/-- `b >= a`, which a NULL on either side does not fail. -/
def Value.atMost : Value → Value → Bool
  | .int a, .int b => a ≤ b
  | .text _, .int _ => false
  | .text a, .text b => a ≤ b
  | _, _ => true

/-- All rows of the table meet its constraints; references count if foreign keys are on. -/
def Accepts (foreignKeys : Bool) (rows : Rows) (t : Table) : Prop :=
  (∀ r ∈ rows t.name, ∀ c ∈ t.notNull, r c ≠ .null) ∧
  (∀ r ∈ rows t.name, ∀ p ∈ t.checks, Value.atMost (r p.1) (r p.2) = true) ∧
  (∀ key ∈ t.uniques, (rows t.name).Pairwise fun r s => key.map r ≠ key.map s) ∧
  (foreignKeys = true → ∀ r ∈ rows t.name, ∀ fk ∈ t.foreignKeys,
    ∃ p ∈ rows fk.parent, p "id" = r fk.column)

instance (foreignKeys : Bool) (rows : Rows) (t : Table) : Decidable (Accepts foreignKeys rows t) :=
  inferInstanceAs (Decidable (_ ∧ _ ∧ _ ∧ _))

/-- Does a row of the table reference one of the rows that are gone? -/
def hangs (schema : List Table) (gone : Rows) (table : String) (r : Row) : Bool :=
  schema.any fun t => t.name == table &&
    t.foreignKeys.any fun fk => (gone fk.parent).any fun p => p "id" == r fk.column

/-- `ON DELETE CASCADE`, round by round. -/
def cascade (schema : List Table) : Nat → Rows → Rows → Rows
  | 0, _, rows => rows
  | n + 1, gone, rows =>
    cascade schema n (fun table => (rows table).filter (hangs schema gone table))
      fun table => (rows table).filter fun r => !hangs schema gone table r

def Conn.rounds (c : Conn) : Nat := (c.schema.flatMap fun t => c.rows t.name).length

def Conn.hasTable (c : Conn) (table : String) : Bool := c.schema.any fun t => t.name == table

/-- What a SELECT puts into a column. -/
inductive Expr where
  | column (name : String)
  | value (v : Value)
deriving DecidableEq, Repr

def Expr.eval (r : Row) : Expr → Value
  | .column name => r name
  | .value v => v

/-- The row that `INSERT INTO … (columns) SELECT …` makes of a row. -/
def select (columns : List (String × Expr)) (r : Row) : Row := fun c =>
  ((columns.lookup c).map (Expr.eval r)).getD .null

inductive Sql where
  | pragmaForeignKeys (on : Bool)
  | createTable (t : Table) (ifNotExists : Bool := false)
  | insertSelect (into : String) (columns : List (String × Expr)) (source : String)
  | dropTable (table : String)
  | renameTable (table newName : String)
deriving DecidableEq, Repr

def Table.renamed (table newName : String) (t : Table) : Table :=
  { t with
    name := if t.name = table then newName else t.name
    foreignKeys := t.foreignKeys.map fun fk =>
      { fk with parent := if fk.parent = table then newName else fk.parent } }

/-- One statement; `none` is an error. The pragma does nothing inside a transaction.
`DROP TABLE` deletes all rows first, with the cascades of the foreign keys if they are on. -/
def Sql.run (c : Conn) : Sql → Option Conn
  | .pragmaForeignKeys on => some (if c.inTransaction then c else { c with foreignKeys := on })
  | .createTable t ifNotExists =>
    if c.hasTable t.name then if ifNotExists then some c else none
    else some { c with schema := c.schema ++ [t], rows := Function.update c.rows t.name [] }
  | .insertSelect into columns source =>
    let rows := Function.update c.rows into
      (c.rows into ++ (c.rows source).map (select columns))
    match c.schema.find? fun t => t.name == into with
    | some t => if Accepts c.foreignKeys rows t then some { c with rows } else none
    | none => none
  | .dropTable table =>
    let rows := Function.update c.rows table []
    if c.hasTable table then
      some { c with
        schema := c.schema.filter fun t => t.name != table
        rows := if c.foreignKeys then
            cascade c.schema c.rounds (Function.update (fun _ => []) table (c.rows table)) rows
          else rows }
    else none
  | .renameTable table newName =>
    if c.hasTable table && !c.hasTable newName then
      some { c with
        schema := c.schema.map (Table.renamed table newName)
        rows := Function.update (Function.update c.rows newName (c.rows table)) table [] }
    else none

def runScript : List Sql → Conn → Option Conn
  | [], c => some c
  | q :: script, c => (q.run c).bind (runScript script)

/-- A migration; a script without the marker runs in a transaction of the migrator. -/
structure Migration where
  noTransaction : Bool
  script : List Sql

def migrate (m : Migration) (c : Conn) : Option Conn :=
  (runScript m.script { c with inTransaction := !m.noTransaction }).map fun c' =>
    { c' with inTransaction := false }

section cascade
variable {schema : List Table} {gone rows : Rows} {table : String} {r : Row}

theorem hangs_iff : hangs schema gone table r = true ↔ ∃ t ∈ schema, t.name = table ∧
    ∃ fk ∈ t.foreignKeys, ∃ p ∈ gone fk.parent, p "id" = r fk.column := by
  simp [hangs]

theorem cascade_subset (n : Nat) : cascade schema n gone rows table ⊆ rows table := by
  induction n generalizing gone rows with
  | zero => exact List.Subset.refl _
  | succ n ih => exact fun r hr => (List.mem_filter.mp (ih hr)).1

theorem not_mem_cascade {n : Nat} (hn : 0 < n) (h : hangs schema gone table r = true) :
    r ∉ cascade schema n gone rows table := by
  obtain ⟨n, rfl⟩ := Nat.exists_eq_succ_of_ne_zero (Nat.ne_of_gt hn)
  intro hr
  have hkept := (List.mem_filter.mp (cascade_subset n hr)).2
  simp [h] at hkept

theorem cascade_of_not_hangs (n : Nat)
    (h : ∀ table, ∀ r ∈ rows table, hangs schema gone table r = false) :
    cascade schema n gone rows = rows := by
  induction n generalizing gone with
  | zero => rfl
  | succ n ih =>
    have hgone : (fun table => (rows table).filter (hangs schema gone table)) = fun _ => [] := by
      funext table
      exact List.filter_eq_nil_iff.mpr fun r hr => by simp [h table r hr]
    have hrest : (fun table => (rows table).filter fun r => !hangs schema gone table r) = rows := by
      funext table
      exact List.filter_eq_self.mpr fun r hr => by simp [h table r hr]
    rw [cascade, hgone, hrest]
    exact ih fun table r _ => by simp [hangs]

end cascade

/-- The way to change a table that ALTER TABLE cannot change: copy it and take its name. -/
def rebuild (new : Table) (ifNotExists : Bool) (columns : List (String × Expr))
    (table : String) : List Sql :=
  [.pragmaForeignKeys false, .createTable new ifNotExists, .insertSelect new.name columns table,
    .dropTable table, .renameTable new.name table, .pragmaForeignKeys true]

/-- Every row is still there, with the values it had. -/
def Kept (c c' : Conn) : Prop :=
  ∀ t ∈ c.schema, List.Forall₂ (fun r r' => ∀ x ∈ t.columns, r' x = r x)
    (c.rows t.name) (c'.rows t.name)

/-- What the schema declares holds of the rows. -/
structure Conn.Valid (c : Conn) : Prop where
  names : (c.schema.map Table.name).Nodup
  accepts : ∀ t ∈ c.schema, Accepts true c.rows t

def Expr.notNull (t : Table) : Expr → Bool
  | .column name => t.notNull.contains name
  | .value v => v != .null

/-- The copy has the columns of the old table, and no constraint that the old one lacks. -/
structure Copies (t new : Table) (columns : List (String × Expr)) : Prop where
  kept : ∀ x ∈ t.columns, columns.lookup x = some (.column x)
  notNull : ∀ x ∈ new.notNull, (columns.lookup x).any (Expr.notNull t) = true
  uniques : ∀ key ∈ new.uniques, key ∈ t.uniques ∧ ∀ x ∈ key, columns.lookup x = some (.column x)
  checks : ∀ p ∈ new.checks, p ∈ t.checks ∧ columns.lookup p.1 = some (.column p.1) ∧
    columns.lookup p.2 = some (.column p.2)
  foreignKeys : ∀ fk ∈ new.foreignKeys, fk ∈ t.foreignKeys ∧ fk.parent ≠ new.name ∧
    columns.lookup fk.column = some (.column fk.column)

instance (t new : Table) (columns : List (String × Expr)) : Decidable (Copies t new columns) :=
  decidable_of_iff ((_ ∧ _) ∧ _ ∧ _ ∧ _)
    ⟨fun ⟨⟨h1, h2⟩, h3, h4, h5⟩ => ⟨h1, h2, h3, h4, h5⟩,
      fun ⟨h1, h2, h3, h4, h5⟩ => ⟨⟨h1, h2⟩, h3, h4, h5⟩⟩

section rebuild
variable {t new : Table} {columns : List (String × Expr)} {c : Conn}

theorem select_column {x : String} (h : columns.lookup x = some (.column x)) (r : Row) :
    select columns r x = r x := by
  simp [select, h, Expr.eval]

/-- The copied rows meet the constraints of the copy. -/
theorem Copies.accepts (hcopy : Copies t new columns) {rows : Rows} (h : Accepts true rows t)
    (foreignKeys : Bool) :
    Accepts foreignKeys (Function.update rows new.name ((rows t.name).map (select columns)))
      new := by
  obtain ⟨hnotNull, hchecks, huniques, hreferences⟩ := h
  simp only [Accepts, Function.update_self, List.forall_mem_map]
  refine ⟨fun r hr x hx => ?_, fun r hr p hp => ?_, fun key hkey => ?_, fun _ r hr fk hfk => ?_⟩
  · have hnull := hcopy.notNull x hx
    cases hx : columns.lookup x with
    | none => simp [hx] at hnull
    | some e =>
      cases e with
      | column y =>
        simp only [hx, Option.any_some, Expr.notNull, List.contains_iff_mem] at hnull
        simpa [select, hx, Expr.eval] using hnotNull r hr y hnull
      | value v => simpa [select, hx, Expr.eval, Expr.notNull] using hnull
  · obtain ⟨hp, h1, h2⟩ := hcopy.checks p hp
    rw [select_column h1, select_column h2]
    exact hchecks r hr p hp
  · obtain ⟨hkey, hsame⟩ := hcopy.uniques key hkey
    have hmap (r : Row) : key.map (select columns r) = key.map r :=
      List.map_congr_left fun x hx => select_column (hsame x hx) r
    rw [List.pairwise_map]
    refine (huniques key hkey).imp fun {r s} hne heq => hne ?_
    rwa [hmap r, hmap s] at heq
  · obtain ⟨hfk, hparent, hcolumn⟩ := hcopy.foreignKeys fk hfk
    rw [Function.update_of_ne hparent, select_column hcolumn]
    exact hreferences rfl r hr fk hfk

def copied (t new : Table) (columns : List (String × Expr)) (rows : Rows) : Rows :=
  Function.update rows new.name ((rows t.name).map (select columns))

/-- What `DROP TABLE` leaves of them. -/
def dropped (t new : Table) (columns : List (String × Expr)) (c : Conn) : Rows :=
  let rows := copied t new columns c.rows
  let left := Function.update rows t.name []
  if c.inTransaction then
    cascade (c.schema ++ [new])
      (Conn.rounds { c with schema := c.schema ++ [new], rows })
      (Function.update (fun _ => []) t.name (c.rows t.name)) left
  else left

theorem hasTable_iff {table : String} :
    c.hasTable table = true ↔ ∃ u ∈ c.schema, u.name = table := by
  simp [Conn.hasTable]

theorem ne_of_hasTable {u : Table} (hu : u ∈ c.schema) {table : String}
    (h : c.hasTable table = false) : u.name ≠ table := by
  rintro rfl
  rw [hasTable_iff.mpr ⟨u, hu, rfl⟩] at h
  cases h

theorem run_pragma_off (hon : c.foreignKeys = true) :
    (Sql.pragmaForeignKeys false).run c = some { c with foreignKeys := c.inTransaction } := by
  obtain ⟨schema, rows, foreignKeys, inTransaction⟩ := c
  subst hon
  cases inTransaction <;> rfl

theorem run_insertSelect (hok : Accepts c.foreignKeys (copied t new columns c.rows) new)
    (hnew : c.hasTable new.name = false) (hne : t.name ≠ new.name) :
    (Sql.insertSelect new.name columns t.name).run
        { c with schema := c.schema ++ [new], rows := Function.update c.rows new.name [] } =
      some { c with schema := c.schema ++ [new], rows := copied t new columns c.rows } := by
  have hfind : (c.schema ++ [new]).find? (fun u => u.name == new.name) = some new := by
    rw [List.find?_append, List.find?_eq_none.mpr fun u hu => by simpa using ne_of_hasTable hu hnew]
    simp
  have hrows : Function.update (Function.update c.rows new.name []) new.name
      ((c.rows t.name).map (select columns)) = copied t new columns c.rows :=
    Function.update_idem ..
  simp only [Sql.run, hfind, Function.update_self, Function.update_of_ne hne, List.nil_append,
    hrows, if_pos hok]

theorem run_dropTable (ht : t ∈ c.schema) (hne : t.name ≠ new.name) :
    (Sql.dropTable t.name).run
        { c with
          foreignKeys := c.inTransaction, schema := c.schema ++ [new]
          rows := copied t new columns c.rows } =
      some { c with
        foreignKeys := c.inTransaction
        schema := (c.schema ++ [new]).filter fun u => u.name != t.name
        rows := dropped t new columns c } := by
  have htable : Conn.hasTable { c with
      foreignKeys := c.inTransaction, schema := c.schema ++ [new]
      rows := copied t new columns c.rows } t.name = true :=
    hasTable_iff.mpr ⟨t, List.mem_append_left _ ht, rfl⟩
  have hold : copied t new columns c.rows t.name = c.rows t.name := Function.update_of_ne hne ..
  simp only [Sql.run, if_pos htable, dropped, hold]
  rfl

theorem run_renameTable (rows : Rows) (hne : t.name ≠ new.name) :
    ∃ schema, (Sql.renameTable new.name t.name).run
        { c with schema := (c.schema ++ [new]).filter fun u => u.name != t.name, rows } =
      some { c with
        schema
        rows := Function.update (Function.update rows t.name (rows new.name)) new.name [] } := by
  have hhas : (Conn.hasTable
      { c with schema := (c.schema ++ [new]).filter fun u => u.name != t.name, rows } new.name &&
      !Conn.hasTable
        { c with schema := (c.schema ++ [new]).filter fun u => u.name != t.name, rows } t.name) =
      true := by
    simp [Conn.hasTable, hne.symm]
  exact ⟨_, if_pos hhas⟩

/-- The script never fails, and these are the rows in the end. -/
theorem runScript_rebuild (hv : c.Valid) (hon : c.foreignKeys = true) (ht : t ∈ c.schema)
    (hnew : c.hasTable new.name = false) (hcopy : Copies t new columns) (ifNotExists : Bool) :
    ∃ c', runScript (rebuild new ifNotExists columns t.name) c = some c' ∧
      c'.rows = Function.update (Function.update (dropped t new columns c) t.name
        (dropped t new columns c new.name)) new.name [] := by
  have hne := ne_of_hasTable ht hnew
  have hcreate : (Sql.createTable new ifNotExists).run { c with foreignKeys := c.inTransaction } =
      some { c with
        foreignKeys := c.inTransaction, schema := c.schema ++ [new]
        rows := Function.update c.rows new.name [] } :=
    if_neg (by rw [show Conn.hasTable { c with foreignKeys := c.inTransaction } new.name = false
      from hnew]; decide)
  have hinsert := run_insertSelect (c := { c with foreignKeys := c.inTransaction })
    (hcopy.accepts (hv.accepts t ht) c.inTransaction) hnew hne
  obtain ⟨schema, hrename⟩ := run_renameTable (c := { c with foreignKeys := c.inTransaction })
    (dropped t new columns c) hne
  simp only [rebuild, runScript, run_pragma_off hon, hcreate, hinsert, run_dropTable ht hne,
    hrename, Option.bind_some]
  refine ⟨_, rfl, ?_⟩
  split <;> rfl

theorem mem_rebuilt {c' : Conn} (hne : t.name ≠ new.name)
    (hrows : c'.rows = Function.update (Function.update (dropped t new columns c) t.name
      (dropped t new columns c new.name)) new.name []) {r : Row} (hr : r ∈ c'.rows t.name) :
    ∃ s ∈ c.rows t.name, select columns s = r := by
  rw [hrows, Function.update_of_ne hne, Function.update_self] at hr
  have hcopied : r ∈ copied t new columns c.rows new.name := by
    rw [← Function.update_of_ne hne.symm [] (copied t new columns c.rows)]
    simp only [dropped] at hr
    split at hr
    · exact cascade_subset _ hr
    · exact hr
  rw [copied, Function.update_self] at hcopied
  exact List.mem_map.mp hcopied

/-- Where the other tables stay as they are, everything is kept. -/
theorem kept_of_dropped {c' : Conn} (hnew : c.hasTable new.name = false)
    (hcopy : Copies t new columns) (ht : t ∈ c.schema) (hv : c.Valid)
    (hrows : c'.rows = Function.update (Function.update (dropped t new columns c) t.name
      (dropped t new columns c new.name)) new.name [])
    (hleft : dropped t new columns c = Function.update (copied t new columns c.rows) t.name []) :
    Kept c c' := by
  intro u hu
  rw [hrows, hleft, Function.update_of_ne (ne_of_hasTable hu hnew)]
  by_cases hut : u.name = t.name
  · obtain rfl : u = t := List.inj_on_of_nodup_map hv.names hu ht hut
    rw [Function.update_self, Function.update_of_ne (ne_of_hasTable ht hnew).symm, copied,
      Function.update_self, List.forall₂_map_right_iff, List.forall₂_same]
    exact fun r _ x hx => select_column (hcopy.kept x hx) r
  · rw [Function.update_of_ne hut, Function.update_of_ne hut, copied,
      Function.update_of_ne (ne_of_hasTable hu hnew), List.forall₂_same]
    exact fun _ _ _ _ => rfl

theorem rounds_pos {u : Table} (hu : u ∈ c.schema) {r : Row} (hr : r ∈ c.rows u.name) :
    0 < c.rounds := List.length_pos_of_mem (List.mem_flatMap.mpr ⟨u, hu, hr⟩)

/-- Outside a transaction the pragma works, and the script keeps everything. -/
theorem rebuild_outside (hv : c.Valid) (hon : c.foreignKeys = true) (htx : c.inTransaction = false)
    (ht : t ∈ c.schema) (hnew : c.hasTable new.name = false) (hcopy : Copies t new columns)
    (ifNotExists : Bool) :
    ∃ c', runScript (rebuild new ifNotExists columns t.name) c = some c' ∧ Kept c c' := by
  obtain ⟨c', hrun, hrows⟩ := runScript_rebuild hv hon ht hnew hcopy ifNotExists
  refine ⟨c', hrun, kept_of_dropped hnew hcopy ht hv hrows ?_⟩
  simp [dropped, htx]

/-- Inside a transaction the drop takes every row that references the old table: each
row references one that is gone. -/
theorem dropped_of_referencing (hv : c.Valid) (htx : c.inTransaction = true)
    (hnew : c.hasTable new.name = false) {u : Table} (hu : u ∈ c.schema) {fk : ForeignKey}
    (hfk : fk ∈ u.foreignKeys) (hparent : fk.parent = t.name) (hut : u.name ≠ t.name) :
    dropped t new columns c u.name = [] := by
  have hun := ne_of_hasTable hu hnew
  refine List.eq_nil_iff_forall_not_mem.mpr fun r hr => ?_
  simp only [dropped, if_pos htx] at hr
  have hsub := cascade_subset _ hr
  rw [Function.update_of_ne hut] at hsub
  have hr' : r ∈ c.rows u.name := by rwa [copied, Function.update_of_ne hun] at hsub
  obtain ⟨p, hp, hid⟩ := (hv.accepts u hu).2.2.2 rfl r hr' fk hfk
  have hmem := List.mem_append_left [new] hu
  refine not_mem_cascade (rounds_pos hmem hsub) (hangs_iff.mpr ?_) hr
  refine ⟨u, hmem, rfl, fk, hfk, p, ?_, hid⟩
  rw [hparent] at hp ⊢
  rwa [Function.update_self]

theorem dropped_of_unreferenced (htx : c.inTransaction = true)
    (hnew : c.hasTable new.name = false) (hcopy : Copies t new columns)
    (hself : ∀ fk ∈ t.foreignKeys, fk.parent ≠ t.name)
    (hnone : ∀ u ∈ c.schema, (∃ fk ∈ u.foreignKeys, fk.parent = t.name) → c.rows u.name = []) :
    dropped t new columns c = Function.update (copied t new columns c.rows) t.name [] := by
  rw [dropped, if_pos htx]
  refine cascade_of_not_hangs _ fun table r hr => ?_
  rw [← Bool.not_eq_true, hangs_iff]
  rintro ⟨u, hu, rfl, fk, hfk, p, hp, -⟩
  have hparent : fk.parent = t.name := by
    by_contra hother
    rw [Function.update_of_ne hother] at hp
    cases hp
  rcases List.mem_append.mp hu with hu | hu
  · by_cases hut : u.name = t.name
    · rw [hut, Function.update_self] at hr
      cases hr
    · rw [Function.update_of_ne hut, copied, Function.update_of_ne (ne_of_hasTable hu hnew),
        hnone u hu ⟨fk, hfk, hparent⟩] at hr
      cases hr
  · rw [List.mem_singleton.mp hu] at hfk
    exact hself fk (hcopy.foreignKeys fk hfk).1 hparent

/-- Inside one the pragma does nothing, and the script keeps everything only where no row
of another table references the old one. -/
theorem rebuild_inside (hv : c.Valid) (hon : c.foreignKeys = true) (htx : c.inTransaction = true)
    (ht : t ∈ c.schema) (hnew : c.hasTable new.name = false) (hcopy : Copies t new columns)
    (hself : ∀ fk ∈ t.foreignKeys, fk.parent ≠ t.name) (ifNotExists : Bool) :
    ∃ c', runScript (rebuild new ifNotExists columns t.name) c = some c' ∧
      (∀ r ∈ c'.rows t.name, ∃ s ∈ c.rows t.name, select columns s = r) ∧
      (Kept c c' ↔ ∀ u ∈ c.schema, (∃ fk ∈ u.foreignKeys, fk.parent = t.name) →
        c.rows u.name = []) := by
  obtain ⟨c', hrun, hrows⟩ := runScript_rebuild hv hon ht hnew hcopy ifNotExists
  refine ⟨c', hrun, fun r hr => mem_rebuilt (ne_of_hasTable ht hnew) hrows hr, ?_⟩
  constructor
  · rintro hkept u hu ⟨fk, hfk, hparent⟩
    have hut : u.name ≠ t.name := by
      intro heq
      obtain rfl : u = t := List.inj_on_of_nodup_map hv.names hu ht heq
      exact hself fk hfk hparent
    have hlost : c'.rows u.name = [] := by
      rw [hrows, Function.update_of_ne (ne_of_hasTable hu hnew), Function.update_of_ne hut]
      exact dropped_of_referencing hv htx hnew hu hfk hparent hut
    have hall := hkept u hu
    rw [hlost] at hall
    exact List.forall₂_nil_right_iff.mp hall
  · intro hnone
    exact kept_of_dropped hnew hcopy ht hv hrows
      (dropped_of_unreferenced htx hnew hcopy hself hnone)

end rebuild
end Sqlite
