import Articler.Lib.Sqlite
import Mathlib.Algebra.Group.Int.Defs
import Mathlib.Logic.Relation

/-! AUTOINCREMENT: the table `sqlite_sequence`, scripts that read and write rows besides
changing the schema, and what a table's history of insertions leaves in its sequence. -/
namespace Sqlite

/-- The id that AUTOINCREMENT hands out: above the sequence and above every id in use. -/
def nextOf (seq : Option Int) (inUse : List Int) : Option Int :=
  let top := inUse.foldl max (seq.getD 0)
  if top < 2 ^ 63 - 1 then some (top + 1) else none

theorem le_foldl_max {ids : List Int} {n : Int} : n ≤ ids.foldl max n := by
  induction ids generalizing n with
  | nil => exact Int.le_refl n
  | cons id ids ih => exact Int.le_trans (Int.le_max_left n id) ih

theorem foldl_max_le {ids : List Int} {n m : Int} (hn : n ≤ m) (h : ∀ id ∈ ids, id ≤ m) :
    ids.foldl max n ≤ m := by
  induction ids generalizing n with
  | nil => exact hn
  | cons id ids ih =>
    exact ih (Int.max_le.mpr ⟨hn, h id List.mem_cons_self⟩) fun i hi =>
      h i (List.mem_cons_of_mem id hi)

theorem foldl_max_of_le {ids : List Int} {n : Int} (h : ∀ id ∈ ids, id ≤ n) :
    ids.foldl max n = n := Int.le_antisymm (foldl_max_le (Int.le_refl n) h) le_foldl_max

/-- A table's ids: those in use, its row of `sqlite_sequence`, and all it ever handed out. -/
structure Counter where
  inUse : List Int := []
  seq : Option Int := none
  handed : List Int := []

inductive Counter.Step : Counter → Counter → Prop where
  | insert {c : Counter} {id : Int} (h : nextOf c.seq c.inUse = some id) :
      Step c ⟨c.inUse ++ [id], some id, c.handed ++ [id]⟩
  | insertNone (c : Counter) : Step c { c with seq := some (c.seq.getD 0) }
  | delete (c : Counter) (p : Int → Bool) : Step c { c with inUse := c.inUse.filter p }

/-- What any history of insertions and deletions leads to. -/
def Counter.Reached (c : Counter) : Prop := Relation.ReflTransGen Counter.Step {} c

/-- Ids are positive, and none was handed out above the sequence. -/
structure Counter.Inv (c : Counter) : Prop where
  inUse : ∀ id ∈ c.inUse, id ∈ c.handed
  positive : ∀ id ∈ c.handed, 1 ≤ id
  seq : 0 ≤ c.seq.getD 0
  top : ∀ id ∈ c.handed, id ≤ c.seq.getD 0

theorem nextOf_inv {seq : Option Int} {inUse : List Int} {id : Int}
    (h : nextOf seq inUse = some id) : id = inUse.foldl max (seq.getD 0) + 1 := by
  rw [nextOf] at h
  split at h
  · exact (Option.some.inj h).symm
  · cases h

theorem Counter.Inv.inUse_le {c : Counter} (h : c.Inv) : ∀ id ∈ c.inUse, id ≤ c.seq.getD 0 :=
  fun id hid => h.top id (h.inUse id hid)

theorem Counter.Inv.step {c d : Counter} (h : c.Inv) (hstep : Counter.Step c d) : d.Inv := by
  cases hstep with
  | @insert id hnext =>
    have hid := nextOf_inv hnext
    have htop : c.inUse.foldl max (c.seq.getD 0) = c.seq.getD 0 :=
      foldl_max_of_le h.inUse_le
    have hpos := h.seq
    rw [htop] at hid
    have hnew {i : Int} (hi : i ∈ c.handed ++ [id]) : i ∈ c.handed ∨ i = id :=
      (List.mem_append.mp hi).imp_right List.mem_singleton.mp
    refine ⟨fun i hi => ?_, fun i hi => ?_, ?_, fun i hi => ?_⟩
    · exact List.mem_append.mpr ((List.mem_append.mp hi).imp_left (h.inUse i))
    · rcases hnew hi with hi | rfl
      · exact h.positive i hi
      · omega
    · rw [Option.getD_some]
      omega
    · rw [Option.getD_some]
      rcases hnew hi with hi | rfl
      · have := h.top i hi
        omega
      · exact Int.le_refl i
  | insertNone => exact ⟨h.inUse, h.positive, h.seq, h.top⟩
  | delete p => exact ⟨fun i hi => h.inUse i (List.mem_filter.mp hi).1, h.positive, h.seq, h.top⟩

theorem Counter.Reached.inv {c : Counter} (h : c.Reached) : c.Inv := by
  induction h with
  | refl => exact ⟨nofun, nofun, Int.le_refl 0, nofun⟩
  | tail _ hstep ih => exact ih.step hstep

structure Store extends Conn where
  counted : List String

def Value.toInt : Value → Int
  | .int n => n
  | _ => 0

/-- The comparisons of SQL, as a WHERE reads them: one with NULL is not true. -/
def Value.same (a b : Value) : Bool := a != .null && a == b

def Value.differs (a b : Value) : Bool := a != .null && b != .null && a != b

def Value.less : Value → Value → Bool
  | .int a, .int b => a < b
  | .int _, .text _ => true
  | .text a, .text b => a < b
  | _, _ => false

theorem same_iff {a b : Value} (ha : a ≠ .null) : Value.same a b = true ↔ a = b := by
  simp [Value.same, ha]

theorem differs_iff {a b : Value} (ha : a ≠ .null) (hb : b ≠ .null) :
    Value.differs a b = true ↔ a ≠ b := by
  simp [Value.differs, ha, hb]

theorem Accepts.eq_of_key {foreignKeys : Bool} {rows : Rows} {t : Table}
    (h : Accepts foreignKeys rows t) {key : List String} (hkey : key ∈ t.uniques) {r s : Row}
    (hr : r ∈ rows t.name) (hs : s ∈ rows t.name) (heq : key.map r = key.map s) : r = s :=
  List.inj_on_of_nodup_map (List.pairwise_map.mpr (h.2.2.1 key hkey)) hr hs heq

def seqRow (table : String) (seq : Int) : Row := fun c =>
  if c = "name" then .text table else if c = "seq" then .int seq else .null

def named (table : String) (r : Row) : Bool := Value.same (r "name") (.text table)

def seqOf (rows : Rows) (table : String) : Option Value :=
  ((rows "sqlite_sequence").find? (named table)).map fun r => r "seq"

/-- An INSERT starts the sequence of its table, even one that brings no row. -/
def started (table : String) (seqs : List Row) : List Row :=
  if seqs.any (named table) then seqs else seqs ++ [seqRow table 0]

/-- A row that it brings raises the sequence. -/
def raise (table : String) (seqs : List Row) (id : Int) : List Row :=
  seqs.map fun r => if named table r then seqRow table (max (r "seq").toInt id) else r

/-- What a statement makes of `sqlite_sequence`. -/
def Sql.sequence (s : Store) (seqs : List Row) : Sql → List Row
  | .insertSelect into columns source =>
    if s.counted.contains into then
      ((s.rows source).map fun r => (select columns r "id").toInt).foldl (raise into)
        (started into seqs)
    else seqs
  | .dropTable table => seqs.filter fun r => !named table r
  | .renameTable table newName =>
    seqs.map fun r => if named table r then Function.update r "name" (.text newName) else r
  | _ => seqs

def Sql.counted (counted : List String) : Sql → List String
  | .dropTable table => counted.filter (· ≠ table)
  | .renameTable table newName => counted.map fun t => if t = table then newName else t
  | _ => counted

/-- The statements of a script that also changes rows; `CREATE TABLE … AS` makes one row. -/
inductive Stmt where
  | sql (q : Sql)
  | createAutoincrement (t : Table)
  | createAs (table column : String) (value : Rows → Value)
  | deleteFrom (table : String) (cond : Rows → Row → Bool)
  | update (table column : String) (value : Rows → Value) (cond : Rows → Row → Bool)
  | beginTransaction
  | commit

def Stmt.run (s : Store) : Stmt → Option Store
  | .sql q => (q.run s.toConn).map fun c =>
    { c with
      rows := Function.update c.rows "sqlite_sequence" (q.sequence s (c.rows "sqlite_sequence"))
      counted := q.counted s.counted }
  | .createAutoincrement t => ((Sql.createTable t).run s.toConn).map fun c =>
    { c with counted := s.counted ++ [t.name] }
  | .createAs table column value =>
    ((Sql.createTable ⟨table, [column], [], [], [], []⟩).run s.toConn).map fun c =>
      { c with
        rows := Function.update c.rows table
          [Function.update (fun _ => .null) column (value s.rows)]
        counted := s.counted }
  | .deleteFrom table cond =>
    let rows := Function.update s.rows table ((s.rows table).filter fun r => !cond s.rows r)
    some { s with
      rows := if s.foreignKeys then
          cascade s.schema s.rounds
            (Function.update (fun _ => []) table ((s.rows table).filter (cond s.rows))) rows
        else rows }
  | .update table column value cond =>
    let rows := Function.update s.rows table ((s.rows table).map fun r =>
      if cond s.rows r then Function.update r column (value s.rows) else r)
    match s.schema.find? fun t => t.name == table with
    | some t => if Accepts s.foreignKeys rows t then some { s with rows } else none
    | none => some { s with rows }
  | .beginTransaction => if s.inTransaction then none else some { s with inTransaction := true }
  | .commit => if s.inTransaction then some { s with inTransaction := false } else none

def runStmts : List Stmt → Store → Option Store
  | [], s => some s
  | q :: script, s => (q.run s).bind (runStmts script)

def Store.nextId (s : Store) (table : String) : Option Int :=
  nextOf ((seqOf s.rows table).map Value.toInt) ((s.rows table).map fun r => (r "id").toInt)

theorem runStmts_append (script script' : List Stmt) (s : Store) :
    runStmts (script ++ script') s = (runStmts script s).bind (runStmts script') := by
  induction script generalizing s with
  | nil => rfl
  | cons q script ih =>
    rw [List.cons_append, runStmts, runStmts, Option.bind_assoc]
    exact congrArg _ (funext ih)

theorem run_pragma {s : Store} (h : s.inTransaction = false) (on : Bool) :
    (Stmt.sql (.pragmaForeignKeys on)).run s = some { s with foreignKeys := on } := by
  obtain ⟨⟨schema, rows, foreignKeys, inTransaction⟩, counted⟩ := s
  obtain rfl : inTransaction = false := h
  simp [Stmt.run, Sql.run, Sql.sequence, Sql.counted]

/-- Inside a transaction, with foreign keys off. -/
def quiet (schema : List Table) (rows : Rows) (counted : List String) : Store :=
  ⟨⟨schema, rows, false, true⟩, counted⟩

section quiet
variable (schema : List Table) (rows : Rows) (counted : List String)

theorem quiet_createAs {table : String} (column : String) (value : Rows → Value)
    (h : (quiet schema rows counted).hasTable table = false) :
    (Stmt.createAs table column value).run (quiet schema rows counted) =
      some (quiet (schema ++ [⟨table, [column], [], [], [], []⟩])
        (Function.update rows table [Function.update (fun _ => .null) column (value rows)])
        counted) := by
  have hcreate : (Sql.createTable ⟨table, [column], [], [], [], []⟩).run
      (quiet schema rows counted).toConn = some
        ⟨schema ++ [⟨table, [column], [], [], [], []⟩], Function.update rows table [], false, true⟩ :=
    if_neg (by simp [h])
  simp only [Stmt.run, hcreate, Option.map_some, Function.update_idem]
  rfl

theorem quiet_createAutoincrement {t : Table} (h : (quiet schema rows counted).hasTable t.name = false) :
    (Stmt.createAutoincrement t).run (quiet schema rows counted) =
      some (quiet (schema ++ [t]) (Function.update rows t.name []) (counted ++ [t.name])) := by
  have hcreate : (Sql.createTable t).run (quiet schema rows counted).toConn =
      some ⟨schema ++ [t], Function.update rows t.name [], false, true⟩ := if_neg (by simp [h])
  simp only [Stmt.run, hcreate, Option.map_some]
  rfl

theorem quiet_dropTable {table : String} (h : (quiet schema rows counted).hasTable table = true)
    (hne : table ≠ "sqlite_sequence") :
    (Stmt.sql (.dropTable table)).run (quiet schema rows counted) =
      some (quiet (schema.filter fun t => t.name != table)
        (Function.update (Function.update rows table []) "sqlite_sequence"
          ((rows "sqlite_sequence").filter fun r => !named table r))
        (counted.filter (· ≠ table))) := by
  have hdrop : (Sql.dropTable table).run (quiet schema rows counted).toConn =
      some ⟨schema.filter fun t => t.name != table, Function.update rows table [], false, true⟩ :=
    if_pos h
  simp only [Stmt.run, hdrop, Option.map_some, Function.update_of_ne hne.symm]
  rfl

theorem quiet_renameTable {table newName : String}
    (h : (quiet schema rows counted).hasTable table = true)
    (hnew : (quiet schema rows counted).hasTable newName = false) (hne : table ≠ "sqlite_sequence")
    (hne' : newName ≠ "sqlite_sequence") :
    (Stmt.sql (.renameTable table newName)).run (quiet schema rows counted) =
      some (quiet (schema.map (Table.renamed table newName))
        (Function.update (Function.update (Function.update rows newName (rows table)) table [])
          "sqlite_sequence" ((rows "sqlite_sequence").map fun r =>
            if named table r then Function.update r "name" (.text newName) else r))
        (counted.map fun t => if t = table then newName else t)) := by
  have hrename : (Sql.renameTable table newName).run (quiet schema rows counted).toConn =
      some ⟨schema.map (Table.renamed table newName),
        Function.update (Function.update rows newName (rows table)) table [], false, true⟩ :=
    if_pos (by simp [h, hnew])
  simp only [Stmt.run, hrename, Option.map_some, Function.update_of_ne hne.symm,
    Function.update_of_ne hne'.symm]
  rfl

theorem quiet_insertSelect {new : Table} (columns : List (String × Expr)) (source : String)
    (hfind : (schema.find? fun t => t.name == new.name) = some new)
    (hok : Accepts false (Function.update rows new.name
      (rows new.name ++ (rows source).map (select columns))) new)
    (hcounted : counted.contains new.name = true) (hne : new.name ≠ "sqlite_sequence") :
    (Stmt.sql (.insertSelect new.name columns source)).run (quiet schema rows counted) =
      some (quiet schema
        (Function.update (Function.update rows new.name
          (rows new.name ++ (rows source).map (select columns))) "sqlite_sequence"
            (((rows source).map fun r => (select columns r "id").toInt).foldl (raise new.name)
              (started new.name (rows "sqlite_sequence")))) counted) := by
  have hinsert : (Sql.insertSelect new.name columns source).run (quiet schema rows counted).toConn =
      some ⟨schema, Function.update rows new.name
        (rows new.name ++ (rows source).map (select columns)), false, true⟩ := by
    dsimp only [Sql.run, quiet]
    rw [hfind]
    exact if_pos hok
  have hcounts : (quiet schema rows counted).counted.contains new.name = true := hcounted
  simp only [Stmt.run, hinsert, Option.map_some, Function.update_of_ne hne.symm, Sql.sequence,
    if_pos hcounts]
  rfl

theorem quiet_update {table : String} (column : String) (value : Rows → Value)
    (cond : Rows → Row → Bool)
    (h : (schema.find? fun t => t.name == table) = none) :
    (Stmt.update table column value cond).run (quiet schema rows counted) =
      some (quiet schema (Function.update rows table ((rows table).map fun r =>
        if cond rows r then Function.update r column (value rows) else r)) counted) := by
  dsimp only [Stmt.run, quiet]
  rw [h]

/-- A new table with its own counter, filled from the old one, takes the old one's name. -/
def recount (new : Table) (columns : List (String × Expr)) (table : String) : List Stmt :=
  [.createAutoincrement new, .sql (.insertSelect new.name columns table), .sql (.dropTable table),
    .sql (.renameTable new.name table)]

def recounted (new table : String) (ids : List Int) (seqs : List Row) : List Row :=
  ((ids.foldl (raise new) (started new seqs)).filter fun r => !named table r).map fun r =>
    if named new r then Function.update r "name" (.text table) else r

structure Recounted (new : Table) (columns : List (String × Expr)) (table : String)
    (rows rows' : Rows) : Prop where
  copy : rows' table = (rows table).map (select columns)
  sequence : rows' "sqlite_sequence" = recounted new.name table
    ((rows table).map fun r => (select columns r "id").toInt) (rows "sqlite_sequence")
  others : ∀ u, u ≠ table → u ≠ new.name → u ≠ "sqlite_sequence" → rows' u = rows u

theorem runStmts_recount {t new : Table} (columns : List (String × Expr)) (ht : t ∈ schema)
    (hnew : (quiet schema rows counted).hasTable new.name = false)
    (hok : ∀ rows' : Rows, rows' new.name = (rows t.name).map (select columns) →
      Accepts false rows' new)
    (hne : t.name ≠ "sqlite_sequence") (hne' : new.name ≠ "sqlite_sequence") :
    ∃ rows' counted', runStmts (recount new columns t.name) (quiet schema rows counted) =
        some (quiet (((schema ++ [new]).filter fun u => u.name != t.name).map
          (Table.renamed new.name t.name)) rows' counted') ∧
      Recounted new columns t.name rows rows' := by
  have htn : t.name ≠ new.name := ne_of_hasTable ht hnew
  have hfind : (schema ++ [new]).find? (fun u => u.name == new.name) = some new := by
    rw [List.find?_append, List.find?_eq_none.mpr fun u hu => by simpa using ne_of_hasTable hu hnew]
    simp
  have hempty : Function.update rows new.name [] new.name = [] := Function.update_self ..
  have hsource : Function.update rows new.name [] t.name = rows t.name :=
    Function.update_of_ne htn ..
  have hseq : Function.update rows new.name [] "sqlite_sequence" = rows "sqlite_sequence" :=
    Function.update_of_ne hne'.symm ..
  have hcreate := quiet_createAutoincrement schema rows counted hnew
  have hinsert := quiet_insertSelect (schema ++ [new]) (Function.update rows new.name [])
    (counted ++ [new.name]) columns t.name hfind
    (hok (Function.update (Function.update rows new.name []) new.name _)
      (by rw [Function.update_self, hempty, hsource, List.nil_append])) (by simp) hne'
  rw [hempty, hsource, hseq, List.nil_append, Function.update_idem] at hinsert
  set rows2 := Function.update (Function.update rows new.name ((rows t.name).map (select columns)))
    "sqlite_sequence" _ with hrows2
  have hdrop := quiet_dropTable (schema ++ [new]) rows2 (counted ++ [new.name])
    (hasTable_iff.mpr ⟨t, List.mem_append_left _ ht, rfl⟩) hne
  set rows3 := Function.update (Function.update rows2 t.name []) "sqlite_sequence" _ with hrows3
  have hrename := quiet_renameTable ((schema ++ [new]).filter fun u => u.name != t.name) rows3
    ((counted ++ [new.name]).filter (· ≠ t.name))
    (hasTable_iff.mpr ⟨new, List.mem_filter.mpr ⟨List.mem_append_right _ List.mem_cons_self,
      by simpa using htn.symm⟩, rfl⟩) (by simp [Conn.hasTable, quiet]) hne' hne
  have hrun : runStmts (recount new columns t.name) (quiet schema rows counted) =
      (Stmt.sql (.renameTable new.name t.name)).run (quiet
        ((schema ++ [new]).filter fun u => u.name != t.name) rows3
        ((counted ++ [new.name]).filter (· ≠ t.name))) := by
    rw [recount, runStmts, hcreate, Option.bind_some, runStmts, hinsert, Option.bind_some, runStmts,
      hdrop, Option.bind_some, runStmts]
    exact Option.bind_fun_some _
  refine ⟨_, _, hrun.trans hrename, ?_⟩
  have hnew3 : rows3 new.name = (rows t.name).map (select columns) := by
    rw [hrows3, Function.update_of_ne hne', Function.update_of_ne htn.symm, hrows2,
      Function.update_of_ne hne', Function.update_self]
  refine ⟨?_, ?_, fun u hut hun hus => ?_⟩
  · rw [Function.update_of_ne hne, Function.update_of_ne htn, Function.update_self, hnew3]
  · rw [Function.update_self, hrows3, Function.update_self, hrows2, Function.update_self]
    rfl
  · rw [Function.update_of_ne hus, Function.update_of_ne hun, Function.update_of_ne hut, hrows3,
      Function.update_of_ne hus, Function.update_of_ne hut, hrows2, Function.update_of_ne hus,
      Function.update_of_ne hun]

end quiet

section sequences
variable {new table : String} {seqs : List Row}

theorem named_seqRow (table : String) (n : Int) : named table (seqRow table n) = true := by
  simp [named, Value.same, seqRow]

theorem started_of_absent (h : ∀ r ∈ seqs, named table r = false) :
    started table seqs = seqs ++ [seqRow table 0] := by
  have hany : seqs.any (named table) = false := List.any_eq_false.mpr fun r hr => by simp [h r hr]
  rw [started, hany]
  rfl

theorem raise_of_last (h : ∀ r ∈ seqs, named table r = false) (n id : Int) :
    raise table (seqs ++ [seqRow table n]) id = seqs ++ [seqRow table (max n id)] := by
  have hsame : seqs.map (fun r => if named table r then seqRow table (max (r "seq").toInt id) else r)
      = seqs := (List.map_congr_left fun r hr => if_neg (by simp [h r hr])).trans (List.map_id _)
  rw [raise, List.map_append, hsame, List.map_singleton, if_pos (named_seqRow _ _)]
  rfl

theorem foldl_raise (h : ∀ r ∈ seqs, named table r = false) (ids : List Int) :
    ids.foldl (raise table) (started table seqs) = seqs ++ [seqRow table (ids.foldl max 0)] := by
  have hlast (ids : List Int) (n : Int) : ids.foldl (raise table) (seqs ++ [seqRow table n]) =
      seqs ++ [seqRow table (ids.foldl max n)] := by
    induction ids generalizing n with
    | nil => rfl
    | cons id ids ih => rw [List.foldl_cons, raise_of_last h, ih, List.foldl_cons]
  rw [started_of_absent h, hlast]

theorem seqRow_renamed (n : Int) : Function.update (seqRow new n) "name" (.text table) =
    seqRow table n := by
  funext c
  by_cases hc : c = "name"
  · subst hc
    rw [Function.update_self]
    rfl
  · rw [Function.update_of_ne hc]
    simp [seqRow, hc]

/-- The rebuilt table has the sequence of its rows. -/
theorem find_recounted (table : String) (h : ∀ r ∈ seqs, named new r = false) (hne : new ≠ table)
    (ids : List Int) :
    (recounted new table ids seqs).find? (named table) =
      some (seqRow table (ids.foldl max 0)) := by
  have hkept : ((seqs.filter fun r => !named table r).map fun r =>
      if named new r then Function.update r "name" (.text table) else r) =
        seqs.filter fun r => !named table r :=
    (List.map_congr_left fun r hr =>
      if_neg (by simp [h r (List.mem_filter.mp hr).1])).trans (List.map_id _)
  have hnone : (seqs.filter fun r => !named table r).find? (named table) = none :=
    List.find?_eq_none.mpr fun r hr => by simpa using (List.mem_filter.mp hr).2
  have hother : named table (seqRow new (ids.foldl max 0)) = false := by
    simp [named, Value.same, seqRow, hne]
  rw [recounted, foldl_raise h, List.filter_append, List.map_append, hkept, List.find?_append,
    hnone, List.filter_cons_of_pos (by simp [hother]), List.filter_nil, List.map_singleton,
    if_pos (named_seqRow _ _), seqRow_renamed]
  exact List.find?_cons_of_pos (named_seqRow _ _)

theorem find_set {cond : Row → Bool} {v : Value} :
    (seqs.map fun r => if cond r then Function.update r "seq" v else r).find? (named table) =
      (seqs.find? (named table)).map fun r => if cond r then Function.update r "seq" v else r := by
  have hname (r : Row) :
      named table (if cond r then Function.update r "seq" v else r) = named table r := by
    split
    · simp [named]
    · rfl
  rw [List.find?_map]
  congr 2
  exact funext hname

theorem find_dropped {other : String} (hne : other ≠ table) :
    (seqs.filter fun r => !named other r).find? (named table) = seqs.find? (named table) := by
  rw [List.find?_filter]
  congr 1
  funext r
  cases hr : named table r with
  | false => rw [decide_eq_false (by simp)]
  | true =>
    have hname : r "name" = .text table := by simpa [named, Value.same] using (Bool.and_eq_true_iff.mp hr).2
    simp [named, Value.same, hname, hne.symm]

end sequences
end Sqlite
