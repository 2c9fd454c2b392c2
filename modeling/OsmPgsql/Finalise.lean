import Mathlib.Data.Nat.Digits
import Mathlib.Data.List.Nodup
import Mathlib.Logic.Relation
import OsmPgsql.Basic

/-!
# Finishing the tables

`start` (lines 414–500) names the four output tables by the prefix and a suffix per table.
`stop` (lines 748–794) runs `pgsql_out_stop_one` (lines 502–607) on each of them, one after
the other, or on four threads at once under `parallel_indexing`. Outside append mode
`pgsql_out_stop_one` sends a fixed sequence of statements through `pgsql_exec`, which ends
the import when one fails: analyse the table, copy it sorted by geometry into `<name>_tmp`, drop
it, rename the copy, create its indexes, grant `SELECT` to `PUBLIC`, analyse again.

The statements are modelled as data (`Stmt`), each constructor with the text it stands for,
and their meaning on the database as PostgreSQL gives it (`Catalog.exec`). PostgreSQL first cuts
every identifier of a statement to its first 63 bytes (`Stmt.truncate`, `NAMEDATALEN - 1`), then
runs it on the names it keeps (`Catalog.execIdent`): a name holds a table or an index, a
statement fails on a missing table or on a name already taken, and `DROP TABLE` takes the
table's indexes with it. The order `ORDER BY way` produces is a parameter (`sortByWay`). Column
names are not checked, and are left as written.

`stopOne_finishes`: on a table whose other names are free and whose statements name only
identifiers PostgreSQL keeps whole (`stopOneNames`), the statements run to the end and leave the
table with its rows sorted, readable by `PUBLIC`, with exactly the indexes its `CREATE INDEX`
statements name, among them the `osm_id` index the diffs need exactly in slim mode without
`droptemp`, and every other name as it was. The index names never clash: the suffixes differ,
and `%i` of two column numbers differ (`digitsValue_toDigits`). The four tables' names never
extend one another (`tableName_unique`), which is what lets `stop` run them in parallel.

The bound is needed: on a table whose name has 63 bytes or more, `<name>_tmp` is cut back to the
table's own name, and the copy cannot be created (`stopOne_long_name_fails`). With the suffix
`_polygon`, that is every prefix of 55 characters or more.
-/

set_option autoImplicit false

namespace OsmPgsql

/-! ## The table names of `start` -/

/-- The suffix `start` appends to the prefix for each table. -/
def Table.suffix : Table → List Char
  | .point => "_point".toList
  | .line => "_line".toList
  | .poly => "_polygon".toList
  | .roads => "_roads".toList

/-- `name`: `m_options->prefix`, or the empty string, then the table's suffix. -/
def tableName (pfx : Option (List Char)) (t : Table) : List Char := pfx.getD [] ++ t.suffix

/-- The tables in the order of `m_tables`. -/
def allTables : List Table := [.point, .line, .poly, .roads]

theorem mem_allTables (T : Table) : T ∈ allTables := by
  cases T <;> decide

theorem Table.eq_of_suffix_prefix {T U : Table} : T.suffix <+: U.suffix → T = U := by
  cases T <;> cases U <;> decide

/-- A name extends at most one table's name. -/
theorem tableName_unique {pfx : Option (List Char)} {T U : Table} {x : List Char}
    (hT : tableName pfx T <+: x) (hU : tableName pfx U <+: x) : T = U := by
  rcases List.prefix_or_prefix_of_prefix hT hU with h | h
  · exact Table.eq_of_suffix_prefix ((List.prefix_append_right_inj _).mp h)
  · exact (Table.eq_of_suffix_prefix ((List.prefix_append_right_inj _).mp h)).symm

theorem tableName_append_ne {pfx : Option (List Char)} {s : List Char} (hs : s ≠ []) (T U : Table) :
    tableName pfx T ++ s ≠ tableName pfx U := fun e => by
  have hU : tableName pfx U <+: tableName pfx T ++ s := e ▸ List.prefix_refl _
  obtain rfl := tableName_unique (List.prefix_append _ s) hU
  exact hs (List.append_right_eq_self.mp e)

/-! ## The statements of `pgsql_out_stop_one` -/

/-- The index methods the finaliser uses. -/
inductive IndexMethod where
  | gist
  | btree
  | gin
  deriving DecidableEq, Repr

/-- One statement sent through `pgsql_exec`. -/
inductive Stmt where
  /-- `ANALYZE t;` -/
  | analyze (t : List Char)
  /-- `CREATE TABLE tmp [TABLESPACE ts] AS SELECT * FROM t ORDER BY way;` -/
  | createSorted (tmp t : List Char) (tablespace : Option String)
  /-- `DROP TABLE t;` -/
  | dropTable (t : List Char)
  /-- `ALTER TABLE tmp RENAME TO t;` -/
  | renameTmp (tmp t : List Char)
  /-- `CREATE INDEX name ON t USING method (column) [WITH (FILLFACTOR=100)] [TABLESPACE ts];` -/
  | createIndex (name t : List Char) (method : IndexMethod) (column : List Char)
      (fillfactor100 : Bool) (tablespace : Option String)
  /-- `GRANT SELECT ON t TO PUBLIC;` -/
  | grantSelect (t : List Char)
  deriving DecidableEq, Repr

/-- The names a statement reads or writes. -/
def Stmt.names : Stmt → List (List Char)
  | .analyze t | .dropTable t | .grantSelect t => [t]
  | .createSorted tmp t _ | .renameTmp tmp t => [tmp, t]
  | .createIndex x t _ _ _ _ => [x, t]

/-- PostgreSQL's `NAMEDATALEN - 1`: the bytes of an identifier it keeps. -/
def maxIdentLength : Nat := 63

/-- An identifier as PostgreSQL keeps it: a longer one is cut to its first 63 bytes. -/
def ident (x : List Char) : List Char := x.take maxIdentLength

/-- The statement as PostgreSQL's scanner hands it on, every table and index name cut by
`ident`. -/
def Stmt.truncate : Stmt → Stmt
  | .analyze t => .analyze (ident t)
  | .createSorted tmp t ts => .createSorted (ident tmp) (ident t) ts
  | .dropTable t => .dropTable (ident t)
  | .renameTmp tmp t => .renameTmp (ident tmp) (ident t)
  | .createIndex x t m col f ts => .createIndex (ident x) (ident t) m col f ts
  | .grantSelect t => .grantSelect (ident t)

theorem ident_of_length_le {x : List Char} (h : x.length ≤ maxIdentLength) : ident x = x :=
  List.take_of_length_le h

theorem Stmt.names_truncate (s : Stmt) : s.truncate.names = s.names.map ident := by
  cases s <;> rfl

/-- A statement whose names fit is run as written. -/
theorem Stmt.truncate_of_fits {s : Stmt} (h : ∀ x ∈ s.names, x.length ≤ maxIdentLength) :
    s.truncate = s := by
  cases s <;> simp_all [Stmt.names, Stmt.truncate, ident_of_length_le]

/-- Cutting a name keeps a prefix that fits. -/
theorem prefix_ident {t x : List Char} (h : t <+: x) (ht : t.length ≤ maxIdentLength) :
    t <+: ident x := by
  obtain ⟨u, rfl⟩ := h
  rw [ident, List.take_append_eq_append_take, List.take_of_length_le ht]
  exact List.prefix_append _ _

/-- The options `pgsql_out_stop_one` reads besides `slim` and `droptemp`. `hstore` is
`HSTORE_NONE != enable_hstore`. -/
structure IndexOptions where
  append : Bool
  tblsmainData : Option String
  tblsmainIndex : Option String
  enableHstoreIndex : Bool
  hstore : Bool
  hstoreColumns : List (List Char)
  deriving Inhabited

/-- `%s_tmp`. -/
def tmpName (t : List Char) : List Char := t ++ "_tmp".toList

/-- The suffix of the index on the `i`-th hstore column: `_hstore_%i_index`. -/
def hstoreSuffix (i : Nat) : List Char := "_hstore_".toList ++ (toString i).toList ++ "_index".toList

/-- The loop over `hstore_columns` (lines 569–576 and 586–593), from column `i` on. -/
def hstoreIndexes (t : List Char) (tablespace : Option String) : Nat → List (List Char) → List Stmt
  | _, [] => []
  | i, col :: cols =>
    .createIndex (t ++ hstoreSuffix i) t .gin ("\"".toList ++ col ++ "\"".toList) false tablespace ::
      hstoreIndexes t tablespace (i + 1) cols

/-- The indexes of lines 532–597. The geometry index gets `FILLFACTOR=100` unless the table will
take diffs; the `osm_id` index comes only then. The branches on slim mode around the hstore
indexes send the same statements. -/
def indexStmts (opts : Options) (ix : IndexOptions) (t : List Char) : List Stmt :=
  let diffs := opts.slim && !opts.droptemp
  .createIndex (t ++ "_index".toList) t .gist "way".toList (!diffs) ix.tblsmainIndex ::
    ((if diffs then
      [.createIndex (t ++ "_pkey".toList) t .btree "osm_id".toList false ix.tblsmainIndex] else []) ++
    if ix.enableHstoreIndex then
      (if ix.hstore then
        [.createIndex (t ++ "_tags_index".toList) t .gin "tags".toList false ix.tblsmainIndex]
      else []) ++ hstoreIndexes t ix.tblsmainIndex 0 ix.hstoreColumns
    else [])

/-- `pgsql_out_stop_one` on the table named `t` whose copy buffer holds `buflen` bytes: the
statements it sends, in order, or the message it ends the import with. -/
def pgsqlOutStopOne (opts : Options) (ix : IndexOptions) (t : List Char) (buflen : Nat) :
    Except String (List Stmt) :=
  let name := String.mk t
  if buflen ≠ 0 then .error s!"Internal error: Buffer for {name} has {buflen} bytes after end copy"
  else if ix.append then .ok []
  else .ok ([.analyze t, .createSorted (tmpName t) t ix.tblsmainData, .dropTable t,
    .renameTmp (tmpName t) t] ++ indexStmts opts ix t ++ [.grantSelect t, .analyze t])

/-! ## What the statements do -/

/-- What the database holds under one name: a table, its rows and whether `PUBLIC` may read
it, or an index on a table. -/
inductive Relation where
  | table (rows : List Row) (public : Bool)
  | index (table : List Char) (method : IndexMethod) (column : List Char)
  deriving DecidableEq, Repr

/-- The relations of the database, by name. -/
structure Catalog where
  rel : List Char → Option Relation

namespace Catalog

theorem ext {c d : Catalog} (h : ∀ x, c.rel x = d.rel x) : c = d := by
  cases c; cases d
  simp only [mk.injEq]
  exact funext h

/-- The relation under `x` replaced. -/
def set (c : Catalog) (x : List Char) (r : Option Relation) : Catalog :=
  ⟨Function.update c.rel x r⟩

@[simp] theorem set_rel (c : Catalog) (x : List Char) (r : Option Relation) (y : List Char) :
    (c.set x r).rel y = if y = x then r else c.rel y := by
  simp [set, Function.update_apply]

/-- Whether `t` names a table. -/
def isTable (c : Catalog) (t : List Char) : Bool :=
  match c.rel t with
  | some (.table _ _) => true
  | _ => false

/-- An index on `t` goes with it. -/
def dropOn (t : List Char) : Option Relation → Option Relation
  | some (.index t' m col) => if t' = t then none else some (.index t' m col)
  | r => r

/-- An index on `tmp` follows it to `t`. -/
def retarget (tmp t : List Char) : Option Relation → Option Relation
  | some (.index t' m col) => some (.index (if t' = tmp then t else t') m col)
  | r => r

variable (sortByWay : List Row → List Row)

/-- One statement on the names as PostgreSQL keeps them, or `none` where it refuses it: a
missing table, or a name already taken. -/
def execIdent (c : Catalog) : Stmt → Option Catalog
  | .analyze t => if c.isTable t then some c else none
  | .createSorted tmp t _ =>
    match c.rel t, c.rel tmp with
    | some (.table rows _), none => some (c.set tmp (some (.table (sortByWay rows) false)))
    | _, _ => none
  | .dropTable t =>
    if c.isTable t then some ⟨fun x => if x = t then none else dropOn t (c.rel x)⟩ else none
  | .renameTmp tmp t =>
    match c.rel tmp, c.rel t with
    | some (.table rows p), none =>
      some ⟨fun x => if x = t then some (.table rows p) else if x = tmp then none
        else retarget tmp t (c.rel x)⟩
    | _, _ => none
  | .createIndex x t m col _ _ =>
    if c.isTable t ∧ c.rel x = none then some (c.set x (some (.index t m col))) else none
  | .grantSelect t =>
    match c.rel t with
    | some (.table rows _) => some (c.set t (some (.table rows true)))
    | _ => none

/-- One statement sent through `pgsql_exec`: its identifiers cut, then run. -/
def exec (c : Catalog) (s : Stmt) : Option Catalog := c.execIdent sortByWay s.truncate

/-- The statements in order, up to the first that fails. -/
def runSql (c : Catalog) (stmts : List Stmt) : Option Catalog := stmts.foldlM (exec sortByWay) c

@[simp] theorem runSql_nil (c : Catalog) : c.runSql sortByWay [] = some c := rfl

theorem runSql_cons (c : Catalog) (s : Stmt) (stmts : List Stmt) :
    c.runSql sortByWay (s :: stmts) = (c.exec sortByWay s).bind fun c' => c'.runSql sortByWay stmts :=
  rfl

theorem runSql_append (c : Catalog) (as bs : List Stmt) :
    c.runSql sortByWay (as ++ bs) = (c.runSql sortByWay as).bind fun c' => c'.runSql sortByWay bs := by
  simp [runSql, List.foldlM_append]

/-! ## One statement at a time -/

variable {sortByWay} {c : Catalog} {t : List Char} {rows : List Row} {p : Bool}

/-- A statement whose names PostgreSQL keeps whole runs as written. -/
theorem exec_of_fits {s : Stmt} (h : ∀ x ∈ s.names, x.length ≤ maxIdentLength) :
    c.exec sortByWay s = c.execIdent sortByWay s := by
  rw [exec, Stmt.truncate_of_fits h]

theorem length_le_tmpName (t : List Char) : t.length ≤ (tmpName t).length := by
  simp [tmpName]

theorem exec_analyze (hfit : t.length ≤ maxIdentLength) (h : c.rel t = some (.table rows p)) :
    c.exec sortByWay (.analyze t) = some c := by
  rw [exec_of_fits (by simpa [Stmt.names] using hfit)]
  simp [execIdent, isTable, h]

theorem exec_createSorted (hfit : (tmpName t).length ≤ maxIdentLength)
    (h : c.rel t = some (.table rows p)) (h' : c.rel (tmpName t) = none) (ts : Option String) :
    c.exec sortByWay (.createSorted (tmpName t) t ts) =
      some (c.set (tmpName t) (some (.table (sortByWay rows) false))) := by
  rw [exec_of_fits (by simp [Stmt.names, hfit, (length_le_tmpName t).trans hfit])]
  simp [execIdent, h, h']

/-- `DROP TABLE` on a table with no index. -/
theorem exec_dropTable (hfit : t.length ≤ maxIdentLength) (h : c.rel t = some (.table rows p))
    (hno : ∀ x m col, c.rel x ≠ some (.index t m col)) :
    c.exec sortByWay (.dropTable t) = some (c.set t none) := by
  rw [exec_of_fits (by simpa [Stmt.names] using hfit)]
  simp only [execIdent, isTable, h, if_true, Option.some.injEq]
  refine ext fun x => ?_
  dsimp only
  rw [set_rel]
  split_ifs with hx
  · rfl
  · cases hr : c.rel x with
    | none => rfl
    | some r =>
      cases r with
      | table => rfl
      | index t' m col =>
        have ht : t' ≠ t := fun e => hno x m col (e ▸ hr)
        simp [dropOn, ht]

/-- The rename, when no index names the copy. -/
theorem exec_renameTmp (hfit : (tmpName t).length ≤ maxIdentLength)
    (h : c.rel (tmpName t) = some (.table rows p)) (h' : c.rel t = none)
    (hno : ∀ x m col, c.rel x ≠ some (.index (tmpName t) m col)) :
    c.exec sortByWay (.renameTmp (tmpName t) t) =
      some ((c.set t (some (.table rows p))).set (tmpName t) none) := by
  rw [exec_of_fits (by simp [Stmt.names, hfit, (length_le_tmpName t).trans hfit])]
  simp only [execIdent, h, h', Option.some.injEq]
  refine ext fun x => ?_
  dsimp only
  simp only [set_rel]
  split_ifs with h₁ h₂ h₂
  · subst h₁; exact absurd h₂ (by simp [tmpName])
  · rfl
  · rfl
  · cases hr : c.rel x with
    | none => rfl
    | some r =>
      cases r with
      | table => rfl
      | index t' m col =>
        have ht : t' ≠ tmpName t := fun e => hno x m col (e ▸ hr)
        simp [retarget, ht]

theorem exec_createIndex (ht : t.length ≤ maxIdentLength) {x : List Char}
    (hxl : x.length ≤ maxIdentLength) (h : c.rel t = some (.table rows p)) (hx : c.rel x = none)
    (m : IndexMethod) (col : List Char) (f : Bool) (ts : Option String) :
    c.exec sortByWay (.createIndex x t m col f ts) = some (c.set x (some (.index t m col))) := by
  rw [exec_of_fits (by simp [Stmt.names, ht, hxl])]
  simp [execIdent, isTable, h, hx]

theorem exec_grantSelect (hfit : t.length ≤ maxIdentLength) (h : c.rel t = some (.table rows p)) :
    c.exec sortByWay (.grantSelect t) = some (c.set t (some (.table rows true))) := by
  rw [exec_of_fits (by simpa [Stmt.names] using hfit)]
  simp [execIdent, h]

end Catalog

/-! ## The indexes -/

/-- The name, method and column of a `CREATE INDEX`. -/
def Stmt.indexDef : Stmt → Option (List Char × IndexMethod × List Char)
  | .createIndex x _ m col _ _ => some (x, m, col)
  | _ => none

/-- The indexes on `t` set under their names. -/
def Catalog.addIndexes (c : Catalog) (t : List Char) (idx : List (List Char × IndexMethod × List Char)) :
    Catalog :=
  idx.foldl (fun c d => c.set d.1 (some (.index t d.2.1 d.2.2))) c

namespace Catalog

variable {sortByWay : List Row → List Row} {t : List Char} {rows : List Row} {p : Bool}

/-- A run of `CREATE INDEX` statements on one table, under fresh and distinct names that fit. -/
theorem runSql_createIndexes (hfit : t.length ≤ maxIdentLength) :
    ∀ {stmts : List Stmt} {c : Catalog}, (∀ s ∈ stmts, ∃ x m col f ts, s = .createIndex x t m col f ts) →
      c.rel t = some (.table rows p) → ((stmts.filterMap Stmt.indexDef).map (·.1)).Nodup →
      (∀ d ∈ stmts.filterMap Stmt.indexDef, d.1 ≠ t ∧ c.rel d.1 = none ∧ d.1.length ≤ maxIdentLength) →
      c.runSql sortByWay stmts = some (c.addIndexes t (stmts.filterMap Stmt.indexDef))
  | [], _, _, _, _, _ => rfl
  | s :: stmts, c, hs, ht, hnd, hfresh => by
    obtain ⟨x, m, col, f, ts, rfl⟩ := hs s (List.mem_cons_self _ _)
    simp only [List.filterMap_cons, Stmt.indexDef, List.map_cons, List.nodup_cons,
      List.mem_cons, forall_eq_or_imp] at hnd hfresh
    rw [runSql_cons, exec_createIndex hfit hfresh.1.2.2 ht hfresh.1.2.1, Option.some_bind,
      runSql_createIndexes hfit (fun s hs' => hs s (List.mem_cons_of_mem _ hs'))
        (by rw [set_rel, if_neg (Ne.symm hfresh.1.1)]; exact ht) hnd.2
        (fun d hd => ⟨(hfresh.2 d hd).1, by
          rw [set_rel, if_neg fun (e : d.1 = x) => hnd.1 (e ▸ List.mem_map_of_mem _ hd)]
          exact (hfresh.2 d hd).2.1, (hfresh.2 d hd).2.2⟩)]
    rfl

theorem set_comm (c : Catalog) {x y : List Char} (h : x ≠ y) (r r' : Option Relation) :
    (c.set x r).set y r' = (c.set y r').set x r := by
  refine ext fun z => ?_
  simp only [set_rel]
  split_ifs with h₁ h₂ <;> first | rfl | exact absurd (h₂.symm.trans h₁) h

theorem addIndexes_set_comm (t : List Char) {x : List Char} (r : Option Relation) :
    ∀ {idx : List (List Char × IndexMethod × List Char)} (c : Catalog), x ∉ idx.map (·.1) →
      (c.addIndexes t idx).set x r = (c.set x r).addIndexes t idx
  | [], _, _ => rfl
  | d :: idx, c, hx => by
    simp only [List.map_cons, List.mem_cons, not_or] at hx
    show ((c.set d.1 (some (.index t d.2.1 d.2.2))).addIndexes t idx).set x r =
      ((c.set x r).set d.1 (some (.index t d.2.1 d.2.2))).addIndexes t idx
    rw [addIndexes_set_comm t r _ hx.2, set_comm c (Ne.symm hx.1)]

theorem rel_addIndexes_of_not_mem (t : List Char) {x : List Char} :
    ∀ {idx : List (List Char × IndexMethod × List Char)} (c : Catalog), x ∉ idx.map (·.1) →
      (c.addIndexes t idx).rel x = c.rel x
  | [], _, _ => rfl
  | d :: idx, c, hx => by
    simp only [List.map_cons, List.mem_cons, not_or] at hx
    rw [addIndexes, List.foldl_cons, ← addIndexes, rel_addIndexes_of_not_mem t _ hx.2, set_rel,
      if_neg hx.1]

theorem rel_addIndexes_of_mem (t : List Char) {x : List Char} {m : IndexMethod} {col : List Char} :
    ∀ {idx : List (List Char × IndexMethod × List Char)} (c : Catalog), (idx.map (·.1)).Nodup →
      (x, m, col) ∈ idx → (c.addIndexes t idx).rel x = some (.index t m col)
  | d :: idx, c, hnd, hx => by
    simp only [List.map_cons, List.nodup_cons] at hnd
    rw [addIndexes, List.foldl_cons, ← addIndexes]
    rcases List.mem_cons.mp hx with rfl | hx
    · rw [rel_addIndexes_of_not_mem t _ hnd.1, set_rel, if_pos rfl]
    · exact rel_addIndexes_of_mem t _ hnd.2 hx

end Catalog

/-! ## The index names never clash -/

/-- The number a string of decimal digits reads as. -/
def digitsValue (ds : List Char) : Nat := ds.foldl (fun acc c => 10 * acc + (c.toNat - '0'.toNat)) 0

theorem toDigitsCore_append (b : Nat) :
    ∀ (fuel n : Nat) (ds : List Char), Nat.toDigitsCore b fuel n ds = Nat.toDigitsCore b fuel n [] ++ ds
  | 0, _, _ => rfl
  | fuel + 1, n, ds => by
    simp only [Nat.toDigitsCore]
    split_ifs
    · rfl
    · rw [toDigitsCore_append b fuel _ (_ :: ds), toDigitsCore_append b fuel _ [_]]
      simp

theorem digitChar_value : ∀ d < 10, (Nat.digitChar d).toNat - '0'.toNat = d := by decide

theorem digitsValue_toDigitsCore : ∀ (fuel n : Nat), n < fuel → digitsValue (Nat.toDigitsCore 10 fuel n []) = n
  | 0, _, h => absurd h (Nat.not_lt_zero _)
  | fuel + 1, n, h => by
    have hd := digitChar_value (n % 10) (Nat.mod_lt n (by decide))
    simp only [Nat.toDigitsCore]
    split_ifs with h0
    · simp only [digitsValue, List.foldl_cons, List.foldl_nil, hd]
      omega
    · rw [toDigitsCore_append, digitsValue, List.foldl_append, ← digitsValue,
        digitsValue_toDigitsCore fuel (n / 10) (by omega)]
      simp only [List.foldl_cons, List.foldl_nil, hd]
      omega

/-- `%i` reads back: the digits of `i` are worth `i`. -/
theorem digitsValue_toDigits (i : Nat) : digitsValue (toString i).toList = i :=
  digitsValue_toDigitsCore (i + 1) i (Nat.lt_succ_self i)

theorem hstoreSuffix_injective : Function.Injective hstoreSuffix := fun i j h => by
  simp only [hstoreSuffix, List.append_assoc, List.append_cancel_left_eq, List.append_left_inj] at h
  rw [← digitsValue_toDigits i, ← digitsValue_toDigits j, h]

theorem hstoreSuffix_take (j : Nat) : (hstoreSuffix j).take 2 = "_h".toList := rfl

theorem hstoreSuffix_ne {j : Nat} {s : List Char} (h : s.take 2 ≠ "_h".toList) : hstoreSuffix j ≠ s :=
  fun e => h (e ▸ hstoreSuffix_take j)

/-- The suffixes of the index names `indexStmts` gives. -/
def indexSuffixes (opts : Options) (ix : IndexOptions) : List (List Char) :=
  "_index".toList :: ((if opts.slim && !opts.droptemp then ["_pkey".toList] else []) ++
    if ix.enableHstoreIndex then
      (if ix.hstore then ["_tags_index".toList] else []) ++
        (List.range' 0 ix.hstoreColumns.length).map hstoreSuffix
    else [])

/-- The table and index names the statements of `pgsql_out_stop_one` on `n` use: the table,
its sorted copy, and its indexes. -/
def stopOneNames (opts : Options) (ix : IndexOptions) (n : List Char) : List (List Char) :=
  n :: tmpName n :: (indexSuffixes opts ix).map (n ++ ·)

theorem indexSuffixes_nodup (opts : Options) (ix : IndexOptions) : (indexSuffixes opts ix).Nodup := by
  have hr : ((List.range' 0 ix.hstoreColumns.length).map hstoreSuffix).Nodup :=
    List.Nodup.map hstoreSuffix_injective (List.nodup_range' 0 _)
  have h₁ : ∀ j, hstoreSuffix j ≠ ['_', 'i', 'n', 'd', 'e', 'x'] := fun j => hstoreSuffix_ne (by decide)
  have h₂ : ∀ j, hstoreSuffix j ≠ ['_', 'p', 'k', 'e', 'y'] := fun j => hstoreSuffix_ne (by decide)
  have h₃ : ∀ j, hstoreSuffix j ≠ ['_', 't', 'a', 'g', 's', '_', 'i', 'n', 'd', 'e', 'x'] := fun j =>
    hstoreSuffix_ne (by decide)
  unfold indexSuffixes
  split_ifs <;> simp +decide [List.nodup_cons, List.nodup_append, hr, h₁, h₂, h₃]

theorem indexSuffixes_ne_nil (opts : Options) (ix : IndexOptions) : ∀ s ∈ indexSuffixes opts ix, s ≠ [] := by
  intro s hs e
  subst e
  simp only [indexSuffixes, List.mem_cons, List.mem_append, List.mem_ite_nil_right,
    List.mem_singleton, List.mem_map] at hs
  rcases hs with h | ⟨-, h⟩ | ⟨-, ⟨-, h⟩ | ⟨j, -, h⟩⟩
  all_goals first | exact absurd h (by decide) | exact hstoreSuffix_ne (by decide) h

theorem hstoreIndexes_on (t : List Char) (ts : Option String) :
    ∀ (i : Nat) (cols : List (List Char)), ∀ s ∈ hstoreIndexes t ts i cols,
      ∃ x m col f ts', s = .createIndex x t m col f ts'
  | _, [] => fun _ hs => absurd hs (List.not_mem_nil _)
  | i, col :: cols => by
    intro s hs
    rcases List.mem_cons.mp hs with rfl | hs
    · exact ⟨_, _, _, _, _, rfl⟩
    · exact hstoreIndexes_on t ts (i + 1) cols s hs

theorem hstoreIndexes_names (t : List Char) (ts : Option String) :
    ∀ (i : Nat) (cols : List (List Char)),
      ((hstoreIndexes t ts i cols).filterMap Stmt.indexDef).map (·.1) =
        (List.range' i cols.length).map (t ++ hstoreSuffix ·)
  | _, [] => rfl
  | i, col :: cols => by
    simp [hstoreIndexes, Stmt.indexDef, List.range'_succ, hstoreIndexes_names t ts (i + 1) cols]

section Names

variable (opts : Options) (ix : IndexOptions) (t : List Char)

theorem indexStmts_on : ∀ s ∈ indexStmts opts ix t, ∃ x m col f ts, s = .createIndex x t m col f ts := by
  intro s hs
  simp only [indexStmts, List.mem_cons, List.mem_append, List.mem_ite_nil_right,
    List.not_mem_nil, or_false] at hs
  rcases hs with rfl | ⟨-, rfl⟩ | ⟨-, ⟨-, rfl⟩ | hs⟩
  · exact ⟨_, _, _, _, _, rfl⟩
  · exact ⟨_, _, _, _, _, rfl⟩
  · exact ⟨_, _, _, _, _, rfl⟩
  · exact hstoreIndexes_on t _ 0 _ s hs

theorem indexStmts_names :
    ((indexStmts opts ix t).filterMap Stmt.indexDef).map (·.1) = (indexSuffixes opts ix).map (t ++ ·) := by
  simp only [indexStmts, indexSuffixes]
  split_ifs <;> simp [Stmt.indexDef, List.filterMap_append, hstoreIndexes_names]

/-- The index names `indexStmts` gives are distinct, and each extends the table's name. -/
theorem indexStmts_names_nodup : (((indexStmts opts ix t).filterMap Stmt.indexDef).map (·.1)).Nodup := by
  rw [indexStmts_names]
  exact (indexSuffixes_nodup opts ix).map (List.append_right_injective t)

theorem indexStmts_name_mem {d : List Char × IndexMethod × List Char}
    (hd : d ∈ (indexStmts opts ix t).filterMap Stmt.indexDef) : ∃ s ≠ [], d.1 = t ++ s := by
  have hm : d.1 ∈ (indexSuffixes opts ix).map (t ++ ·) := indexStmts_names opts ix t ▸ List.mem_map_of_mem _ hd
  obtain ⟨s, hs, e⟩ := List.mem_map.mp hm
  exact ⟨s, indexSuffixes_ne_nil opts ix s hs, e.symm⟩

end Names

/-! ## The database `stop` finds -/

namespace Catalog

/-- The database as the import leaves it to `stop`: the four tables under their names, with
their rows, not yet readable by `PUBLIC`, and nothing else. -/
def imported (pfx : Option (List Char)) (rows : Table → List Row) : Catalog :=
  ⟨fun x => (allTables.find? (tableName pfx · == x)).map fun T => .table (rows T) false⟩

variable (pfx : Option (List Char)) (rows : Table → List Row)

theorem imported_tableName (T : Table) :
    (imported pfx rows).rel (tableName pfx T) = some (.table (rows T) false) := by
  cases h : allTables.find? (tableName pfx · == tableName pfx T) with
  | none => exact absurd (List.find?_eq_none.mp h T (mem_allTables T)) (by simp)
  | some U =>
    have e : tableName pfx U = tableName pfx T := by simpa using List.find?_some h
    have hT : tableName pfx T <+: tableName pfx U := e ▸ List.prefix_refl _
    have hU : U = T := tableName_unique (List.prefix_refl _) hT
    simp only [imported, h, Option.map_some', hU]

theorem imported_eq_none {x : List Char} (hx : ∀ T, tableName pfx T ≠ x) :
    (imported pfx rows).rel x = none := by
  simp [imported, hx]

theorem imported_ne_index (x t : List Char) (m : IndexMethod) (col : List Char) :
    (imported pfx rows).rel x ≠ some (.index t m col) := by
  simp [imported]

/-- Past a table's name, the imported database holds nothing. -/
theorem imported_free (T : Table) {s : List Char} (hs : s ≠ []) :
    (imported pfx rows).rel (tableName pfx T ++ s) = none :=
  imported_eq_none pfx rows fun U => (tableName_append_ne hs T U).symm

end Catalog

/-! ## One table -/

namespace Catalog

variable (sortByWay : List Row → List Row) {c : Catalog} {n : List Char} {rows : List Row} {p : Bool}

theorem tmpName_ne (n : List Char) : tmpName n ≠ n := fun h => by
  simpa [tmpName] using congrArg List.length h

/-- The sorted copy takes the table's place, when no index hangs on either name. -/
theorem runSql_cluster (hfit : (tmpName n).length ≤ maxIdentLength) (hn : c.rel n = some (.table rows p))
    (htmp : c.rel (tmpName n) = none)
    (hno : ∀ x t m col, c.rel x = some (.index t m col) → t ≠ n ∧ t ≠ tmpName n) (ts : Option String) :
    c.runSql sortByWay [.analyze n, .createSorted (tmpName n) n ts, .dropTable n, .renameTmp (tmpName n) n] =
      some (c.set n (some (.table (sortByWay rows) false))) := by
  have hne := tmpName_ne n
  have hfit' := (length_le_tmpName n).trans hfit
  simp only [runSql_cons, runSql_nil, exec_analyze hfit' hn, exec_createSorted hfit hn htmp,
    Option.some_bind]
  rw [exec_dropTable hfit' (by rw [set_rel, if_neg hne.symm]; exact hn) fun x m col h => by
      rw [set_rel] at h
      split_ifs at h <;> first | cases h | exact (hno x n m col h).1 rfl,
    Option.some_bind, exec_renameTmp hfit (by rw [set_rel, if_neg hne, set_rel, if_pos rfl])
      (by rw [set_rel, if_pos rfl]) fun x m col h => by
      simp only [set_rel] at h
      split_ifs at h <;> first | cases h | exact (hno x _ m col h).2 rfl,
    Option.some_bind]
  refine congrArg some (ext fun x => ?_)
  by_cases h₁ : x = n
  · subst h₁
    simp [hne.symm]
  · by_cases h₂ : x = tmpName n
    · subst h₂
      simp [hne, htmp]
    · simp [h₁, h₂]

theorem set_set (c : Catalog) (x : List Char) (r r' : Option Relation) :
    (c.set x r).set x r' = c.set x r' :=
  ext fun y => by simp only [set_rel]; split_ifs <;> rfl

/-- The database `pgsql_out_stop_one` leaves of `c` when table `n` held `rows`: the table sorted
and readable by `PUBLIC`, with the indexes its `CREATE INDEX` statements name. -/
def stopOneResult (c : Catalog) (opts : Options) (ix : IndexOptions) (n : List Char) (rows : List Row) :
    Catalog :=
  (c.set n (some (.table (sortByWay rows) true))).addIndexes n ((indexStmts opts ix n).filterMap Stmt.indexDef)

/-- Outside append mode, on a table whose other names are free and on which no index hangs, the
statements of `pgsql_out_stop_one` all succeed: the table ends sorted, readable by `PUBLIC`,
with the indexes its `CREATE INDEX` statements name. -/
theorem runSql_stopOne (hn : c.rel n = some (.table rows p))
    (hfree : ∀ s, s ≠ [] → c.rel (n ++ s) = none)
    (hidx : ∀ x t m col, c.rel x = some (.index t m col) → ¬ n <+: t)
    (opts : Options) (ix : IndexOptions) (happend : ix.append = false)
    (hfit : ∀ x ∈ stopOneNames opts ix n, x.length ≤ maxIdentLength) :
    ∃ stmts, pgsqlOutStopOne opts ix n 0 = .ok stmts ∧
      c.runSql sortByWay stmts = some (c.stopOneResult sortByWay opts ix n rows) := by
  refine ⟨[.analyze n, .createSorted (tmpName n) n ix.tblsmainData, .dropTable n,
    .renameTmp (tmpName n) n] ++ indexStmts opts ix n ++ [.grantSelect n, .analyze n],
    by simp [pgsqlOutStopOne, happend], ?_⟩
  have hn' : n.length ≤ maxIdentLength := hfit n (List.mem_cons_self _ _)
  have hno : ∀ x t m col, c.rel x = some (.index t m col) → t ≠ n ∧ t ≠ tmpName n :=
    fun x t m col h => ⟨fun e => hidx x t m col h (e ▸ List.prefix_refl n),
      fun e => hidx x t m col h (e ▸ List.prefix_append n _)⟩
  have hfresh : ∀ d ∈ (indexStmts opts ix n).filterMap Stmt.indexDef, d.1 ≠ n ∧
      (c.set n (some (.table (sortByWay rows) false))).rel d.1 = none ∧
      d.1.length ≤ maxIdentLength := fun d hd => by
    have hm : d.1 ∈ (indexSuffixes opts ix).map (n ++ ·) :=
      indexStmts_names opts ix n ▸ List.mem_map_of_mem _ hd
    obtain ⟨s, hs, e⟩ := List.mem_map.mp hm
    have hne : d.1 ≠ n := e ▸ mt List.append_right_eq_self.mp (indexSuffixes_ne_nil opts ix s hs)
    refine ⟨hne, by rw [set_rel, if_neg hne, ← e]; exact hfree s (indexSuffixes_ne_nil opts ix s hs),
      hfit _ (List.mem_cons_of_mem _ (List.mem_cons_of_mem _ hm))⟩
  have hout : n ∉ ((indexStmts opts ix n).filterMap Stmt.indexDef).map (·.1) := fun h => by
    obtain ⟨d, hd, e⟩ := List.mem_map.mp h
    exact (hfresh d hd).1 e
  rw [runSql_append, runSql_append, runSql_cluster sortByWay
      (hfit _ (List.mem_cons_of_mem _ (List.mem_cons_self _ _))) hn (hfree _ (by simp)) hno,
    Option.some_bind, runSql_createIndexes hn' (indexStmts_on opts ix n) (by rw [set_rel, if_pos rfl])
      (indexStmts_names_nodup opts ix n) hfresh, Option.some_bind]
  have hsorted : ((c.set n (some (.table (sortByWay rows) false))).addIndexes n
      ((indexStmts opts ix n).filterMap Stmt.indexDef)).rel n = some (.table (sortByWay rows) false) := by
    rw [rel_addIndexes_of_not_mem n _ hout, set_rel, if_pos rfl]
  rw [runSql_cons, exec_grantSelect hn' hsorted, Option.some_bind, runSql_cons,
    exec_analyze hn' (by rw [set_rel, if_pos rfl]), Option.some_bind, runSql_nil,
    addIndexes_set_comm n _ _ hout, set_set]
  rfl

theorem mem_indexSuffixes {opts : Options} {ix : IndexOptions} {s : List Char}
    (hs : s ∈ indexSuffixes opts ix) :
    s = "_index".toList ∨ (s = "_pkey".toList ∧ (opts.slim && !opts.droptemp) = true) ∨
      s = "_tags_index".toList ∨ ∃ j, s = hstoreSuffix j := by
  simp only [indexSuffixes, List.mem_cons, List.mem_append, List.mem_ite_nil_right,
    List.not_mem_nil, or_false, List.mem_map] at hs
  rcases hs with h | ⟨hd, h⟩ | ⟨-, ⟨-, h⟩ | ⟨j, -, h⟩⟩
  exacts [.inl h, .inr (.inl ⟨h, hd⟩), .inr (.inr (.inl h)), .inr (.inr (.inr ⟨j, h.symm⟩))]

/-- What `pgsql_out_stop_one` leaves of table `n`, which held `rows`: its rows in the order of
`ORDER BY way` and readable by `PUBLIC`, no sorted copy left, the GiST index on `way`, and the
B-tree index on `osm_id` exactly when the import is slim without `droptemp`. -/
structure Finished (opts : Options) (n : List Char) (rows : List Row) (c' : Catalog) : Prop where
  sorted : c'.rel n = some (.table (sortByWay rows) true)
  noTmp : c'.rel (tmpName n) = none
  geomIndex : c'.rel (n ++ "_index".toList) = some (.index n .gist "way".toList)
  idIndex : c'.rel (n ++ "_pkey".toList) = some (.index n .btree "osm_id".toList) ↔
    opts.slim = true ∧ opts.droptemp = false

theorem not_mem_indexNames {opts : Options} {ix : IndexOptions} {x : List Char}
    (hx : ∀ s ∈ indexSuffixes opts ix, x ≠ n ++ s) :
    x ∉ ((indexStmts opts ix n).filterMap Stmt.indexDef).map (·.1) := fun h => by
  rw [indexStmts_names, List.mem_map] at h
  obtain ⟨s, hs, rfl⟩ := h
  exact hx s hs rfl

/-- `pgsql_out_stop_one` changes no name that does not extend the table's. -/
theorem stopOneResult_outside (opts : Options) (ix : IndexOptions) {x : List Char} (hx : ¬ n <+: x) :
    (c.stopOneResult sortByWay opts ix n rows).rel x = c.rel x := by
  rw [stopOneResult, rel_addIndexes_of_not_mem n _
      (not_mem_indexNames fun s _ (e : x = n ++ s) => hx (e ▸ List.prefix_append n s)),
    set_rel, if_neg fun (e : x = n) => hx (e ▸ List.prefix_refl n)]

theorem stopOneResult_finished (rows : List Row) (hfree : ∀ s, s ≠ [] → c.rel (n ++ s) = none)
    (opts : Options) (ix : IndexOptions) : Finished sortByWay opts n rows (c.stopOneResult sortByWay opts ix n rows) := by
  have hnd := indexStmts_names_nodup opts ix n
  have hfresh : ∀ s, s ≠ [] → (∀ s' ∈ indexSuffixes opts ix, s ≠ s') →
      (c.stopOneResult sortByWay opts ix n rows).rel (n ++ s) = none := fun s h0 hs => by
    rw [stopOneResult, rel_addIndexes_of_not_mem n _
        (not_mem_indexNames fun s' hs' e => hs s' hs' (List.append_cancel_left e)),
      set_rel, if_neg (mt List.append_right_eq_self.mp h0), hfree s h0]
  refine ⟨?_, ?_, ?_, ?_⟩
  · rw [stopOneResult, rel_addIndexes_of_not_mem n _ (not_mem_indexNames fun s hs e =>
      indexSuffixes_ne_nil opts ix s hs (List.append_right_eq_self.mp e.symm)), set_rel, if_pos rfl]
  · refine hfresh _ (by decide) fun s hs e => ?_
    rcases mem_indexSuffixes hs with h | ⟨h, -⟩ | h | ⟨j, h⟩
    all_goals first | exact absurd (e.trans h) (by decide) | exact hstoreSuffix_ne (by decide) (e.trans h).symm
  · exact rel_addIndexes_of_mem n _ hnd (List.mem_cons_self _ _)
  · cases hd : opts.slim && !opts.droptemp
    · rw [hfresh _ (by decide) fun s hs e => ?_]
      · constructor
        · intro h; cases h
        · rintro ⟨h₁, h₂⟩
          rw [h₁, h₂] at hd
          exact absurd hd (by decide)
      · rcases mem_indexSuffixes hs with h | ⟨h, h'⟩ | h | ⟨j, h⟩
        · exact absurd (e.trans h) (by decide)
        · exact absurd (h'.symm.trans hd) (by decide)
        · exact absurd (e.trans h) (by decide)
        · exact hstoreSuffix_ne (by decide) (e.trans h).symm
    · have hmem : (n ++ "_pkey".toList, IndexMethod.btree, "osm_id".toList) ∈
          (indexStmts opts ix n).filterMap Stmt.indexDef := by
        simp only [indexStmts, hd, if_true, List.singleton_append, List.filterMap_cons, Stmt.indexDef]
        exact List.mem_cons_of_mem _ (List.mem_cons_self _ _)
      rw [stopOneResult, rel_addIndexes_of_mem n _ hnd hmem]
      simpa using hd

/-- FINISHING ONE TABLE: outside append mode, on a table whose other names are free and on which
no index hangs, and whose statements name only names PostgreSQL keeps whole, every statement of
`pgsql_out_stop_one` succeeds. The table ends with its rows
in the order of `ORDER BY way`, readable by `PUBLIC`; the sorted copy is gone; the table has its
GiST index on `way`, and the B-tree index on `osm_id` that applying diffs needs exactly when
the import is slim without `droptemp`; no name outside the table's changes. -/
theorem stopOne_finishes (hn : c.rel n = some (.table rows p))
    (hfree : ∀ s, s ≠ [] → c.rel (n ++ s) = none)
    (hidx : ∀ x t m col, c.rel x = some (.index t m col) → ¬ n <+: t)
    (opts : Options) (ix : IndexOptions) (happend : ix.append = false)
    (hfit : ∀ x ∈ stopOneNames opts ix n, x.length ≤ maxIdentLength) :
    ∃ stmts c', pgsqlOutStopOne opts ix n 0 = .ok stmts ∧ c.runSql sortByWay stmts = some c' ∧
      c'.rel n = some (.table (sortByWay rows) true) ∧ c'.rel (tmpName n) = none ∧
      c'.rel (n ++ "_index".toList) = some (.index n .gist "way".toList) ∧
      (c'.rel (n ++ "_pkey".toList) = some (.index n .btree "osm_id".toList) ↔
        opts.slim = true ∧ opts.droptemp = false) ∧
      ∀ x, ¬ n <+: x → c'.rel x = c.rel x := by
  obtain ⟨stmts, hstmts, hrun⟩ := runSql_stopOne sortByWay hn hfree hidx opts ix happend hfit
  have hf := stopOneResult_finished sortByWay rows hfree opts ix
  exact ⟨stmts, _, hstmts, hrun, hf.sorted, hf.noTmp, hf.geomIndex, hf.idIndex,
    fun x hx => stopOneResult_outside sortByWay opts ix hx⟩

/-- The point table of a slim import with no prefix, finished alone. -/
theorem stopOne_finishes_point :
    ((imported none fun _ => []).rel (tableName none .point) = some (.table [] false) ∧
      (∀ s, s ≠ [] → (imported none fun _ => []).rel (tableName none .point ++ s) = none) ∧
      (∀ x t m col, (imported none fun _ => []).rel x = some (.index t m col) →
        ¬ tableName none .point <+: t) ∧
      ∀ x ∈ stopOneNames ⟨true, false, false, false⟩ default (tableName none .point),
        x.length ≤ maxIdentLength) ∧
    ∃ stmts c', pgsqlOutStopOne ⟨true, false, false, false⟩ default (tableName none .point) 0 = .ok stmts ∧
      (imported none fun _ => []).runSql id stmts = some c' ∧
      c'.rel (tableName none .point) = some (.table (id []) true) ∧
      c'.rel (tmpName (tableName none .point)) = none ∧
      c'.rel (tableName none .point ++ "_index".toList) =
        some (.index (tableName none .point) .gist "way".toList) ∧
      (c'.rel (tableName none .point ++ "_pkey".toList) =
          some (.index (tableName none .point) .btree "osm_id".toList) ↔
        true = true ∧ false = false) ∧
      ∀ x, ¬ tableName none .point <+: x → c'.rel x = (imported none fun _ => []).rel x :=
  have hn := imported_tableName none (fun _ => []) .point
  have hfree : ∀ s, s ≠ [] → (imported none fun _ => []).rel (tableName none .point ++ s) = none :=
    fun _ hs => imported_free none _ .point hs
  have hidx : ∀ x t m col, (imported none fun _ => []).rel x = some (.index t m col) →
      ¬ tableName none .point <+: t := fun x t m col h => absurd h (imported_ne_index none _ x t m col)
  have hfit : ∀ x ∈ stopOneNames ⟨true, false, false, false⟩ default (tableName none .point),
      x.length ≤ maxIdentLength := by decide
  ⟨⟨hn, hfree, hidx, hfit⟩, stopOne_finishes id hn hfree hidx ⟨true, false, false, false⟩ default rfl hfit⟩

/-- A TABLE NAME TOO LONG: on a table whose name has 63 bytes or more, PostgreSQL cuts
`<name>_tmp` back to the name it keeps for the table itself, so outside append mode the
`CREATE TABLE` of the sorted copy is refused and the import ends. With the suffix `_polygon`,
the polygon table has such a name for every prefix of 55 characters or more. -/
theorem stopOne_long_name_fails (hlen : maxIdentLength ≤ n.length)
    (hn : c.rel (ident n) = some (.table rows p)) (opts : Options) (ix : IndexOptions)
    (happend : ix.append = false) :
    ∃ stmts, pgsqlOutStopOne opts ix n 0 = .ok stmts ∧ c.runSql sortByWay stmts = none := by
  refine ⟨_, by rw [pgsqlOutStopOne, if_neg (by decide), if_neg (by simp [happend])], ?_⟩
  have htmp : ident (tmpName n) = ident n := by
    rw [ident, ident, tmpName, List.take_append_of_le_length hlen]
  have hanalyze : c.exec sortByWay (.analyze n) = some c := by
    simp [exec, Stmt.truncate, execIdent, isTable, hn]
  have hrefused : c.exec sortByWay (.createSorted (tmpName n) n ix.tblsmainData) = none := by
    simp [exec, Stmt.truncate, execIdent, hn, htmp]
  simp only [List.cons_append, runSql_cons, hanalyze, Option.some_bind, hrefused, Option.none_bind]

/-- A prefix of 55 characters: the polygon table's name has 63. -/
def longPrefix : List Char := "a_prefix_of_exactly_fifty_five_characters_for_the_table".toList

theorem stopOne_long_name_fails_polygon :
    maxIdentLength ≤ (tableName (some longPrefix) .poly).length ∧
    (imported (some longPrefix) fun _ => []).rel (ident (tableName (some longPrefix) .poly)) =
      some (.table [] false) ∧
    ∃ stmts, pgsqlOutStopOne default default (tableName (some longPrefix) .poly) 0 = .ok stmts ∧
      (imported (some longPrefix) fun _ => []).runSql id stmts = none :=
  have hlen : maxIdentLength ≤ (tableName (some longPrefix) .poly).length := by decide
  have hn : (imported (some longPrefix) fun _ => []).rel (ident (tableName (some longPrefix) .poly)) =
      some (.table [] false) := by
    rw [ident_of_length_le (by decide)]
    exact imported_tableName _ _ _
  ⟨hlen, hn, stopOne_long_name_fails id hlen hn default default rfl⟩

end Catalog

end OsmPgsql
