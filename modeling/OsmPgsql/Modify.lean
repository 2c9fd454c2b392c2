import OsmPgsql.Emit

/-!
# Diffs: a modify is a delete and an add

`node_modify`, `way_modify` and `relation_modify` (lines 989–1024) call the object's delete and
then its add. With a sound `from_db` probe a delete removes every row under the object's key
from the tables it touches (`run_pgsqlDeleteWayFromOutput` and its two siblings), so a modify
call is the add call run on tables cleared at that key: `modify_acts_as_add`.

What an action does to the rows of one table under one key depends on those rows only
(`rowsAt_run`, the frame law), so the rows under the key are those the add call makes from
none, and the rows under every other key, or in a table the delete leaves alone, end as the add
call alone leaves them.

Outside slim mode every diff call stops at `slimError` with no action (`diffs_need_slim`). An
unsound probe, or `droptemp`, under which `pgsql_delete_way_from_output` deletes nothing, is
not treated here.
-/

set_option autoImplicit false

namespace OsmPgsql

/-- `expire->from_db` answers nonzero whenever the probed table holds a row with the key. -/
def OutputPgsql.ProbeSound (o : OutputPgsql) : Prop :=
  ∀ (rows : List Row) (k : Int), (∃ r ∈ rows, r.osmId = k) → o.fromDb rows k ≠ 0

/-- The rows of table `t` under key `k`. -/
def Db.rowsAt (db : Db) (t : Table) (k : Int) : List Row := (db.tables t).filter (·.osmId = k)

/-- The tables `ts` with every row under key `k` removed. -/
def Db.clear (db : Db) (ts : List Table) (k : Int) : Db :=
  { db with tables := fun t => if t ∈ ts then dropKey k (db.tables t) else db.tables t }

@[simp] theorem Db.clear_trackers (db : Db) (ts : List Table) (k : Int) :
    (db.clear ts k).trackers = db.trackers := rfl

/-- What one action does to the rows of table `t` under key `k`. -/
def Action.onRows (t : Table) (k : Int) (rs : List Row) : Action → List Row
  | .write t' row => if t' = t ∧ row.osmId = k then rs ++ [row] else rs
  | .deleteRow t' k' | .deleteProbed t' k' => if t' = t ∧ k' = k then [] else rs
  | .mark _ _ => rs

/-! ## Deletion under a sound probe -/

section Delete

variable {o : OutputPgsql} (db : Db)

theorem dropKey_dropKey (k : Int) (rows : List Row) : dropKey k (dropKey k rows) = dropKey k rows := by
  simp [dropKey, List.filter_filter]

theorem Db.exec_deleteRow (t : Table) (k : Int) : db.exec o (.deleteRow t k) = db.clear [t] k := by
  simp only [Db.exec, Db.clear, List.mem_singleton, Db.mk.injEq, and_true]
  funext t'
  by_cases h : t' = t
  · subst h; simp
  · simp [h]

/-- A probed deletion is a plain one when the probe is sound: where the probe answers zero
there is no row to delete. -/
theorem Db.exec_deleteProbed (hp : o.ProbeSound) (t : Table) (k : Int) :
    db.exec o (.deleteProbed t k) = db.exec o (.deleteRow t k) := by
  simp only [Db.exec]
  split_ifs with h
  · rfl
  · have hno : dropKey k (db.tables t) = db.tables t := List.filter_eq_self.mpr fun r hr => by
      simpa using fun e => h (hp _ k ⟨r, hr, e⟩)
    rw [hno, Function.update_eq_self]

theorem Db.clear_clear (ts ts' : List Table) (k : Int) :
    (db.clear ts k).clear ts' k = db.clear (ts ++ ts') k := by
  simp only [Db.clear, List.mem_append, Db.mk.injEq, and_true]
  funext t
  by_cases h : t ∈ ts <;> by_cases h' : t ∈ ts' <;> simp [h, h', dropKey_dropKey]

/-- `pgsql_delete_way_from_output` in slim mode without `droptemp`. -/
theorem run_pgsqlDeleteWayFromOutput (hs : o.options.slim = true) (hd : o.options.droptemp = false)
    (hp : o.ProbeSound) (k : Int) :
    db.run o (o.pgsqlDeleteWayFromOutput k) = db.clear [.roads, .line, .poly] k := by
  simp [OutputPgsql.pgsqlDeleteWayFromOutput, hs, hd, Db.exec_deleteProbed _ hp, Db.exec_deleteRow,
    Db.clear_clear]

theorem run_pgsqlDeleteRelationFromOutput (hp : o.ProbeSound) (id : Int) :
    db.run o (pgsqlDeleteRelationFromOutput id) = db.clear [.roads, .line, .poly] (-id) := by
  simp [pgsqlDeleteRelationFromOutput, Db.exec_deleteProbed _ hp, Db.exec_deleteRow, Db.clear_clear]

end Delete

/-! ## The frame law -/

section Frame

variable {o : OutputPgsql} (t : Table) (k : Int)

theorem rowsAt_exec (hp : o.ProbeSound) (db : Db) (a : Action) :
    (db.exec o a).rowsAt t k = a.onRows t k (db.rowsAt t k) := by
  have hdel : ∀ k', (db.exec o (.deleteRow t k')).rowsAt t k = if k' = k then [] else db.rowsAt t k := by
    intro k'
    simp only [Db.exec, Db.rowsAt, Function.update_same, dropKey, List.filter_filter]
    split_ifs with h
    · subst h; simp
    · congr; funext r; by_cases e : r.osmId = k <;> simp [e, Ne.symm h]
  cases a with
  | write t' row =>
    by_cases h : t' = t
    · subst h
      by_cases e : row.osmId = k <;> simp [Db.exec, Db.rowsAt, Action.onRows, e]
    · simp [Db.exec, Db.rowsAt, Action.onRows, h, Function.update_noteq (Ne.symm h)]
  | deleteRow t' k' =>
    by_cases h : t' = t
    · subst h; simpa [Action.onRows] using hdel k'
    · simp [Db.exec, Db.rowsAt, Action.onRows, h, Function.update_noteq (Ne.symm h)]
  | deleteProbed t' k' =>
    rw [Db.exec_deleteProbed db hp]
    by_cases h : t' = t
    · subst h; simpa [Action.onRows] using hdel k'
    · simp [Db.exec, Db.rowsAt, Action.onRows, h, Function.update_noteq (Ne.symm h)]
  | mark => rfl

/-- THE FRAME LAW: under a sound probe, the rows of one table under one key after a run are a
function of those rows before it. -/
theorem rowsAt_run (hp : o.ProbeSound) (db : Db) (acts : List Action) :
    (db.run o acts).rowsAt t k = acts.foldl (fun rs a => a.onRows t k rs) (db.rowsAt t k) := by
  induction acts generalizing db with
  | nil => rfl
  | cons a acts ih => rw [Db.run_cons, ih, rowsAt_exec t k hp]; rfl

theorem rowsAt_clear (db : Db) (ts : List Table) (key : Int) :
    (db.clear ts key).rowsAt t k = if t ∈ ts ∧ k = key then [] else db.rowsAt t k := by
  by_cases ht : t ∈ ts
  · by_cases e : k = key
    · subst e; simp [Db.clear, Db.rowsAt, ht, dropKey, List.filter_filter]
    · simp only [Db.clear, Db.rowsAt, ht, if_true, e, and_false, if_false, dropKey,
        List.filter_filter]
      congr; funext r; by_cases e' : r.osmId = k <;> simp [e', e]
  · simp [Db.clear, Db.rowsAt, ht]

end Frame

/-! ## Modify as add -/

/-- The actions `acts` of a modify call, against its add call `add`, for the key `key` of the
tables `ts` its delete clears. -/
structure ActsAsAdd (o : OutputPgsql) (db : Db) (ts : List Table) (key : Int)
    (acts add : List Action) : Prop where
  /-- THE EQUATION: `acts` does what `add` does on the tables cleared at `key`. -/
  run_eq : db.run o acts = (db.clear ts key).run o add
  /-- The rows under `key` in `ts` are those `add` makes from none, whatever was there. -/
  rows_key : ∀ t ∈ ts, (db.run o acts).rowsAt t key = add.foldl (fun rs a => a.onRows t key rs) []
  /-- Every other key, and every other table, ends as `add` alone leaves it. -/
  rows_elsewhere : ∀ t k, t ∉ ts ∨ k ≠ key →
    (db.run o acts).rowsAt t k = (db.run o add).rowsAt t k

theorem ActsAsAdd.of_delete {o : OutputPgsql} (hp : o.ProbeSound) {db : Db} {ts : List Table}
    {key : Int} {dels add : List Action} (hdel : db.run o dels = db.clear ts key) :
    ActsAsAdd o db ts key (dels ++ add) add where
  run_eq := by rw [Db.run_append, hdel]
  rows_key t ht := by rw [Db.run_append, hdel, rowsAt_run t key hp, rowsAt_clear, if_pos ⟨ht, rfl⟩]
  rows_elsewhere t k h := by
    rw [Db.run_append, hdel, rowsAt_run t k hp, rowsAt_run t k hp, rowsAt_clear, if_neg]
    rintro ⟨ht, rfl⟩
    exact h.elim (· ht) (· rfl)

namespace OutputPgsql

variable (o : OutputPgsql)

/-- Outside slim mode, every diff call stops at the one message, with no action. -/
theorem diffs_need_slim (hs : o.options.slim = false) (id : Int) (lat lon : ℚ) (tags : Tags)
    (nds : List Int) (members : List Member) :
    o.nodeDelete id = .error slimError ∧ o.wayDelete id = .error slimError ∧
    o.relationDelete id = .error slimError ∧ o.nodeModify id lat lon tags = .error slimError ∧
    o.wayModify id nds tags = .error slimError ∧
    o.relationModify id members tags = .error slimError := by
  simp [nodeDelete, wayDelete, relationDelete, nodeModify, wayModify, relationModify, hs]; rfl

/-- Under slim mode without `droptemp` and a sound probe, each modify call succeeds and acts as
its add call on the tables cleared at the object's key: the point table at the node id, the
roads, line and polygon tables at the way id, and the same tables at the negated relation id. -/
theorem modify_acts_as_add (hs : o.options.slim = true) (hd : o.options.droptemp = false)
    (hp : o.ProbeSound) (db : Db) :
    (∀ id lat lon tags, ∃ acts, o.nodeModify id lat lon tags = .ok acts ∧
      ActsAsAdd o db [.point] id acts (o.nodeAdd id lat lon tags)) ∧
    (∀ id nds tags, ∃ acts, o.wayModify id nds tags = .ok acts ∧
      ActsAsAdd o db [.roads, .line, .poly] id acts (o.wayAdd id nds tags)) ∧
    (∀ id members tags, ∃ acts, o.relationModify id members tags = .ok acts ∧
      ActsAsAdd o db [.roads, .line, .poly] (-id) acts (o.relationAdd id members tags)) := by
  have hnode : ∀ id, db.run o [.deleteProbed .point id] = db.clear [.point] id := fun id => by
    simp [Db.exec_deleteProbed _ hp, Db.exec_deleteRow]
  exact ⟨fun id lat lon tags =>
      ⟨_, o.nodeModify_of_slim hs id lat lon tags, .of_delete hp (hnode id)⟩,
    fun id nds tags => ⟨_, o.wayModify_of_slim hs id nds tags,
      .of_delete hp (run_pgsqlDeleteWayFromOutput db hs hd hp id)⟩,
    fun id members tags => ⟨_, o.relationModify_of_slim hs id members tags,
      .of_delete hp (run_pgsqlDeleteRelationFromOutput db hp id)⟩⟩

end OutputPgsql

/-- A slim output without `droptemp` whose probe answers 1 for every table and key. -/
def slimOutput : OutputPgsql := { (default : OutputPgsql) with
  options := { (default : Options) with slim := true }
  fromDb := fun _ _ => 1 }

theorem slimOutput_modify_acts_as_add :
    slimOutput.options.slim = true ∧ slimOutput.options.droptemp = false ∧
    slimOutput.ProbeSound ∧
    (∀ id lat lon tags, ∃ acts, slimOutput.nodeModify id lat lon tags = .ok acts ∧
      ActsAsAdd slimOutput default [.point] id acts (slimOutput.nodeAdd id lat lon tags)) ∧
    (∀ id nds tags, ∃ acts, slimOutput.wayModify id nds tags = .ok acts ∧
      ActsAsAdd slimOutput default [.roads, .line, .poly] id acts (slimOutput.wayAdd id nds tags)) ∧
    (∀ id members tags, ∃ acts, slimOutput.relationModify id members tags = .ok acts ∧
      ActsAsAdd slimOutput default [.roads, .line, .poly] (-id) acts
        (slimOutput.relationAdd id members tags)) :=
  have hp : slimOutput.ProbeSound := fun _ _ _ => by simp [slimOutput]
  ⟨rfl, rfl, hp, OutputPgsql.modify_acts_as_add slimOutput rfl rfl hp default⟩

end OsmPgsql
