import Mathlib.Data.Rat.Defs
import Mathlib.Logic.Function.Basic

/-!
# The data of the output stage

`output-pgsql.cpp` writes four tables and three id trackers, and calls collaborators whose
code is not in the file: the middle store, the tag transform, the geometry builder and the
tile-expiry accumulator. This module fixes the data they exchange.

The emitter is modelled as EFFECTS AS DATA. Each emitter function returns the list of table
and tracker operations it performs, in the order the source performs them (`Action`), and
`Db.run` is the one interpreter of such lists. The only thing an operation reads of the
database, the `expire->from_db` probe in front of a delete, is read by the interpreter when
the action runs, which is when the source reads it.

A `double` of the source is a rational here. The code compares an area with `0.0`, formats it
with `%g` and passes everything else on to collaborators, so no behaviour modelled here turns
on rounding.
-/

set_option autoImplicit false

namespace OsmPgsql

/-- `std::numeric_limits<osmid_t>::max()`: `osmid_t` is a signed 64-bit id, and this is the
sentinel `pop_mark` answers on an empty tracker, 2^63 - 1. -/
def osmidMax : Int := 9223372036854775807

/-! ## Primitives -/

/-- `enum OsmType`, as a relation member carries it. -/
inductive OsmType where
  | node
  | way
  | relation
  deriving DecidableEq, Repr

/-- `struct member`: one relation member. -/
structure Member where
  type : OsmType
  id : Int
  role : String
  deriving DecidableEq, Repr

/-- `struct keyval`: a tag list, in list order. -/
abbrev Tags := List (String × String)

/-- `addItem(tags, key, value, 0)`. With `noDupe = 0` the pair goes in whatever the list
already holds; `keyvals.c` links it in at the head. -/
def addItem (tags : Tags) (key value : String) : Tags := (key, value) :: tags

/-- `getItem(tags, key)`: the value of the first pair with this key. -/
def getItem (tags : Tags) (key : String) : Option String := tags.lookup key

/-- `struct osmNode`: a node's coordinates. -/
structure OsmNode where
  lat : ℚ
  lon : ℚ
  deriving DecidableEq, Repr

/-- One geometry of the builder's current output: `builder.get_wkt(i)` and
`builder.get_area(i)`. -/
structure Geom where
  wkt : String
  area : ℚ
  deriving DecidableEq, Repr

/-- One way of the middle's bulk answer: `xid[i]`, `xtags[i]` and `xnodes[i]`. Its node count
`xcount[i]` is the length of `xnodes[i]`. -/
structure WayData where
  id : Int
  tags : Tags
  nodes : List OsmNode
  deriving DecidableEq, Repr

/-! ## Tables and rows -/

/-- The geometry column of a row: `write_node` writes a point, `write_way` a WKT text. -/
inductive Geometry where
  | point (lat lon : ℚ)
  | wkt (text : String)
  deriving DecidableEq, Repr

/-- One row of an output table: `osm_id`, the tag columns, the geometry. -/
structure Row where
  osmId : Int
  tags : Tags
  geom : Geometry
  deriving DecidableEq, Repr

/-- `t_point`, `t_line`, `t_poly`, `t_roads`: the indices of `m_tables`. -/
inductive Table where
  | point
  | line
  | poly
  | roads
  deriving DecidableEq, Repr

/-- The three trackers of `output_pgsql_t`. -/
inductive Tracker where
  | waysPending
  | waysDone
  | relsPending
  deriving DecidableEq, Repr

/-- `DELETE FROM table WHERE osm_id = key`: every row under the key goes. -/
def dropKey (key : Int) (rows : List Row) : List Row := rows.filter (·.osmId ≠ key)

/-! ## The id tracker -/

/-- Insert an id into an ascending list, once. -/
def insertId (x : Int) : List Int → List Int
  | [] => [x]
  | y :: ys => if x < y then x :: y :: ys else if x = y then y :: ys else y :: insertId x ys

@[simp] theorem mem_insertId {x z : Int} {l : List Int} : z ∈ insertId x l ↔ z = x ∨ z ∈ l := by
  induction l with
  | nil => simp [insertId]
  | cons y ys ih =>
    unfold insertId
    split_ifs with h₁ h₂
    · simp
    · subst h₂; simp only [List.mem_cons, or_self_left]
    · simp only [List.mem_cons, ih, or_left_comm]

theorem insertId_ascending {x : Int} {l : List Int} (h : l.Pairwise (· < ·)) :
    (insertId x l).Pairwise (· < ·) := by
  induction l with
  | nil => simp [insertId]
  | cons y ys ih =>
    obtain ⟨hy, hys⟩ := List.pairwise_cons.mp h
    unfold insertId
    split_ifs with h₁ h₂
    · exact List.Pairwise.cons (fun z hz => by
        rcases List.mem_cons.mp hz with rfl | hz
        · exact h₁
        · exact Int.lt_trans h₁ (hy z hz)) h
    · exact h
    · refine List.Pairwise.cons (fun z hz => ?_) (ih hys)
      rcases mem_insertId.mp hz with rfl | hz
      · omega
      · exact hy z hz

/-- `pgsql_id_tracker`. Modelled from the spec: its code is not under src/. The spec's
tracker is an ordered set of ids; `mark` adds an id and tolerates one already there,
`pop_mark` removes and answers the least id or the sentinel, `is_marked` is a lookup. The set
is kept as its ascending list, so the least id is the head. -/
structure IdTracker where
  ids : List Int
  ascending : ids.Pairwise (· < ·)

/-- A tracker with no id. -/
def IdTracker.empty : IdTracker := ⟨[], List.Pairwise.nil⟩

instance : Inhabited IdTracker := ⟨.empty⟩

/-- `mark(id)`. -/
def IdTracker.mark (t : IdTracker) (x : Int) : IdTracker :=
  ⟨insertId x t.ids, insertId_ascending t.ascending⟩

/-- `is_marked(id)`. -/
def IdTracker.isMarked (t : IdTracker) (x : Int) : Bool := decide (x ∈ t.ids)

/-- `pop_mark()`: the least id and the tracker without it, or the sentinel on an empty
tracker. -/
def IdTracker.popMark (t : IdTracker) : Int × IdTracker :=
  match t with
  | ⟨[], h⟩ => (osmidMax, ⟨[], h⟩)
  | ⟨x :: xs, h⟩ => (x, ⟨xs, (List.pairwise_cons.mp h).2⟩)

@[simp] theorem IdTracker.mark_ids (t : IdTracker) (x : Int) :
    (t.mark x).ids = insertId x t.ids := rfl

@[simp] theorem IdTracker.empty_ids : IdTracker.empty.ids = [] := rfl

theorem IdTracker.ext_ids {t u : IdTracker} (h : t.ids = u.ids) : t = u := by
  cases t; cases u; cases h; rfl

/-! ## The collaborators -/

/-- The options `output-pgsql.cpp` reads. `latlong` is
`m_options->projection->get_proj_id() == PROJ_LATLONG`. -/
structure Options where
  slim : Bool
  droptemp : Bool
  enableMulti : Bool
  latlong : Bool
  deriving Inhabited

/-- What `filter_way_tags` answers: its result and its two out parameters. -/
structure WayVerdict where
  filter : Bool
  polygon : Bool
  roads : Bool
  deriving Inhabited

/-- What `filter_rel_member_tags` answers: its result, the `members_superseeded` array it
fills, and its three out parameters. -/
structure RelVerdict where
  filter : Bool
  superseded : List Bool
  makeBoundary : Bool
  makePolygon : Bool
  roads : Bool
  deriving Inhabited

/-- `tagtransform`, bound to the export list `m_export_list`. Its code is not under src/; the
spec's contract is that it reads its inputs and answers through its results only. A role is a
`const char *`, so it may be null: `none`. -/
structure TagTransform where
  filterNodeTags : Tags → Bool
  filterWayTags : Tags → WayVerdict
  filterRelTags : Tags → Bool
  filterRelMemberTags : Tags → List Tags → List (Option String) → RelVerdict
  deriving Inhabited

/-- The geometry builder: `get_wkt_split(nodes, count, polygon, split_at)` and
`build(id, xnodes, xcount, make_polygon, enable_multi, split_at)`, each answering the
geometries that `get_wkt` and `get_area` then read. -/
structure Builder where
  getWktSplit : List OsmNode → Bool → ℚ → List Geom
  build : Int → List (List OsmNode) → Bool → Bool → ℚ → List Geom
  deriving Inhabited

/-- The middle store as `output-pgsql.cpp` queries it. `ways_get` and `relations_get` answer
`0` when they find the object: `some` here. -/
structure Middle where
  nodesGetList : List Int → List OsmNode
  waysGet : Int → Option (Tags × List OsmNode)
  waysGetList : List Int → List WayData
  relationsGet : Int → Option (List Member × Tags)
  relationsUsingWay : Int → List Int

/-- A middle that finds nothing. -/
instance : Inhabited Middle := ⟨⟨fun _ => [], fun _ => none, fun _ => [], fun _ => none, fun _ => []⟩⟩

/-- What an `output_pgsql_t` holds besides its tables and trackers: options, collaborators,
`m_enable_way_area`, the probe `expire->from_db` on a table's rows, and `snprintf`'s `%g`. -/
structure OutputPgsql where
  options : Options
  tagtransform : TagTransform
  builder : Builder
  mid : Middle
  fromDb : List Row → Int → Int
  enableWayArea : Bool
  printG : ℚ → String
  deriving Inhabited

/-- The split length: one degree in a lat/lon projection, 100 km otherwise. -/
def OutputPgsql.splitAt (o : OutputPgsql) : ℚ := if o.options.latlong then 1 else 100 * 1000

/-! ## The database and its one interpreter -/

/-- The state the output stage writes: `m_tables` and the three trackers. The COPY buffering
of `table_t` is transparent to what a table holds, so a table is its list of rows. -/
structure Db where
  tables : Table → List Row
  trackers : Tracker → IdTracker
  deriving Inhabited

/-- One table or tracker operation of the emitter. -/
inductive Action where
  /-- `write_node` or `write_way`: one row appended. -/
  | write (t : Table) (row : Row)
  /-- `delete_row(osm_id)`. -/
  | deleteRow (t : Table) (osmId : Int)
  /-- `if (expire->from_db(conn, osm_id) != 0)` then the rows under `osm_id` go. -/
  | deleteProbed (t : Table) (osmId : Int)
  /-- `mark(id)` on one tracker. -/
  | mark (k : Tracker) (id : Int)
  deriving DecidableEq, Repr

/-- The effect of one action. -/
def Db.exec (o : OutputPgsql) (db : Db) : Action → Db
  | .write t row => { db with tables := Function.update db.tables t (db.tables t ++ [row]) }
  | .deleteRow t k => { db with tables := Function.update db.tables t (dropKey k (db.tables t)) }
  | .deleteProbed t k =>
    if o.fromDb (db.tables t) k ≠ 0 then
      { db with tables := Function.update db.tables t (dropKey k (db.tables t)) }
    else db
  | .mark k x => { db with trackers := Function.update db.trackers k ((db.trackers k).mark x) }

/-- The effect of a list of actions, in order. -/
def Db.run (o : OutputPgsql) (db : Db) (acts : List Action) : Db := acts.foldl (Db.exec o) db

@[simp] theorem Db.run_nil (o : OutputPgsql) (db : Db) : db.run o [] = db := rfl

@[simp] theorem Db.run_cons (o : OutputPgsql) (db : Db) (a : Action) (acts : List Action) :
    db.run o (a :: acts) = (db.exec o a).run o acts := rfl

@[simp] theorem Db.run_append (o : OutputPgsql) (db : Db) (as bs : List Action) :
    db.run o (as ++ bs) = (db.run o as).run o bs := List.foldl_append _ _ _ _

/-- Replace one tracker. -/
def Db.setTracker (db : Db) (k : Tracker) (t : IdTracker) : Db :=
  { db with trackers := Function.update db.trackers k t }

@[simp] theorem Db.setTracker_tables (db : Db) (k : Tracker) (t : IdTracker) :
    (db.setTracker k t).tables = db.tables := rfl

@[simp] theorem Db.setTracker_trackers_self (db : Db) (k : Tracker) (t : IdTracker) :
    (db.setTracker k t).trackers k = t := Function.update_same _ _ _

theorem Db.setTracker_trackers_ne (db : Db) {k k' : Tracker} (t : IdTracker) (h : k' ≠ k) :
    (db.setTracker k t).trackers k' = db.trackers k' := Function.update_noteq h _ _

@[simp] theorem Db.setTracker_self (db : Db) (k : Tracker) : db.setTracker k (db.trackers k) = db := by
  simp [Db.setTracker]

@[simp] theorem Db.setTracker_setTracker (db : Db) (k : Tracker) (t u : IdTracker) :
    (db.setTracker k t).setTracker k u = db.setTracker k u := by
  simp [Db.setTracker]

/-- Whether an action writes a row. -/
def Action.isWrite : Action → Bool
  | .write _ _ => true
  | _ => false

/-- The tracker an action marks, if any. -/
def Action.marks : Action → Option Tracker
  | .mark k _ => some k
  | _ => none

/-- An action that marks no tracker `k` neither reads nor writes `k`: running it commutes with
replacing `k`. -/
theorem Db.exec_setTracker (o : OutputPgsql) (db : Db) (k : Tracker) (t : IdTracker)
    {a : Action} (ha : a.marks ≠ some k) :
    (db.setTracker k t).exec o a = (db.exec o a).setTracker k t := by
  cases a with
  | mark k' x =>
    have hk : k' ≠ k := fun h => ha (h ▸ rfl)
    simp only [Db.exec, Db.setTracker, Db.mk.injEq, true_and]
    rw [Function.update_noteq hk, Function.update_comm hk]
  | deleteProbed => simp only [Db.exec, Db.setTracker]; split_ifs <;> rfl
  | _ => rfl

theorem Db.run_setTracker (o : OutputPgsql) (db : Db) (k : Tracker) (t : IdTracker)
    {acts : List Action} (h : ∀ a ∈ acts, a.marks ≠ some k) :
    (db.setTracker k t).run o acts = (db.run o acts).setTracker k t := by
  induction acts generalizing db with
  | nil => rfl
  | cons a acts ih =>
    simp only [Db.run_cons, Db.exec_setTracker o db k t (h a (List.mem_cons_self _ _))]
    exact ih _ fun b hb => h b (List.mem_cons_of_mem _ hb)

theorem Db.exec_trackers (o : OutputPgsql) (db : Db) (k : Tracker) {a : Action}
    (ha : a.marks ≠ some k) : (db.exec o a).trackers k = db.trackers k := by
  cases a with
  | mark k' x =>
    have hk : k ≠ k' := fun h => ha (h ▸ rfl)
    exact Function.update_noteq hk _ _
  | deleteProbed => simp only [Db.exec]; split_ifs <;> rfl
  | _ => rfl

theorem Db.run_trackers (o : OutputPgsql) (db : Db) (k : Tracker) {acts : List Action}
    (h : ∀ a ∈ acts, a.marks ≠ some k) : (db.run o acts).trackers k = db.trackers k := by
  induction acts generalizing db with
  | nil => rfl
  | cons a acts ih =>
    rw [Db.run_cons, ih _ fun b hb => h b (List.mem_cons_of_mem _ hb),
      Db.exec_trackers o db k (h a (List.mem_cons_self _ _))]

end OsmPgsql
