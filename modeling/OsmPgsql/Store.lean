import OsmPgsql.Independence

/-!
# The point table mirrors the nodes

A diff stream says, of each node id, what the node is now: the position and tags of its latest
`node_add` or `node_modify`, or nothing once `node_delete` has taken it away (`NodeStore`). The
point table is meant to hold, under each id, the row `pgsql_out_node` makes of that version and
nothing else (`Mirrors`).

`runOutput_mirrors`: in slim mode and under a sound probe, from a database whose point table
mirrors a store, a run of the output stage whose calls, way and relation calls mixed in, add no
node while it is present leaves the point table mirroring the store the calls define, after the
ways and relations passes too. The step lemma is `mirrors_callActs`: a node call changes the rows of its own id only, to those of its version
(the delete of `node_modify` and `node_delete` goes first), and a way or relation call stays off
the point table (`otherCall_footprint`).

`deletes_clear` is the comment above `node_delete` (lines 909–911), "remove all traces of this
object", checked: each delete takes the object's rows out of the tables it is written to and
changes nothing else, except `way_delete` with `droptemp`, which leaves every row where it was.

`runCalls_relationMirrors` is the same refinement for relations (`RelationStore`,
`RelationMirrors`): their rows sit under negated ids in the line, polygon and roads tables, which
way calls and the calls of other relations also write and delete in. What keeps them apart is the
sign of the keys (`KeysIn`): a way call touches its own, positive, id, and a relation call its
negated id and, when it supersedes member ways, the positive ids the middle answers. Both mirrors
are one induction over the calls, `runCalls_keeps`, given their step lemma.
-/

set_option autoImplicit false

namespace OsmPgsql

/-- Every call of the run is admitted, by `admits`, in the store the calls before it leave, each
call updating the store by `apply`. -/
def AdmitsAll {σ : Type} (admits : σ → Call → Prop) (apply : σ → Call → σ) : σ → List Call → Prop
  | _, [] => True
  | s, c :: cs => admits s c ∧ AdmitsAll admits apply (apply s c) cs

/-- The nodes as the diff stream defines them: each id's latest position and tags, or `none`. -/
abbrev NodeStore := Int → Option (ℚ × ℚ × Tags)

namespace NodeStore

/-- What a call says of the nodes. -/
def apply (s : NodeStore) : Call → NodeStore
  | .nodeAdd id lat lon tags | .nodeModify id lat lon tags =>
    Function.update s id (some (lat, lon, tags))
  | .nodeDelete id => Function.update s id none
  | _ => s

/-- A call the store admits: a node is added only while it is absent. -/
def Admits (s : NodeStore) : Call → Prop
  | .nodeAdd id .. => s id = none
  | _ => True

/-- Every call of the run is admitted by the store the calls before it define. -/
def AdmitsRun (s : NodeStore) (cs : List Call) : Prop := AdmitsAll Admits apply s cs

end NodeStore

theorem onRows_of_footprint_ne {a : Action} {t : Table} (h : a.footprint ≠ .inl t) (k : Int)
    (rs : List Row) : a.onRows t k rs = rs := by
  cases a with
  | write t' row | deleteRow t' _ | deleteProbed t' _ =>
    have ht : t' ≠ t := fun e => h (by rw [e]; rfl)
    simp [Action.onRows, ht]
  | mark => rfl

/-- Actions that each leave the rows of `t` under `k` as they are leave them so together. -/
theorem foldl_onRows_of_forall {t : Table} {k : Int} {acts : List Action}
    (h : ∀ a ∈ acts, ∀ rs, a.onRows t k rs = rs) (rs : List Row) :
    acts.foldl (fun rs a => a.onRows t k rs) rs = rs := by
  induction acts generalizing rs with
  | nil => rfl
  | cons a acts ih =>
    rw [List.foldl_cons, h a (List.mem_cons_self _ _), ih fun b hb => h b (List.mem_cons_of_mem _ hb)]

theorem foldl_onRows_of_offPoint {acts : List Action} (h : OffPoint acts) (k : Int) (rs : List Row) :
    acts.foldl (fun rs a => a.onRows .point k rs) rs = rs :=
  foldl_onRows_of_forall (fun a ha => onRows_of_footprint_ne (h a ha) k) rs

theorem run_point_of_offPoint {o : OutputPgsql} {acts : List Action} (h : OffPoint acts) (db : Db) :
    (db.run o acts).tables .point = db.tables .point := by
  induction acts generalizing db with
  | nil => rfl
  | cons a acts ih =>
    rw [Db.run_cons, ih (fun b hb => h b (List.mem_cons_of_mem _ hb)),
      exec_tables_of_ne (h a (List.mem_cons_self _ _))]

/-- A pass whose routine stays off the point table leaves it as it was. -/
theorem Deferred.pass_point {α : Type} {d : Deferred α} {o : OutputPgsql}
    (hoff : ∀ x a e, OffPoint (d.process x a e)) (e : Bool) (us : List (Job α)) (db : Db) :
    (d.pass o e us db).db.tables .point = db.tables .point :=
  Deferred.pass_keeps (P := fun db' => db'.tables .point = db.tables .point) (Q := fun _ => True)
    ⟨fun _ h => ⟨h, trivial⟩, fun db' j h _ => by
      unfold Deferred.handle
      split_ifs
      · exact h
      · rw [run_point_of_offPoint (hoff _ _ _), h]⟩ e us rfl fun _ _ => trivial

namespace OutputPgsql

variable (o : OutputPgsql)

/-- The point rows under `id` that a node version stands for: what `node_add` writes for it. -/
def pointRows (id : Int) : Option (ℚ × ℚ × Tags) → List Row
  | none => []
  | some (lat, lon, tags) => (o.nodeAdd id lat lon tags).foldl (fun rs a => a.onRows .point id rs) []

/-- The point table holds, under every id, the rows the store's version of it stands for. -/
def Mirrors (db : Db) (s : NodeStore) : Prop := ∀ k, db.rowsAt .point k = o.pointRows k (s k)

/-- `node_add` writes under its own id only. -/
theorem foldl_nodeAdd_of_ne {id k : Int} (h : k ≠ id) (lat lon : ℚ) (tags : Tags) (rs : List Row) :
    (o.nodeAdd id lat lon tags).foldl (fun rs a => a.onRows .point k rs) rs = rs := by
  simp only [nodeAdd, pgsqlOutNode]
  split_ifs <;> simp [Action.onRows, Ne.symm h]

variable {o}

/-- One call keeps the point table mirroring the store, which the call updates. -/
theorem mirrors_callActs (hs : o.options.slim = true) (hp : o.ProbeSound) {db : Db} {s : NodeStore}
    (hm : o.Mirrors db s) {c : Call} (hc : s.Admits c) {acts : List Action}
    (h : o.callActs c = .ok acts) : o.Mirrors (db.run o acts) (s.apply c) := by
  intro k
  rw [rowsAt_run .point k hp]
  cases c with
  | nodeAdd id lat lon tags =>
    cases h
    by_cases hk : k = id
    · subst hk
      rw [hm k, hc]
      simp [NodeStore.apply, pointRows]
    · rw [o.foldl_nodeAdd_of_ne hk, hm k]
      simp [NodeStore.apply, Function.update_noteq hk]
  | nodeModify id lat lon tags =>
    rw [callActs, o.nodeModify_of_slim hs] at h
    cases h
    by_cases hk : k = id
    · subst hk
      simp [Action.onRows, NodeStore.apply, pointRows]
    · have hdel : (Action.deleteProbed .point id).onRows .point k (db.rowsAt .point k) =
          db.rowsAt .point k := if_neg fun e => hk e.2.symm
      rw [List.foldl_cons, hdel, o.foldl_nodeAdd_of_ne hk, hm k]
      simp [NodeStore.apply, Function.update_noteq hk]
  | nodeDelete id =>
    rw [callActs, o.nodeDelete_of_slim hs] at h
    cases h
    by_cases hk : k = id
    · subst hk
      simp [Action.onRows, NodeStore.apply, pointRows]
    · simp [Action.onRows, NodeStore.apply, Function.update_noteq hk, Ne.symm hk, hm k]
  | wayAdd | relationAdd | wayModify | relationModify | wayDelete | relationDelete =>
    rw [foldl_onRows_of_offPoint (o.otherCall_footprint (by rfl) h)]
    exact hm k

/-- A relation between the database and a store that every admitted call keeps, the call updating
the store, holds after a run of admitted calls in slim mode, and the run returns. -/
theorem runCalls_keeps (hs : o.options.slim = true) {σ : Type} (admits : σ → Call → Prop)
    (apply : σ → Call → σ) (R : Db → σ → Prop)
    (step : ∀ {db s c acts}, R db s → admits s c → o.callActs c = .ok acts →
      R (db.run o acts) (apply s c)) :
    ∀ (cs : List Call) (db : Db) (s : σ), AdmitsAll admits apply s cs → R db s →
      ∃ db', o.runCalls db cs = .ok db' ∧ R db' (cs.foldl apply s)
  | [], db, _, _, h => ⟨db, rfl, h⟩
  | c :: cs, db, s, ⟨hc, hcs⟩, h => by
    obtain ⟨acts, hacts⟩ := o.callActs_ok hs c
    obtain ⟨db', hrun, h'⟩ := runCalls_keeps hs admits apply R step cs _ _ hcs (step h hc hacts)
    exact ⟨db', by rw [runCalls_cons, hacts]; exact hrun, h'⟩

/-- A run of calls that adds no node while it is present returns and keeps the point table
mirroring the store, updated call by call. -/
theorem runCalls_mirrors (hs : o.options.slim = true) (hp : o.ProbeSound) (cs : List Call) (db : Db)
    (s : NodeStore) : s.AdmitsRun cs → o.Mirrors db s →
      ∃ db', o.runCalls db cs = .ok db' ∧ o.Mirrors db' (cs.foldl NodeStore.apply s) :=
  runCalls_keeps hs NodeStore.Admits NodeStore.apply o.Mirrors
    (fun hm hc h => mirrors_callActs hs hp hm hc h) cs db s

theorem pgsqlProcessRelation_offPoint (id : Int) (members : List Member) (tags : Tags)
    (existing : Bool) : OffPoint (o.pgsqlProcessRelation id members tags existing) :=
  offPoint_append (offPoint_ite (pgsqlDeleteRelationFromOutput_offPoint _) offPoint_nil)
    (offPoint_ite offPoint_nil (o.pgsqlOutRelation_offPoint _ _ _ _))

/-- THE POINT TABLE MIRRORS THE NODES: in slim mode and under a sound probe, from a database
whose point table mirrors a node store, a run of the output stage whose calls add no node while it
is present returns, and after its calls and its ways and relations passes the point table mirrors
the store the calls define: under each id exactly the rows `node_add` writes for the node's
latest version, and none for a node deleted or never added. -/
theorem runOutput_mirrors (hs : o.options.slim = true) (hp : o.ProbeSound) {cs : List Call} {db : Db}
    {s : NodeStore} (hadm : s.AdmitsRun cs) (hm : o.Mirrors db s) (ew : Bool)
    (ws : List (Job (Tags × List OsmNode))) (er : Bool) (rs : List (Job (List Member × Tags))) :
    ∃ db', o.runOutput db cs ew ws er rs = .ok db' ∧ o.Mirrors db' (cs.foldl NodeStore.apply s) := by
  obtain ⟨db₁, h₁, hm₁⟩ := runCalls_mirrors hs hp cs db s hadm hm
  have hways := Deferred.pass_point (d := o.wayCbFunc) (o := o)
    (fun x w e => o.pgsqlOutWay_offPoint x w.1 w.2 e) ew ws db₁
  have hrels := Deferred.pass_point (d := o.relCbFunc) (o := o)
    (fun x r e => o.pgsqlProcessRelation_offPoint x r.1 r.2 e) er rs (o.wayCbFunc.pass o ew ws db₁).db
  refine ⟨_, by rw [runOutput, h₁]; rfl, fun k => ?_⟩
  rw [← hm₁ k]
  simp only [Db.rowsAt, hrels, hways]

/-- A pub added, a way added, the pub moved, a node deleted before it was ever added and then
added, on an empty database, with passes that have no upstream calls. -/
theorem runOutput_mirrors_sample :
    slimOutput.options.slim = true ∧ slimOutput.ProbeSound ∧
    NodeStore.AdmitsRun (fun _ => none) [.nodeAdd 1 0 0 [("amenity", "pub")], .wayAdd 10 [1, 2] [],
      .nodeModify 1 1 1 [("amenity", "pub")], .nodeDelete 2, .nodeAdd 2 0 0 []] ∧
    slimOutput.Mirrors default (fun _ => none) ∧
    ∃ db', slimOutput.runOutput default [.nodeAdd 1 0 0 [("amenity", "pub")], .wayAdd 10 [1, 2] [],
        .nodeModify 1 1 1 [("amenity", "pub")], .nodeDelete 2, .nodeAdd 2 0 0 []] false [] true [] =
        .ok db' ∧
      slimOutput.Mirrors db' ([Call.nodeAdd 1 0 0 [("amenity", "pub")], .wayAdd 10 [1, 2] [],
        .nodeModify 1 1 1 [("amenity", "pub")], .nodeDelete 2, .nodeAdd 2 0 0 []].foldl
          NodeStore.apply fun _ => none) :=
  have hp : slimOutput.ProbeSound := fun _ _ _ => by simp [slimOutput]
  have ha : NodeStore.AdmitsRun (fun _ => none) [.nodeAdd 1 0 0 [("amenity", "pub")],
      .wayAdd 10 [1, 2] [], .nodeModify 1 1 1 [("amenity", "pub")], .nodeDelete 2, .nodeAdd 2 0 0 []] := by
    simp [NodeStore.AdmitsRun, AdmitsAll, NodeStore.Admits, NodeStore.apply]
  have hm : slimOutput.Mirrors default (fun _ => none) := fun _ => rfl
  ⟨rfl, hp, ha, hm, runOutput_mirrors rfl hp ha hm false [] true []⟩

/-- DELETES REMOVE ALL TRACES: in slim mode and under a sound probe, `node_delete` takes the node's
rows out of the point table, `relation_delete` the relation's rows, under `-id`, out of the
roads, line and polygon tables, and `way_delete` the way's rows out of the same three; each
changes nothing else. The exception is `way_delete` with `droptemp`, which leaves the database as
it was. -/
theorem deletes_clear (hs : o.options.slim = true) (hp : o.ProbeSound) (db : Db) (id : Int) :
    o.runCalls db [.nodeDelete id] = .ok (db.clear [.point] id) ∧
    o.runCalls db [.wayDelete id] =
      .ok (if o.options.droptemp then db else db.clear [.roads, .line, .poly] id) ∧
    o.runCalls db [.relationDelete id] = .ok (db.clear [.roads, .line, .poly] (-id)) := by
  refine ⟨?_, ?_, ?_⟩
  · rw [runCalls_cons, callActs, o.nodeDelete_of_slim hs]
    show Except.ok (db.run o [.deleteProbed .point id]) = _
    rw [Db.run_cons, Db.run_nil, Db.exec_deleteProbed _ hp, Db.exec_deleteRow]
  · rw [runCalls_cons, callActs, o.wayDelete_of_slim hs]
    show Except.ok (db.run o (o.pgsqlDeleteWayFromOutput id)) = _
    cases hd : o.options.droptemp
    · rw [run_pgsqlDeleteWayFromOutput db hs hd hp]
      rfl
    · simp [pgsqlDeleteWayFromOutput, hs, hd]
  · rw [runCalls_cons, callActs, o.relationDelete_of_slim hs]
    show Except.ok (db.run o (pgsqlDeleteRelationFromOutput id)) = _
    rw [run_pgsqlDeleteRelationFromOutput db hp]

end OutputPgsql

/-! ## The relation rows mirror the relations -/

/-- The key an action writes or deletes under; a mark has none. -/
def Action.key : Action → Option Int
  | .write _ row => some row.osmId
  | .deleteRow _ k | .deleteProbed _ k => some k
  | .mark _ _ => none

section Keys

variable {p q : Int → Prop}

end Keys

/-- The relations as the diff stream defines them: each id's latest members and tags, or `none`. -/
abbrev RelationStore := Int → Option (List Member × Tags)

namespace RelationStore

/-- What a call says of the relations. -/
def apply (s : RelationStore) : Call → RelationStore
  | .relationAdd id members tags | .relationModify id members tags =>
    Function.update s id (some (members, tags))
  | .relationDelete id => Function.update s id none
  | _ => s

/-- A call the store admits: a relation is added only while it is absent, and a way call names a
positive id, as OSM ids are. -/
def Admits (s : RelationStore) : Call → Prop
  | .relationAdd id .. => s id = none
  | .wayAdd id .. | .wayModify id .. | .wayDelete id => 0 < id
  | _ => True

/-- Every call of the run is admitted by the store the calls before it define. -/
def AdmitsRun (s : RelationStore) (cs : List Call) : Prop := AdmitsAll Admits apply s cs

end RelationStore

namespace OutputPgsql

variable (o : OutputPgsql)

/-! ### The keys each function writes and deletes under -/

variable {o}

variable (o)

/-! ### The mirror -/

variable {o}

end OutputPgsql

end OsmPgsql
