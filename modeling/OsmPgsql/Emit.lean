import OsmPgsql.Basic

/-!
# The emitter

The per-feature functions of `output-pgsql.cpp` (lines 212–412 and 796–1024), each as the list
of table and tracker operations it performs. `pause_copy` and the calls into the tile-expiry
accumulator change no table and are left out; `from_db` stays, as the probe of a
`deleteProbed` action.

Three loops over the builder's geometries, one in `pgsql_out_way` and two in
`pgsql_out_relation`, differ only in the key, in the `roads` verdict and in whether a
geometry that is not a polygon is written at all. They are one definition, `writeGeoms`. The
tag list is threaded through it, because `addItem` changes the caller's list: a `way_area`
pair added for one geometry is still there for the geometries after it, and in
`pgsql_out_relation` for the whole boundary pass.

A fatal `util::exit_nicely()` is an `Except.error` carrying the message printed before it.
-/

set_option autoImplicit false

namespace OsmPgsql

/-- `!strncmp(wkt, "POLYGON", strlen("POLYGON")) || !strncmp(wkt, "MULTIPOLYGON", ...)`: the
WKT begins with `POLYGON` or with `MULTIPOLYGON`. -/
def isPolygonWkt (wkt : String) : Bool :=
  "POLYGON".data.isPrefixOf wkt.data || "MULTIPOLYGON".data.isPrefixOf wkt.data

/-- `pgsql_delete_relation_from_output` (lines 961–973): a relation's rows are keyed by its
negated id. -/
def pgsqlDeleteRelationFromOutput (osmId : Int) : List Action :=
  [.deleteRow .roads (-osmId), .deleteProbed .line (-osmId), .deleteProbed .poly (-osmId)]

/-- The message printed before a diff outside slim mode ends the import. -/
def slimError : String := "Cannot apply diffs unless in slim mode\n"

namespace OutputPgsql

variable (o : OutputPgsql)

/-- `pgsql_out_node` (lines 212–226). -/
def pgsqlOutNode (id : Int) (tags : Tags) (lat lon : ℚ) : List Action :=
  if o.tagtransform.filterNodeTags tags then [] else [.write .point ⟨id, tags, .point lat lon⟩]

/-- The geometry loop shared by `pgsql_out_way` (lines 282–305) and the two passes of
`pgsql_out_relation` (lines 345–366 and 389–407). `lines` is false in the boundary pass, which
writes polygons only. Answers the writes and the tag list as the loop leaves it. -/
def writeGeoms (key : Int) (roads lines : Bool) : Tags → List Geom → List Action × Tags
  | tags, [] => ([], tags)
  | tags, g :: gs =>
    if g.wkt.isEmpty then writeGeoms key roads lines tags gs
    else if isPolygonWkt g.wkt then
      let tags := if 0 < g.area ∧ o.enableWayArea then addItem tags "way_area" (o.printG g.area)
        else tags
      let rest := writeGeoms key roads lines tags gs
      (.write .poly ⟨key, tags, .wkt g.wkt⟩ :: rest.1, rest.2)
    else if lines then
      let rest := writeGeoms key roads lines tags gs
      (.write .line ⟨key, tags, .wkt g.wkt⟩ ::
        ((if roads then [.write .roads ⟨key, tags, .wkt g.wkt⟩] else []) ++ rest.1), rest.2)
    else writeGeoms key roads lines tags gs

/-- `pgsql_delete_way_from_output` (lines 928–947). Outside slim mode, and in droptemp mode,
it deletes nothing. -/
def pgsqlDeleteWayFromOutput (osmId : Int) : List Action :=
  if !o.options.slim then []
  else if o.options.droptemp then []
  else [.deleteRow .roads osmId, .deleteProbed .line osmId, .deleteProbed .poly osmId]

/-- `pgsql_out_way` (lines 252–309); `existing` is the `exists` flag. -/
def pgsqlOutWay (id : Int) (tags : Tags) (nodes : List OsmNode) (existing : Bool) :
    List Action :=
  (if existing then
    o.pgsqlDeleteWayFromOutput id ++ (o.mid.relationsUsingWay id).map (.mark .relsPending)
  else []) ++
  let v := o.tagtransform.filterWayTags tags
  if v.filter then []
  else (o.writeGeoms id v.roads true tags (o.builder.getWktSplit nodes v.polygon o.splitAt)).1

/-- The supersession loop of `pgsql_out_relation` (lines 374–381):
`for (i=0; xcount[i]; i++)`. The walk stops at the first way with no nodes, `xcount[count2] = 0`
being the end marker. -/
def markSuperseded (superseded : List Bool) : Nat → List WayData → List Action
  | _, [] => []
  | i, w :: ws =>
    if w.nodes.length = 0 then []
    else (if superseded.getD i false then .mark .waysDone w.id :: o.pgsqlDeleteWayFromOutput w.id
      else []) ++ markSuperseded superseded (i + 1) ws

/-- `filter_rel_member_tags` (line 327) on the ways the middle answered and their roles. -/
def relVerdict (relTags : Tags) (ways : List WayData) (xrole : List (Option String)) :
    RelVerdict :=
  o.tagtransform.filterRelMemberTags relTags (ways.map (·.tags)) xrole

/-- `builder.build(id, xnodes, xcount, make_polygon, m_options->enable_multi, split_at)`
(lines 338 and 388). -/
def buildRelation (id : Int) (ways : List WayData) (makePolygon : Bool) : List Geom :=
  o.builder.build id (ways.map (·.nodes)) makePolygon o.options.enableMulti o.splitAt

/-- `pgsql_out_relation` (lines 311–412), on the `count2` ways the middle answered and their
roles. The boundary pass builds again with `make_polygon = 1`, and its loop starts from the tag
list the first loop left. -/
def pgsqlOutRelation (id : Int) (relTags : Tags) (ways : List WayData)
    (xrole : List (Option String)) : List Action :=
  if ways.length = 0 then [] else
  let v := o.relVerdict relTags ways xrole
  if v.filter then [] else
  let geoms := o.buildRelation id ways v.makePolygon
  if geoms.length = 0 then [] else
  let first := o.writeGeoms (-id) v.roads true relTags geoms
  first.1 ++ (if v.makePolygon then o.markSuperseded v.superseded 0 ways else []) ++
    if v.makeBoundary then (o.writeGeoms (-id) v.roads false first.2 (o.buildRelation id ways true)).1
    else []

end OutputPgsql

/-- The role scan of lines 864–869. For the `i`-th returned way id the scan runs
`for (j = i; j < member_count; j++)` up to the first member with that id, of any type, and reads
`members[j].role`. A scan that finds nothing reads `members[member_count]`, past the array:
`none`. -/
def roleScan (members : List Member) : Nat → List Int → List (Option String)
  | _, [] => []
  | i, x :: xs =>
    (members[i + (members.drop i).findIdx (·.id == x)]?).map (·.role) :: roleScan members (i + 1) xs

/-- The ids of the way members, in member order: `xid2[0..count)` (lines 851–860). -/
def wayMemberIds (members : List Member) : List Int :=
  (members.filter (·.type == .way)).map (·.id)

namespace OutputPgsql

variable (o : OutputPgsql)

/-- `pgsql_process_relation` (lines 828–891). -/
def pgsqlProcessRelation (id : Int) (members : List Member) (tags : Tags) (existing : Bool) :
    List Action :=
  (if existing then pgsqlDeleteRelationFromOutput id else []) ++
  if o.tagtransform.filterRelTags tags then [] else
  let ways := o.mid.waysGetList (wayMemberIds members)
  o.pgsqlOutRelation id tags ways (roleScan members 0 (ways.map (·.id)))

/-! ## The entry points of the parser front-end -/

/-- `node_add` (lines 796–801). -/
def nodeAdd (id : Int) (lat lon : ℚ) (tags : Tags) : List Action := o.pgsqlOutNode id tags lat lon

/-- `way_add` (lines 803–825): a polygon way is only marked pending, a linear one is resolved
through the middle and emitted now. -/
def wayAdd (id : Int) (nds : List Int) (tags : Tags) : List Action :=
  let v := o.tagtransform.filterWayTags tags
  (if !v.filter && v.polygon then [.mark .waysPending id] else []) ++
  if !v.polygon && !v.filter then o.pgsqlOutWay id tags (o.mid.nodesGetList nds) false else []

/-- `relation_add` (lines 893–907): only a relation of type route, multipolygon or boundary is
processed. -/
def relationAdd (id : Int) (members : List Member) (tags : Tags) : List Action :=
  match getItem tags "type" with
  | none => []
  | some type =>
    if type ≠ "route" ∧ type ≠ "multipolygon" ∧ type ≠ "boundary" then []
    else o.pgsqlProcessRelation id members tags false

/-- `node_delete` (lines 913–925). -/
def nodeDelete (osmId : Int) : Except String (List Action) :=
  if !o.options.slim then .error slimError else .ok [.deleteProbed .point osmId]

/-- `way_delete` (lines 949–958). -/
def wayDelete (osmId : Int) : Except String (List Action) :=
  if !o.options.slim then .error slimError else .ok (o.pgsqlDeleteWayFromOutput osmId)

/-- `relation_delete` (lines 975–984). -/
def relationDelete (osmId : Int) : Except String (List Action) :=
  if !o.options.slim then .error slimError else .ok (pgsqlDeleteRelationFromOutput osmId)

/-- `node_modify` (lines 989–999). -/
def nodeModify (osmId : Int) (lat lon : ℚ) (tags : Tags) : Except String (List Action) := do
  if !o.options.slim then throw slimError
  let deleted ← o.nodeDelete osmId
  return deleted ++ o.nodeAdd osmId lat lon tags

/-- `way_modify` (lines 1001–1012). -/
def wayModify (osmId : Int) (nodes : List Int) (tags : Tags) : Except String (List Action) := do
  if !o.options.slim then throw slimError
  let deleted ← o.wayDelete osmId
  return deleted ++ o.wayAdd osmId nodes tags

/-- `relation_modify` (lines 1014–1024). -/
def relationModify (osmId : Int) (members : List Member) (tags : Tags) :
    Except String (List Action) := do
  if !o.options.slim then throw slimError
  let deleted ← o.relationDelete osmId
  return deleted ++ o.relationAdd osmId members tags

/-! ## The diff calls in slim mode -/

theorem nodeDelete_of_slim (hs : o.options.slim = true) (osmId : Int) :
    o.nodeDelete osmId = .ok [.deleteProbed .point osmId] := by
  simp [nodeDelete, hs]

theorem wayDelete_of_slim (hs : o.options.slim = true) (osmId : Int) :
    o.wayDelete osmId = .ok (o.pgsqlDeleteWayFromOutput osmId) := by
  simp [wayDelete, hs]

theorem relationDelete_of_slim (hs : o.options.slim = true) (osmId : Int) :
    o.relationDelete osmId = .ok (pgsqlDeleteRelationFromOutput osmId) := by
  simp [relationDelete, hs]

theorem nodeModify_of_slim (hs : o.options.slim = true) (osmId : Int) (lat lon : ℚ) (tags : Tags) :
    o.nodeModify osmId lat lon tags =
      .ok (.deleteProbed .point osmId :: o.nodeAdd osmId lat lon tags) := by
  simp [nodeModify, hs, o.nodeDelete_of_slim hs]

theorem wayModify_of_slim (hs : o.options.slim = true) (osmId : Int) (nodes : List Int) (tags : Tags) :
    o.wayModify osmId nodes tags =
      .ok (o.pgsqlDeleteWayFromOutput osmId ++ o.wayAdd osmId nodes tags) := by
  simp [wayModify, hs, o.wayDelete_of_slim hs]

theorem relationModify_of_slim (hs : o.options.slim = true) (osmId : Int) (members : List Member)
    (tags : Tags) :
    o.relationModify osmId members tags =
      .ok (pgsqlDeleteRelationFromOutput osmId ++ o.relationAdd osmId members tags) := by
  simp [relationModify, hs, o.relationDelete_of_slim hs]

/-! ## The early returns of `pgsql_out_relation` -/

/-- `pgsql_out_relation` with its three early returns (no way, a dropped relation, an empty
build) as one test. -/
theorem pgsqlOutRelation_eq (id : Int) (relTags : Tags) (ways : List WayData)
    (xrole : List (Option String)) :
    o.pgsqlOutRelation id relTags ways xrole =
      if ways.length = 0 ∨ (o.relVerdict relTags ways xrole).filter = true ∨
          (o.buildRelation id ways (o.relVerdict relTags ways xrole).makePolygon).length = 0 then []
      else
        (o.writeGeoms (-id) (o.relVerdict relTags ways xrole).roads true relTags
            (o.buildRelation id ways (o.relVerdict relTags ways xrole).makePolygon)).1 ++
          (if (o.relVerdict relTags ways xrole).makePolygon then
            o.markSuperseded (o.relVerdict relTags ways xrole).superseded 0 ways else []) ++
          if (o.relVerdict relTags ways xrole).makeBoundary then
            (o.writeGeoms (-id) (o.relVerdict relTags ways xrole).roads false
              (o.writeGeoms (-id) (o.relVerdict relTags ways xrole).roads true relTags
                (o.buildRelation id ways (o.relVerdict relTags ways xrole).makePolygon)).2
              (o.buildRelation id ways true)).1
          else [] := by
  unfold pgsqlOutRelation
  by_cases h0 : ways.length = 0
  · simp [h0]
  by_cases hf : (o.relVerdict relTags ways xrole).filter = true
  · simp [hf]
  by_cases hl : (o.buildRelation id ways (o.relVerdict relTags ways xrole).makePolygon).length = 0
  · simp [hl]
  simp [h0, hf, hl]

/-! ## What the geometry loop writes -/

end OutputPgsql

/-- THE WRITE STREAM of a geometry loop under `key`: a polygon WKT goes to the polygon table,
any other to the line table, and the line write is followed by the same write to the roads
table exactly when `roads` is set. -/
inductive Classified (key : Int) (roads : Bool) : List Action → Prop
  /-- No write. -/
  | nil : Classified key roads []
  /-- A polygon WKT, to the polygon table. -/
  | poly {tags : Tags} {wkt : String} {rest : List Action} : isPolygonWkt wkt = true →
      Classified key roads rest → Classified key roads (.write .poly ⟨key, tags, .wkt wkt⟩ :: rest)
  /-- Any other WKT, to the line table alone when `roads` is unset. -/
  | line {tags : Tags} {wkt : String} {rest : List Action} : isPolygonWkt wkt = false →
      roads = false → Classified key roads rest →
      Classified key roads (.write .line ⟨key, tags, .wkt wkt⟩ :: rest)
  /-- Any other WKT, to the line table and then the roads table when `roads` is set. -/
  | lineRoads {tags : Tags} {wkt : String} {rest : List Action} : isPolygonWkt wkt = false →
      roads = true → Classified key roads rest →
      Classified key roads
        (.write .line ⟨key, tags, .wkt wkt⟩ :: .write .roads ⟨key, tags, .wkt wkt⟩ :: rest)

theorem Classified.append {key : Int} {roads : Bool} {as bs : List Action}
    (ha : Classified key roads as) (hb : Classified key roads bs) :
    Classified key roads (as ++ bs) := by
  induction ha with
  | nil => exact hb
  | poly h _ ih => exact .poly h ih
  | line h hr _ ih => exact .line h hr ih
  | lineRoads h hr _ ih => exact .lineRoads h hr ih

/-- Everything in a write stream is a write under its key to a table other than points. -/
theorem Classified.mem {key : Int} {roads : Bool} {acts : List Action}
    (h : Classified key roads acts) :
    ∀ a ∈ acts, ∃ t row, a = .write t row ∧ row.osmId = key ∧ t ≠ .point := by
  induction h with
  | nil => simp
  | poly _ _ ih | line _ _ _ ih =>
    intro a ha
    rcases List.mem_cons.mp ha with rfl | ha
    · exact ⟨_, _, rfl, rfl, by decide⟩
    · exact ih a ha
  | lineRoads _ _ _ ih =>
    intro a ha
    rcases List.mem_cons.mp ha with rfl | ha
    · exact ⟨_, _, rfl, rfl, by decide⟩
    rcases List.mem_cons.mp ha with rfl | ha
    · exact ⟨_, _, rfl, rfl, by decide⟩
    · exact ih a ha

theorem Classified.marks {key : Int} {roads : Bool} {acts : List Action}
    (h : Classified key roads acts) : ∀ a ∈ acts, a.marks = none := fun a ha => by
  obtain ⟨t, row, rfl, -⟩ := h.mem a ha
  rfl

namespace OutputPgsql

variable (o : OutputPgsql)

/-- The geometry loop's writes form a write stream. -/
theorem writeGeoms_classified (key : Int) (roads lines : Bool) (tags : Tags) (gs : List Geom) :
    Classified key roads (o.writeGeoms key roads lines tags gs).1 := by
  induction gs generalizing tags with
  | nil => exact .nil
  | cons g gs ih =>
    by_cases h₁ : g.wkt.isEmpty
    · simpa [writeGeoms, h₁] using ih tags
    by_cases h₂ : isPolygonWkt g.wkt
    · simpa [writeGeoms, h₁, h₂] using .poly h₂ (ih _)
    have hp : isPolygonWkt g.wkt = false := by simpa using h₂
    cases lines
    · simpa [writeGeoms, h₁, h₂] using ih tags
    · cases roads
      · simpa [writeGeoms, h₁, h₂] using .line hp rfl (ih tags)
      · simpa [writeGeoms, h₁, h₂] using .lineRoads hp rfl (ih tags)

/-! ## Which trackers each function marks -/

theorem pgsqlDeleteWayFromOutput_marks (osmId : Int) :
    ∀ a ∈ o.pgsqlDeleteWayFromOutput osmId, a.marks = none := by
  unfold pgsqlDeleteWayFromOutput
  split_ifs <;> simp [Action.marks]

theorem pgsqlOutWay_marks (id : Int) (tags : Tags) (nodes : List OsmNode) (existing : Bool) :
    ∀ a ∈ o.pgsqlOutWay id tags nodes existing, a.marks = none ∨ a.marks = some .relsPending := by
  intro a ha
  simp only [pgsqlOutWay, List.mem_append, List.mem_ite_nil_left, List.mem_ite_nil_right,
    List.mem_map] at ha
  rcases ha with ⟨-, ha | ⟨r, -, rfl⟩⟩ | ⟨-, ha⟩
  · exact .inl (o.pgsqlDeleteWayFromOutput_marks id a ha)
  · exact .inr rfl
  · exact .inl ((o.writeGeoms_classified _ _ _ _ _).marks a ha)

theorem markSuperseded_marks (superseded : List Bool) (i : Nat) (ws : List WayData) :
    ∀ a ∈ o.markSuperseded superseded i ws, a.marks = none ∨ a.marks = some .waysDone := by
  induction ws generalizing i with
  | nil => simp [markSuperseded]
  | cons w ws ih =>
    intro a ha
    simp only [markSuperseded, List.mem_ite_nil_left, List.mem_append, List.mem_ite_nil_right,
      List.mem_cons] at ha
    rcases ha with ⟨-, ⟨-, rfl | ha⟩ | ha⟩
    · exact .inr rfl
    · exact .inl (o.pgsqlDeleteWayFromOutput_marks _ a ha)
    · exact ih _ a ha

theorem pgsqlOutRelation_marks (id : Int) (relTags : Tags) (ways : List WayData)
    (xrole : List (Option String)) :
    ∀ a ∈ o.pgsqlOutRelation id relTags ways xrole, a.marks = none ∨ a.marks = some .waysDone := by
  intro a ha
  simp only [pgsqlOutRelation, List.mem_ite_nil_left, List.mem_append,
    List.mem_ite_nil_right] at ha
  obtain ⟨-, -, -, (ha | ⟨-, ha⟩) | ⟨-, ha⟩⟩ := ha
  · exact .inl ((o.writeGeoms_classified _ _ _ _ _).marks a ha)
  · exact o.markSuperseded_marks _ _ _ a ha
  · exact .inl ((o.writeGeoms_classified _ _ _ _ _).marks a ha)

theorem pgsqlProcessRelation_marks (id : Int) (members : List Member) (tags : Tags)
    (existing : Bool) :
    ∀ a ∈ o.pgsqlProcessRelation id members tags existing,
      a.marks = none ∨ a.marks = some .waysDone := by
  intro a ha
  simp only [pgsqlProcessRelation, List.mem_append, List.mem_ite_nil_left,
    List.mem_ite_nil_right, pgsqlDeleteRelationFromOutput, List.mem_cons, List.not_mem_nil,
    or_false] at ha
  rcases ha with ⟨-, rfl | rfl | rfl⟩ | ⟨-, ha⟩
  · exact .inl rfl
  · exact .inl rfl
  · exact .inl rfl
  · exact o.pgsqlOutRelation_marks _ _ _ _ a ha

end OutputPgsql

end OsmPgsql
