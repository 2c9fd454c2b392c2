import Mathlib.Data.List.Nodup
import OsmPgsql.Emit

/-!
# What the geometry loops write

Laws of the three emission loops, the one of `pgsql_out_way` and the two of
`pgsql_out_relation`, over every geometry sequence the builder may answer.

`emitted_rows_classified`: the writes of either function form a write stream
(`Classified`), under the way's id or the negated relation id. So the polygon table gets
polygon WKTs only, the line and roads tables get anything else, and a roads write comes exactly
when the `roads` verdict is set, right after the line write of the same row.

`pgsqlOutRelation_polyWrites` says which polygon rows one relation call writes: the polygon
WKTs of the first build, then, in a boundary pass, those of a second build made with
`make_polygon = 1` whatever the verdict was. Hence `pgsqlOutRelation_poly_nodup_iff`: a
(key, WKT) pair is written twice exactly when the boundary pass runs and the two builds share
it, and when `make_polygon` is set too the two builds are one (`relation_poly_written_twice`).

The tag list is threaded through a loop, so a `way_area` pair added for one polygon stays on
every later row of the same call (`pgsqlOutWay_way_area_twice`).
-/

set_option autoImplicit false

namespace OsmPgsql

theorem Classified.filter_isWrite {key : Int} {roads : Bool} {acts : List Action}
    (h : Classified key roads acts) : acts.filter Action.isWrite = acts :=
  List.filter_eq_self.mpr fun a ha => by
    obtain ⟨t, row, rfl, -⟩ := h.mem a ha
    rfl

theorem Classified.filter_not_isWrite {key : Int} {roads : Bool} {acts : List Action}
    (h : Classified key roads acts) : acts.filter (fun a => !a.isWrite) = [] :=
  List.filter_eq_nil_iff.mpr fun a ha => by
    obtain ⟨t, row, rfl, -⟩ := h.mem a ha
    simp [Action.isWrite]

/-- The key and WKT of a write to the polygon table. -/
def Action.polyWrite : Action → Option (Int × String)
  | .write .poly ⟨k, _, .wkt w⟩ => some (k, w)
  | _ => none

/-- The polygon WKTs of a geometry sequence as a loop writes them: not empty, and beginning
with `POLYGON` or `MULTIPOLYGON`. -/
def polyWkts (gs : List Geom) : List String :=
  (gs.filter fun g => !g.wkt.isEmpty && isPolygonWkt g.wkt).map (·.wkt)

theorem polyWkts_nodup {gs : List Geom} (h : (gs.map (·.wkt)).Nodup) : (polyWkts gs).Nodup :=
  h.sublist ((List.filter_sublist _).map _)

namespace OutputPgsql

variable (o : OutputPgsql)

/-! ## Classification -/

theorem pgsqlDeleteWayFromOutput_writes (k : Int) :
    (o.pgsqlDeleteWayFromOutput k).filter Action.isWrite = [] := by
  unfold pgsqlDeleteWayFromOutput
  split_ifs <;> rfl

theorem markSuperseded_writes (s : List Bool) (i : Nat) (ws : List WayData) :
    (o.markSuperseded s i ws).filter Action.isWrite = [] := by
  induction ws generalizing i with
  | nil => rfl
  | cons w ws ih =>
    unfold markSuperseded
    split_ifs <;>
      simp [List.filter_append, ih, pgsqlDeleteWayFromOutput_writes, Action.isWrite]

/-- CLASSIFICATION PARITY and SIGN DISJOINTNESS: the writes of `pgsql_out_way` form a write
stream under the way id and its `roads` verdict, and those of `pgsql_out_relation`, both passes
together, one under the negated relation id and its `roads` verdict. -/
theorem emitted_rows_classified (id : Int) (tags : Tags) (nodes : List OsmNode)
    (existing : Bool) (relId : Int) (relTags : Tags) (ways : List WayData)
    (xrole : List (Option String)) :
    Classified id (o.tagtransform.filterWayTags tags).roads
      ((o.pgsqlOutWay id tags nodes existing).filter Action.isWrite) ∧
    Classified (-relId) (o.relVerdict relTags ways xrole).roads
      ((o.pgsqlOutRelation relId relTags ways xrole).filter Action.isWrite) := by
  constructor
  · have hpre : ((if existing then o.pgsqlDeleteWayFromOutput id ++
        (o.mid.relationsUsingWay id).map (.mark .relsPending) else []).filter Action.isWrite) =
        [] := by
      split_ifs
      · simp [List.filter_append, pgsqlDeleteWayFromOutput_writes, List.filter_map,
          Function.comp_def, Action.isWrite]
      · rfl
    simp only [pgsqlOutWay, List.filter_append, hpre, List.nil_append]
    split_ifs
    · exact .nil
    · exact ((o.writeGeoms_classified _ _ _ _ _).filter_isWrite).symm ▸
        o.writeGeoms_classified _ _ _ _ _
  · rw [pgsqlOutRelation_eq]
    split_ifs
    · exact .nil
    all_goals
      simp only [List.filter_append, markSuperseded_writes, List.filter_nil, List.append_nil,
        (o.writeGeoms_classified _ _ _ _ _).filter_isWrite]
    all_goals first
      | exact (o.writeGeoms_classified _ _ _ _ _).append (o.writeGeoms_classified _ _ _ _ _)
      | exact o.writeGeoms_classified _ _ _ _ _

/-! ## The polygon rows of one relation -/

theorem filterMap_polyWrite_filter (acts : List Action) :
    (acts.filter Action.isWrite).filterMap Action.polyWrite = acts.filterMap Action.polyWrite := by
  induction acts with
  | nil => rfl
  | cons a acts ih =>
    cases a with
    | write t row => simp only [List.filter_cons, Action.isWrite, if_true, List.filterMap_cons, ih]
    | _ => simp [List.filter_cons, Action.isWrite, Action.polyWrite, ih]

theorem writeGeoms_polyWrites (key : Int) (roads lines : Bool) (tags : Tags) (gs : List Geom) :
    (o.writeGeoms key roads lines tags gs).1.filterMap Action.polyWrite =
      (polyWkts gs).map (key, ·) := by
  induction gs generalizing tags with
  | nil => rfl
  | cons g gs ih =>
    by_cases h₁ : g.wkt.isEmpty
    · simp [writeGeoms, h₁, ih, polyWkts]
    by_cases h₂ : isPolygonWkt g.wkt
    · simp [writeGeoms, h₁, h₂, ih, polyWkts, Action.polyWrite]
    · cases lines <;> cases roads <;> simp [writeGeoms, h₁, h₂, ih, polyWkts, Action.polyWrite]

/-- The polygon rows of one `pgsql_out_relation` call: those of the first build, then, in a
boundary pass, those of the build with `make_polygon = 1`. -/
theorem pgsqlOutRelation_polyWrites (id : Int) (relTags : Tags) (ways : List WayData)
    (xrole : List (Option String)) :
    (o.pgsqlOutRelation id relTags ways xrole).filterMap Action.polyWrite =
      if ways.length = 0 ∨ (o.relVerdict relTags ways xrole).filter = true ∨
          (o.buildRelation id ways (o.relVerdict relTags ways xrole).makePolygon).length = 0 then []
      else (polyWkts (o.buildRelation id ways (o.relVerdict relTags ways xrole).makePolygon) ++
          if (o.relVerdict relTags ways xrole).makeBoundary then polyWkts (o.buildRelation id ways true)
          else []).map (-id, ·) := by
  have hm : ∀ s, (o.markSuperseded s 0 ways).filterMap Action.polyWrite = [] := fun s => by
    rw [← filterMap_polyWrite_filter, markSuperseded_writes]; rfl
  rw [pgsqlOutRelation_eq]
  split_ifs <;> simp [List.filterMap_append, writeGeoms_polyWrites, hm]

/-- A (key, WKT) pair reaches the polygon table twice in one call exactly when the boundary pass
runs and the first build and the `make_polygon = 1` build share that polygon WKT; and when
`make_polygon` is set as well, the two builds are the same call, so every polygon of it is
written in both passes. -/
theorem pgsqlOutRelation_poly_nodup_iff (id : Int) (relTags : Tags) (ways : List WayData)
    (xrole : List (Option String))
    (hb : ∀ i ns mp em s, ((o.builder.build i ns mp em s).map (·.wkt)).Nodup) :
    (((o.pgsqlOutRelation id relTags ways xrole).filterMap Action.polyWrite).Nodup ↔
      (ways.length ≠ 0 → (o.relVerdict relTags ways xrole).filter = false →
        (o.buildRelation id ways (o.relVerdict relTags ways xrole).makePolygon).length ≠ 0 →
        (o.relVerdict relTags ways xrole).makeBoundary = true →
        (polyWkts (o.buildRelation id ways (o.relVerdict relTags ways xrole).makePolygon)).Disjoint
          (polyWkts (o.buildRelation id ways true)))) ∧
    ((o.relVerdict relTags ways xrole).makePolygon = true →
      (o.relVerdict relTags ways xrole).makeBoundary = true →
      (o.pgsqlOutRelation id relTags ways xrole).filterMap Action.polyWrite =
        if ways.length = 0 ∨ (o.relVerdict relTags ways xrole).filter = true ∨
            (o.buildRelation id ways true).length = 0 then []
        else (polyWkts (o.buildRelation id ways true) ++
          polyWkts (o.buildRelation id ways true)).map (-id, ·)) := by
  have hinj : Function.Injective (fun w : String => (-id, w)) := fun _ _ h => (Prod.mk.inj h).2
  refine ⟨?_, fun hp hbd => by rw [pgsqlOutRelation_polyWrites, hp, hbd]; rfl⟩
  rw [pgsqlOutRelation_polyWrites]
  by_cases h : ways.length = 0 ∨ (o.relVerdict relTags ways xrole).filter = true ∨
      (o.buildRelation id ways (o.relVerdict relTags ways xrole).makePolygon).length = 0
  · rw [if_pos h]
    simp only [List.nodup_nil, true_iff]
    intro h0 hf hl _
    rcases h with h | h | h <;> simp_all
  · rw [if_neg h, List.nodup_map_iff hinj]
    push_neg at h
    obtain ⟨h0, hf, hl⟩ := h
    have n₁ : (polyWkts (o.buildRelation id ways (o.relVerdict relTags ways xrole).makePolygon)).Nodup :=
      polyWkts_nodup (hb _ _ _ _ _)
    have n₂ : (polyWkts (o.buildRelation id ways true)).Nodup := polyWkts_nodup (hb _ _ _ _ _)
    cases hbd : (o.relVerdict relTags ways xrole).makeBoundary
    · simp only [Bool.false_eq_true, if_false, List.append_nil]
      exact iff_of_true n₁ fun _ _ _ h => absurd h (by decide)
    · simp only [if_true, List.nodup_append, n₁, n₂, true_and]
      exact ⟨fun hd _ _ _ _ => hd, fun hd => hd h0 (by simpa using hf) hl trivial⟩

end OutputPgsql

/-- A relation that the transform makes both a polygon and a boundary, with a builder that
answers one polygon for any arguments. -/
def boundaryPolygonRelation : OutputPgsql := { (default : OutputPgsql) with
  tagtransform := { (default : TagTransform) with
    filterRelMemberTags := fun _ _ _ => ⟨false, [], true, true, false⟩ }
  builder := { (default : Builder) with
    build := fun _ _ _ _ _ => [⟨"POLYGON((0 0,1 0,1 1,0 0))", 1⟩] } }

theorem boundaryPolygonRelation_poly_nodup_iff :
    (∀ i ns mp em s, ((boundaryPolygonRelation.builder.build i ns mp em s).map (·.wkt)).Nodup) ∧
    (((boundaryPolygonRelation.pgsqlOutRelation 5 [] [⟨10, [], [⟨0, 0⟩]⟩] [some "outer"]).filterMap
        Action.polyWrite).Nodup ↔
      ([(⟨10, [], [⟨0, 0⟩]⟩ : WayData)].length ≠ 0 →
        (boundaryPolygonRelation.relVerdict [] [⟨10, [], [⟨0, 0⟩]⟩] [some "outer"]).filter = false →
        (boundaryPolygonRelation.buildRelation 5 [⟨10, [], [⟨0, 0⟩]⟩] (boundaryPolygonRelation.relVerdict
          [] [⟨10, [], [⟨0, 0⟩]⟩] [some "outer"]).makePolygon).length ≠ 0 →
        (boundaryPolygonRelation.relVerdict [] [⟨10, [], [⟨0, 0⟩]⟩] [some "outer"]).makeBoundary = true →
        (polyWkts (boundaryPolygonRelation.buildRelation 5 [⟨10, [], [⟨0, 0⟩]⟩]
          (boundaryPolygonRelation.relVerdict [] [⟨10, [], [⟨0, 0⟩]⟩] [some "outer"]).makePolygon)).Disjoint
          (polyWkts (boundaryPolygonRelation.buildRelation 5 [⟨10, [], [⟨0, 0⟩]⟩] true)))) ∧
    ((boundaryPolygonRelation.relVerdict [] [⟨10, [], [⟨0, 0⟩]⟩] [some "outer"]).makePolygon = true →
      (boundaryPolygonRelation.relVerdict [] [⟨10, [], [⟨0, 0⟩]⟩] [some "outer"]).makeBoundary = true →
      (boundaryPolygonRelation.pgsqlOutRelation 5 [] [⟨10, [], [⟨0, 0⟩]⟩] [some "outer"]).filterMap
          Action.polyWrite =
        if [(⟨10, [], [⟨0, 0⟩]⟩ : WayData)].length = 0 ∨
            (boundaryPolygonRelation.relVerdict [] [⟨10, [], [⟨0, 0⟩]⟩] [some "outer"]).filter = true ∨
            (boundaryPolygonRelation.buildRelation 5 [⟨10, [], [⟨0, 0⟩]⟩] true).length = 0 then []
        else (polyWkts (boundaryPolygonRelation.buildRelation 5 [⟨10, [], [⟨0, 0⟩]⟩] true) ++
          polyWkts (boundaryPolygonRelation.buildRelation 5 [⟨10, [], [⟨0, 0⟩]⟩] true)).map (-5, ·)) :=
  have hb : ∀ i ns mp em s,
      ((boundaryPolygonRelation.builder.build i ns mp em s).map (·.wkt)).Nodup :=
    fun _ _ _ _ _ => by simp [boundaryPolygonRelation]
  ⟨hb, OutputPgsql.pgsqlOutRelation_poly_nodup_iff boundaryPolygonRelation 5 [] _ _ hb⟩

/-- The polygon table can get one (key, WKT) pair twice from one relation: the relation above,
whose builder gives distinct WKTs in each call, writes its one polygon in both passes. -/
theorem relation_poly_written_twice :
    (∀ i ns mp em s, ((boundaryPolygonRelation.builder.build i ns mp em s).map (·.wkt)).Nodup) ∧
    (boundaryPolygonRelation.pgsqlOutRelation 5 [] [⟨10, [], [⟨0, 0⟩]⟩] [some "outer"]).filterMap
        Action.polyWrite =
      [(-5, "POLYGON((0 0,1 0,1 1,0 0))"), (-5, "POLYGON((0 0,1 0,1 1,0 0))")] :=
  ⟨fun _ _ _ _ _ => by simp [boundaryPolygonRelation], by decide⟩

/-- The `way_area` pair of the first polygon is still in the tag list when the second polygon
and then a line are written: the second row carries two `way_area` pairs, and the line row
one. -/
theorem pgsqlOutWay_way_area_twice :
    let o : OutputPgsql := { (default : OutputPgsql) with
      tagtransform := { (default : TagTransform) with filterWayTags := fun _ => ⟨false, true, false⟩ }
      builder := { (default : Builder) with
        getWktSplit := fun _ _ _ => [⟨"POLYGON((0 0,1 0,1 1,0 0))", 1⟩,
          ⟨"POLYGON((2 2,4 2,4 4,2 2))", 2⟩, ⟨"LINESTRING(0 0,1 1)", 0⟩] }
      enableWayArea := true
      printG := fun a => if a = 1 then "1" else "2" }
    o.pgsqlOutWay 7 [] [] false =
      [.write .poly ⟨7, [("way_area", "1")], .wkt "POLYGON((0 0,1 0,1 1,0 0))"⟩,
       .write .poly ⟨7, [("way_area", "2"), ("way_area", "1")], .wkt "POLYGON((2 2,4 2,4 4,2 2))"⟩,
       .write .line ⟨7, [("way_area", "2"), ("way_area", "1")], .wkt "LINESTRING(0 0,1 1)"⟩] := by
  decide

end OsmPgsql
