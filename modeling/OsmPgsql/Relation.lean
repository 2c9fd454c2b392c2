import OsmPgsql.Driver
import OsmPgsql.Geometry

/-!
# Relations: the two entry points, the role scan, supersession

`relation_add` and the relations pass both end in `pgsql_process_relation`. The pass calls it
on every relation, while `relation_add` first asks for a `type` tag of route, multipolygon or
boundary; beyond that gate the two agree action for action, the pass having first deleted the
relation's earlier rows when `exists` is set (`relationAdd_deferred`).

The role scan of `pgsql_process_relation` compares ids and nothing else, from index `i` on, so
a node member sharing a way's id, or a repeated way with an earlier one missing from the
middle, hands a way another member's role (`roleScan_wrong_member`).

Supersession follows the transform's `make_polygon` verdict and the builder having answered
anything at all, not what was written: `pgsqlOutRelation_supersedes`. Its loop
`for (i=0; xcount[i]; i++)` also ends at the first member way without nodes, so a superseded
way after it is neither marked done nor deleted, against the comment above the loop ("to not
have duplicates"). `relation_supersedes_without_polygon` shows both at two relations.
-/

set_option autoImplicit false

namespace OsmPgsql

/-- The ids of the ways the transform flags as superseded, from index `i` on. -/
def supersededIds (superseded : List Bool) : Nat → List WayData → List Int
  | _, [] => []
  | i, w :: ws => (if superseded.getD i false then [w.id] else []) ++ supersededIds superseded (i + 1) ws

namespace OutputPgsql

variable (o : OutputPgsql)

/-! ## The two entry points -/

/-- Beyond its type gate, `relation_add` does what the relations pass does with the same
relation, less the deletion of earlier rows keyed `-id` that the pass makes first when
`exists` is set; behind the gate it does nothing. -/
theorem relationAdd_deferred (id : Int) (members : List Member) (tags : Tags) (existing : Bool) :
    (getItem tags "type" ∈ [some "route", some "multipolygon", some "boundary"] →
      o.relCbFunc.process id (members, tags) existing =
        (if existing then pgsqlDeleteRelationFromOutput id else []) ++
          o.relationAdd id members tags) ∧
    (getItem tags "type" ∉ [some "route", some "multipolygon", some "boundary"] →
      o.relationAdd id members tags = []) := by
  have hsplit : o.pgsqlProcessRelation id members tags existing =
      (if existing then pgsqlDeleteRelationFromOutput id else []) ++
        o.pgsqlProcessRelation id members tags false := by
    simp [pgsqlProcessRelation]
  constructor
  · intro h
    simp only [List.mem_cons, List.not_mem_nil, or_false] at h
    rcases h with h | h | h <;> simp [relCbFunc, relationAdd, h, hsplit]
  · intro h
    unfold relationAdd
    split
    · rfl
    · simp_all

end OutputPgsql

/-- The two entry points can make different writes: a relation with no `type` tag that the
transform keeps is written by the pass and ignored by `relation_add`. -/
theorem relationAdd_untyped_ignored :
    let o : OutputPgsql := { (default : OutputPgsql) with
      mid := { (default : Middle) with waysGetList := fun _ => [⟨10, [], [⟨0, 0⟩]⟩] }
      builder := { (default : Builder) with build := fun _ _ _ _ _ => [⟨"LINESTRING(0 0,1 1)", 0⟩] } }
    o.relationAdd 5 [⟨.way, 10, "outer"⟩] [] = [] ∧
    o.relCbFunc.process 5 ([⟨.way, 10, "outer"⟩], []) false =
      [.write .line ⟨-5, [], .wkt "LINESTRING(0 0,1 1)"⟩] := by
  decide

/-! ## The role scan -/

/-- The scan hands a way the role of the first member at index `i` or later with its id, of any
type. A node member with the id of the way member after it gives the way its role; and with
ways 8, 7, 7 requested and 8 missing, the second 7 is handed the first 7's role. -/
theorem roleScan_wrong_member :
    roleScan [⟨.node, 7, "stop"⟩, ⟨.way, 7, "outer"⟩] 0 [7] = [some "stop"] ∧
    roleScan [⟨.way, 8, "outer"⟩, ⟨.way, 7, "inner"⟩, ⟨.way, 7, "outer"⟩] 0 [7, 7] =
      [some "inner", some "inner"] := by
  decide

/-! ## Supersession -/

namespace OutputPgsql

variable (o : OutputPgsql)

/-- The supersession loop walks the ways up to the first with no nodes. -/
theorem markSuperseded_eq (superseded : List Bool) (i : Nat) (ws : List WayData) :
    o.markSuperseded superseded i ws =
      (supersededIds superseded i (ws.takeWhile (·.nodes.length ≠ 0))).flatMap
        fun w => .mark .waysDone w :: o.pgsqlDeleteWayFromOutput w := by
  induction ws generalizing i with
  | nil => rfl
  | cons w ws ih =>
    by_cases hw : w.nodes.length = 0
    · rw [markSuperseded, if_pos hw, List.takeWhile_cons_of_neg (by simpa using hw)]
      rfl
    · rw [markSuperseded, if_neg hw, List.takeWhile_cons_of_pos (by simpa using hw), supersededIds,
        List.flatMap_append, ih]
      split_ifs <;> simp

/-- What `pgsql_out_relation` does besides writing, when `make_polygon` is set: for each way the
transform flags as superseded among the ways before the first with no nodes, in order, the mark
in `ways_done` and the deletion of the way's rows, as soon as the builder answers any geometry
at all, and nothing when the call stops before (no way, a dropped relation, an empty build). -/
theorem pgsqlOutRelation_supersedes (id : Int) (relTags : Tags) (ways : List WayData)
    (xrole : List (Option String)) (hpoly : (o.relVerdict relTags ways xrole).makePolygon = true) :
    (o.pgsqlOutRelation id relTags ways xrole).filter (fun a => !a.isWrite) =
      if ways.length = 0 ∨ (o.relVerdict relTags ways xrole).filter = true ∨
          (o.buildRelation id ways true).length = 0 then []
      else (supersededIds (o.relVerdict relTags ways xrole).superseded 0
          (ways.takeWhile (·.nodes.length ≠ 0))).flatMap
        fun w => .mark .waysDone w :: o.pgsqlDeleteWayFromOutput w := by
  have hw := fun key roads lines tags gs =>
    (o.writeGeoms_classified key roads lines tags gs).filter_not_isWrite
  have hm : ∀ s, (o.markSuperseded s 0 ways).filter (fun a => !a.isWrite) =
      o.markSuperseded s 0 ways := fun s =>
    List.filter_eq_self.mpr fun a ha => by
      simpa using List.filter_eq_nil_iff.mp (o.markSuperseded_writes s 0 ways) a ha
  rw [pgsqlOutRelation_eq, hpoly, if_pos rfl]
  split_ifs <;> simp only [List.filter_nil, List.filter_append, hw, hm, List.nil_append,
    List.append_nil]
  all_goals exact markSuperseded_eq o _ _ _

end OutputPgsql

/-- A relation whose transform sets `make_polygon` and flags its one way, with a builder that
answers one linestring. -/
def linestringRelation : OutputPgsql := { (default : OutputPgsql) with
  tagtransform := { (default : TagTransform) with
    filterRelMemberTags := fun _ _ _ => ⟨false, [true], false, true, false⟩ }
  builder := { (default : Builder) with build := fun _ _ _ _ _ => [⟨"LINESTRING(0 0,1 1)", 0⟩] } }

theorem linestringRelation_supersedes :
    (linestringRelation.relVerdict [] [⟨10, [], [⟨0, 0⟩]⟩] [some "outer"]).makePolygon = true ∧
    (linestringRelation.pgsqlOutRelation 5 [] [⟨10, [], [⟨0, 0⟩]⟩] [some "outer"]).filter
        (fun a => !a.isWrite) =
      if [(⟨10, [], [⟨0, 0⟩]⟩ : WayData)].length = 0 ∨
          (linestringRelation.relVerdict [] [⟨10, [], [⟨0, 0⟩]⟩] [some "outer"]).filter = true ∨
          (linestringRelation.buildRelation 5 [⟨10, [], [⟨0, 0⟩]⟩] true).length = 0 then []
      else (supersededIds (linestringRelation.relVerdict [] [⟨10, [], [⟨0, 0⟩]⟩]
          [some "outer"]).superseded 0 ([(⟨10, [], [⟨0, 0⟩]⟩ : WayData)].takeWhile
            (·.nodes.length ≠ 0))).flatMap
        fun w => .mark .waysDone w :: linestringRelation.pgsqlDeleteWayFromOutput w :=
  have hp : (linestringRelation.relVerdict [] [⟨10, [], [⟨0, 0⟩]⟩] [some "outer"]).makePolygon =
      true := rfl
  ⟨hp, OutputPgsql.pgsqlOutRelation_supersedes linestringRelation 5 [] _ _ hp⟩

/-- A relation whose first member way has no nodes leaves its superseded second way 11 neither
marked done nor deleted, though it writes a polygon row; and supersession follows `make_polygon`,
not the rows written: the relation above writes no polygon row and still marks its way 10 done. -/
theorem relation_supersedes_without_polygon :
    (linestringRelation.pgsqlOutRelation 5 [] [⟨10, [], [⟨0, 0⟩]⟩] [some "outer"]).filterMap
        Action.polyWrite = [] ∧
    (linestringRelation.pgsqlOutRelation 5 [] [⟨10, [], [⟨0, 0⟩]⟩] [some "outer"]).filter
        (fun a => !a.isWrite) = [.mark .waysDone 10] ∧
    let o : OutputPgsql := { (default : OutputPgsql) with
      tagtransform := { (default : TagTransform) with
        filterRelMemberTags := fun _ _ _ => ⟨false, [false, true], false, true, false⟩ }
      builder := { (default : Builder) with
        build := fun _ _ _ _ _ => [⟨"POLYGON((0 0,1 0,1 1,0 0))", 1⟩] } }
    (o.pgsqlOutRelation 5 [] [⟨10, [], []⟩, ⟨11, [], [⟨0, 0⟩]⟩] [some "outer", some "outer"]).filterMap
        Action.polyWrite = [(-5, "POLYGON((0 0,1 0,1 1,0 0))")] ∧
    (o.pgsqlOutRelation 5 [] [⟨10, [], []⟩, ⟨11, [], [⟨0, 0⟩]⟩] [some "outer", some "outer"]).filter
        (fun a => !a.isWrite) = [] := by
  decide

end OsmPgsql
