import OsmPgsql.Driver
import OsmPgsql.Modify

/-!
# Supersession over whole runs

A run of the output stage is a sequence of ingest and diff calls (`Call`), then a ways pass and a
relations pass (`OutputPgsql.runOutput`). When `pgsql_out_relation` marks a way done it deletes
the way's rows through `pgsql_delete_way_from_output`, and the ways pass skips ways already done.

`DoneClean` is the invariant: every way in `ways_done` is positive and has no row in the roads,
line or polygon table, and every relation pending is positive. Every emitter but the relation
routine makes only `Action.Harmless` actions, which keep it from any state (`run_harmless`); the
relation routine marks a way and deletes its rows in one block (`run_supersede_block`). A pass
keeps any invariant its pops and its routine keep (`Deferred.pass_keeps`).

`superseded_ways_clean`: in slim mode without `droptemp`, with a sound probe and positive ids,
and when no way that `way_add` writes at once is added or modified after it is done
(`OutputPgsql.AdmissibleRun`), the run returns, and no way in `ways_done` has a row in those
tables at its end. A way the transform takes as a polygon or filters may come back after it is
done: `way_add` only marks it pending, and the ways pass skips it. Without slim mode the deletion
does nothing, and `way_add` has no check against `ways_done` for a way it writes at once;
`superseded_way_kept` shows both at a concrete run.
-/

set_option autoImplicit false

namespace OsmPgsql

/-! ## An invariant of a pass -/

namespace Deferred

variable {α : Type} (d : Deferred α) (o : OutputPgsql) (P : Db → Prop) (Q : Int → Prop)

/-- What it takes for a driver to keep `P` over its database: a pop keeps `P` and answers an id
with `Q`, and the processing routine keeps `P` on an id with `Q`. -/
structure Keeps : Prop where
  pop : ∀ db, P db → P (d.pop db).db ∧ Q (d.pop db).next
  handle : ∀ db j, P db → Q j.id → P (d.handle o db j)

variable {d o P Q}

theorem loop_keeps (hk : d.Keeps o P Q) (id : Int) (e : Bool) :
    ∀ (fuel : Nat) (c : Cursor), P c.db → Q c.next →
      P (d.loop o id e fuel c).db ∧ Q (d.loop o id e fuel c).next
  | 0, _, h₁, h₂ => ⟨h₁, h₂⟩
  | fuel + 1, c, h₁, h₂ => by
    unfold loop
    split_ifs
    · have hdb : P (match d.fetch c.next with
          | some a => d.handle o c.db ⟨c.next, a, e⟩
          | none => c.db) := by
        split
        · exact hk.handle _ _ h₁ h₂
        · exact h₁
      exact loop_keeps hk id e fuel _ (hk.pop _ hdb).1 (hk.pop _ hdb).2
    · exact ⟨h₁, h₂⟩

theorem call_keeps (hk : d.Keeps o P Q) {c : Cursor} {u : Job α} (h₁ : P c.db) (h₂ : Q c.next)
    (hu : Q u.id) : P (d.call o c u).db ∧ Q (d.call o c u).next := by
  unfold call
  generalize hc : (if c.next < u.id then d.runInternalUntil o u.id u.existing c else c) = c₁
  have h₃ : P c₁.db ∧ Q c₁.next := by
    subst hc
    split_ifs
    · exact loop_keeps hk _ _ _ _ h₁ h₂
    · exact ⟨h₁, h₂⟩
  have h₄ : P (if c₁.next = u.id then d.pop c₁.db else c₁).db ∧
      Q (if c₁.next = u.id then d.pop c₁.db else c₁).next := by
    split_ifs
    · exact hk.pop _ h₃.1
    · exact h₃
  exact ⟨hk.handle _ _ h₄.1 hu, h₄.2⟩

theorem foldl_call_keeps (hk : d.Keeps o P Q) :
    ∀ (us : List (Job α)) (c : Cursor), P c.db → Q c.next → (∀ u ∈ us, Q u.id) →
      P (us.foldl (d.call o) c).db ∧ Q (us.foldl (d.call o) c).next
  | [], _, h₁, h₂, _ => ⟨h₁, h₂⟩
  | u :: us, _, h₁, h₂, hus =>
    have h := call_keeps hk h₁ h₂ (hus u (List.mem_cons_self _ _))
    foldl_call_keeps hk us _ h.1 h.2 fun v hv => hus v (List.mem_cons_of_mem _ hv)

/-- A pass keeps `P` when every upstream id has `Q`. -/
theorem pass_keeps (hk : d.Keeps o P Q) (e : Bool) (us : List (Job α)) {db : Db} (hdb : P db)
    (hus : ∀ u ∈ us, Q u.id) : P (d.pass o e us db).db :=
  have h := foldl_call_keeps hk us _ (hk.pop db hdb).1 (hk.pop db hdb).2 hus
  (loop_keeps hk _ _ _ _ h.1 h.2).1

end Deferred

/-! ## The invariant -/

/-- THE INVARIANT: every way in `ways_done` is positive and has no row in the roads, line or
polygon table, and every relation in `rels_pending` is positive. -/
structure DoneClean (db : Db) : Prop where
  done_pos : ∀ w ∈ (db.trackers .waysDone).ids, 0 < w
  done_clean : ∀ w ∈ (db.trackers .waysDone).ids, ∀ t, t ≠ .point → db.rowsAt t w = []
  rels_pos : ∀ r ∈ (db.trackers .relsPending).ids, 0 < r

/-- The middle answers positive ids, as OSM ids are. -/
structure OutputPgsql.PositiveMiddle (o : OutputPgsql) : Prop where
  ways : ∀ ids, ∀ w ∈ o.mid.waysGetList ids, 0 < w.id
  rels : ∀ w, ∀ r ∈ o.mid.relationsUsingWay w, 0 < r

/-- An action that keeps the invariant from any state whose ways done are `D`: a write to the
point table or under a key not in `D`, a deletion, a mark of a way pending, a mark of a positive
relation pending. -/
def Action.Harmless (D : List Int) : Action → Prop
  | .write t row => t = .point ∨ row.osmId ∉ D
  | .deleteRow _ _ | .deleteProbed _ _ => True
  | .mark k x => k = .waysPending ∨ (k = .relsPending ∧ 0 < x)

theorem DoneClean.setTracker_waysPending {db : Db} (h : DoneClean db) (t : IdTracker) :
    DoneClean (db.setTracker .waysPending t) where
  done_pos := by rw [Db.setTracker_trackers_ne _ _ (by decide)]; exact h.done_pos
  done_clean := by rw [Db.setTracker_trackers_ne _ _ (by decide)]; exact h.done_clean
  rels_pos := by rw [Db.setTracker_trackers_ne _ _ (by decide)]; exact h.rels_pos

theorem DoneClean.setTracker_relsPending {db : Db} (h : DoneClean db) {t : IdTracker}
    (ht : ∀ r ∈ t.ids, 0 < r) : DoneClean (db.setTracker .relsPending t) where
  done_pos := by rw [Db.setTracker_trackers_ne _ _ (by decide)]; exact h.done_pos
  done_clean := by rw [Db.setTracker_trackers_ne _ _ (by decide)]; exact h.done_clean
  rels_pos := by rw [Db.setTracker_trackers_self]; exact ht

section Harmless

variable {o : OutputPgsql}

theorem exec_harmless (hp : o.ProbeSound) {db : Db} {a : Action} (h : DoneClean db)
    (ha : a.Harmless (db.trackers .waysDone).ids) :
    DoneClean (db.exec o a) ∧ (db.exec o a).trackers .waysDone = db.trackers .waysDone := by
  have hdone : (db.exec o a).trackers .waysDone = db.trackers .waysDone :=
    Db.exec_trackers o db _ (by
      cases a with
      | mark k x => rcases ha with rfl | ⟨rfl, -⟩ <;> simp [Action.marks]
      | _ => simp [Action.marks])
  have hrows : ∀ w ∈ (db.trackers .waysDone).ids, ∀ t, t ≠ .point → (db.exec o a).rowsAt t w = [] := by
    intro w hw t ht
    rw [rowsAt_exec t w hp, h.done_clean w hw t ht]
    cases a with
    | write t' row =>
      simp only [Action.onRows]
      split_ifs with e
      · obtain ⟨rfl, hk⟩ := e
        exact (ha.resolve_left ht (hk ▸ hw)).elim
      · rfl
    | deleteRow | deleteProbed => simp only [Action.onRows]; split_ifs <;> rfl
    | mark => rfl
  have hrels : ∀ r ∈ ((db.exec o a).trackers .relsPending).ids, 0 < r := by
    cases a with
    | mark k x =>
      by_cases hk : k = .relsPending
      · subst hk
        simp only [Db.exec, Function.update_same, IdTracker.mark_ids, mem_insertId]
        rintro r (rfl | hr)
        · simpa [Action.Harmless] using ha
        · exact h.rels_pos r hr
      · rw [Db.exec_trackers o db _ (by simpa [Action.marks] using hk)]; exact h.rels_pos
    | _ => rw [Db.exec_trackers o db _ (by simp [Action.marks])]; exact h.rels_pos
  exact ⟨⟨fun w hw => h.done_pos w (hdone ▸ hw), fun w hw => hrows w (hdone ▸ hw), hrels⟩, hdone⟩

/-- Harmless actions keep the invariant and the ways done. -/
theorem run_harmless (hp : o.ProbeSound) : ∀ {db : Db} {acts : List Action}, DoneClean db →
    (∀ a ∈ acts, a.Harmless (db.trackers .waysDone).ids) →
    DoneClean (db.run o acts) ∧ (db.run o acts).trackers .waysDone = db.trackers .waysDone
  | _, [], h, _ => ⟨h, rfl⟩
  | _, a :: _, h, ha =>
    have h₁ := exec_harmless hp h (ha a (List.mem_cons_self _ _))
    have h₂ := run_harmless hp h₁.1 fun b hb => h₁.2 ▸ ha b (List.mem_cons_of_mem _ hb)
    ⟨h₂.1, h₂.2.trans h₁.2⟩

end Harmless

/-! ## What each emitter does to the invariant -/

theorem Classified.harmless {key : Int} {roads : Bool} {acts : List Action}
    (h : Classified key roads acts) {D : List Int} (hk : key ∉ D) : ∀ a ∈ acts, a.Harmless D :=
  fun a ha => by
    obtain ⟨t, row, rfl, rfl, -⟩ := h.mem a ha
    exact .inr hk

namespace OutputPgsql

variable (o : OutputPgsql) (D : List Int)

theorem pgsqlDeleteWayFromOutput_harmless (k : Int) :
    ∀ a ∈ o.pgsqlDeleteWayFromOutput k, a.Harmless D := by
  unfold pgsqlDeleteWayFromOutput
  split_ifs <;> simp [Action.Harmless]

theorem pgsqlDeleteRelationFromOutput_harmless (id : Int) :
    ∀ a ∈ pgsqlDeleteRelationFromOutput id, a.Harmless D := by
  simp [pgsqlDeleteRelationFromOutput, Action.Harmless]

theorem pgsqlOutNode_harmless (id : Int) (tags : Tags) (lat lon : ℚ) :
    ∀ a ∈ o.pgsqlOutNode id tags lat lon, a.Harmless D := by
  unfold pgsqlOutNode
  split_ifs <;> simp [Action.Harmless]

/-- `pgsql_out_way` on a way that is not done. -/
theorem pgsqlOutWay_harmless (hm : o.PositiveMiddle) {id : Int} (hid : id ∉ D) (tags : Tags)
    (nodes : List OsmNode) (existing : Bool) :
    ∀ a ∈ o.pgsqlOutWay id tags nodes existing, a.Harmless D := by
  intro a ha
  simp only [pgsqlOutWay, List.mem_append, List.mem_ite_nil_left, List.mem_ite_nil_right,
    List.mem_map] at ha
  rcases ha with ⟨-, ha | ⟨r, hr, rfl⟩⟩ | ⟨-, ha⟩
  · exact o.pgsqlDeleteWayFromOutput_harmless D id a ha
  · exact .inr ⟨rfl, hm.rels id r hr⟩
  · exact (o.writeGeoms_classified _ _ _ _ _).harmless hid a ha

/-- Whether `way_add` writes the way at once (lines 816–823): the transform neither filters it
nor takes it as a polygon, which `way_add` only marks pending. -/
def writesAtOnce (tags : Tags) : Bool :=
  !(o.tagtransform.filterWayTags tags).polygon && !(o.tagtransform.filterWayTags tags).filter

/-- `way_add` on a way that is not done if `way_add` writes it at once. -/
theorem wayAdd_harmless (hm : o.PositiveMiddle) {id : Int} {tags : Tags}
    (hid : o.writesAtOnce tags → id ∉ D) (nds : List Int) : ∀ a ∈ o.wayAdd id nds tags, a.Harmless D := by
  intro a ha
  simp only [wayAdd, List.mem_append, List.mem_ite_nil_left, List.mem_ite_nil_right,
    List.mem_singleton] at ha
  rcases ha with ⟨-, rfl⟩ | ⟨hw, ha⟩
  · exact .inl rfl
  · exact o.pgsqlOutWay_harmless D hm (hid hw) _ _ _ a ha

end OutputPgsql

/-! ## The supersession block -/

section Block

variable {o : OutputPgsql}

/-- Marking a positive way done and deleting its rows keeps the invariant. -/
theorem run_supersede_block (hs : o.options.slim = true) (hd : o.options.droptemp = false)
    (hp : o.ProbeSound) {db : Db} (h : DoneClean db) {w : Int} (hw : 0 < w) :
    DoneClean (db.run o (.mark .waysDone w :: o.pgsqlDeleteWayFromOutput w)) := by
  rw [Db.run_cons, run_pgsqlDeleteWayFromOutput _ hs hd hp]
  have hdone : ((db.exec o (.mark .waysDone w)).clear [.roads, .line, .poly] w).trackers .waysDone =
      (db.trackers .waysDone).mark w := by
    simp [Db.exec]
  have hrels : ((db.exec o (.mark .waysDone w)).clear [.roads, .line, .poly] w).trackers
      .relsPending = db.trackers .relsPending := by
    rw [Db.clear_trackers]; exact Db.exec_trackers o db _ (by simp [Action.marks])
  refine ⟨?_, ?_, ?_⟩
  · rw [hdone, IdTracker.mark_ids]
    intro x hx
    rcases mem_insertId.mp hx with rfl | hx
    · exact hw
    · exact h.done_pos x hx
  · rw [hdone, IdTracker.mark_ids]
    intro x hx t ht
    rw [rowsAt_clear]
    split_ifs with e
    · rfl
    · rcases mem_insertId.mp hx with rfl | hx
      · exact (e ⟨by cases t <;> simp_all, rfl⟩).elim
      · exact h.done_clean x hx t ht
  · rw [hrels]; exact h.rels_pos

theorem run_markSuperseded (hs : o.options.slim = true) (hd : o.options.droptemp = false)
    (hp : o.ProbeSound) (s : List Bool) :
    ∀ (i : Nat) (ws : List WayData) {db : Db}, DoneClean db → (∀ w ∈ ws, 0 < w.id) →
      DoneClean (db.run o (o.markSuperseded s i ws))
  | _, [], _, h, _ => h
  | i, w :: ws, db, h, hws => by
    unfold OutputPgsql.markSuperseded
    split_ifs with h₀ h₁
    · exact h
    · rw [Db.run_append]
      exact run_markSuperseded hs hd hp s (i + 1) ws
        (run_supersede_block hs hd hp h (hws w (List.mem_cons_self _ _)))
        fun v hv => hws v (List.mem_cons_of_mem _ hv)
    · exact run_markSuperseded hs hd hp s (i + 1) ws h fun v hv => hws v (List.mem_cons_of_mem _ hv)

/-- `pgsql_out_relation` on a positive relation whose ways are positive: its rows are keyed by
the negated id, which no done way has, and it supersedes ways block by block. -/
theorem run_pgsqlOutRelation (hs : o.options.slim = true) (hd : o.options.droptemp = false)
    (hp : o.ProbeSound) {db : Db} (h : DoneClean db) {id : Int} (hid : 0 < id)
    (relTags : Tags) {ways : List WayData} (hws : ∀ w ∈ ways, 0 < w.id)
    (xrole : List (Option String)) :
    DoneClean (db.run o (o.pgsqlOutRelation id relTags ways xrole)) := by
  have hkey : ∀ {db : Db}, DoneClean db → -id ∉ (db.trackers .waysDone).ids :=
    fun h hin => absurd (h.done_pos _ hin) (by omega)
  have hgeoms : ∀ {db : Db}, DoneClean db → ∀ roads lines tags gs,
      DoneClean (db.run o (o.writeGeoms (-id) roads lines tags gs).1) := fun h _ _ _ _ =>
    (run_harmless hp h ((o.writeGeoms_classified _ _ _ _ _).harmless (hkey h))).1
  unfold OutputPgsql.pgsqlOutRelation
  dsimp only
  split_ifs
  any_goals exact h
  all_goals simp only [Db.run_append, Db.run_nil]
  · exact hgeoms (run_markSuperseded hs hd hp _ 0 ways (hgeoms h _ _ _ _) hws) _ _ _ _
  · exact run_markSuperseded hs hd hp _ 0 ways (hgeoms h _ _ _ _) hws
  · exact hgeoms (hgeoms h _ _ _ _) _ _ _ _
  · exact hgeoms h _ _ _ _

theorem run_pgsqlProcessRelation (hs : o.options.slim = true) (hd : o.options.droptemp = false)
    (hp : o.ProbeSound) (hm : o.PositiveMiddle) {db : Db} (h : DoneClean db) {id : Int}
    (hid : 0 < id) (members : List Member) (tags : Tags) (existing : Bool) :
    DoneClean (db.run o (o.pgsqlProcessRelation id members tags existing)) := by
  unfold OutputPgsql.pgsqlProcessRelation
  rw [Db.run_append]
  have h₁ : DoneClean (db.run o (if existing then pgsqlDeleteRelationFromOutput id else [])) :=
    (run_harmless hp h fun a ha => by
      split_ifs at ha
      · exact OutputPgsql.pgsqlDeleteRelationFromOutput_harmless _ id a ha
      · simp at ha).1
  by_cases hf : o.tagtransform.filterRelTags tags = true
  · rw [if_pos hf, Db.run_nil]; exact h₁
  · rw [if_neg hf]; exact run_pgsqlOutRelation hs hd hp h₁ hid tags (hm.ways _) _

end Block

/-! ## Runs -/

/-- One call of the output interface that a run makes before its passes. -/
inductive Call where
  | nodeAdd (id : Int) (lat lon : ℚ) (tags : Tags)
  | wayAdd (id : Int) (nds : List Int) (tags : Tags)
  | relationAdd (id : Int) (members : List Member) (tags : Tags)
  | nodeModify (id : Int) (lat lon : ℚ) (tags : Tags)
  | wayModify (id : Int) (nds : List Int) (tags : Tags)
  | relationModify (id : Int) (members : List Member) (tags : Tags)
  | nodeDelete (id : Int)
  | wayDelete (id : Int)
  | relationDelete (id : Int)

/-- A call admitted in the state `db`: a way that `way_add` writes at once is
added or modified only while it is not done, and a relation id is positive. -/
def Call.Admissible (o : OutputPgsql) (db : Db) : Call → Prop
  | .wayAdd id _ tags | .wayModify id _ tags => o.writesAtOnce tags → id ∉ (db.trackers .waysDone).ids
  | .relationAdd id _ _ | .relationModify id _ _ => 0 < id
  | _ => True

namespace OutputPgsql

variable (o : OutputPgsql)

/-- The actions of one call, or the message it ends the import with. -/
def callActs : Call → Except String (List Action)
  | .nodeAdd id lat lon tags => .ok (o.nodeAdd id lat lon tags)
  | .wayAdd id nds tags => .ok (o.wayAdd id nds tags)
  | .relationAdd id members tags => .ok (o.relationAdd id members tags)
  | .nodeModify id lat lon tags => o.nodeModify id lat lon tags
  | .wayModify id nds tags => o.wayModify id nds tags
  | .relationModify id members tags => o.relationModify id members tags
  | .nodeDelete id => o.nodeDelete id
  | .wayDelete id => o.wayDelete id
  | .relationDelete id => o.relationDelete id

/-- The calls in order; the first fatal message ends the run. -/
def runCalls (db : Db) : List Call → Except String Db
  | [] => .ok db
  | c :: cs => do
    let acts ← o.callActs c
    runCalls (db.run o acts) cs

/-- A run of the output stage: the calls, then a ways pass and a relations pass. -/
def runOutput (db : Db) (calls : List Call) (ew : Bool) (ws : List (Job (Tags × List OsmNode)))
    (er : Bool) (rs : List (Job (List Member × Tags))) : Except String Db := do
  let db ← o.runCalls db calls
  return (o.relCbFunc.pass o er rs (o.wayCbFunc.pass o ew ws db).db).db

/-- Every call of the run is admissible in the state it meets. -/
def AdmissibleRun (db : Db) : List Call → Prop
  | [] => True
  | c :: cs => c.Admissible o db ∧ ∀ acts, o.callActs c = .ok acts → AdmissibleRun (db.run o acts) cs

variable {o}

theorem run_relationAdd (hs : o.options.slim = true) (hd : o.options.droptemp = false)
    (hp : o.ProbeSound) (hm : o.PositiveMiddle) {db : Db} (h : DoneClean db) {id : Int}
    (hid : 0 < id) (members : List Member) (tags : Tags) :
    DoneClean (db.run o (o.relationAdd id members tags)) := by
  unfold relationAdd
  split
  · exact h
  · split_ifs
    · exact h
    · exact run_pgsqlProcessRelation hs hd hp hm h hid _ _ _

/-- One admissible call keeps the invariant. -/
theorem run_callActs (hs : o.options.slim = true) (hd : o.options.droptemp = false)
    (hp : o.ProbeSound) (hm : o.PositiveMiddle) {db : Db} (h : DoneClean db) {c : Call}
    (hc : c.Admissible o db) {acts : List Action} (hacts : o.callActs c = .ok acts) :
    DoneClean (db.run o acts) := by
  have hharm : ∀ {acts : List Action}, (∀ a ∈ acts, a.Harmless (db.trackers .waysDone).ids) →
      DoneClean (db.run o acts) := fun ha => (run_harmless hp h ha).1
  have hmodify : ∀ {dels add : List Action}, (∀ a ∈ dels, a.Harmless (db.trackers .waysDone).ids) →
      (∀ {db' : Db}, DoneClean db' → DoneClean (db'.run o add)) → DoneClean (db.run o (dels ++ add)) :=
    fun hdels hadd => by rw [Db.run_append]; exact hadd (hharm hdels)
  have hdelete : ∀ id, ∀ a ∈ [Action.deleteProbed .point id], a.Harmless (db.trackers .waysDone).ids :=
    fun _ a ha => by simp only [List.mem_singleton] at ha; subst ha; trivial
  cases c with
  | nodeAdd id lat lon tags => cases hacts; exact hharm (o.pgsqlOutNode_harmless _ _ _ _ _)
  | wayAdd id nds tags => cases hacts; exact hharm (o.wayAdd_harmless _ hm hc _)
  | relationAdd id members tags => cases hacts; exact run_relationAdd hs hd hp hm h hc _ _
  | nodeModify id lat lon tags =>
    rw [callActs, o.nodeModify_of_slim hs] at hacts; cases hacts
    exact hmodify (hdelete id) fun h' => (run_harmless hp h' (o.pgsqlOutNode_harmless _ _ _ _ _)).1
  | wayModify id nds tags =>
    rw [callActs, o.wayModify_of_slim hs] at hacts; cases hacts
    exact hharm fun a ha => (List.mem_append.mp ha).elim
      (o.pgsqlDeleteWayFromOutput_harmless _ _ a) (o.wayAdd_harmless _ hm hc _ a)
  | relationModify id members tags =>
    rw [callActs, o.relationModify_of_slim hs] at hacts; cases hacts
    exact hmodify (pgsqlDeleteRelationFromOutput_harmless _ _) (run_relationAdd hs hd hp hm · hc _ _)
  | nodeDelete id => rw [callActs, o.nodeDelete_of_slim hs] at hacts; cases hacts; exact hharm (hdelete id)
  | wayDelete id =>
    rw [callActs, o.wayDelete_of_slim hs] at hacts; cases hacts
    exact hharm (o.pgsqlDeleteWayFromOutput_harmless _ _)
  | relationDelete id =>
    rw [callActs, o.relationDelete_of_slim hs] at hacts; cases hacts
    exact hharm (pgsqlDeleteRelationFromOutput_harmless _ _)

theorem callActs_ok (hs : o.options.slim = true) (c : Call) : ∃ acts, o.callActs c = .ok acts := by
  cases c <;> simp [callActs, o.nodeModify_of_slim hs, o.wayModify_of_slim hs,
    o.relationModify_of_slim hs, o.nodeDelete_of_slim hs, o.wayDelete_of_slim hs,
    o.relationDelete_of_slim hs]

/-- In slim mode an admissible sequence of calls returns, and keeps the invariant. -/
theorem runCalls_clean (hs : o.options.slim = true) (hd : o.options.droptemp = false)
    (hp : o.ProbeSound) (hm : o.PositiveMiddle) :
    ∀ {db : Db} {calls : List Call}, DoneClean db → o.AdmissibleRun db calls →
      ∃ db', o.runCalls db calls = .ok db' ∧ DoneClean db'
  | db, [], h, _ => ⟨db, rfl, h⟩
  | db, c :: cs, h, ⟨hc, hcs⟩ => by
    obtain ⟨acts, hacts⟩ := callActs_ok hs c
    obtain ⟨db', hrun, h'⟩ :=
      runCalls_clean hs hd hp hm (run_callActs hs hd hp hm h hc hacts) (hcs acts hacts)
    exact ⟨db', by simp only [runCalls, hacts]; exact hrun, h'⟩

/-- The ways pass skips a way done and writes no other way under a done key. -/
theorem wayCbFunc_keeps (hp : o.ProbeSound) (hm : o.PositiveMiddle) :
    o.wayCbFunc.Keeps o DoneClean fun _ => True where
  pop db h := ⟨h.setTracker_waysPending _, trivial⟩
  handle db j h _ := by
    unfold Deferred.handle
    split_ifs with hskip
    · exact h
    · refine (run_harmless hp h (o.pgsqlOutWay_harmless _ hm ?_ _ _ _)).1
      simpa [wayCbFunc, IdTracker.isMarked] using hskip

/-- The relations pass pops positive ids only, the sentinel included. -/
theorem relCbFunc_keeps (hs : o.options.slim = true) (hd : o.options.droptemp = false)
    (hp : o.ProbeSound) (hm : o.PositiveMiddle) :
    o.relCbFunc.Keeps o DoneClean (0 < ·) where
  pop db h := by
    have hpop : ∀ t : IdTracker, (∀ r ∈ t.ids, 0 < r) →
        0 < t.popMark.1 ∧ ∀ r ∈ t.popMark.2.ids, 0 < r := by
      rintro ⟨_ | ⟨x, xs⟩, _⟩ hpos
      · exact ⟨show (0 : Int) < osmidMax by decide, fun r hr => by simp [IdTracker.popMark] at hr⟩
      · exact ⟨hpos x (List.mem_cons_self _ _), fun r hr => hpos r (List.mem_cons_of_mem _ hr)⟩
    obtain ⟨h₁, h₂⟩ := hpop _ h.rels_pos
    exact ⟨h.setTracker_relsPending h₂, h₁⟩
  handle db j h hj := run_pgsqlProcessRelation hs hd hp hm h hj _ _ _

/-- SUPERSESSION over whole runs: in slim mode without `droptemp`, with a sound probe and a
middle of positive ids, from a state that keeps the invariant, a run of calls that adds or
modifies no way `way_add` writes at once while it is done (`AdmissibleRun`),
followed by a ways pass and a relations pass over positive relations returns, and at its end no
way in `ways_done` has a row in the line, polygon or roads table. -/
theorem superseded_ways_clean (hs : o.options.slim = true) (hd : o.options.droptemp = false)
    (hp : o.ProbeSound) (hm : o.PositiveMiddle) {db : Db} (h0 : DoneClean db)
    {calls : List Call} (hadm : o.AdmissibleRun db calls) (ew : Bool)
    (ws : List (Job (Tags × List OsmNode))) (er : Bool) {rs : List (Job (List Member × Tags))}
    (hrs : ∀ u ∈ rs, 0 < u.id) :
    ∃ db', o.runOutput db calls ew ws er rs = .ok db' ∧
      ∀ w ∈ (db'.trackers .waysDone).ids, ∀ t ∈ [Table.line, .poly, .roads], db'.rowsAt t w = [] := by
  obtain ⟨db₁, hrun, h₁⟩ := runCalls_clean hs hd hp hm h0 hadm
  have hways := Deferred.pass_keeps (wayCbFunc_keeps hp hm) ew ws h₁ fun _ _ => trivial
  have hrels := Deferred.pass_keeps (relCbFunc_keeps hs hd hp hm) er rs hways hrs
  refine ⟨_, by rw [runOutput, hrun]; rfl, fun w hw t ht => hrels.done_clean w hw t ?_⟩
  simp only [List.mem_cons, List.not_mem_nil, or_false] at ht
  rcases ht with rfl | rfl | rfl <;> decide

end OutputPgsql

/-- Way 10 is a line way, and relation 5 is a multipolygon whose transform supersedes it, with
a builder that answers a polygon. -/
def supersedeScenario (slim : Bool) : OutputPgsql := { (default : OutputPgsql) with
  options := { (default : Options) with slim := slim }
  tagtransform := { (default : TagTransform) with
    filterRelMemberTags := fun _ _ _ => ⟨false, [true], false, true, false⟩ }
  builder := ⟨fun _ _ _ => [⟨"LINESTRING(0 0,1 1)", 0⟩],
    fun _ _ _ _ _ => [⟨"POLYGON((0 0,1 0,1 1,0 0))", 1⟩]⟩
  mid := { (default : Middle) with
    waysGetList := fun _ => [⟨10, [], [⟨0, 0⟩]⟩]
    relationsUsingWay := fun _ => [] }
  fromDb := fun _ _ => 1 }

/-- The state of a fresh import: no row, no id in any tracker. -/
def Db.fresh : Db := ⟨fun _ => [], fun _ => .empty⟩

/-- Way 10 added, then relation 5. -/
def scenarioCalls : List Call :=
  [.wayAdd 10 [1, 2] [], .relationAdd 5 [⟨.way, 10, "outer"⟩] [("type", "multipolygon")]]

theorem supersedeScenario_clean :
    (supersedeScenario true).options.slim = true ∧
    (supersedeScenario true).options.droptemp = false ∧
    (supersedeScenario true).ProbeSound ∧ (supersedeScenario true).PositiveMiddle ∧
    DoneClean Db.fresh ∧ (supersedeScenario true).AdmissibleRun Db.fresh scenarioCalls ∧
    (∀ u ∈ ([] : List (Job (List Member × Tags))), 0 < u.id) ∧
    ∃ db', (supersedeScenario true).runOutput Db.fresh scenarioCalls false [] false [] = .ok db' ∧
      ∀ w ∈ (db'.trackers .waysDone).ids, ∀ t ∈ [Table.line, .poly, .roads], db'.rowsAt t w = [] :=
  have hp : (supersedeScenario true).ProbeSound := fun _ _ _ => by simp [supersedeScenario]
  have hm : (supersedeScenario true).PositiveMiddle :=
    ⟨fun _ w hw => by simp [supersedeScenario] at hw; simp [hw], fun _ r hr => by
      simp [supersedeScenario] at hr⟩
  have h0 : DoneClean Db.fresh := ⟨fun w h => by simp [Db.fresh] at h,
    fun w h => by simp [Db.fresh] at h, fun r h => by simp [Db.fresh] at h⟩
  have hadm : (supersedeScenario true).AdmissibleRun Db.fresh scenarioCalls := by
    refine ⟨by unfold Call.Admissible; decide, fun acts h => ?_⟩
    cases h
    exact ⟨show (0 : Int) < 5 by decide, fun _ _ => trivial⟩
  ⟨rfl, rfl, hp, hm, h0, hadm, fun _ h => by simp at h,
    OutputPgsql.superseded_ways_clean rfl rfl hp hm h0 hadm false [] false fun _ h => by simp at h⟩

/-- A way can be done and keep its rows at the end of a run: outside slim mode way 10 is done and
keeps its line row, since the deletion does nothing; in slim mode, with relation 5 first and
the linear way 10 added after it, `way_add` writes it without looking at `ways_done`. -/
theorem superseded_way_kept :
    (∃ db', (supersedeScenario false).runOutput Db.fresh scenarioCalls false [] false [] = .ok db' ∧
      10 ∈ (db'.trackers .waysDone).ids ∧ db'.rowsAt .line 10 ≠ []) ∧
    (∃ db', (supersedeScenario true).runOutput Db.fresh scenarioCalls.reverse false [] false [] =
      .ok db' ∧ 10 ∈ (db'.trackers .waysDone).ids ∧ db'.rowsAt .line 10 ≠ []) :=
  ⟨⟨_, rfl, by decide, by decide⟩, ⟨_, rfl, by decide, by decide⟩⟩

end OsmPgsql
