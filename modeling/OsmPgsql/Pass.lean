import OsmPgsql.Driver

/-!
# A pass is the fold of its routine over the merge

The refinement of `Deferred.pass` by `mergeJobs`, and from it the contract of the two drivers
of `output-pgsql.cpp` (`deferred_passes_merge`).

The cursor and the tracker together HOLD the pending ids not yet reached (`Deferred.Holds`):
the least in `m_next_internal_id`, the rest in the tracker. The loop of `run_internal_until`
replays those below its bound and keeps the others (`loop_holds`); an upstream call does the
same below its id, pops its id if it was pending, and is handled (`call_holds`); `finish`
replays the rest. What the refinement needs of a driver is `Deferred.Independent`: its routine
never marks its own tracker, and passing an id over does not read that tracker. Both drivers
have it, and the way driver's routine leaves `ways_done` alone, so the ids it passes over are
those `ways_done` held when the pass began.
-/

set_option autoImplicit false

namespace OsmPgsql
namespace Deferred

variable {α : Type} (d : Deferred α) (o : OutputPgsql)

/-- What the refinement asks of a driver: its routine marks nothing into its own tracker, and
passing an id over does not read that tracker. -/
structure Independent : Prop where
  process_marks : ∀ x a e, ∀ act ∈ d.process x a e, act.marks ≠ some d.pending
  skip_setTracker : ∀ db t x, d.skip (db.setTracker d.pending t) x = d.skip db x

/-- The cursor HOLDS the pending ids `R` over the database `D`: the least of them in
`m_next_internal_id` (the sentinel when there is none), the others in the tracker, and all
else as in `D`. -/
def Holds (c : Cursor) (R : List Int) (D : Db) : Prop :=
  c.next = R.headD osmidMax ∧ ∃ t : IdTracker, t.ids = R.tail ∧ c.db = D.setTracker d.pending t

variable {d}

theorem handle_setTracker (hd : d.Independent) (db : Db) (t : IdTracker) (j : Job α) :
    d.handle o (db.setTracker d.pending t) j = (d.handle o db j).setTracker d.pending t := by
  unfold handle
  rw [hd.skip_setTracker]
  split_ifs
  · rfl
  · exact Db.run_setTracker o db d.pending t (hd.process_marks _ _ _)

theorem handle_trackers (hd : d.Independent) (db : Db) (j : Job α) :
    (d.handle o db j).trackers d.pending = db.trackers d.pending := by
  unfold handle
  split_ifs
  · rfl
  · exact Db.run_trackers o db d.pending (hd.process_marks _ _ _)

theorem holds_pop (D : Db) (t : IdTracker) :
    d.Holds (d.pop (D.setTracker d.pending t)) t.ids D := by
  obtain ⟨ids, h⟩ := t
  cases ids with
  | nil => exact ⟨by simp [pop, IdTracker.popMark], ⟨[], h⟩, rfl, by simp [pop, IdTracker.popMark]⟩
  | cons x xs =>
    exact ⟨by simp [pop, IdTracker.popMark], ⟨xs, (List.pairwise_cons.mp h).2⟩, rfl,
      by simp [pop, IdTracker.popMark]⟩

theorem holds_start (db : Db) : d.Holds (d.start db) (db.trackers d.pending).ids db := by
  simpa [start] using holds_pop (d := d) db (db.trackers d.pending)

/-- The loop replays, in order, the pending ids below `id`, and leaves the others. -/
theorem loop_holds (hd : d.Independent) {id : Int} (hid : id ≤ osmidMax) (e : Bool) :
    ∀ (R : List Int) (fuel : Nat) (c : Cursor) (D : Db), R.Pairwise (· < ·) →
      (∀ x ∈ R, x < osmidMax) → R.length ≤ fuel → d.Holds c R D →
      d.Holds (d.loop o id e fuel c) (R.filter (id ≤ ·))
        ((replay d.fetch e (R.filter (· < id))).foldl (d.handle o) D)
  | [], fuel, c, D, _, _, _, h => by
    cases fuel with
    | zero => exact h
    | succ f =>
      have hn : ¬ c.next < id := by rw [h.1]; simp only [List.headD_nil]; omega
      simpa [loop, hn] using h
  | x :: xs, fuel, c, D, hs, hmax, hlen, ⟨hn, t, ht, hdb⟩ => by
    obtain ⟨f, rfl⟩ : ∃ f, fuel = f + 1 := ⟨fuel - 1, by simp at hlen; omega⟩
    obtain ⟨hx, hxs⟩ := List.pairwise_cons.mp hs
    simp only [List.headD_cons] at hn
    by_cases hlt : x < id
    · have ht' : t.ids = xs := ht
      have hmax' : ∀ y ∈ xs, y < osmidMax := fun y hy => hmax y (List.mem_cons_of_mem _ hy)
      have hlen' : xs.length ≤ f := by simpa using hlen
      rw [List.filter_cons_of_neg (by simp; omega), List.filter_cons_of_pos (by simpa using hlt)]
      cases hf : d.fetch x with
      | none =>
        have := loop_holds hd hid e xs f _ D hxs hmax' hlen' (ht' ▸ holds_pop D t)
        simpa [loop, hn, hlt, hf, hdb, replay] using this
      | some a =>
        have := loop_holds hd hid e xs f _ (d.handle o D ⟨x, a, e⟩) hxs hmax' hlen'
          (ht' ▸ holds_pop _ t)
        simpa [loop, hn, hlt, hf, hdb, replay, handle_setTracker o hd] using this
    · have hge : ∀ y ∈ x :: xs, id ≤ y := fun y hy => by
        rcases List.mem_cons.mp hy with rfl | hy
        · omega
        · have := hx y hy; omega
      rw [List.filter_eq_self.mpr (fun y hy => by simpa using hge y hy),
        List.filter_eq_nil_iff.mpr (fun y hy => by have := hge y hy; simp; omega)]
      simp only [loop, hn, hlt, if_false]
      exact ⟨hn, t, ht, hdb⟩

theorem runInternalUntil_holds (hd : d.Independent) {id : Int} (hid : id ≤ osmidMax) (e : Bool)
    {R : List Int} {c : Cursor} {D : Db} (hs : R.Pairwise (· < ·)) (hmax : ∀ x ∈ R, x < osmidMax)
    (h : d.Holds c R D) :
    d.Holds (d.runInternalUntil o id e c) (R.filter (id ≤ ·))
      ((replay d.fetch e (R.filter (· < id))).foldl (d.handle o) D) := by
  obtain ⟨hn, t, ht, hdb⟩ := h
  refine loop_holds o hd hid e R _ c D hs hmax ?_ ⟨hn, t, ht, hdb⟩
  rw [hdb, Db.setTracker_trackers_self, ht]
  cases R <;> simp

theorem runInternalUntil_of_ge {id : Int} (e : Bool) {c : Cursor} (h : ¬ c.next < id) :
    d.runInternalUntil o id e c = c := by
  simp [runInternalUntil, loop, h]

theorem filter_lt_of_filter_le (R : List Int) (a : Int) :
    (R.filter (a ≤ ·)).filter (a < ·) = R.filter (a < ·) := by
  rw [List.filter_filter]
  congr 1
  funext x
  by_cases h : a < x <;> simp [h]; omega

/-- Popping the upstream id off the cursor when it is pending. -/
theorem holds_popIf {a : Int} {R : List Int} {c : Cursor} {D : Db} (hs : R.Pairwise (· < ·))
    (hge : ∀ x ∈ R, a ≤ x) (h : d.Holds c R D) :
    d.Holds (if c.next = a then d.pop c.db else c) (R.filter (a < ·)) D := by
  obtain ⟨hn, t, ht, hdb⟩ := h
  cases R with
  | nil =>
    have ht' : t.ids = [] := ht
    rw [List.filter_nil]
    split_ifs
    · rw [hdb, ← ht']; exact holds_pop D t
    · exact ⟨hn, t, ht, hdb⟩
  | cons x xs =>
    obtain ⟨hx, -⟩ := List.pairwise_cons.mp hs
    have ht' : t.ids = xs := ht
    have hax := hge x (List.mem_cons_self _ _)
    simp only [List.headD_cons] at hn
    split_ifs with hxa
    · rw [List.filter_cons_of_neg (by simp; omega),
        List.filter_eq_self.mpr (fun y hy => by have := hx y hy; simp; omega), hdb, ← ht']
      exact holds_pop D t
    · rw [List.filter_eq_self.mpr (fun y hy => by
        rcases List.mem_cons.mp hy with rfl | hy
        · simp; omega
        · have := hx y hy; simp; omega)]
      exact ⟨hn, t, ht, hdb⟩

/-- One upstream call: the pending ids below it are replayed, then it is handled, and the
pending ids above it are left. -/
theorem call_holds (hd : d.Independent) {u : Job α} (hu : u.id ≤ osmidMax) {R : List Int}
    {c : Cursor} {D : Db} (hs : R.Pairwise (· < ·)) (hmax : ∀ x ∈ R, x < osmidMax)
    (h : d.Holds c R D) :
    d.Holds (d.call o c u) (R.filter (u.id < ·))
      (d.handle o ((replay d.fetch u.existing (R.filter (· < u.id))).foldl (d.handle o) D) u) := by
  have h1 : (if c.next < u.id then d.runInternalUntil o u.id u.existing c else c) =
      d.runInternalUntil o u.id u.existing c := by
    split_ifs with hlt
    · rfl
    · exact (runInternalUntil_of_ge o u.existing hlt).symm
  have hc1 := runInternalUntil_holds o hd hu u.existing hs hmax h
  have hc2 := holds_popIf (hs.filter _) (fun x hx => by simpa using (List.mem_filter.mp hx).2) hc1
  rw [filter_lt_of_filter_le] at hc2
  obtain ⟨hn, t, ht, hdb⟩ := hc2
  simp only [call, h1]
  exact ⟨hn, t, ht, by rw [hdb, handle_setTracker o hd]⟩

theorem finish_calls_holds (hd : d.Independent) (e : Bool) :
    ∀ (us : List (Job α)) (R : List Int) (c : Cursor) (D : Db), R.Pairwise (· < ·) →
      (∀ x ∈ R, x < osmidMax) → (∀ u ∈ us, u.id ≤ osmidMax) → d.Holds c R D →
      d.Holds (d.finish o e (us.foldl (d.call o) c)) []
        ((mergeJobs d.fetch e us R).foldl (d.handle o) D)
  | [], R, c, D, hs, hmax, _, h => by
    have := runInternalUntil_holds o hd (Int.le_refl _) e hs hmax h
    rwa [List.filter_eq_nil_iff.mpr (fun x hx => by have := hmax x hx; simp; omega),
      List.filter_eq_self.mpr (fun x hx => by simpa using hmax x hx)] at this
  | u :: us, R, c, D, hs, hmax, hus, h => by
    have := finish_calls_holds hd e us _ _ _ (hs.filter _)
      (fun x hx => hmax x (List.mem_filter.mp hx).1) (fun v hv => hus v (List.mem_cons_of_mem _ hv))
      (call_holds o hd (hus u (List.mem_cons_self _ _)) hs hmax h)
    simpa [mergeJobs, List.foldl_append] using this

theorem eq_of_holds_nil {c : Cursor} {D : Db} (h : d.Holds c [] D) :
    c = ⟨osmidMax, D.setTracker d.pending .empty⟩ := by
  obtain ⟨hn, t, ht, hdb⟩ := h
  obtain ⟨next, db⟩ := c
  have : t = .empty := IdTracker.ext_ids ht
  simp only at hn hdb
  rw [hn, hdb, this]
  rfl

/-- THE REFINEMENT: whatever the upstream calls, a pass is the fold of the processing routine
over `mergeJobs`, and it leaves the cursor at the sentinel and the tracker empty. -/
theorem pass_eq_mergeJobs (hd : d.Independent) (e : Bool) (us : List (Job α)) (db : Db)
    (hmax : ∀ x ∈ (db.trackers d.pending).ids, x < osmidMax)
    (hus : ∀ u ∈ us, u.id ≤ osmidMax) :
    d.pass o e us db = ⟨osmidMax, ((mergeJobs d.fetch e us (db.trackers d.pending).ids).foldl
      (d.handle o) db).setTracker d.pending .empty⟩ :=
  eq_of_holds_nil (finish_calls_holds o hd e us _ _ _ (db.trackers d.pending).ascending hmax hus
    (holds_start db))


theorem foldl_handle_setTracker (hd : d.Independent) (t : IdTracker) (L : List (Job α))
    (db : Db) : (L.foldl (d.handle o) db).setTracker d.pending t =
      L.foldl (d.handle o) (db.setTracker d.pending t) := by
  induction L generalizing db with
  | nil => rfl
  | cons j L ih => simp only [List.foldl_cons, ih, handle_setTracker o hd]

end Deferred

/-! ## The two drivers -/

namespace OutputPgsql

variable (o : OutputPgsql)

theorem wayCbFunc_independent : o.wayCbFunc.Independent where
  process_marks x a e act h := by
    rcases o.pgsqlOutWay_marks x a.1 a.2 e act h with h | h <;> simp [h, wayCbFunc]
  skip_setTracker db t x := by
    simp [wayCbFunc, Db.setTracker_trackers_ne db t (show Tracker.waysDone ≠ .waysPending by decide)]

theorem relCbFunc_independent : o.relCbFunc.Independent where
  process_marks x a e act h := by
    rcases o.pgsqlProcessRelation_marks x a.1 a.2 e act h with h | h <;> simp [h, relCbFunc]
  skip_setTracker _ _ _ := rfl

/-- THE DIFFERENCE between the drivers: `pgsql_out_way` never marks `ways_done`, so a way pass
passes over exactly the ids `ways_done` held when it began. -/
theorem foldl_wayCbFunc_handle (L : List (Job (Tags × List OsmNode))) (db : Db) :
    L.foldl (o.wayCbFunc.handle o) db =
      (L.filter fun j => !(db.trackers .waysDone).isMarked j.id).foldl
        (fun db j => db.run o (o.pgsqlOutWay j.id j.data.1 j.data.2 j.existing)) db := by
  induction L generalizing db with
  | nil => rfl
  | cons j L ih =>
    have hstep : o.wayCbFunc.handle o db j = if (db.trackers .waysDone).isMarked j.id then db
        else db.run o (o.pgsqlOutWay j.id j.data.1 j.data.2 j.existing) := rfl
    by_cases hj : (db.trackers .waysDone).isMarked j.id
    · simp only [List.foldl_cons, hstep, hj, if_true, ih, List.filter_cons, Bool.not_true,
        Bool.false_eq_true, if_false]
    · have hdone : (db.run o (o.pgsqlOutWay j.id j.data.1 j.data.2 j.existing)).trackers
          .waysDone = db.trackers .waysDone := Db.run_trackers o db .waysDone fun a ha => by
        rcases o.pgsqlOutWay_marks _ _ _ _ a ha with h | h <;> simp [h]
      simp only [List.foldl_cons, hstep, hj, ih, hdone, List.filter_cons, Bool.not_false,
        if_true, Bool.false_eq_true, if_false]

theorem foldl_relCbFunc_handle (L : List (Job (List Member × Tags))) (db : Db) :
    L.foldl (o.relCbFunc.handle o) db =
      L.foldl (fun db j => db.run o (o.pgsqlProcessRelation j.id j.data.1 j.data.2 j.existing)) db :=
  rfl

end OutputPgsql

/-! ## The contract of the two drivers -/

/-- Upstream calls as a middle delivers them: ids strictly rising, all below the sentinel. -/
def Rising {α : Type} (us : List (Job α)) : Prop :=
  us.Pairwise (·.id < ·.id) ∧ ∀ u ∈ us, u.id < osmidMax

/-- A tracker whose ids all lie below the sentinel. -/
def IdTracker.Bounded (t : IdTracker) : Prop := ∀ x ∈ t.ids, x < osmidMax

/-- What a pass hands its processing routine, `L`: strictly ascending ids, so each id once;
every upstream call as it came; and besides those exactly the pending ids `P` that are no
upstream id and that the middle finds, with what it finds. -/
structure MergedPass {α : Type} (us : List (Job α)) (P : List Int) (fetch : Int → Option α)
    (L : List (Job α)) : Prop where
  ascending : L.Pairwise (·.id < ·.id)
  upstream : ∀ u ∈ us, u ∈ L
  mem : ∀ x a, (∃ f, ⟨x, a, f⟩ ∈ L) ↔
    (∃ f, ⟨x, a, f⟩ ∈ us) ∨ (x ∈ P ∧ (∀ u ∈ us, u.id ≠ x) ∧ fetch x = some a)

theorem mergeJobs_merged {α : Type} (fetch : Int → Option α) (e : Bool) {us : List (Job α)}
    {P : List Int} (hus : us.Pairwise (·.id < ·.id)) (hP : P.Pairwise (· < ·)) :
    MergedPass us P fetch (mergeJobs fetch e us P) :=
  ⟨mergeJobs_ascending fetch e hus hP, fun _ hu => mem_mergeJobs_of_mem fetch e hu,
    mem_mergeJobs fetch e hus⟩

namespace OutputPgsql

variable (o : OutputPgsql)

/-- THE CONTRACT of a way pass over the upstream calls `us` from the database `db`: it hands
`pgsql_out_way` the merge `L` of `us` with the pending ways, less the ids `ways_done` holds,
in order; the cursor ends at the sentinel and `ways_pending` ends empty. -/
def WayPassContract (e : Bool) (us : List (Job (Tags × List OsmNode))) (db : Db) : Prop :=
  ∃ L, MergedPass us (db.trackers .waysPending).ids o.mid.waysGet L ∧
    o.wayCbFunc.pass o e us db = ⟨osmidMax,
      (L.filter fun j => !(db.trackers .waysDone).isMarked j.id).foldl
        (fun db j => db.run o (o.pgsqlOutWay j.id j.data.1 j.data.2 j.existing))
        (db.setTracker .waysPending .empty)⟩ ∧
    ((o.wayCbFunc.pass o e us db).db.trackers .waysPending).ids = []

/-- THE CONTRACT of a relation pass: it hands `pgsql_process_relation` the merge `L` of `us`
with the pending relations, all of it, in order; `rels_pending` ends empty. -/
def RelPassContract (e : Bool) (us : List (Job (List Member × Tags))) (db : Db) : Prop :=
  ∃ L, MergedPass us (db.trackers .relsPending).ids o.mid.relationsGet L ∧
    o.relCbFunc.pass o e us db = ⟨osmidMax, L.foldl
        (fun db j => db.run o (o.pgsqlProcessRelation j.id j.data.1 j.data.2 j.existing))
        (db.setTracker .relsPending .empty)⟩ ∧
    ((o.relCbFunc.pass o e us db).db.trackers .relsPending).ids = []

/-- Both drivers keep their contract, for every middle, every pending set below the sentinel
and every rising sequence of upstream calls. -/
theorem deferred_passes_merge (ew er : Bool) (ws : List (Job (Tags × List OsmNode)))
    (rs : List (Job (List Member × Tags))) (dbw dbr : Db) (hws : Rising ws)
    (hwp : (dbw.trackers .waysPending).Bounded) (hrs : Rising rs)
    (hrp : (dbr.trackers .relsPending).Bounded) :
    o.WayPassContract ew ws dbw ∧ o.RelPassContract er rs dbr := by
  have hw := o.wayCbFunc.pass_eq_mergeJobs o o.wayCbFunc_independent ew ws dbw hwp
    fun u hu => Int.le_of_lt (hws.2 u hu)
  have hr := o.relCbFunc.pass_eq_mergeJobs o o.relCbFunc_independent er rs dbr hrp
    fun u hu => Int.le_of_lt (hrs.2 u hu)
  refine ⟨⟨_, mergeJobs_merged _ ew hws.1 (dbw.trackers _).ascending, ?_, ?_⟩,
    ⟨_, mergeJobs_merged _ er hrs.1 (dbr.trackers _).ascending, ?_, ?_⟩⟩
  · rw [hw, Deferred.foldl_handle_setTracker o o.wayCbFunc_independent, foldl_wayCbFunc_handle]
    rfl
  · rw [hw]; rfl
  · rw [hr, Deferred.foldl_handle_setTracker o o.relCbFunc_independent, foldl_relCbFunc_handle]
    rfl
  · rw [hr]; rfl

/-- Pending ways 3 and 5 against upstream ways 4 and 5, and an empty relation pass. -/
theorem deferred_passes_merge_sample :
    Rising [(⟨4, ([], []), true⟩ : Job (Tags × List OsmNode)), ⟨5, ([], []), true⟩] ∧
    (((default : Db).setTracker .waysPending ⟨[3, 5], by decide⟩).trackers .waysPending).Bounded ∧
    Rising ([] : List (Job (List Member × Tags))) ∧
    ((default : Db).trackers .relsPending).Bounded ∧
    (default : OutputPgsql).WayPassContract true
      [⟨4, ([], []), true⟩, ⟨5, ([], []), true⟩]
      ((default : Db).setTracker .waysPending ⟨[3, 5], by decide⟩) ∧
    (default : OutputPgsql).RelPassContract false [] default :=
  have h₁ : Rising [(⟨4, ([], []), true⟩ : Job (Tags × List OsmNode)), ⟨5, ([], []), true⟩] := by
    unfold Rising; decide
  have h₂ : (((default : Db).setTracker .waysPending ⟨[3, 5], by decide⟩).trackers
      .waysPending).Bounded := by
    unfold IdTracker.Bounded; decide
  have h₃ : Rising ([] : List (Job (List Member × Tags))) := by unfold Rising; decide
  have h₄ : ((default : Db).trackers .relsPending).Bounded := by
    unfold IdTracker.Bounded; decide
  ⟨h₁, h₂, h₃, h₄, deferred_passes_merge default true false _ _ _ _ h₁ h₂ h₃ h₄⟩

end OutputPgsql

end OsmPgsql
