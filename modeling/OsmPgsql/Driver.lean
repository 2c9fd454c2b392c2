import OsmPgsql.Emit

/-!
# The deferred-iteration drivers

`way_cb_func` (lines 621–666) and `rel_cb_func` (lines 668–707) are one driver. Each holds a
cursor `m_next_internal_id` over its pending tracker, takes upstream calls whose ids rise, and
before handling an upstream id replays, from the middle, every pending id below it. `finish`
replays the rest. They differ in the tracker they pop, in the middle lookup, in the processing
routine, and in one branch only the way driver has: it passes over an id in `ways_done`. Here
the driver is `Deferred`, with those four as fields, and the two source drivers are two values
of it.

`mergeJobs` says what a pass is FOR, in the words of the spec's rationale: the upstream calls
and the pending ids the middle finds, merged in ascending order, a pending id that is also an
upstream id handled by its upstream call only. `pass_eq_mergeJobs` is the refinement: whatever
the upstream calls, the driver's run is the fold of the processing routine over that merge, and
its tracker ends empty. The merge's own laws, ascending order and exactly which jobs it holds,
are proved of `mergeJobs` alone.
-/

set_option autoImplicit false

namespace OsmPgsql

/-- One call of a processing routine: the id, what the routine is handed for it, and the
`exists` flag. An upstream call of a driver is one of these as well. -/
structure Job (α : Type) where
  id : Int
  data : α
  existing : Bool

/-- A driver object, `m_next_internal_id`, with the database of the output it drives. -/
structure Cursor where
  next : Int
  db : Db

/-- What tells the two drivers apart: the pending tracker popped, the middle lookup of a
pending id, whether an id is passed over, and the processing routine. -/
structure Deferred (α : Type) where
  pending : Tracker
  fetch : Int → Option α
  skip : Db → Int → Bool
  process : Int → α → Bool → List Action

namespace Deferred

variable {α : Type} (d : Deferred α) (o : OutputPgsql)

/-- The processing routine as the driver calls it, unless `skip` passes the id over. -/
def handle (db : Db) (j : Job α) : Db :=
  if d.skip db j.id then db else db.run o (d.process j.id j.data j.existing)

/-- `m_next_internal_id = pending_tracker->pop_mark()`. -/
def pop (db : Db) : Cursor :=
  ⟨(db.trackers d.pending).popMark.1, db.setTracker d.pending (db.trackers d.pending).popMark.2⟩

/-- The `while (m_next_internal_id < id)` loop of `run_internal_until`, for at most `fuel`
turns. -/
def loop (id : Int) (existing : Bool) : Nat → Cursor → Cursor
  | 0, c => c
  | fuel + 1, c =>
    if c.next < id then
      let db := match d.fetch c.next with
        | some a => d.handle o c.db ⟨c.next, a, existing⟩
        | none => c.db
      loop id existing fuel (d.pop db)
    else c

/-- `run_internal_until(id, exists)`. Every turn pops the tracker, so one turn per pending id
and one more are all the loop can take. -/
def runInternalUntil (id : Int) (existing : Bool) (c : Cursor) : Cursor :=
  d.loop o id existing ((c.db.trackers d.pending).ids.length + 1) c

/-- The constructor: the cursor starts at the first `pop_mark()`. -/
def start (db : Db) : Cursor := d.pop db

/-- `operator()` on the upstream call `u`. -/
def call (c : Cursor) (u : Job α) : Cursor :=
  let c := if c.next < u.id then d.runInternalUntil o u.id u.existing c else c
  let c := if c.next = u.id then d.pop c.db else c
  ⟨c.next, d.handle o c.db u⟩

/-- `finish(exists)`. -/
def finish (existing : Bool) (c : Cursor) : Cursor := d.runInternalUntil o osmidMax existing c

/-- A whole pass: the driver is built, called on each upstream call in order, and finished. -/
def pass (existing : Bool) (us : List (Job α)) (db : Db) : Cursor :=
  d.finish o existing (us.foldl (d.call o) (d.start db))

end Deferred

namespace OutputPgsql

variable (o : OutputPgsql)

/-- `way_cb_func`: pops `ways_pending`, reads a pending way with `ways_get`, passes over a way
in `ways_done`, calls `pgsql_out_way`. -/
def wayCbFunc : Deferred (Tags × List OsmNode) where
  pending := .waysPending
  fetch := o.mid.waysGet
  skip db id := (db.trackers .waysDone).isMarked id
  process id w existing := o.pgsqlOutWay id w.1 w.2 existing

/-- `rel_cb_func`: pops `rels_pending`, reads a pending relation with `relations_get`, passes
nothing over, calls `pgsql_process_relation`. -/
def relCbFunc : Deferred (List Member × Tags) where
  pending := .relsPending
  fetch := o.mid.relationsGet
  skip _ _ := false
  process id r existing := o.pgsqlProcessRelation id r.1 r.2 existing

end OutputPgsql

/-! ## What a pass is for -/

section Merge

variable {α : Type} (fetch : Int → Option α)

/-- The pending ids `R` replayed from the middle with the flag `existing`: those it finds. -/
def replay (existing : Bool) (R : List Int) : List (Job α) :=
  R.filterMap fun x => (fetch x).map fun a => ⟨x, a, existing⟩

/-- THE MERGE. Before each upstream call, the pending ids below it, replayed with that call's
flag; then the call; a pending id equal to it is dropped. What is left after the last call is
replayed with the flag of `finish`. -/
def mergeJobs (existing : Bool) : List (Job α) → List Int → List (Job α)
  | [], R => replay fetch existing R
  | u :: us, R =>
    replay fetch u.existing (R.filter (· < u.id)) ++ u :: mergeJobs existing us (R.filter (u.id < ·))

end Merge

/-! ## The merge's laws -/

section MergeLaws

variable {α : Type} (fetch : Int → Option α) (e : Bool)

theorem mem_replay {R : List Int} {x : Int} {a : α} {f : Bool} :
    ⟨x, a, f⟩ ∈ replay fetch e R ↔ x ∈ R ∧ fetch x = some a ∧ f = e := by
  simp only [replay, List.mem_filterMap, Option.map_eq_some', Job.mk.injEq]
  constructor
  · rintro ⟨y, hy, b, hb, rfl, rfl, rfl⟩; exact ⟨hy, hb, rfl⟩
  · rintro ⟨hx, ha, rfl⟩; exact ⟨x, hx, a, ha, rfl, rfl, rfl⟩

theorem replay_ascending {R : List Int} (h : R.Pairwise (· < ·)) :
    (replay fetch e R).Pairwise (·.id < ·.id) :=
  h.filterMap _ fun x y hxy b hb b' hb' => by
    simp only [Option.mem_def, Option.map_eq_some'] at hb hb'
    obtain ⟨_, _, rfl⟩ := hb
    obtain ⟨_, _, rfl⟩ := hb'
    exact hxy

theorem id_mem_of_mem_mergeJobs :
    ∀ {us : List (Job α)} {R : List Int} {j : Job α}, j ∈ mergeJobs fetch e us R →
      (∃ u ∈ us, u.id = j.id) ∨ j.id ∈ R
  | [], R, ⟨x, a, f⟩, h => .inr ((mem_replay fetch e).mp h).1
  | u :: us, R, ⟨x, a, f⟩, h => by
    simp only [mergeJobs, List.mem_append, List.mem_cons] at h
    rcases h with h | rfl | h
    · exact .inr (List.mem_filter.mp ((mem_replay fetch _).mp h).1).1
    · exact .inl ⟨_, List.mem_cons_self _ _, rfl⟩
    · rcases id_mem_of_mem_mergeJobs h with ⟨v, hv, hid⟩ | hR
      · exact .inl ⟨v, List.mem_cons_of_mem _ hv, hid⟩
      · exact .inr (List.mem_filter.mp hR).1

/-- The merge is in strictly ascending id order, so no id is handled twice. -/
theorem mergeJobs_ascending :
    ∀ {us : List (Job α)} {R : List Int}, us.Pairwise (·.id < ·.id) → R.Pairwise (· < ·) →
      (mergeJobs fetch e us R).Pairwise (·.id < ·.id)
  | [], _, _, hR => replay_ascending fetch e hR
  | u :: us, R, hus, hR => by
    obtain ⟨hu, hus⟩ := List.pairwise_cons.mp hus
    have hrest := mergeJobs_ascending hus (hR.filter (u.id < ·))
    have habove : ∀ j ∈ mergeJobs fetch e us (R.filter (u.id < ·)), u.id < j.id := fun j hj => by
      rcases id_mem_of_mem_mergeJobs fetch e hj with ⟨v, hv, hid⟩ | hR'
      · exact hid ▸ hu v hv
      · simpa using (List.mem_filter.mp hR').2
    have hbelow : ∀ j ∈ replay fetch u.existing (R.filter (· < u.id)), j.id < u.id := by
      rintro ⟨x, a, f⟩ hj
      simpa using (List.mem_filter.mp ((mem_replay fetch _).mp hj).1).2
    simp only [mergeJobs]
    refine List.pairwise_append.mpr ⟨replay_ascending fetch _ (hR.filter _),
      List.pairwise_cons.mpr ⟨habove, hrest⟩, fun j hj k hk => ?_⟩
    rcases List.mem_cons.mp hk with rfl | hk
    · exact hbelow j hj
    · exact Int.lt_trans (hbelow j hj) (habove k hk)

/-- EXACTLY WHICH JOBS the merge holds: the upstream calls, and the pending ids that are no
upstream id and that the middle finds, with what it finds. -/
theorem mem_mergeJobs :
    ∀ {us : List (Job α)} {R : List Int}, us.Pairwise (·.id < ·.id) → ∀ (x : Int) (a : α),
      (∃ f, ⟨x, a, f⟩ ∈ mergeJobs fetch e us R) ↔
        (∃ f, ⟨x, a, f⟩ ∈ us) ∨ (x ∈ R ∧ (∀ u ∈ us, u.id ≠ x) ∧ fetch x = some a)
  | [], R, _, x, a => by simp [mergeJobs, mem_replay]
  | ⟨y, b, g⟩ :: us, R, hus, x, a => by
    obtain ⟨hu, hus⟩ := List.pairwise_cons.mp hus
    have ih := mem_mergeJobs (R := R.filter (y < ·)) hus x a
    rw [List.forall_mem_cons]
    simp only [mergeJobs, List.mem_append, List.mem_cons, exists_or, mem_replay, List.mem_filter,
      Job.mk.injEq, decide_eq_true_eq, ih] at ih ⊢
    constructor
    · rintro (⟨f, ⟨hx, hlt⟩, ha, -⟩ | ⟨f, rfl, rfl, rfl⟩ | (h | ⟨⟨hx, hlt⟩, hne, ha⟩))
      · refine .inr ⟨hx, ⟨by omega, fun v hv => ?_⟩, ha⟩
        have := hu v hv; simp at this; omega
      · exact .inl (.inl ⟨_, rfl, rfl, rfl⟩)
      · exact .inl (.inr h)
      · exact .inr ⟨hx, ⟨by omega, hne⟩, ha⟩
    · rintro ((⟨f, rfl, rfl, rfl⟩ | h) | ⟨hx, ⟨hne, hne'⟩, ha⟩)
      · exact .inr (.inl ⟨_, rfl, rfl, rfl⟩)
      · exact .inr (.inr (.inl h))
      · rcases Int.lt_or_gt_of_ne hne with hlt | hlt
        · exact .inr (.inr (.inr ⟨⟨hx, hlt⟩, hne', ha⟩))
        · exact .inl ⟨g, ⟨hx, hlt⟩, ha, rfl⟩

theorem mem_mergeJobs_of_mem :
    ∀ {us : List (Job α)} {R : List Int} {u : Job α}, u ∈ us → u ∈ mergeJobs fetch e us R
  | v :: us, R, u, h => by
    simp only [mergeJobs, List.mem_append, List.mem_cons]
    rcases List.mem_cons.mp h with rfl | h
    · exact .inr (.inl rfl)
    · exact .inr (.inr (mem_mergeJobs_of_mem h))

end MergeLaws

end OsmPgsql
