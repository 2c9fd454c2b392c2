import OsmPgsql.Emit

/-!
# The arrays of `pgsql_process_relation`

`pgsql_process_relation` (lines 828–891) allocates five arrays of `member_count + 1` slots,
gathers the ids of the way members into `xid2`, lets the middle fill `xtags`, `xnodes` and
`xcount` with the ways it found, scans the member array for each found way's role into
`xrole`, and ends the arrays with sentinels. `Emit` models the same lines on lists, where no
index falls outside anything. Here they run on arrays of a fixed size, where a read or a write
outside answers `none`, C's undefined behaviour (`relArrays`).

The list model's `none` roles mark exactly the scans that read `members[member_count]`: the
array phase runs to its end if and only if the middle answers at most `member_count` ways and no
role is `none`, and its arrays then hold the lists `Emit` hands to `pgsql_out_relation`
(`relArrays_spec`, `relArrays_isSome_iff`).

Nothing in the function bounds the scan: it stays inside the member array only because the
middle answers its ways in the order they were asked for. When the middle's ids are an in-order
subsequence of the requested ones, the `k`-th of them stands at a member index `k` or later, so
the scan from `k` finds it before the end (`relArrays_in_bounds`). The sentinel
`xcount[count2] = 0` then ends the supersession walk of `pgsql_out_relation` by `count2`
(`supersede_walk_in_bounds`).

`xid`, the array of found ids, is allocated by the middle with a size this file does not know;
its sentinel write `xid[count2] = 0` is left out.
-/

set_option autoImplicit false

namespace OsmPgsql

/-- A heap array of fixed size, slot by slot: `some v` once `v` is written there, `none` while
the slot is as `malloc` left it. -/
structure CArray (α : Type) where
  slots : List (Option α)
  deriving DecidableEq, Repr

namespace CArray

variable {α : Type}

/-- `malloc(n * sizeof(α))`. -/
def alloc (n : Nat) : CArray α := ⟨List.replicate n none⟩

/-- `a[k] = v`; `none` when slot `k` is past the end. -/
def write (a : CArray α) (k : Nat) (v : α) : Option (CArray α) :=
  if k < a.slots.length then some ⟨a.slots.set k (some v)⟩ else none

/-- `a[k] = vs[0]; a[k + 1] = vs[1]; ...`, as the middle fills its out-parameters. -/
def fill (a : CArray α) (k : Nat) : List α → Option (CArray α)
  | [] => some a
  | v :: vs => (a.write k v).bind fun a => a.fill (k + 1) vs

/-- An array of `n` slots whose first ones hold `vs`, the rest unwritten. -/
def ofList (n : Nat) (vs : List α) : CArray α :=
  ⟨vs.map some ++ List.replicate (n - vs.length) none⟩

theorem alloc_eq_ofList (n : Nat) : (alloc n : CArray α) = ofList n [] := by
  simp [alloc, ofList]

theorem take_ofList (n : Nat) (vs : List α) : (ofList n vs).slots.take vs.length = vs.map some := by
  simp [ofList]

/-- Writing the slot after the written ones: it is there while the array has room. -/
theorem write_ofList {n k : Nat} {vs : List α} (hk : vs.length = k) (v : α) :
    (ofList n vs).write k v = if k < n then some (ofList n (vs ++ [v])) else none := by
  subst hk
  split_ifs with h
  · obtain ⟨m, hm⟩ : ∃ m, n - vs.length = m + 1 := ⟨n - vs.length - 1, by omega⟩
    have hm' : n - (vs.length + 1) = m := by omega
    simp [write, ofList, hm, hm', List.replicate_succ, List.set_append_right]
  · simp [write, ofList]
    omega

/-- Filling on from the written slots succeeds exactly while the array has room. -/
theorem fill_ofList {n : Nat} (vs ws : List α) (hv : vs.length ≤ n) :
    (ofList n vs).fill vs.length ws =
      if vs.length + ws.length ≤ n then some (ofList n (vs ++ ws)) else none := by
  induction ws generalizing vs with
  | nil => simp [fill, hv]
  | cons w ws ih =>
    by_cases hn : vs.length < n
    · have hrest := ih (vs ++ [w]) (by simp; omega)
      simp only [List.length_append, List.length_singleton] at hrest
      simp [fill, write_ofList rfl, hn, hrest, Nat.add_assoc, Nat.add_comm 1]
    · have hlong : ¬vs.length + (ws.length + 1) ≤ n := by omega
      simp [fill, write_ofList rfl, hn, hlong]

theorem fill_alloc (n : Nat) (vs : List α) :
    (alloc n).fill 0 vs = if vs.length ≤ n then some (ofList n vs) else none := by
  simpa [alloc_eq_ofList] using fill_ofList [] vs (Nat.zero_le n)

end CArray

/-! ## The member walk -/

@[simp] theorem wayMemberIds_nil : wayMemberIds [] = [] := rfl

@[simp] theorem wayMemberIds_cons (m : Member) (ms : List Member) :
    wayMemberIds (m :: ms) = if m.type = .way then m.id :: wayMemberIds ms else wayMemberIds ms := by
  by_cases h : m.type = .way <;> simp [wayMemberIds, List.filter_cons, h]

theorem wayMemberIds_sublist (members : List Member) :
    (wayMemberIds members).Sublist (members.map (·.id)) :=
  (List.filter_sublist members).map _

/-- Lines 851–860: each way member's id goes to `xid2[count]`, and `count` counts them. -/
def collectWayIds (xid2 : CArray Int) (count : Nat) : List Member → Option (CArray Int × Nat)
  | [] => some (xid2, count)
  | m :: ms =>
    if m.type ≠ .way then collectWayIds xid2 count ms
    else (xid2.write count m.id).bind fun xid2 => collectWayIds xid2 (count + 1) ms

/-- The walk writes the way members' ids from slot `count` on. -/
theorem collectWayIds_eq (xid2 : CArray Int) (count : Nat) (members : List Member) :
    collectWayIds xid2 count members =
      (xid2.fill count (wayMemberIds members)).map (·, count + (wayMemberIds members).length) := by
  induction members generalizing xid2 count with
  | nil => simp [collectWayIds, CArray.fill]
  | cons m ms ih =>
    by_cases h : m.type = .way
    · simp [collectWayIds, h, CArray.fill, ih, Option.map_bind, Function.comp_def, Nat.add_assoc,
        Nat.add_comm 1]
    · simp [collectWayIds, h, ih]

/-! ## The role scan -/

/-- Where `for (j = i; j < member_count; j++) if (members[j].id == xid[i]) break;` stops: at the
first member from index `i` on with id `x`, and past the last member when there is none. -/
def scanIndex (members : List Member) (i : Nat) (x : Int) : Nat :=
  i + (members.drop i).findIdx (·.id == x)

/-- Lines 864–869: `xrole[i] = members[j].role`, with `j` where the scan stopped. -/
def scanRoles (members : List Member) (xrole : CArray (Option String)) :
    Nat → List Int → Option (CArray (Option String))
  | _, [] => some xrole
  | i, x :: xs => members[scanIndex members i x]?.bind fun m =>
    (xrole.write i (some m.role)).bind fun xrole => scanRoles members xrole (i + 1) xs

@[simp] theorem roleScan_nil (members : List Member) (i : Nat) : roleScan members i [] = [] := rfl

@[simp] theorem roleScan_cons (members : List Member) (i : Nat) (x : Int) (xs : List Int) :
    roleScan members i (x :: xs) =
      (members[scanIndex members i x]?).map (·.role) :: roleScan members (i + 1) xs := rfl

@[simp] theorem length_roleScan (members : List Member) (i : Nat) (xs : List Int) :
    (roleScan members i xs).length = xs.length := by
  induction xs generalizing i <;> simp [*]

/-- One scan: a member from index `i` on has id `x`, so the scan stops at one, inside the
member array. -/
theorem scanIndex_found {members : List Member} {i : Nat} {x : Int}
    (hx : x ∈ (members.drop i).map (·.id)) :
    scanIndex members i x < members.length ∧ (members[scanIndex members i x]?).map (·.id) = some x := by
  obtain ⟨m, hm, rfl⟩ := List.mem_map.mp hx
  have hf : (members.drop i).findIdx (·.id == m.id) < (members.drop i).length :=
    List.findIdx_lt_length_of_exists ⟨m, hm, by simp⟩
  have hp := List.findIdx_getElem (w := hf)
  refine ⟨by simp only [List.length_drop] at hf; unfold scanIndex; omega, ?_⟩
  rw [scanIndex, ← List.getElem?_drop, List.getElem?_eq_getElem hf]
  simpa using hp

/-- The scan's invariant, from one way to the next: the ids still to come are an in-order
subsequence of the member ids from the scan's start on. -/
theorem sublist_drop_succ {members : List Member} {i : Nat} {x : Int} {xs : List Int}
    (h : (x :: xs).Sublist ((members.drop i).map (·.id))) :
    xs.Sublist ((members.drop (i + 1)).map (·.id)) := by
  simpa [List.tail_drop] using h.tail

/-- Every scan from an in-order subsequence of the member ids finds its way inside the member
array. -/
theorem scan_found {members : List Member} {i : Nat} {xs : List Int}
    (h : xs.Sublist ((members.drop i).map (·.id))) (k : Nat) (hk : k < xs.length) :
    scanIndex members (i + k) xs[k] < members.length ∧
      (members[scanIndex members (i + k) xs[k]]?).map (·.id) = some xs[k] := by
  induction xs generalizing i k with
  | nil => simp at hk
  | cons x xs ih =>
    cases k with
    | zero => exact scanIndex_found (h.subset (List.mem_cons_self x xs))
    | succ k =>
      simpa [Nat.add_assoc, Nat.add_comm 1] using ih (sublist_drop_succ h) k (by simpa using hk)

/-- Under the same invariant no scan falls off the end: every role is read. -/
theorem roleScan_ne_none {members : List Member} {i : Nat} {xs : List Int}
    (h : xs.Sublist ((members.drop i).map (·.id))) : none ∉ roleScan members i xs := by
  induction xs generalizing i with
  | nil => simp
  | cons x xs ih =>
    have hx := (scanIndex_found (h.subset (List.mem_cons_self x xs))).2
    simp only [roleScan_cons, List.mem_cons, not_or]
    refine ⟨fun hn => ?_, ih (sublist_drop_succ h)⟩
    cases hm : members[scanIndex members i x]? with
    | none => simp [hm] at hx
    | some m => simp [hm] at hn

/-- A scan that reads every role writes them from slot `i` on. -/
theorem scanRoles_eq_fill (members : List Member) (xrole : CArray (Option String)) (i : Nat)
    (xs : List Int) (h : none ∉ roleScan members i xs) :
    scanRoles members xrole i xs = xrole.fill i (roleScan members i xs) := by
  induction xs generalizing i xrole with
  | nil => rfl
  | cons x xs ih =>
    simp only [roleScan_cons, List.mem_cons, not_or] at h
    cases hm : members[scanIndex members i x]? with
    | none => simp [hm] at h
    | some m =>
      rw [roleScan_cons, hm]
      simp only [scanRoles, hm, Option.map_some', CArray.fill, ih _ _ h.2]
      rfl

/-- A scan that runs off the end makes the whole loop fail. -/
theorem scanRoles_eq_none (members : List Member) (xrole : CArray (Option String)) (i : Nat)
    (xs : List Int) (h : none ∈ roleScan members i xs) : scanRoles members xrole i xs = none := by
  induction xs generalizing i xrole with
  | nil => simp at h
  | cons x xs ih =>
    simp only [roleScan_cons, List.mem_cons] at h
    cases hm : members[scanIndex members i x]? with
    | none => simp [scanRoles, hm]
    | some m =>
      simp only [hm, Option.map_some', reduceCtorEq, false_or] at h
      simp [scanRoles, hm, ih _ _ h]

/-! ## The whole array phase -/

/-- The arrays of `pgsql_process_relation` as lines 830–873 leave them. -/
structure RelArrays where
  xid2 : CArray Int
  count : Nat
  count2 : Nat
  xrole : CArray (Option String)
  xcount : CArray Nat
  xtags : CArray Tags
  xnodes : CArray (Option (List OsmNode))
  deriving DecidableEq, Repr

/-- Lines 830–873: the allocations, the member walk, the middle's `ways_get_list` reading
`xid2[0..count)` and filling `xtags`, `xnodes` and `xcount` with the `count2` ways it found, the
role scan, and the sentinels `xnodes[count2] = NULL`, `xcount[count2] = 0` and
`xrole[count2] = NULL`. -/
def relArrays (mid : Middle) (members : List Member) : Option RelArrays := do
  let n := members.length
  let (xid2, count) ← collectWayIds (.alloc (n + 1)) 0 members
  let ways := mid.waysGetList ((xid2.slots.take count).filterMap id)
  let count2 := ways.length
  let xtags ← (CArray.alloc (n + 1)).fill 0 (ways.map (·.tags))
  let xnodes ← (CArray.alloc (n + 1)).fill 0 (ways.map (some ·.nodes))
  let xcount ← (CArray.alloc (n + 1)).fill 0 (ways.map (·.nodes.length))
  let xrole ← scanRoles members (.alloc (n + 1)) 0 (ways.map (·.id))
  let xnodes ← xnodes.write count2 none
  let xcount ← xcount.write count2 0
  let xrole ← xrole.write count2 none
  pure ⟨xid2, count, count2, xrole, xcount, xtags, xnodes⟩

/-- The array phase runs to its end exactly when the middle answers at most `member_count` ways
and every role scan finds its way; its arrays then hold the lists that `pgsqlProcessRelation`
passes on: the way members' ids, and the found ways' roles (`roleScan`), node counts, tags and
nodes, each list followed by its sentinel. -/
theorem relArrays_spec (mid : Middle) (members : List Member) :
    let ways := mid.waysGetList (wayMemberIds members)
    relArrays mid members =
      if ways.length ≤ members.length ∧ none ∉ roleScan members 0 (ways.map (·.id)) then some
        ⟨.ofList (members.length + 1) (wayMemberIds members), (wayMemberIds members).length,
          ways.length,
          .ofList (members.length + 1) (roleScan members 0 (ways.map (·.id)) ++ [none]),
          .ofList (members.length + 1) (ways.map (·.nodes.length) ++ [0]),
          .ofList (members.length + 1) (ways.map (·.tags)),
          .ofList (members.length + 1) (ways.map (some ·.nodes) ++ [none])⟩
      else none := by
  have hlen : (wayMemberIds members).length ≤ members.length := by
    simpa using (wayMemberIds_sublist members).length_le
  dsimp only
  simp only [relArrays, collectWayIds_eq, CArray.fill_alloc, if_pos (Nat.le_succ_of_le hlen),
    Option.map_some', Option.bind_eq_bind, Option.some_bind, Nat.zero_add, CArray.take_ofList,
    List.filterMap_map, Function.id_comp, List.filterMap_some]
  generalize mid.waysGetList (wayMemberIds members) = ways
  by_cases hw : ways.length ≤ members.length
  · have hw' : ways.length ≤ members.length + 1 := by omega
    by_cases hs : none ∈ roleScan members 0 (ways.map (·.id))
    · simp [scanRoles_eq_none _ _ _ _ hs, CArray.fill_alloc, hw', hs]
    · simp [scanRoles_eq_fill _ _ _ _ hs, CArray.fill_alloc, CArray.write_ofList, hw, hw', hs,
        Nat.lt_succ_of_le hw]
  · by_cases hw1 : ways.length ≤ members.length + 1
    · have hfull : ¬ways.length < members.length + 1 := by omega
      cases scanRoles members (.alloc (members.length + 1)) 0 (ways.map (·.id)) <;>
        simp [CArray.fill_alloc, CArray.write_ofList, hw, hw1, hfull]
    · simp [CArray.fill_alloc, hw, hw1]

/-- The array phase stays inside its arrays exactly when the middle answers at most
`member_count` ways and every role scan finds its way before the end of the member array. -/
theorem relArrays_isSome_iff (mid : Middle) (members : List Member) :
    let ways := mid.waysGetList (wayMemberIds members)
    (relArrays mid members).isSome ↔
      ways.length ≤ members.length ∧ none ∉ roleScan members 0 (ways.map (·.id)) := by
  simp only [relArrays_spec]
  split <;> simp_all

/-- Answered out of order, ways 8 then 7, the scan for 7 starts at index 1, past the only member
with id 7, and reads `members[2]`. -/
example :
    relArrays ⟨fun _ => [], fun _ => none, fun _ => [⟨8, [], [⟨0, 0⟩]⟩, ⟨7, [], [⟨0, 0⟩]⟩],
      fun _ => none, fun _ => []⟩ [⟨.way, 7, "outer"⟩, ⟨.way, 8, "outer"⟩] = none := by
  decide

/-- The role scan and the writes stay in bounds: when the middle answers an in-order subsequence
of the requested ids, the scan for the `i`-th found way stops at an index from `i` on, inside the
member array, on a member with the way's id; the walk counts no more ids than there are members
and the middle answers no more than it was asked, so every access of lines 851–873 stays inside
its array and the array phase runs to its end. -/
theorem relArrays_in_bounds (mid : Middle) (members : List Member)
    (hsub : ((mid.waysGetList (wayMemberIds members)).map (·.id)).Sublist (wayMemberIds members)) :
    let xid := (mid.waysGetList (wayMemberIds members)).map (·.id)
    (∀ i (hi : i < xid.length), i ≤ scanIndex members i xid[i] ∧
      scanIndex members i xid[i] < members.length ∧
      (members[scanIndex members i xid[i]]?).map (·.id) = some xid[i]) ∧
    (wayMemberIds members).length ≤ members.length ∧ xid.length ≤ (wayMemberIds members).length ∧
    (relArrays mid members).isSome := by
  intro xid
  have hlen : (wayMemberIds members).length ≤ members.length := by
    simpa using (wayMemberIds_sublist members).length_le
  have hxid : xid.Sublist ((members.drop 0).map (·.id)) := by
    simpa using hsub.trans (wayMemberIds_sublist members)
  refine ⟨fun i hi => ?_, hlen, hsub.length_le, ?_⟩
  · obtain ⟨hlt, hid⟩ := scan_found hxid i hi
    rw [Nat.zero_add] at hlt hid
    exact ⟨Nat.le_add_right i _, hlt, hid⟩
  · have hways : (mid.waysGetList (wayMemberIds members)).length ≤ members.length := by
      simpa using hsub.length_le.trans hlen
    have hnone : none ∉ roleScan members 0 ((mid.waysGetList (wayMemberIds members)).map (·.id)) :=
      roleScan_ne_none hxid
    simp [relArrays_spec, hways, hnone]

/-- A middle that holds way 8 and no other, and answers the requested ways it holds in the order
they were asked for. -/
def wayEightMiddle : Middle :=
  ⟨fun _ => [], fun _ => none, fun ids => (ids.filter (· == 8)).map fun i => ⟨i, [], [⟨0, 0⟩]⟩,
    fun _ => none, fun _ => []⟩

theorem relArrays_in_bounds_wayEight :
    let members := [⟨.node, 7, "stop"⟩, ⟨.way, 7, "outer"⟩, ⟨.way, 8, "inner"⟩]
    ((wayEightMiddle.waysGetList (wayMemberIds members)).map (·.id)).Sublist (wayMemberIds members) ∧
    let xid := (wayEightMiddle.waysGetList (wayMemberIds members)).map (·.id)
    (∀ i (hi : i < xid.length), i ≤ scanIndex members i xid[i] ∧
      scanIndex members i xid[i] < members.length ∧
      (members[scanIndex members i xid[i]]?).map (·.id) = some xid[i]) ∧
    (wayMemberIds members).length ≤ members.length ∧ xid.length ≤ (wayMemberIds members).length ∧
    (relArrays wayEightMiddle members).isSome :=
  let members : List Member := [⟨.node, 7, "stop"⟩, ⟨.way, 7, "outer"⟩, ⟨.way, 8, "inner"⟩]
  have hsub : ((wayEightMiddle.waysGetList (wayMemberIds members)).map (·.id)).Sublist
      (wayMemberIds members) := by decide
  ⟨hsub, relArrays_in_bounds wayEightMiddle members hsub⟩

/-! ## The supersession walk

`pgsql_out_relation` walks `for (i=0; xcount[i]; i++)` over the node counts and reads
`members_superseeded[i]` and `xid[i]` on the way; `members_superseeded` has `count2` entries. The
sentinel `xcount[count2] = 0` ends the walk by `count2`. -/

/-- Where `for (i=0; xcount[i]; i++)` stops: at the first slot holding `0`. Reading an unwritten
slot or past the end answers `none`. -/
def zeroIndex : List (Option Nat) → Option Nat
  | [] => none
  | none :: _ => none
  | some 0 :: _ => some 0
  | some (_ + 1) :: rest => (zeroIndex rest).map (· + 1)

/-- Over node counts ended by the sentinel, the walk stops at the first way without nodes, or at
the sentinel. -/
theorem zeroIndex_sentinel (counts : List Nat) (rest : List (Option Nat)) :
    zeroIndex ((counts ++ [0]).map some ++ rest) = some (counts.takeWhile (· ≠ 0)).length := by
  induction counts with
  | nil => rfl
  | cons c cs ih =>
    cases c with
    | zero => rfl
    | succ c =>
      simp only [List.cons_append, List.map_cons]
      rw [zeroIndex, ih]
      simp

/-- `markSuperseded` visits the ways up to the first one without nodes and no further. -/
theorem OutputPgsql.markSuperseded_take (o : OutputPgsql) (superseded : List Bool) (i : Nat)
    (ws : List WayData) :
    o.markSuperseded superseded i ws =
      o.markSuperseded superseded i (ws.take ((ws.map (·.nodes.length)).takeWhile (· ≠ 0)).length) := by
  induction ws generalizing i with
  | nil => rfl
  | cons w ws ih =>
    by_cases hw : w.nodes.length = 0 <;> simp [OutputPgsql.markSuperseded, hw, ih (i + 1)]

/-- Whenever the array phase runs to its end, the supersession walk stops by `count2`, so its
reads of `members_superseeded` (`count2` entries) and of `xcount` (`member_count + 1` slots) stay
inside them; and `markSuperseded` visits exactly the ways the walk reads. -/
theorem supersede_walk_in_bounds (o : OutputPgsql) (members : List Member) (a : RelArrays)
    (h : relArrays o.mid members = some a) :
    ∃ k, zeroIndex a.xcount.slots = some k ∧ k ≤ a.count2 ∧
      ∀ superseded, o.markSuperseded superseded 0 (o.mid.waysGetList (wayMemberIds members)) =
        o.markSuperseded superseded 0 ((o.mid.waysGetList (wayMemberIds members)).take k) := by
  rw [relArrays_spec] at h
  split at h
  · cases h
    refine ⟨_, zeroIndex_sentinel _ _, ?_, fun s => o.markSuperseded_take s 0 _⟩
    exact (List.takeWhile_sublist _).length_le.trans_eq (List.length_map _ _)
  · cases h

theorem supersede_walk_in_bounds_wayEight :
    let o : OutputPgsql := { (default : OutputPgsql) with mid := wayEightMiddle }
    let members := [⟨.node, 7, "stop"⟩, ⟨.way, 7, "outer"⟩, ⟨.way, 8, "inner"⟩]
    ∃ a, relArrays o.mid members = some a ∧
      ∃ k, zeroIndex a.xcount.slots = some k ∧ k ≤ a.count2 ∧
        ∀ superseded, o.markSuperseded superseded 0 (o.mid.waysGetList (wayMemberIds members)) =
          o.markSuperseded superseded 0 ((o.mid.waysGetList (wayMemberIds members)).take k) :=
  let o : OutputPgsql := { (default : OutputPgsql) with mid := wayEightMiddle }
  let members : List Member := [⟨.node, 7, "stop"⟩, ⟨.way, 7, "outer"⟩, ⟨.way, 8, "inner"⟩]
  have h : relArrays o.mid members = some ((relArrays o.mid members).get (by decide)) :=
    (Option.some_get _).symm
  ⟨_, h, supersede_walk_in_bounds o members _ h⟩

end OsmPgsql
