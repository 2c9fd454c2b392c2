import OsmPgsql.Finalise

/-!
# `stop` with `parallel_indexing`

With `parallel_indexing`, `stop` (lines 748–794) starts one thread per table, each running
`pgsql_out_stop_one` over the table's own connection, and joins them; otherwise it runs the four
in turn. The threads share the database, and their statements reach it in any interleaving.
`Threads` is the state of such a run, the database and what each thread has still to send, and
`ParStep` is one thread's next statement succeeding.

`stop_parallel`: on a database holding the four tables, with nothing else under their names,
no interleaving ever reaches a statement the database refuses, and every interleaving that runs
to the end leaves the database the sequential loop leaves.

The argument is locality. A thread names only names that extend its table's name, once
PostgreSQL has cut them to 63 bytes too, as long as the table's name itself fits
(`stopOne_names`), and no name extends two tables' names (`tableName_unique`). Under a set of
names, what a statement does depends only on what the database holds there (`exec_agree`), and
it changes nothing elsewhere (`exec_frame`) as long as every index on a table of the set is in
the set (`Coherent`), which every statement keeps (`exec_coherent`). So at every reachable state
each thread sees what its solo run would show it (`ThreadsInv`).
-/

set_option autoImplicit false

namespace OsmPgsql

/-- Every statement of `pgsql_out_stop_one` names only names that extend the table's. -/
theorem stopOne_names_written {opts : Options} {ix : IndexOptions} {t : List Char} {stmts : List Stmt}
    (h : pgsqlOutStopOne opts ix t 0 = .ok stmts) : ∀ s ∈ stmts, ∀ x ∈ s.names, t <+: x := by
  have hidx : ∀ s ∈ indexStmts opts ix t, ∀ x ∈ s.names, t <+: x := fun s hs x hx => by
    obtain ⟨y, m, col, f, ts, rfl⟩ := indexStmts_on opts ix t s hs
    obtain ⟨s', -, e⟩ := indexStmts_name_mem opts ix t (List.mem_filterMap.mpr ⟨_, hs, rfl⟩)
    simp only [Stmt.names, List.mem_cons, List.not_mem_nil, or_false] at hx
    rcases hx with rfl | rfl
    exacts [⟨s', e.symm⟩, List.prefix_refl _]
  simp only [pgsqlOutStopOne, ne_eq, not_true_eq_false, ↓reduceIte] at h
  split_ifs at h
  · cases h; simp
  · cases h
    intro s hs x hx
    simp only [List.mem_append, List.mem_cons, List.not_mem_nil, or_false] at hs
    rcases hs with ((rfl | rfl | rfl | rfl) | hs) | rfl | rfl
    all_goals first
      | exact hidx s hs x hx
      | (simp only [Stmt.names, List.mem_cons, List.not_mem_nil, or_false] at hx
         rcases hx with rfl | rfl <;> simp [tmpName])

/-- So do the names PostgreSQL keeps of them, when the table's name fits. -/
theorem stopOne_names {opts : Options} {ix : IndexOptions} {t : List Char} {stmts : List Stmt}
    (ht : t.length ≤ maxIdentLength) (h : pgsqlOutStopOne opts ix t 0 = .ok stmts) :
    ∀ s ∈ stmts, ∀ x ∈ s.truncate.names, t <+: x := fun s hs x hx => by
  rw [Stmt.names_truncate, List.mem_map] at hx
  obtain ⟨y, hy, rfl⟩ := hx
  exact prefix_ident (stopOne_names_written h s hs y hy) ht

/-! ## Locality of a statement -/

namespace Catalog

/-- Two databases agree on the names `N` holds. -/
def Agree (N : List Char → Prop) (c d : Catalog) : Prop := ∀ x, N x → c.rel x = d.rel x

/-- Every index on a table whose name `N` holds has its own name in `N`. -/
def Coherent (N : List Char → Prop) (c : Catalog) : Prop :=
  ∀ x t m col, c.rel x = some (.index t m col) → N t → N x

variable {sortByWay : List Row → List Row} {N : List Char → Prop}

theorem Agree.set {c d : Catalog} (h : Agree N c d) (x : List Char) (r : Option Relation) :
    Agree N (c.set x r) (d.set x r) := fun y hy => by
  rw [set_rel, set_rel, h y hy]

theorem dropOn_eq {t : List Char} : ∀ {r : Option Relation}, (∀ m col, r ≠ some (.index t m col)) →
    dropOn t r = r
  | none, _ | some (.table ..), _ => rfl
  | some (.index t' m col), h => if_neg fun e => h m col (by rw [e])

theorem dropOn_of_index {t t' : List Char} {m : IndexMethod} {col : List Char} :
    ∀ {r : Option Relation}, dropOn t r = some (.index t' m col) → r = some (.index t' m col)
  | none, h | some (.table ..), h => h
  | some (.index ..), h => by
    simp only [dropOn] at h
    split_ifs at h
    exact h

theorem retarget_eq {tmp t : List Char} : ∀ {r : Option Relation},
    (∀ m col, r ≠ some (.index tmp m col)) → retarget tmp t r = r
  | none, _ | some (.table ..), _ => rfl
  | some (.index t' m col), h => by
    show some (Relation.index (if t' = tmp then t else t') m col) = _
    rw [if_neg fun (e : t' = tmp) => h m col (by rw [e])]

theorem retarget_of_index {tmp t t' : List Char} {m : IndexMethod} {col : List Char} :
    ∀ {r : Option Relation}, retarget tmp t r = some (.index t' m col) →
      ∃ t₀, r = some (.index t₀ m col) ∧ t' = if t₀ = tmp then t else t₀
  | none, h | some (.table ..), h => by cases h
  | some (.index t₀ ..), h => by
    simp only [retarget, Option.some.injEq, Relation.index.injEq] at h
    obtain ⟨rfl, rfl, rfl⟩ := h
    exact ⟨t₀, rfl, rfl⟩

/-- A statement that names only names `N` holds does the same there on two databases that agree
there: where it succeeds on one, it succeeds on the other, and the results still agree. -/
theorem execIdent_agree {s : Stmt} (hs : ∀ x ∈ s.names, N x) {c d c' : Catalog} (h : Agree N c d)
    (hc : c.execIdent sortByWay s = some c') :
    ∃ d', d.execIdent sortByWay s = some d' ∧ Agree N c' d' := by
  have hn : ∀ x ∈ s.names, c.rel x = d.rel x := fun x hx => h x (hs x hx)
  cases s with
  | analyze t =>
    simp only [execIdent, isTable, hn t (by simp [Stmt.names])] at hc ⊢
    split_ifs at hc ⊢
    cases hc
    exact ⟨d, rfl, h⟩
  | createSorted tmp t ts =>
    simp only [execIdent, hn t (by simp [Stmt.names]), hn tmp (by simp [Stmt.names])] at hc ⊢
    split at hc
    next rows p h₁ h₂ =>
      cases hc
      exact ⟨_, rfl, h.set _ _⟩
    next => cases hc
  | dropTable t =>
    simp only [execIdent, isTable, hn t (by simp [Stmt.names])] at hc ⊢
    split_ifs at hc ⊢
    cases hc
    exact ⟨_, rfl, fun x hx => by dsimp only; rw [h x hx]⟩
  | renameTmp tmp t =>
    simp only [execIdent, hn t (by simp [Stmt.names]), hn tmp (by simp [Stmt.names])] at hc ⊢
    split at hc
    next rows p h₁ h₂ =>
      cases hc
      exact ⟨_, rfl, fun x hx => by dsimp only; rw [h x hx]⟩
    next => cases hc
  | createIndex x t m col f ts =>
    simp only [execIdent, isTable, hn t (by simp [Stmt.names]), hn x (by simp [Stmt.names])] at hc ⊢
    split_ifs at hc ⊢
    cases hc
    exact ⟨_, rfl, h.set _ _⟩
  | grantSelect t =>
    simp only [execIdent, hn t (by simp [Stmt.names])] at hc ⊢
    split at hc
    next rows p h₁ =>
      cases hc
      exact ⟨_, rfl, h.set _ _⟩
    next => cases hc

/-- A statement that names only names `N` holds changes nothing outside `N`, when every index on
a table in `N` is itself in `N`. -/
theorem execIdent_frame {s : Stmt} (hs : ∀ x ∈ s.names, N x) {c c' : Catalog} (hc : Coherent N c)
    (h : c.execIdent sortByWay s = some c') {x : List Char} (hx : ¬ N x) : c'.rel x = c.rel x := by
  have hne : ∀ y ∈ s.names, x ≠ y := fun y hy e => hx (e ▸ hs y hy)
  cases s with
  | analyze t =>
    simp only [execIdent] at h
    split_ifs at h
    cases h
    rfl
  | createSorted tmp t ts =>
    simp only [execIdent] at h
    split at h <;> cases h
    rw [set_rel, if_neg (hne _ (by simp [Stmt.names]))]
  | dropTable t =>
    simp only [execIdent] at h
    split_ifs at h
    cases h
    show (if x = t then none else dropOn t (c.rel x)) = c.rel x
    rw [if_neg (hne t (by simp [Stmt.names])),
      dropOn_eq fun m col e => hx (hc x t m col e (hs t (by simp [Stmt.names])))]
  | renameTmp tmp t =>
    simp only [execIdent] at h
    split at h <;> cases h
    show (if x = t then _ else if x = tmp then none else retarget tmp t (c.rel x)) = c.rel x
    rw [if_neg (hne t (by simp [Stmt.names])), if_neg (hne tmp (by simp [Stmt.names])),
      retarget_eq fun m col e => hx (hc x _ m col e (hs tmp (by simp [Stmt.names])))]
  | createIndex y t m col f ts =>
    simp only [execIdent] at h
    split_ifs at h
    cases h
    rw [set_rel, if_neg (hne y (by simp [Stmt.names]))]
  | grantSelect t =>
    simp only [execIdent] at h
    split at h <;> cases h
    rw [set_rel, if_neg (hne t (by simp [Stmt.names]))]

/-- A statement that names only names `N` holds keeps a set `N'` coherent, when `N'` meets `N`
only by containing it. -/
theorem execIdent_coherent {N' : List Char → Prop} {s : Stmt} (hs : ∀ x ∈ s.names, N x)
    (hN : ∀ y z, N y → N' y → N z → N' z) {c c' : Catalog} (hc : Coherent N c)
    (hc' : Coherent N' c) (h : c.execIdent sortByWay s = some c') : Coherent N' c' := by
  intro x t m col hx ht
  cases s with
  | analyze u =>
    simp only [execIdent] at h
    split_ifs at h
    cases h
    exact hc' x t m col hx ht
  | createSorted tmp u ts =>
    simp only [execIdent] at h
    split at h <;> cases h
    rw [set_rel] at hx
    split_ifs at hx
    · cases hx
    · exact hc' x t m col hx ht
  | dropTable u =>
    simp only [execIdent] at h
    split_ifs at h
    cases h
    change (if x = u then none else dropOn u (c.rel x)) = _ at hx
    split_ifs at hx
    exact hc' x t m col (dropOn_of_index hx) ht
  | renameTmp tmp u =>
    simp only [execIdent] at h
    split at h <;> cases h
    change (if x = u then _ else if x = tmp then none else retarget tmp u (c.rel x)) = _ at hx
    split_ifs at hx
    · cases hx
    obtain ⟨t₀, hr, rfl⟩ := retarget_of_index hx
    split_ifs at ht with h₀
    · exact hN u x (hs u (by simp [Stmt.names])) ht
        (hc x t₀ m col hr (h₀ ▸ hs _ (by simp [Stmt.names])))
    · exact hc' x t₀ m col hr ht
  | createIndex y u m' col' f ts =>
    simp only [execIdent] at h
    split_ifs at h
    cases h
    rw [set_rel] at hx
    split_ifs at hx with e
    · cases hx
      subst e
      exact hN t x (hs t (by simp [Stmt.names])) ht (hs x (by simp [Stmt.names]))
    · exact hc' x t m col hx ht
  | grantSelect u =>
    simp only [execIdent] at h
    split at h <;> cases h
    rw [set_rel] at hx
    split_ifs at hx
    · cases hx
    · exact hc' x t m col hx ht

theorem runSql_append_eq_some {c c' : Catalog} {as bs : List Stmt}
    (h : c.runSql sortByWay (as ++ bs) = some c') :
    ∃ ca, c.runSql sortByWay as = some ca ∧ ca.runSql sortByWay bs = some c' := by
  rw [runSql_append] at h
  exact Option.bind_eq_some.mp h

end Catalog

/-! ## The threads -/

/-- The state of `stop`'s threads: the database, and the statements each table's thread has
still to send. -/
structure Threads where
  db : Catalog
  todo : Table → List Stmt

/-- One thread sends its next statement, and the database runs it. -/
inductive ParStep (sortByWay : List Row → List Row) : Threads → Threads → Prop
  | send {db db' : Catalog} {todo : Table → List Stmt} {T : Table} {s : Stmt} {rest : List Stmt} :
      todo T = s :: rest → db.exec sortByWay s = some db' →
      ParStep sortByWay ⟨db, todo⟩ ⟨db', Function.update todo T rest⟩

/-- What holds at every state the threads reach from `⟨c, th⟩`: each thread has sent a prefix of
its statements, under its table's name the database is what that prefix alone makes of `c`,
outside the four tables' names it is `c`, and every index on a table under a table's name is
under that name too. -/
structure ThreadsInv (sortByWay : List Row → List Row) (pfx : Option (List Char)) (c : Catalog)
    (th : Table → List Stmt) (st : Threads) : Prop where
  sent : ∀ T, ∃ done cT, th T = done ++ st.todo T ∧ c.runSql sortByWay done = some cT ∧
    Catalog.Agree (tableName pfx T <+: ·) st.db cT
  outside : ∀ x, (∀ T, ¬ tableName pfx T <+: x) → st.db.rel x = c.rel x
  coherent : ∀ T, Catalog.Coherent (tableName pfx T <+: ·) st.db

section Parallel

variable {sortByWay : List Row → List Row} {pfx : Option (List Char)} {c : Catalog}
  {th : Table → List Stmt}

theorem threadsInv_init (hcoh : ∀ T, Catalog.Coherent (tableName pfx T <+: ·) c) :
    ThreadsInv sortByWay pfx c th ⟨c, th⟩ :=
  ⟨fun _ => ⟨[], c, rfl, rfl, fun _ _ => rfl⟩, fun _ _ => rfl, hcoh⟩

/-- The next statement of a thread whose solo run succeeds succeeds after the statements it has
sent. -/
theorem solo_next (hrun : ∀ T, ∃ cT, c.runSql sortByWay (th T) = some cT) {T : Table}
    {done rest : List Stmt} {s : Stmt} {cT : Catalog} (hth : th T = done ++ s :: rest)
    (hdone : c.runSql sortByWay done = some cT) :
    ∃ cT', cT.exec sortByWay s = some cT' ∧ c.runSql sortByWay (done ++ [s]) = some cT' := by
  obtain ⟨cf, hf⟩ := hrun T
  rw [hth] at hf
  obtain ⟨ca, hca, hrest⟩ := Catalog.runSql_append_eq_some hf
  rw [hdone, Option.some.injEq] at hca
  subst hca
  obtain ⟨cT', hs, -⟩ := Option.bind_eq_some.mp hrest
  refine ⟨cT', hs, ?_⟩
  rw [Catalog.runSql_append, hdone, Option.some_bind, Catalog.runSql_cons, hs, Option.some_bind]
  rfl

/-- Two states satisfying the invariant where every thread is done hold the same database. -/
theorem ThreadsInv.db_eq {st st' : Threads} (hI : ThreadsInv sortByWay pfx c th st)
    (hI' : ThreadsInv sortByWay pfx c th st') (h : ∀ T, st.todo T = []) (h' : ∀ T, st'.todo T = []) :
    st.db = st'.db := by
  refine Catalog.ext fun x => ?_
  by_cases hx : ∃ T, tableName pfx T <+: x
  · obtain ⟨T, hT⟩ := hx
    obtain ⟨done, cT, hth, hdone, hag⟩ := hI.sent T
    obtain ⟨done', cT', hth', hdone', hag'⟩ := hI'.sent T
    rw [h, List.append_nil] at hth
    rw [h', List.append_nil] at hth'
    subst hth hth'
    rw [hag x hT, hag' x hT, Option.some.inj (hdone.symm.trans hdone')]
  · push_neg at hx
    rw [hI.outside x hx, hI'.outside x hx]

variable (hnames : ∀ T, ∀ s ∈ th T, ∀ x ∈ s.truncate.names, tableName pfx T <+: x)
  (hrun : ∀ T, ∃ cT, c.runSql sortByWay (th T) = some cT)

include hnames hrun

/-- SAFETY: at a state satisfying the invariant, each thread's next statement succeeds. -/
theorem ThreadsInv.next_succeeds {st : Threads} (hI : ThreadsInv sortByWay pfx c th st)
    {T : Table} {s : Stmt} {rest : List Stmt} (h : st.todo T = s :: rest) :
    ∃ db', st.db.exec sortByWay s = some db' := by
  obtain ⟨done, cT, hth, hdone, hag⟩ := hI.sent T
  rw [h] at hth
  obtain ⟨cT', hs, -⟩ := solo_next hrun hth hdone
  obtain ⟨db', hdb, -⟩ :=
    Catalog.execIdent_agree (hnames T s (by simp [hth])) (fun x hx => (hag x hx).symm) hs
  exact ⟨db', hdb⟩

/-- One step of any thread keeps the invariant. -/
theorem ThreadsInv.step {st st' : Threads} (hI : ThreadsInv sortByWay pfx c th st)
    (hs : ParStep sortByWay st st') : ThreadsInv sortByWay pfx c th st' := by
  cases hs with
  | @send db db' todo T s rest htodo hexec =>
    obtain ⟨done, cT, hth, hdone, hag⟩ := hI.sent T
    dsimp only at hth hag
    rw [htodo] at hth
    have hns : ∀ x ∈ s.truncate.names, tableName pfx T <+: x := hnames T s (by simp [hth])
    have hexec' : db.execIdent sortByWay s.truncate = some db' := hexec
    have hframe : ∀ x, ¬ tableName pfx T <+: x → db'.rel x = db.rel x :=
      fun x hx => Catalog.execIdent_frame hns (hI.coherent T) hexec' hx
    refine ⟨fun U => ?_, fun x hx => (hframe x (hx T)).trans (hI.outside x hx), fun U =>
      Catalog.execIdent_coherent hns (fun y z hy hy' hz => (tableName_unique hy hy' ▸ hz : _))
        (hI.coherent T) (hI.coherent U) hexec'⟩
    by_cases hU : U = T
    · subst hU
      obtain ⟨cT', hsolo, hdone'⟩ := solo_next hrun hth hdone
      obtain ⟨d', hd', hag'⟩ := Catalog.execIdent_agree hns (fun x hx => (hag x hx).symm) hsolo
      rw [hexec', Option.some.injEq] at hd'
      subst hd'
      exact ⟨done ++ [s], cT', by simp [hth], hdone', fun x hx => (hag' x hx).symm⟩
    · obtain ⟨doneU, cU, hthU, hdoneU, hagU⟩ := hI.sent U
      refine ⟨doneU, cU, by simpa [Function.update_noteq hU] using hthU, hdoneU, fun x hx => ?_⟩
      rw [hframe x fun hxT => hU (tableName_unique hx hxT)]
      exact hagU x hx

variable (hcoh : ∀ T, Catalog.Coherent (tableName pfx T <+: ·) c)

include hcoh

theorem ThreadsInv.of_reach {st : Threads}
    (h : Relation.ReflTransGen (ParStep sortByWay) ⟨c, th⟩ st) : ThreadsInv sortByWay pfx c th st := by
  induction h with
  | refl => exact threadsInv_init hcoh
  | tail _ hs ih => exact ih.step hnames hrun hs

/-- From any reachable state one thread can send all it has left, the database running its
statements in order. -/
theorem reach_drain (T : Table) : ∀ (l : List Stmt) (st : Threads),
    Relation.ReflTransGen (ParStep sortByWay) ⟨c, th⟩ st → st.todo T = l →
      ∃ db', st.db.runSql sortByWay l = some db' ∧
        Relation.ReflTransGen (ParStep sortByWay) ⟨c, th⟩ ⟨db', Function.update st.todo T []⟩
  | [], st, hr, hl => ⟨st.db, rfl, by rwa [← hl, Function.update_eq_self]⟩
  | s :: l, st, hr, hl => by
    obtain ⟨db₁, h₁⟩ := (ThreadsInv.of_reach hnames hrun hcoh hr).next_succeeds hnames hrun hl
    have hstep : ParStep sortByWay st ⟨db₁, Function.update st.todo T l⟩ := ParStep.send hl h₁
    obtain ⟨db', h', hr'⟩ := reach_drain T l _ (hr.tail hstep) (Function.update_same _ _ _)
    refine ⟨db', by rw [Catalog.runSql_cons, h₁, Option.some_bind]; exact h', ?_⟩
    simpa only [Function.update_idem] using hr'

/-- From any reachable state the threads of `Ts` can run to their ends one after the other. -/
theorem reach_drain_all : ∀ (Ts : List Table), Ts.Nodup → ∀ st : Threads,
    Relation.ReflTransGen (ParStep sortByWay) ⟨c, th⟩ st →
      ∃ db', st.db.runSql sortByWay (Ts.flatMap st.todo) = some db' ∧
        Relation.ReflTransGen (ParStep sortByWay) ⟨c, th⟩ ⟨db', fun U => if U ∈ Ts then [] else st.todo U⟩
  | [], _, st, hr => ⟨st.db, rfl, by simpa using hr⟩
  | T :: Ts, hnd, st, hr => by
    obtain ⟨db₁, h₁, hr₁⟩ := reach_drain hnames hrun hcoh T _ st hr rfl
    obtain ⟨db', h', hr'⟩ := reach_drain_all Ts (List.nodup_cons.mp hnd).2 _ hr₁
    have hTs : Ts.flatMap (Function.update st.todo T []) = Ts.flatMap st.todo :=
      List.flatMap_congr fun U hU => Function.update_noteq
        (fun (e : U = T) => (List.nodup_cons.mp hnd).1 (e ▸ hU)) _ _
    refine ⟨db', by rw [List.flatMap_cons, Catalog.runSql_append, h₁, Option.some_bind, ← hTs]; exact h', ?_⟩
    have hfun : (fun U => if U ∈ Ts then [] else Function.update st.todo T [] U) =
        fun U => if U ∈ T :: Ts then [] else st.todo U := funext fun U => by
      by_cases hU : U = T
      · subst hU; simp
      · simp [hU, Function.update_noteq hU]
    exact hfun ▸ hr'

/-- The sequential loop of `stop` runs to the end, in a state the threads can reach. -/
theorem sequential_done : ∃ st : Threads, c.runSql sortByWay (allTables.flatMap th) = some st.db ∧
    ThreadsInv sortByWay pfx c th st ∧ ∀ T, st.todo T = [] := by
  obtain ⟨db', hseq, hfin⟩ := reach_drain_all hnames hrun hcoh allTables (by decide) ⟨c, th⟩ .refl
  exact ⟨_, hseq, ThreadsInv.of_reach hnames hrun hcoh hfin, fun T => if_pos (mem_allTables T)⟩

end Parallel

/-- On the database `stop` expects, the threads name only names under their tables, each runs
alone to the end, and no index hangs on a table under a table's name. -/
theorem stop_threads (sortByWay : List Row → List Row) {opts : Options} {ix : IndexOptions}
    {pfx : Option (List Char)} {c : Catalog} {th : Table → List Stmt}
    (hth : ∀ T, pgsqlOutStopOne opts ix (tableName pfx T) 0 = .ok (th T))
    (hn : ∀ T, ∃ rows p, c.rel (tableName pfx T) = some (.table rows p))
    (hfree : ∀ T s, s ≠ [] → c.rel (tableName pfx T ++ s) = none)
    (hidx : ∀ x t m col, c.rel x = some (.index t m col) → ∀ T, ¬ tableName pfx T <+: t)
    (hfit : ∀ T, ∀ x ∈ stopOneNames opts ix (tableName pfx T), x.length ≤ maxIdentLength) :
    (∀ T, ∀ s ∈ th T, ∀ x ∈ s.truncate.names, tableName pfx T <+: x) ∧
      (∀ T, ∃ cT, c.runSql sortByWay (th T) = some cT) ∧
      ∀ T, Catalog.Coherent (tableName pfx T <+: ·) c := by
  refine ⟨fun T => stopOne_names (hfit T _ (List.mem_cons_self _ _)) (hth T), fun T => ?_,
    fun T x t m col h ht => absurd ht (hidx x t m col h T)⟩
  cases happ : ix.append
  · obtain ⟨rows, p, hr⟩ := hn T
    obtain ⟨stmts, hs, hrun⟩ := Catalog.runSql_stopOne sortByWay hr (hfree T)
      (fun x t m col h => hidx x t m col h T) opts ix happ (hfit T)
    rw [hth T, Except.ok.injEq] at hs
    exact ⟨_, hs ▸ hrun⟩
  · have hnil : th T = [] := by simpa [pgsqlOutStopOne, happ] using (hth T).symm
    exact ⟨c, by rw [hnil]; rfl⟩

/-- PARALLEL INDEXING: on a database holding the four tables, with nothing else under their
names and no index on a table under one, and with a prefix short enough that every table and
index name fits PostgreSQL's 63 bytes, the threads of `stop` never reach a statement the
database refuses, whatever the order their statements arrive in, and every order that runs them
to the end leaves the database the sequential loop leaves. -/
theorem stop_parallel (sortByWay : List Row → List Row) (opts : Options) (ix : IndexOptions)
    (pfx : Option (List Char)) {c : Catalog} {th : Table → List Stmt}
    (hth : ∀ T, pgsqlOutStopOne opts ix (tableName pfx T) 0 = .ok (th T))
    (hn : ∀ T, ∃ rows p, c.rel (tableName pfx T) = some (.table rows p))
    (hfree : ∀ T s, s ≠ [] → c.rel (tableName pfx T ++ s) = none)
    (hidx : ∀ x t m col, c.rel x = some (.index t m col) → ∀ T, ¬ tableName pfx T <+: t)
    (hfit : ∀ T, ∀ x ∈ stopOneNames opts ix (tableName pfx T), x.length ≤ maxIdentLength) :
    ∃ c', c.runSql sortByWay (allTables.flatMap th) = some c' ∧
      ∀ st, Relation.ReflTransGen (ParStep sortByWay) ⟨c, th⟩ st →
        (∀ T s rest, st.todo T = s :: rest → ∃ db', st.db.exec sortByWay s = some db') ∧
        ((∀ T, st.todo T = []) → st.db = c') := by
  obtain ⟨hnames, hrun, hcoh⟩ := stop_threads sortByWay hth hn hfree hidx hfit
  obtain ⟨sf, hseq, hIf, hdone⟩ := sequential_done hnames hrun hcoh
  refine ⟨sf.db, hseq, fun st hr => ⟨fun T s rest h =>
    (ThreadsInv.of_reach hnames hrun hcoh hr).next_succeeds hnames hrun h, fun hd => ?_⟩⟩
  exact (ThreadsInv.of_reach hnames hrun hcoh hr).db_eq hIf hd hdone

/-- The four tables of a slim import with no prefix, finished in parallel. -/
theorem stop_parallel_imported :
    (∀ T, pgsqlOutStopOne ⟨true, false, false, false⟩ default (tableName none T) 0 =
      .ok ((pgsqlOutStopOne ⟨true, false, false, false⟩ default (tableName none T) 0).toOption.getD [])) ∧
    (∀ T, ∃ rows p, (Catalog.imported none fun _ => []).rel (tableName none T) = some (.table rows p)) ∧
    (∀ T s, s ≠ [] → (Catalog.imported none fun _ => []).rel (tableName none T ++ s) = none) ∧
    (∀ x t m col, (Catalog.imported none fun _ => []).rel x = some (.index t m col) →
      ∀ T, ¬ tableName none T <+: t) ∧
    (∀ T, ∀ x ∈ stopOneNames ⟨true, false, false, false⟩ default (tableName none T),
      x.length ≤ maxIdentLength) ∧
    ∃ c', (Catalog.imported none fun _ => []).runSql id (allTables.flatMap fun T =>
        (pgsqlOutStopOne ⟨true, false, false, false⟩ default (tableName none T) 0).toOption.getD []) =
          some c' ∧
      ∀ st, Relation.ReflTransGen (ParStep id) ⟨Catalog.imported none fun _ => [], fun T =>
          (pgsqlOutStopOne ⟨true, false, false, false⟩ default (tableName none T) 0).toOption.getD []⟩ st →
        (∀ T s rest, st.todo T = s :: rest → ∃ db', st.db.exec id s = some db') ∧
        ((∀ T, st.todo T = []) → st.db = c') :=
  have hth : ∀ T, pgsqlOutStopOne ⟨true, false, false, false⟩ default (tableName none T) 0 =
      .ok ((pgsqlOutStopOne ⟨true, false, false, false⟩ default (tableName none T) 0).toOption.getD []) :=
    fun _ => rfl
  have hn : ∀ T, ∃ rows p, (Catalog.imported none fun _ => []).rel (tableName none T) =
      some (.table rows p) := fun T => ⟨[], false, Catalog.imported_tableName none _ T⟩
  have hfree : ∀ T s, s ≠ [] → (Catalog.imported none fun _ => []).rel (tableName none T ++ s) = none :=
    fun T _ hs => Catalog.imported_free none _ T hs
  have hidx : ∀ x t m col, (Catalog.imported none fun _ => []).rel x = some (.index t m col) →
      ∀ T, ¬ tableName none T <+: t := fun x t m col h => absurd h (Catalog.imported_ne_index none _ x t m col)
  have hfit : ∀ T, ∀ x ∈ stopOneNames ⟨true, false, false, false⟩ default (tableName none T),
      x.length ≤ maxIdentLength := by
    intro T
    cases T <;> decide
  ⟨hth, hn, hfree, hidx, hfit, stop_parallel id _ _ none hth hn hfree hidx hfit⟩

/-- FINISHING ALL TABLES: outside append mode, on a database holding the four tables, with nothing
else under their names and no index on a table under one, and with a prefix short enough that
every table and index name fits PostgreSQL's 63 bytes, the loop of `stop` runs to the end and
leaves each table finished (`Catalog.Finished`: sorted, readable by `PUBLIC`, without its copy,
with its GiST index, and with the `osm_id` index that diffs need exactly when the import is slim
without `droptemp`), and every name under no table's name as it was. -/
theorem stop_finishes (sortByWay : List Row → List Row) (opts : Options) (ix : IndexOptions)
    (happend : ix.append = false) (pfx : Option (List Char)) {c : Catalog} {th : Table → List Stmt}
    {rows : Table → List Row} (hth : ∀ T, pgsqlOutStopOne opts ix (tableName pfx T) 0 = .ok (th T))
    (hn : ∀ T, ∃ p, c.rel (tableName pfx T) = some (.table (rows T) p))
    (hfree : ∀ T s, s ≠ [] → c.rel (tableName pfx T ++ s) = none)
    (hidx : ∀ x t m col, c.rel x = some (.index t m col) → ∀ T, ¬ tableName pfx T <+: t)
    (hfit : ∀ T, ∀ x ∈ stopOneNames opts ix (tableName pfx T), x.length ≤ maxIdentLength) :
    ∃ c', c.runSql sortByWay (allTables.flatMap th) = some c' ∧
      (∀ T, Catalog.Finished sortByWay opts (tableName pfx T) (rows T) c') ∧
      ∀ x, (∀ T, ¬ tableName pfx T <+: x) → c'.rel x = c.rel x := by
  obtain ⟨hnames, hrun, hcoh⟩ := stop_threads sortByWay hth (fun T => ⟨rows T, hn T⟩) hfree hidx hfit
  obtain ⟨sf, hseq, hIf, hdone⟩ := sequential_done hnames hrun hcoh
  refine ⟨sf.db, hseq, fun T => ?_, hIf.outside⟩
  obtain ⟨done, cT, hthT, hdoneT, hag⟩ := hIf.sent T
  rw [hdone, List.append_nil] at hthT
  subst hthT
  obtain ⟨p, hp⟩ := hn T
  obtain ⟨stmts, hst, hrunT⟩ := Catalog.runSql_stopOne sortByWay hp (hfree T)
    (fun x t m col h => hidx x t m col h T) opts ix happend (hfit T)
  rw [hth T, Except.ok.injEq] at hst
  subst hst
  rw [hrunT, Option.some.injEq] at hdoneT
  subst hdoneT
  have hf := Catalog.stopOneResult_finished sortByWay (rows T) (hfree T) opts ix
  refine ⟨(hag _ (List.prefix_refl _)).trans hf.sorted, (hag _ (List.prefix_append _ _)).trans hf.noTmp,
    (hag _ (List.prefix_append _ _)).trans hf.geomIndex, ?_⟩
  rw [hag _ (List.prefix_append _ _)]
  exact hf.idIndex

/-- The four tables of a slim import with no prefix, each holding one point, finished by `stop`. -/
theorem stop_finishes_imported :
    (∀ T, pgsqlOutStopOne ⟨true, false, false, false⟩ default (tableName none T) 0 =
      .ok ((pgsqlOutStopOne ⟨true, false, false, false⟩ default (tableName none T) 0).toOption.getD [])) ∧
    (∀ T, ∃ p, (Catalog.imported none fun _ => [⟨7, [], .point 0 0⟩]).rel
      (tableName none T) = some (.table [⟨7, [], .point 0 0⟩] p)) ∧
    (∀ T s, s ≠ [] → (Catalog.imported none fun _ => [⟨7, [], .point 0 0⟩]).rel
      (tableName none T ++ s) = none) ∧
    (∀ x t m col, (Catalog.imported none fun _ => [⟨7, [], .point 0 0⟩]).rel x =
      some (.index t m col) → ∀ T, ¬ tableName none T <+: t) ∧
    (∀ T, ∀ x ∈ stopOneNames ⟨true, false, false, false⟩ default (tableName none T),
      x.length ≤ maxIdentLength) ∧
    ∃ c', (Catalog.imported none fun _ => [⟨7, [], .point 0 0⟩]).runSql id
        (allTables.flatMap fun T =>
          (pgsqlOutStopOne ⟨true, false, false, false⟩ default (tableName none T) 0).toOption.getD []) =
        some c' ∧
      (∀ T, Catalog.Finished id ⟨true, false, false, false⟩ (tableName none T)
        [⟨7, [], .point 0 0⟩] c') ∧
      ∀ x, (∀ T, ¬ tableName none T <+: x) →
        c'.rel x = (Catalog.imported none fun _ => [⟨7, [], .point 0 0⟩]).rel x :=
  have hth : ∀ T, pgsqlOutStopOne ⟨true, false, false, false⟩ default (tableName none T) 0 =
      .ok ((pgsqlOutStopOne ⟨true, false, false, false⟩ default (tableName none T) 0).toOption.getD []) :=
    fun _ => rfl
  have hn : ∀ T, ∃ p, (Catalog.imported none fun _ => [⟨7, [], .point 0 0⟩]).rel
      (tableName none T) = some (.table [⟨7, [], .point 0 0⟩] p) :=
    fun T => ⟨false, Catalog.imported_tableName none _ T⟩
  have hfree : ∀ T s, s ≠ [] → (Catalog.imported none fun _ =>
      [⟨7, [], .point 0 0⟩]).rel (tableName none T ++ s) = none :=
    fun T _ hs => Catalog.imported_free none _ T hs
  have hidx : ∀ x t m col, (Catalog.imported none fun _ =>
      [⟨7, [], .point 0 0⟩]).rel x = some (.index t m col) →
      ∀ T, ¬ tableName none T <+: t := fun x t m col h => absurd h (Catalog.imported_ne_index none _ x t m col)
  have hfit : ∀ T, ∀ x ∈ stopOneNames ⟨true, false, false, false⟩ default (tableName none T),
      x.length ≤ maxIdentLength := by
    intro T
    cases T <;> decide
  ⟨hth, hn, hfree, hidx, hfit, stop_finishes id _ _ rfl none hth hn hfree hidx hfit⟩

end OsmPgsql
