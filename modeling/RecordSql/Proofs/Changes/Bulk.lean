import RecordSql.Proofs.Changes.Selection
import RecordSql.Proofs.LinkFilters
import RecordSql.Proofs.ScopeNames

/-!
# Deletions as a whole

A deletion whose query returns just the records to delete can be handed to the platform as a whole.
The platform then answers the query once more, so it also removes what was not retrieved and not
confirmed, and no option can cancel it any more.
-/

namespace RecordSql

namespace Fetch

/-!
# Rows and the records of their root
-/

/-- Only aggregates are limited. -/
theorem allRecords_limit {q : Query} (h : q.aggregate = false) (db : Database)
    (limit : Option Nat) : allRecords { db with aggregateLimit := limit } q = allRecords db q := by
  rw [allRecords, allRecords, scopeRows_bounds db db.pageSize limit, h]
  rfl

theorem dot_mem_front (link : Link) : '.' ∈ link.front.toList := by
  rw [Link.front, String.toList_append]
  exact List.mem_append_right _ (List.mem_singleton_self _)

mutual

/-- The text in front of the names of linked scopes has a dot. -/
theorem dot_mem_of_tables {entry : String × String} :
    forall s front, '.' ∈ front.toList -> entry ∈ Scope.tables front s -> '.' ∈ entry.1.toList
  | ⟨table, _, _, _, links, _⟩, front, hfront, hentry => by
      rw [Scope.tables_eq_cons] at hentry
      rcases List.mem_cons.mp hentry with rfl | hentry
      · exact hfront
      · exact dot_mem_of_linkedTables links hentry

theorem dot_mem_of_linkedTables {entry : String × String} :
    forall links, entry ∈ Scope.linkedTables links -> '.' ∈ entry.1.toList
  | [], hentry => by
      cases hentry
  | (link, child) :: rest, hentry => by
      rw [Scope.linkedTables_cons] at hentry
      rcases List.mem_append.mp hentry with hentry | hentry
      · exact dot_mem_of_tables child link.front (dot_mem_front link) hentry
      · exact dot_mem_of_linkedTables rest hentry

end

variable {db : Database} {key : String}

/-- The rows of linked scopes hold nothing under a name without a dot. -/
theorem get?_linked_dotless (hkey : '.' ∉ key.toList) {link : Link} {child : Scope}
    {children : List Joined} (h : scopeRows db link.front child = .ok children) {row : Joined}
    (hrow : row ∈ children) : row.values.get? key = none := by
  cases hvalue : row.values.get? key with
  | none =>
      rfl
  | some v =>
      rcases allStored_scopeRows child children h row hrow key v hvalue with
        ⟨front, table, records, r, name, hentry, _, _, hname, _⟩
      have hdot := dot_mem_of_tables child link.front (dot_mem_front link) hentry
      rw [hname, String.toList_append] at hkey
      exact absurd (List.mem_append_left _ hdot) hkey

/-- A joined row has the identifier, and the values without a dot, of the row that it extends. -/
theorem exists_joined_dotless (hkey : '.' ∉ key.toList) {front : String}
    {links : List (Link × Scope)} {rows joined : List Joined}
    (h : joinLinks db front links rows = .ok joined) {row : Joined} (hrow : row ∈ joined) :
    exists row', row' ∈ rows ∧ row.id = row'.id ∧ row.get key = row'.get key := by
  induction links generalizing rows with
  | nil =>
      rw [joinLinks] at h
      cases h
      exact ⟨row, hrow, rfl, rfl⟩
  | cons entry rest ih =>
      rcases entry with ⟨link, child⟩
      rcases joinLinks_cons_eq_ok.mp h with ⟨children, hchildren, h⟩
      rcases ih h with ⟨row', hrow', hid, hget⟩
      rcases List.mem_flatMap.mp hrow' with ⟨parent, hparent, hrow'⟩
      rcases mem_joinRow hrow' with rfl | ⟨other, hother, rfl⟩
      · exact ⟨row', hparent, hid, hget⟩
      · refine ⟨parent, hparent, hid, ?_⟩
        rw [hget, Joined.get, Joined.get, get?_link, get?_linked_dotless hkey hchildren hother,
          Option.none_or]

theorem exists_table {front : String} {s : Scope} {rows : List Joined}
    (h : scopeRows db front s = .ok rows) : exists records, db.tables s.table = some records := by
  rcases scopeRows_eq_ok.mp h with ⟨records, _, htable, _⟩
  exact ⟨records, htable⟩

/-- Every row of a query extends a record of its root. -/
theorem exists_root_record (hkey : '.' ∉ key.toList) {s : Scope} {rows : List Joined}
    (h : scopeRows db "" s = .ok rows) {row : Joined} (hrow : row ∈ rows) :
    exists records r, db.tables s.table = some records ∧ r ∈ records ∧ row.id = r.id ∧
      row.get key = r.get key := by
  rcases scopeRows_eq_ok.mp h with ⟨records, joined, htable, hjoined, hkept⟩
  rcases exists_joined_dotless hkey hjoined ((keepMatching_sublist hkept).subset hrow) with
    ⟨row', hrow', hid, hget⟩
  rcases List.mem_map.mp hrow' with ⟨r, hr, rfl⟩
  refine ⟨records, r, htable, hr, hid, ?_⟩
  rw [hget, TextQuery.get_joined]

end Fetch

/-!
# What is removed
-/

namespace Store

variable {records : List Record} {ids ids' : List Guid}

theorem mem_without {r : Record} :
    r ∈ without ids records <-> r ∈ records ∧ r.id.any ids.contains = false := by
  rw [without, List.mem_filter, Bool.not_eq_true']

/-- Removing more records leaves the same ones only if it removes the same ones. -/
theorem without_eq_iff (h : ids ⊆ ids') (hstored : forall id, id ∈ ids' ->
      some id ∈ records.map (·.id)) :
    without ids' records = without ids records <-> ids' ⊆ ids := by
  constructor
  · intro heq id hid
    rcases List.mem_map.mp (hstored id hid) with ⟨r, hr, hrid⟩
    by_contra hnot
    have hmem : r ∈ without ids records := by
      refine mem_without.mpr ⟨hr, ?_⟩
      rw [hrid, Option.any_some]
      simpa using hnot
    rw [<- heq, mem_without, hrid, Option.any_some] at hmem
    simp [hid] at hmem
  · intro hback
    refine List.filter_congr fun r _ => ?_
    cases r.id with
    | none =>
        rfl
    | some id =>
        have hsame : id ∈ ids' <-> id ∈ ids := ⟨fun hid => hback hid, fun hid => h hid⟩
        simp [hsame]

theorem length_without (ids : List Guid) (records : List Record) :
    (without ids records).length + (records.filter fun r => r.id.any ids.contains).length =
      records.length := by
  rw [without, Nat.add_comm, <- List.countP_eq_length_filter, <- List.countP_eq_length_filter]
  simpa using (List.length_eq_countP_add_countP fun (r : Record) => r.id.any ids.contains).symm

/-- As many records are removed as there are identifiers, unless there are others to remove. -/
theorem length_without_iff {t : TableDef} (hids : Identified t records) (hdistinct : ids.Nodup)
    (h : ids ⊆ ids') (hstored : forall id, id ∈ ids' -> some id ∈ records.map (·.id)) :
    records.length - (without ids' records).length = ids.length <-> ids' ⊆ ids := by
  have hpicked : Picked records (fun r => r.id.any ids.contains) ids := by
    refine ⟨hdistinct, fun id => ⟨fun hid => ?_, ?_⟩⟩
    · rcases List.mem_map.mp (hstored id (h hid)) with ⟨r, hr, hrid⟩
      exact ⟨r, hr, hrid, by simpa [hrid] using hid⟩
    · rintro ⟨r, _, hrid, hpicks⟩
      simpa [hrid] using hpicks
  have hlength := hpicked.length_eq hids
  have hleft := length_without ids records
  have hmore := length_without ids' records
  constructor
  · intro hcount id hid
    -- The fewer records to remove are as many as the more, so they are all of them.
    have hfewer : records.filter (fun r => r.id.any ids.contains) =
        (records.filter fun r => r.id.any ids'.contains).filter
          fun r => r.id.any ids.contains := by
      rw [List.filter_filter]
      refine List.filter_congr fun r _ => ?_
      cases r.id with
      | none =>
          rfl
      | some id =>
          by_cases hmem : id ∈ ids
          · simp [hmem, h hmem]
          · simp [hmem]
    have hall := List.length_filter_eq_length_iff.mp
      (show ((records.filter fun r => r.id.any ids'.contains).filter
        fun r => r.id.any ids.contains).length = _ by
          rw [<- hfewer]
          omega)
    rcases List.mem_map.mp (hstored id hid) with ⟨r, hr, hrid⟩
    have hpicks := hall r (List.mem_filter.mpr ⟨hr, by simpa [hrid] using hid⟩)
    simpa [hrid] using hpicks
  · intro hback
    rw [(without_eq_iff h hstored).mpr hback]
    omega

theorem bulkDelete_of_selected {clock : Clock} {q : Fetch.Query} {s : Store} {all : List Record}
    (hall : s.selected clock q = .ok all)
    (htable : s.tables.get? q.root.table = some records) :
    Store.bulkDelete clock q s = .ok s.fresh.1
      (s.setTable q.root.table (without (all.filterMap (·.id)) records)).fresh.2 := by
  have hget : (get : EStateM PlatformError Store Store) s = .ok s s := rfl
  rw [Store.bulkDelete, Outcome.bind_apply_of_ok hget, hall]
  simp only [htable]
  rfl

end Store

/-- The host that hands deletions over as a whole, or does not. -/
def Host.withBulk {σ : Type} (host : Host σ) (b : Bool) : Host σ :=
  { host with options := { host.options with useBulkDelete := b } }

namespace Run

variable {σ : Type} {host : Host σ} {store : σ -> Store} {stop : Bool}

/-!
# Confirmed deletions
-/

theorem pages_withBulk (host : Host σ) (b single : Bool) (n : Nat) (q : Fetch.Query)
    (sofar : List Record) :
    pages (host.withBulk b) single n q sofar = pages host single n q sofar := by
  induction n generalizing q sofar with
  | zero =>
      rfl
  | succ n ih =>
      rw [pages, pages]
      simp only [ih]
      rfl

theorem selectRecords_withBulk (host : Host σ) (b : Bool) (source : Plan) (idColumn : String) :
    selectRecords (host.withBulk b) source idColumn = selectRecords host source idColumn := by
  rw [selectRecords, selectRecords, runPlan, runPlan, retrieveAll, retrieveAll, pages_withBulk]
  rfl

/-- The records to delete once they are confirmed, or what is reported if nothing is deleted. -/
def confirmed (host : Host σ) (task : Plan.DeleteTask) :
    EStateM RunError σ (Except Affected (List (Guid × Record))) := do
  if !task.hasWhere && host.options.blockDeleteWithoutWhere then throw (.blocked "DELETE")
  else
    let target <- definition host task.table
    let selected <- selectRecords host task.source task.idColumn
    if selected.isEmpty then return .error (nothing task.table "delete")
    else if !(<- modifyGet (host.options.confirmDelete selected.length target)) then
      return .error ⟨0, "Delete cancelled by user"⟩
    else return .ok selected

/-- What is done with the records that are confirmed. -/
def finish (host : Host σ) (task : Plan.DeleteTask) :
    Except Affected (List (Guid × Record)) -> EStateM RunError σ Affected
  | .error a => pure a
  | .ok selected => (deleting host task).apply selected

theorem runDelete_eq_finish (host : Host σ) (task : Plan.DeleteTask) :
    runDelete host task = confirmed host task >>= finish host task := by
  unfold runDelete confirmed
  split
  · rfl
  · simp only [bind_assoc]
    congr
    funext target
    congr
    funext selected
    split
    · rfl
    · simp only [bind_assoc]
      congr
      funext answer
      cases answer <;> rfl

theorem confirmed_withBulk (host : Host σ) (b : Bool) (task : Plan.DeleteTask) :
    confirmed (host.withBulk b) task = confirmed host task := by
  unfold confirmed
  rw [selectRecords_withBulk]
  rfl

theorem confirmed_eq_ok {task : Plan.DeleteTask} {w w' : σ} {selected : List (Guid × Record)}
    (h : confirmed host task w = .ok (.ok selected) w') :
    exists target w₁ w₂, definition host task.table w = .ok target w₁ ∧
      selectRecords host task.source task.idColumn w₁ = .ok selected w₂ ∧ selected ≠ [] ∧
      host.options.confirmDelete selected.length target w₂ = (true, w') := by
  unfold confirmed at h
  split at h
  · cases h
  · rcases RecordSql.Outcome.run_bind_eq_ok.mp h with ⟨target, w₁, hdefinition, h⟩
    rcases RecordSql.Outcome.run_bind_eq_ok.mp h with ⟨found, w₂, hselected, h⟩
    cases found with
    | nil =>
        cases h
    | cons first more =>
        rcases RecordSql.Outcome.run_bind_eq_ok.mp h with ⟨answer, w₃, hanswer, h⟩
        cases answer with
        | false =>
            cases h
        | true =>
            cases h
            refine ⟨target, w₁, w₂, hdefinition, hselected, List.cons_ne_nil _ _, ?_⟩
            cases hconfirm : host.options.confirmDelete (first :: more).length target w₂ with
            | mk said w₄ =>
                cases (modifyGet_of_eq hconfirm).symm.trans hanswer
                rfl

/-!
# Hosts with a store
-/

/--
The host works on a store that is part of the world, and its options leave the store alone.  They
answer `stop` whenever they are asked whether the work is cancelled.
-/
structure Backed (host : Host σ) (store : σ -> Store) (stop : Bool) : Prop where
  retrieves : forall q w page w', host.client.retrieve q w = .ok page w' ->
    Fetch.evaluate ((store w).database host.clock) q = .ok page ∧ store w' = store w
  deletes : forall table id w s, Store.delete table id (store w) = .ok () s ->
    exists w', host.client.delete table id w = .ok () w' ∧ store w' = s
  bulkDeletes : forall q w job s, Store.bulkDelete host.clock q (store w) = .ok job s ->
    exists w', host.client.bulkDelete q w = .ok job w' ∧ store w' = s
  looksUp : forall name w t w', host.lookup name w = .ok t w' -> store w' = store w
  cancelled : forall w, host.options.cancelled w = stop
  quiet : forall message w, store (host.options.progress message w) = store w
  continues : forall n w, store (host.options.continueRetrieve n w).2 = store w
  confirms : forall n target w, store (host.options.confirmDelete n target w).2 = store w

section

variable {q : Fetch.Query} {w w' : σ} {found : List Record}

theorem store_of_wantsMore (h : Backed host store stop) {n : Nat} {wants : Bool}
    (hwants : wantsMore host n w = .ok wants w') : store w' = store w := by
  rcases RecordSql.Outcome.run_bind_eq_ok.mp hwants with ⟨w₁, w₂, hget, hwants⟩
  cases hget
  split at hwants
  · cases hwants
    rfl
  · cases hwants
    exact h.continues n w

/-- What is retrieved are some of the records of the query, however long that goes on. -/
theorem pages_subset (h : Backed host store stop) {single : Bool} {n : Nat} {sofar : List Record}
    {all : List Record} (hall : Fetch.allRecords ((store w).database host.clock) q = .ok all)
    (hfound : pages host single n q sofar w = .ok found w') :
    store w' = store w ∧ found ⊆ sofar ++ all := by
  induction n generalizing q w sofar with
  | zero =>
      cases hfound
      exact ⟨rfl, List.subset_append_left _ _⟩
  | succ n ih =>
      rw [pages] at hfound
      rcases RecordSql.Outcome.run_bind_eq_ok.mp hfound with ⟨page, w₁, hpage, hfound⟩
      rcases h.retrieves q w page w₁ hpage with ⟨hevaluate, hw₁⟩
      cases (evaluate_eq hall).symm.trans hevaluate
      have hsofar : sofar ++ (Fetch.pageOf ((store w).database host.clock) q all).records ⊆
          sofar ++ all :=
        ((List.Sublist.refl sofar).append (records_pageOf_sublist _ _ _)).subset
      rcases RecordSql.Outcome.run_bind_eq_ok.mp hfound with ⟨_, w₂, hprogress, hfound⟩
      cases hprogress
      have hw₂ : forall message, store (host.options.progress message w₁) = store w :=
        fun message => (h.quiet message w₁).trans hw₁
      split at hfound
      · cases hfound
        exact ⟨hw₂ _, hsofar⟩
      · rcases RecordSql.Outcome.run_bind_eq_ok.mp hfound with ⟨wants, w₃, hwants, hfound⟩
        have hw₃ := (store_of_wantsMore h hwants).trans (hw₂ _)
        cases wants with
        | false =>
            cases hfound
            exact ⟨hw₃, hsofar⟩
        | true =>
            have hnext : Fetch.allRecords ((store w₃).database host.clock)
                (nextPage q (Fetch.pageOf ((store w).database host.clock) q all).cookie) =
                  .ok all := by
              rw [hw₃]
              exact hall
            rcases ih hnext hfound with ⟨hw', hsubset⟩
            refine ⟨hw'.trans hw₃, List.Subset.trans hsubset ?_⟩
            exact List.append_subset.mpr ⟨hsofar, List.subset_append_right _ _⟩

theorem retrieveAll_subset (h : Backed host store stop)
    (hfound : retrieveAll host q w = .ok found w') :
    exists all, Fetch.allRecords ((store w).database host.clock) q = .ok all ∧
      store w' = store w ∧ found ⊆ all := by
  have hanswered : exists all,
      Fetch.allRecords ((store w).database host.clock) q = .ok all := by
    have hmax : maxPages = 4294967294 + 1 := rfl
    rw [retrieveAll, hmax, pages] at hfound
    rcases RecordSql.Outcome.run_bind_eq_ok.mp hfound with ⟨page, w₁, hpage, _⟩
    rcases Outcome.bind_eq_ok.mp (h.retrieves q w page w₁ hpage).1 with ⟨all, hall, _⟩
    exact ⟨all, hall⟩
  rcases hanswered with ⟨all, hall⟩
  rcases pages_subset h hall hfound with ⟨hw', hsubset⟩
  exact ⟨all, hall, hw', hsubset⟩

end

/-- A session on a store works on it, whatever its options answer. -/
theorem backed_hostOf (clock : Clock) (options : Plan.Options) {inner : RunOptions Store}
    (hcancelled : forall s, inner.cancelled s = stop)
    (hquiet : forall message s, inner.progress message s = s)
    (hcontinues : forall n s, (inner.continueRetrieve n s).2 = s)
    (hconfirms : forall n target s, (inner.confirmDelete n target s).2 = s) :
    Backed (Session.hostOf ⟨Store.client clock, options, clock⟩ inner) Session.host stop where
  retrieves q w page w' h := by
    rcases run_part_eq_ok.mp h with ⟨s, hs, rfl⟩
    change (liftExcept (Fetch.evaluate (w.host.database clock) q) : EStateM _ Store Page) w.host =
      _ at hs
    rcases RecordSql.Outcome.run_liftExcept_eq_ok.mp hs with ⟨hpage, rfl⟩
    exact ⟨hpage, rfl⟩
  deletes _ _ _ _ h := exists_run_part h
  bulkDeletes _ _ _ _ h := exists_run_part h
  looksUp _ _ _ _ h := host_of_lookup h
  cancelled w := hcancelled w.host
  quiet message w := hquiet message w.host
  continues n w := hcontinues n w.host
  confirms n target w := hconfirms n target w.host

section

variable {task : Plan.DeleteTask} {w w' : σ} {selected : List (Guid × Record)}
  {records : List Record}

/-- What a deletion without local steps confirms are records that its query returns. -/
theorem confirmed_subset (h : Backed host store stop) (hsteps : task.source.steps = [])
    (hconfirmed : confirmed host task w = .ok (.ok selected) w') :
    store w' = store w ∧ selected ≠ [] ∧ exists w₁ w₂ all found, store w₁ = store w ∧
      retrieveAll host task.source.fetch w₁ = .ok found w₂ ∧
      Fetch.allRecords ((store w).database host.clock) task.source.fetch = .ok all ∧
      found ⊆ all ∧ selected.map (·.1) = distinctIds task.idColumn found := by
  rcases confirmed_eq_ok hconfirmed with
    ⟨target, w₁, w₂, hdefinition, hselected, hsome, hanswer⟩
  have hw₁ := h.looksUp _ _ _ _ (adaptExcept_eq_ok.mp hdefinition)
  rcases selectRecords_eq_ok.mp hselected with ⟨rows, hrows, hids⟩
  rcases runPlan_eq_ok hrows with ⟨found, hfound, hrun⟩
  rw [hsteps] at hrun
  have hall : rows = found.filter fun _ => true := @Plan.run_residual_eq_ok _ none _ _ hrun
  rw [List.filter_eq_self.mpr fun _ _ => rfl] at hall
  subst hall
  rcases retrieveAll_subset h hfound with ⟨all, hall, hw₂, hsubset⟩
  rw [hw₁] at hall
  have hw' := h.confirms selected.length target w₂
  rw [hanswer] at hw'
  exact ⟨hw'.trans (hw₂.trans hw₁), hsome, w₁, w₂, all, rows, hw₁, hfound, hall, hsubset,
    (recordIds_eq_ok hids).1⟩

/-- A deletion as a whole removes all records that its query returns. -/
theorem apply_whole (h : Backed host store stop) (hbulk : task.canBulkDelete = true)
    {all : List Record} (hall : (store w).selected host.clock task.source.fetch = .ok all)
    (hroot : task.source.fetch.root.table = task.table)
    (htable : (store w).tables.get? task.table = some records) :
    exists a w', (deleting (host.withBulk true) task).apply selected w = .ok a w' ∧
      store w' = ((store w).setTable task.table
        (Store.without (all.filterMap (·.id)) records)).fresh.2 := by
  rw [<- hroot] at htable ⊢
  rcases h.bulkDeletes _ _ _ _ (Store.bulkDelete_of_selected hall htable) with ⟨w', hjob, hw'⟩
  have happly : (deleting (host.withBulk true) task).apply selected =
      bulkDelete host task selected.length := by
    simp only [deleting, Host.withBulk, hbulk, Bool.and_self, if_true]
    rfl
  rw [happly, bulkDelete, Outcome.bind_apply_of_ok (adaptExcept_eq_ok.mpr hjob)]
  exact ⟨_, w', rfl, hw'⟩

theorem apply_each (host : Host σ) (task : Plan.DeleteTask) (selected : List (Guid × Record)) :
    (deleting (host.withBulk false) task).apply selected =
      applyAll host (progressText "Deleted" task.table selected.length)
        (fun pair => host.client.delete task.table pair.1) selected >>= fun n =>
          pure ⟨n, doneText n task.table "deleted"⟩ := by
  have hsame : forall describe change applied (batches : List (List (Guid × Record))),
      applyBatches (host.withBulk false) describe change applied batches =
        applyBatches host describe change applied batches := by
    intro describe change applied batches
    induction batches generalizing applied with
    | nil =>
        rfl
    | cons batch rest ih =>
        rw [applyBatches, applyBatches]
        simp only [ih]
        rfl
  simp only [deleting, Host.withBulk, Bool.false_and, if_neg Bool.false_ne_true]
  rw [applyAll, applyAll]
  exact congrArg (· >>= _) (hsame _ _ _ _)

/-- A deletion that is not cancelled removes the confirmed records one by one. -/
theorem apply_selected (h : Backed host store false)
    (htable : (store w).tables.get? task.table = some records)
    (hdistinct : (selected.map (·.1)).Nodup)
    (hstored : forall pair, pair ∈ selected -> some pair.1 ∈ records.map (·.id)) :
    exists a w', (deleting (host.withBulk false) task).apply selected w = .ok a w' ∧
      store w' = (store w).setTable task.table
        (Store.without (selected.map (·.1)) records) := by
  rcases applyAll_delete h.cancelled h.quiet h.deletes htable hdistinct hstored
    (progressText "Deleted" task.table selected.length) with ⟨w', happly, hw'⟩
  rw [apply_each, Outcome.bind_apply_of_ok happly]
  exact ⟨_, w', rfl, hw'⟩

/-- A deletion that is cancelled removes nothing, one by one. -/
theorem apply_cancelled (h : Backed host store true) (hsome : selected ≠ []) :
    (deleting (host.withBulk false) task).apply selected w = .error (.cancelled 0) w := by
  have hsize : 0 < max host.options.batchSize 1 := Nat.le_max_right _ _
  rw [apply_each, applyAll, chunks_of_ne_nil hsize hsome]
  refine RecordSql.Outcome.bind_apply_of_error ?_
  rw [applyBatches_cons, h.cancelled, if_pos rfl]

theorem execute_delete_of_error {e : RunError} (h : runDelete host task w = .error e w')
    (sql : String) : ((Query.ofTask sql (.delete task)).execute host w).2 = w' := by
  have hrun : runTask host (.delete task) w = .error e w' :=
    RecordSql.Outcome.bind_apply_of_error h
  rw [Query.execute, Query.ofTask]
  simp only [hrun]

theorem execute_delete_of_ok {a : Affected} (h : runDelete host task w = .ok a w')
    (sql : String) : ((Query.ofTask sql (.delete task)).execute host w).2 = w' :=
  congrArg Prod.snd ((execute_affected_iff rfl).mpr ⟨a, h, rfl⟩)

/-- A deletion that has nothing to remove does not depend on how it would remove it. -/
theorem execute_withBulk_of_idle
    (h : forall selected w', confirmed host task w ≠ .ok (.ok selected) w') (sql : String) :
    (Query.ofTask sql (.delete task)).execute (host.withBulk true) w =
      (Query.ofTask sql (.delete task)).execute (host.withBulk false) w := by
  have hrun : forall b, runDelete (host.withBulk b) task w =
      (confirmed host task >>= finish (host.withBulk b) task) w := by
    intro b
    rw [runDelete_eq_finish, confirmed_withBulk]
  have hsame : runTask (host.withBulk true) (.delete task) w =
      runTask (host.withBulk false) (.delete task) w := by
    change EStateM.bind _ _ w = EStateM.bind _ _ w
    unfold EStateM.bind
    rw [hrun, hrun]
    cases hconfirmed : confirmed host task w with
    | error e w' =>
        rw [RecordSql.Outcome.bind_apply_of_error hconfirmed,
          RecordSql.Outcome.bind_apply_of_error hconfirmed]
    | ok found w' =>
        rw [RecordSql.Outcome.bind_apply_of_ok hconfirmed,
          RecordSql.Outcome.bind_apply_of_ok hconfirmed]
        cases found with
        | error a =>
            rfl
        | ok selected =>
            exact absurd hconfirmed (h selected w')
  rw [Query.execute, Query.execute, Query.ofTask]
  simp only [hsame]

theorem runDelete_of_confirmed (hconfirmed : confirmed host task w = .ok (.ok selected) w')
    (b : Bool) :
    runDelete (host.withBulk b) task w =
      (deleting (host.withBulk b) task).apply selected w' := by
  rw [runDelete_eq_finish, confirmed_withBulk, RecordSql.Outcome.bind_apply_of_ok hconfirmed]
  rfl

/-- The identifiers of the confirmed records. -/
def confirmedIds (host : Host σ) (task : Plan.DeleteTask) (w : σ) : Option (List Guid) :=
  match confirmed host task w with
  | .ok (.ok selected) _ => some (selected.map (·.1))
  | _ => none

theorem confirmedIds_eq_some {ids : List Guid} (h : confirmedIds host task w = some ids) :
    exists selected w', confirmed host task w = .ok (.ok selected) w' ∧
      selected.map (·.1) = ids := by
  unfold confirmedIds at h
  split at h
  · rename_i selected w' hconfirmed
    exact ⟨selected, w', hconfirmed, Option.some.inj h⟩
  · cases h

/-- Every record that the query of a deletion returns is among the confirmed ones. -/
def AllConfirmed (host : Host σ) (store : σ -> Store) (task : Plan.DeleteTask)
    (selected : List (Guid × Record)) (w : σ) : Prop :=
  exists all, Fetch.allRecords ((store w).database host.clock) task.source.fetch = .ok all ∧
    all.filterMap (·.id) ⊆ selected.map (·.1)

/-- The query of a deletion returns records with their identifiers, which are stored. -/
def ReturnsStored (host : Host σ) (store : σ -> Store) (task : Plan.DeleteTask)
    (records : List Record) (w : σ) : Prop :=
  forall all, Fetch.allRecords ((store w).database host.clock) task.source.fetch = .ok all ->
    forall r, r ∈ all -> exists id, r.id = some id ∧ r.get task.idColumn = .guid id ∧
      some id ∈ records.map (·.id)

theorem allConfirmed_iff {all : List Record}
    (hall : Fetch.allRecords ((store w).database host.clock) task.source.fetch = .ok all) :
    AllConfirmed host store task selected w <-> all.filterMap (·.id) ⊆ selected.map (·.1) := by
  constructor
  · rintro ⟨all', hall', hsubset⟩
    cases hall.symm.trans hall'
    exact hsubset
  · exact fun hsubset => ⟨all, hall, hsubset⟩

theorem steps_of_canBulkDelete (h : task.canBulkDelete = true) : task.source.steps = [] := by
  rw [Plan.DeleteTask.canBulkDelete, Bool.and_eq_true] at h
  exact List.isEmpty_iff.mp h.2

/-- A retrieval that is never stopped confirms all records. -/
theorem allConfirmed_of_serves (h : Backed host store stop) (hserves : Serves host store)
    (hbulk : task.canBulkDelete = true) (hplain : task.source.fetch.top = none ∧
      task.source.fetch.page = none ∧ task.source.fetch.count = none)
    (hreturns : ReturnsStored host store task records w)
    (hfit : forall all,
      Fetch.allRecords ((store w).database host.clock) task.source.fetch = .ok all ->
      all.length ≤ maxPages * max (store w).pageSize 1)
    (hconfirmed : confirmed host task w = .ok (.ok selected) w') :
    AllConfirmed host store task selected w := by
  rcases confirmed_subset h (steps_of_canBulkDelete hbulk) hconfirmed with
    ⟨_, _, w₁, w₂, all, found, hw₁, hfound, hall, _, hids⟩
  have hwhole := hall
  rw [<- hw₁] at hwhole
  rcases retrieveAll_all hserves hplain.1 hplain.2.1 hplain.2.2 hwhole (hw₁ ▸ hfit all hall) with
    ⟨w₃, hretrieved, _⟩
  cases hretrieved.symm.trans hfound
  refine ⟨all, hall, fun id hid => ?_⟩
  rcases List.mem_filterMap.mp hid with ⟨r, hr, hrid⟩
  rcases hreturns all hall r hr with ⟨id', hid', hget, _⟩
  cases hid'.symm.trans hrid
  rw [hids, mem_distinctIds]
  exact ⟨r, hr, by rw [hget]; rfl⟩

/-- What the two ways of a deletion leave of the records of its table. -/
structure Removals (host : Host σ) (store : σ -> Store) (stop : Bool) (task : Plan.DeleteTask)
    (selected : List (Guid × Record)) (records : List Record) (w : σ) (ids : List Guid) : Prop where
  asWhole : forall sql, store
    ((Query.ofTask sql (.delete task)).execute (host.withBulk true) w).2 =
      ((store w).setTable task.table (Store.without ids records)).fresh.2
  oneByOne : forall sql, store
    ((Query.ofTask sql (.delete task)).execute (host.withBulk false) w).2 =
      if stop then store w
      else (store w).setTable task.table (Store.without (selected.map (·.1)) records)
  distinct : (selected.map (·.1)).Nodup
  subset : selected.map (·.1) ⊆ ids
  stored : forall id, id ∈ ids -> some id ∈ records.map (·.id)

theorem exists_removals (h : Backed host store stop) (hbulk : task.canBulkDelete = true)
    (haggregate : task.source.fetch.aggregate = false)
    (hroot : task.source.fetch.root.table = task.table)
    (htable : (store w).tables.get? task.table = some records)
    (hreturns : ReturnsStored host store task records w)
    (hconfirmed : confirmed host task w = .ok (.ok selected) w') :
    selected ≠ [] ∧ exists all,
      Fetch.allRecords ((store w).database host.clock) task.source.fetch = .ok all ∧
      Removals host store stop task selected records w (all.filterMap (·.id)) := by
  rcases confirmed_subset h (steps_of_canBulkDelete hbulk) hconfirmed with
    ⟨hw', hsome, w₁, w₂, all, found, _, _, hall, hsubset, hids⟩
  have hdistinct : (selected.map (·.1)).Nodup := by
    rw [hids]
    exact nodup_distinctIds _ _
  have hstored : forall id, id ∈ all.filterMap (·.id) -> some id ∈ records.map (·.id) := by
    intro id hid
    rcases List.mem_filterMap.mp hid with ⟨r, hr, hrid⟩
    rcases hreturns all hall r hr with ⟨id', hid', _, hmem⟩
    cases hid'.symm.trans hrid
    exact hmem
  have hselected : selected.map (·.1) ⊆ all.filterMap (·.id) := by
    intro id hid
    rw [hids, mem_distinctIds] at hid
    rcases hid with ⟨row, hrow, hguid⟩
    rcases hreturns all hall row (hsubset hrow) with ⟨id', hid', hget, _⟩
    rw [hget] at hguid
    cases hguid
    exact List.mem_filterMap.mpr ⟨row, hsubset hrow, hid'⟩
  refine ⟨hsome, all, hall, ?_, ?_, hdistinct, hselected, hstored⟩
  · intro sql
    have hwhole : (store w').selected host.clock task.source.fetch = .ok all := by
      rw [Store.selected, Fetch.allRecords_limit haggregate, hw']
      exact hall
    rcases @apply_whole _ _ _ _ _ _ selected _ h hbulk all hwhole hroot (hw' ▸ htable) with
      ⟨a, w₃, happly, hw₃⟩
    rw [<- runDelete_of_confirmed hconfirmed] at happly
    rw [execute_delete_of_ok happly, hw₃, hw']
  · intro sql
    cases stop with
    | true =>
        have happly := @apply_cancelled _ host store task w' selected h hsome
        rw [<- runDelete_of_confirmed hconfirmed] at happly
        rw [execute_delete_of_error happly, hw', if_pos rfl]
    | false =>
        rcases apply_selected h (hw' ▸ htable) hdistinct
          (fun pair hpair => hstored _ (hselected (List.mem_map_of_mem hpair))) with
          ⟨a, w₃, happly, hw₃⟩
        rw [<- runDelete_of_confirmed hconfirmed] at happly
        rw [execute_delete_of_ok happly, hw₃, hw', if_neg Bool.false_ne_true]

/-- Both ways leave the same store if nothing is cancelled and all is confirmed. -/
theorem Removals.same_iff {ids : List Guid}
    (h : Removals host store stop task selected records w ids) (hsome : selected ≠ [])
    (htable : (store w).tables.get? task.table = some records) (sql : String) :
    store ((Query.ofTask sql (.delete task)).execute (host.withBulk true) w).2 =
        (store ((Query.ofTask sql (.delete task)).execute (host.withBulk false) w).2).fresh.2 <->
      stop = false ∧ ids ⊆ selected.map (·.1) := by
  have htables : forall left (s : Store),
      ((store w).setTable task.table left).fresh.2 = s.fresh.2 ->
      s.tables.get? task.table = some left := by
    intro left s heq
    have hsame : ((store w).setTable task.table left).fresh.2.tables = s.fresh.2.tables := by
      rw [heq]
    change ((store w).setTable task.table left).tables = s.tables at hsame
    rw [<- hsame, Store.get?_setTable, if_pos rfl]
  rw [h.asWhole, h.oneByOne]
  cases stop with
  | true =>
      rw [if_pos rfl]
      refine ⟨fun heq => ?_, fun hfalse => absurd hfalse.1 (by decide)⟩
      have hsame : Store.without ids records = Store.without [] records := by
        rw [Store.without_nil]
        exact Option.some.inj ((htables _ _ heq).symm.trans htable)
      have hnone := (Store.without_eq_iff (List.nil_subset ids) h.stored).mp hsame
      have hempty := List.subset_nil.mp (List.Subset.trans h.subset hnone)
      exact absurd (List.map_eq_nil_iff.mp hempty) hsome
  | false =>
      rw [if_neg Bool.false_ne_true]
      refine ⟨fun heq => ⟨rfl, ?_⟩, fun hall => ?_⟩
      · have hsame := htables _ _ heq
        rw [Store.get?_setTable, if_pos rfl] at hsame
        exact (Store.without_eq_iff h.subset h.stored).mp (Option.some.inj hsame).symm
      · rw [(Store.without_eq_iff h.subset h.stored).mpr hall.2]

/-- The platform removes as many records as were confirmed if all are confirmed. -/
theorem Removals.count_iff {ids : List Guid}
    (h : Removals host store stop task selected records w ids) {t : TableDef}
    (hids : Store.Identified t records)
    (htable : (store w).tables.get? task.table = some records) (sql : String) :
    ((store w).records task.table).length -
        ((store ((Query.ofTask sql (.delete task)).execute (host.withBulk true) w).2).records
          task.table).length = selected.length <->
      ids ⊆ selected.map (·.1) := by
  have hleft : forall s : Store, (s.setTable task.table (Store.without ids records)).fresh.2.records
      task.table = Store.without ids records := by
    intro s
    change ((s.setTable task.table (Store.without ids records)).tables.get? task.table).getD [] = _
    rw [Store.get?_setTable, if_pos rfl]
    rfl
  have hcount := Store.length_without_iff hids h.distinct h.subset h.stored
  rw [List.length_map] at hcount
  rw [h.asWhole, hleft, Store.records, htable]
  exact hcount

end

end Run

namespace Plan

open Fetch (Scope)

/-!
# Planned deletions of the root
-/

/-- The first scope is the root of the native query. -/
def Headed (ctx : Context) : Prop :=
  exists s, ctx.scopes[0]? = some s ∧ s.isRoot = true ∧ ctx.fetch.root.table = s.table.name

theorem table_update {f : Scope -> Scope} (hf : forall s, (f s).table = s.table) (path : List Nat)
    (s : Scope) : (s.update f path).table = s.table := by
  cases path with
  | nil =>
      exact hf s
  | cons i path =>
      rfl

theorem Headed.addJoin {ctx joined : Context} (h : Headed ctx) {join : Sql.Join} {outer : Bool}
    {table : TableDef} (hjoined : addJoin ctx join outer table = .ok joined) : Headed joined := by
  rcases h with ⟨s, hs, hroot, htable⟩
  rcases addJoin_cases hjoined with ⟨link, linked, _, hlinked, hjoined⟩
  rcases addLink_scopes hlinked with ⟨position, _, hscopes, hfetch⟩
  have hlink : Headed linked := by
    refine ⟨s, ?_, hroot, ?_⟩
    · rw [hscopes, List.getElem?_append_left (List.getElem?_eq_some_iff.mp hs).1, hs]
    · rw [hfetch, <- htable]
      refine table_update ?_ _ _
      exact fun _ => rfl
  rcases hjoined with rfl | ⟨filter, rfl⟩
  · exact hlink
  · rcases hlink with ⟨s, hs, hroot, htable⟩
    refine ⟨s, hs, hroot, (table_update ?_ _ _).trans htable⟩
    exact fun _ => rfl

theorem table_updateAll {β : Type} {scope : β -> Nat} {change : β -> Scope -> Scope}
    (hchange : forall b s, (change b s).table = s.table) (ctx : Context) (changes : List β) :
    (ctx.updateAll scope change changes).fetch.root.table = ctx.fetch.root.table := by
  induction changes generalizing ctx with
  | nil =>
      rfl
  | cons b rest ih =>
      exact (ih (ctx.update (scope b) (change b))).trans (table_update (hchange b) _ _)

section

variable {σ : Type} {lookup : Lookup σ} {options : Options} {source : Sql.Source} {ctx : Context}
  {v v' : σ} {clock : Clock} {target : Sql.TableRef} {criteria : Option Sql.Predicate}
  {s : Selection}

theorem headed_contextOf (h : (contextOf lookup options source).run v = .ok ctx v') :
    Headed ctx :=
  contextOf_induction (fun _ _ => ⟨_, rfl, rfl, rfl⟩) h
    fun _ _ _ _ _ _ _ _ _ hctx _ hjoined => hctx.addJoin hjoined

/-- The table of the first scope is the one that the query of a selection reads first. -/
theorem Selection.table_root (hctx : (contextOf lookup options source).run v = .ok ctx v')
    (h : selection ctx clock target criteria = .ok s) (hfirst : s.target = 0) (used : List Bound) :
    (s.plan used).1.fetch.root.table = s.scope.table.name ∧
      s.idColumn = s.scope.table.primaryId := by
  rcases selection_eq_ok h with ⟨_, hscope, hwhere⟩
  rcases headed_contextOf hctx with ⟨first, hs, hroot, htable⟩
  rw [hfirst] at hscope
  cases hs.symm.trans hscope
  rcases applyWhere_updateAll hwhere with ⟨filters, hfilters, _⟩
  constructor
  · refine (table_updateAll ?_ s.ctx (s.columns used)).trans ?_
    · intro b scope
      unfold Scope.ensure
      split <;> rfl
    · rw [hfilters, <- htable]
      refine table_updateAll ?_ ctx filters
      exact fun _ _ => rfl
  · rw [Selection.idColumn, Selection.idBound, Selection.scopes_eq h, hfirst, Scopes.rowKey,
      Scopes.qualified]
    simp only [hscope, hroot, if_true]
    rfl

/-- The query of a selection in the root returns records of the root with their identifiers. -/
theorem Selection.returns_stored {used : List Bound} (h : s.Provided used) {db : Fetch.Database}
    {records : List Record} (htable : db.tables (s.plan used).1.fetch.root.table = some records)
    (hcolumn : s.idColumn = s.scope.table.primaryId) (hdot : '.' ∉ s.scope.table.primaryId.toList)
    (hids : Store.Identified s.scope.table records) {all : List Record}
    (hall : Fetch.allRecords db (s.plan used).1.fetch = .ok all) {r : Record} (hr : r ∈ all) :
    exists id, r.id = some id ∧ r.get s.idColumn = .guid id ∧ some id ∈ records.map (·.id) := by
  rcases Outcome.bind_eq_ok.mp hall with ⟨rows, hrows, _⟩
  have hsame : Fetch.scopeRows db "" s.ctx.fetch.root = .ok rows := by
    rw [<- hrows]
    exact (scopeRows_updateAll (fun b front s => Scope.scopeRows_ensure db b.name front s) s.ctx
      (s.columns used)).symm
  rcases allRecords_selection h.ready h.plain h.scopes hsame with ⟨shown, hshown, hfound⟩
  cases hfound.symm.trans hall
  rcases List.mem_map.mp ((firstOfEach_sublist _ _ _).subset hr) with ⟨row, hrow, rfl⟩
  rcases Fetch.exists_root_record hdot hrows hrow with ⟨records', r, htable', hr, hid, hget⟩
  cases htable.symm.trans htable'
  rcases hids.ids r hr with ⟨id, hrid, hguid⟩
  refine ⟨id, ?_, ?_, List.mem_map.mpr ⟨r, hr, hrid⟩⟩
  · rw [hshown.id, hid, hrid]
  · have hshows := hshown.get s.idBound (mem_addBound.mpr (Or.inr rfl)) row
    change (shown row).get s.idColumn = row.get s.idColumn at hshows
    rw [hshows, hcolumn, hget, hguid]

end

section

variable {σ τ : Type} {host : Host σ} {store : σ -> Store} {stop : Bool} {lookup : Lookup τ}
  {options : Options} {d : Sql.Delete} {ctx : Context} {task : DeleteTask} {v v' : τ} {w : σ}

/--
A deletion that can be handed to the platform as a whole ends in the same way if nothing is
confirmed.  Otherwise it leaves the same store, but for the name of the job, exactly if it is not
cancelled and every record that its query returns was confirmed; and as many records are removed as
were confirmed exactly in the latter case.  Both hold if the retrieval is never stopped.
-/
theorem bulk_delete_agrees_iff (hbacked : Run.Backed host store stop)
    (hctx : (contextOf lookup options (d.source.getD ⟨d.target, []⟩)).run v = .ok ctx v')
    (hplan : (planStatement lookup options host.clock (.delete d)).run v = .ok (.delete task) v')
    (hbulk : task.canBulkDelete = true) (hids : IdentifiedTables (store w) ctx) (sql : String) :
    ((forall selected w', Run.confirmed host task w ≠ .ok (.ok selected) w') ->
      (Query.ofTask sql (.delete task)).execute (host.withBulk true) w =
        (Query.ofTask sql (.delete task)).execute (host.withBulk false) w) ∧
    forall selected w', Run.confirmed host task w = .ok (.ok selected) w' ->
      (store ((Query.ofTask sql (.delete task)).execute (host.withBulk true) w).2 =
          (store ((Query.ofTask sql (.delete task)).execute (host.withBulk false) w).2).fresh.2 <->
        stop = false ∧ Run.AllConfirmed host store task selected w) ∧
      (((store w).records task.table).length -
          ((store ((Query.ofTask sql (.delete task)).execute (host.withBulk true) w).2).records
            task.table).length = selected.length <->
        Run.AllConfirmed host store task selected w) ∧
      (Run.Serves host store ->
        (forall all, Fetch.allRecords ((store w).database host.clock) task.source.fetch = .ok all ->
          all.length ≤ Run.maxPages * max (store w).pageSize 1) ->
        stop = false ∧ Run.AllConfirmed host store task selected w) := by
  refine ⟨fun hidle => Run.execute_withBulk_of_idle hidle sql, fun selected w' hconfirmed => ?_⟩
  rcases planStatement_delete hplan with ⟨ctx', s, hctx', hs, htask⟩
  cases hctx.symm.trans hctx'
  have hprovided := Selection.provided_delete hctx hs
  have hplain := plain_ensureAll hprovided.plain (s.columns s.residual.used)
  have hfirst : s.target = 0 := by
    cases htask
    rw [DeleteTask.canBulkDelete, Bool.and_eq_true] at hbulk
    exact eq_of_beq hbulk.1
  rcases Selection.table_root hctx hs hfirst s.residual.used with ⟨hroot, hcolumn⟩
  rcases hids s.scope (List.mem_of_getElem? (selection_eq_ok hs).2.1) with ⟨hdot, hrecords⟩
  rcases Run.confirmed_subset hbacked (Run.steps_of_canBulkDelete hbulk) hconfirmed with
    ⟨_, _, _, _, all, _, _, _, hall, _⟩
  rcases Outcome.bind_eq_ok.mp hall with ⟨rows, hrows, _⟩
  rcases Fetch.exists_table hrows with ⟨records, htable⟩
  have hreturns : Run.ReturnsStored host store task records w := by
    intro all hall r hr
    cases htask
    rw [Selection.plan_idColumn]
    exact Selection.returns_stored hprovided htable hcolumn hdot (hrecords records (hroot ▸ htable))
      hall hr
  cases htask
  rw [hroot] at htable
  have hids := hrecords records htable
  rcases Run.exists_removals hbacked hbulk hplain.aggregate hroot htable hreturns hconfirmed with
    ⟨hsome, all, hall, hremovals⟩
  rw [Run.allConfirmed_iff hall]
  refine ⟨hremovals.same_iff hsome htable sql, hremovals.count_iff hids htable sql,
    fun hserves hfit => ⟨?_, ?_⟩⟩
  · rw [<- hbacked.cancelled w]
    exact hserves.goesOn w
  · exact (Run.allConfirmed_iff hall).mp (Run.allConfirmed_of_serves hbacked hserves hbulk
      ⟨hplain.top, hplain.page, hplain.count⟩ hreturns hfit hconfirmed)

end

/-!
# Two boxes

They are on two pages.  A deletion that stops to retrieve after the first page asks about one box.
-/

def box : TableDef :=
  { TableDef.ofKey "box" "id" with
    attributes := [.ofType "id" .uniqueIdentifier, .ofType "label" .string] }

def boxOf (n : Nat) (label : String) : Record :=
  ⟨"box", some (.ofNat n), .ofList [("id", .guid (.ofNat n)), ("label", .str label)]⟩

def boxes : List Record :=
  [boxOf 1 "books", boxOf 2 "books"]

def boxStore : Store :=
  { Store.empty with
    tables := .ofList [("box", boxes)]
    definitions := .ofList [("box", box)]
    pageSize := 1 }

/-- `DELETE FROM box WHERE label = 'books'` -/
def boxDelete : Sql.Delete :=
  ⟨⟨"box", none, false⟩, none,
    some (.compare (.column (.ofName "label")) .eq (.literal (.str "books")))⟩

def boxHost (continues : Bool) : Host (Session Store) :=
  Session.hostOf ⟨Store.client TextQuery.letterClock, .standard, TextQuery.letterClock⟩
    { RunOptions.standard with continueRetrieve := fun _ s => (continues, s) }

theorem boxes_identified : Store.Identified box boxes where
  ids := by
    intro r hr
    simp only [boxes, List.mem_cons, List.not_mem_nil, or_false] at hr
    rcases hr with rfl | rfl <;> exact ⟨_, rfl, rfl⟩
  unique := by
    decide

theorem boxes_bulk_delete : exists session task,
    (planStatement (boxHost true).lookup .standard TextQuery.letterClock (.delete boxDelete)).run
      (Session.ofHost boxStore) = .ok (.delete task) session ∧
    task.canBulkDelete = true ∧
    ((Query.ofTask "" (.delete task)).execute ((boxHost true).withBulk true) session).2.host =
      ((Query.ofTask "" (.delete task)).execute
        ((boxHost true).withBulk false) session).2.host.fresh.2 ∧
    ((Query.ofTask "" (.delete task)).execute ((boxHost false).withBulk true) session).2.host ≠
      ((Query.ofTask "" (.delete task)).execute
        ((boxHost false).withBulk false) session).2.host.fresh.2 := by
  have hplan : exists session task ctx,
      (contextOf (boxHost true).lookup .standard ⟨⟨"box", none, false⟩, []⟩).run
        (Session.ofHost boxStore) = .ok ctx session ∧
      (planStatement (boxHost true).lookup .standard TextQuery.letterClock (.delete boxDelete)).run
        (Session.ofHost boxStore) = .ok (.delete task) session ∧
      task.canBulkDelete = true ∧ session.host = boxStore ∧
      ctx.scopes.map (·.table) = [box] ∧
      Run.confirmedIds (boxHost true) task session = some [.ofNat 1, .ofNat 2] ∧
      Run.confirmedIds (boxHost false) task session = some [.ofNat 1] ∧
      (Fetch.allRecords (session.host.database TextQuery.letterClock)
        task.source.fetch).toOption.map (fun all => (all.filterMap (·.id), all.length)) =
          some ([.ofNat 1, .ofNat 2], 2) :=
    ⟨_, _, _, rfl, rfl, rfl, rfl, rfl, by decide +kernel, by decide +kernel, by decide +kernel⟩
  rcases hplan with ⟨session, task, ctx, hctx, hplan, hbulk, hhost, hscopes, hboth, hone, hall⟩
  rcases Run.confirmedIds_eq_some hboth with ⟨selected, session₁, hconfirmed, _⟩
  rcases Run.confirmedIds_eq_some hone with ⟨one, session₂, honly, hone⟩
  have hfound : exists all, Fetch.allRecords (session.host.database TextQuery.letterClock)
      task.source.fetch = .ok all ∧ all.filterMap (·.id) = [.ofNat 1, .ofNat 2] ∧
        all.length = 2 := by
    generalize Fetch.allRecords (session.host.database TextQuery.letterClock) task.source.fetch =
      result at hall
    cases result with
    | error e =>
        cases hall
    | ok all =>
        exact ⟨all, rfl, Prod.ext_iff.mp (Option.some.inj hall)⟩
  rcases hfound with ⟨all, hall, hall', hlength⟩
  have hids : IdentifiedTables session.host ctx := by
    intro scope hscope
    have htable : scope.table ∈ ctx.scopes.map (·.table) := List.mem_map_of_mem hscope
    rw [hscopes, List.mem_singleton] at htable
    rw [htable]
    refine ⟨by decide, fun records hrecords => ?_⟩
    rw [hhost] at hrecords
    cases hrecords
    exact boxes_identified
  have hbacked : forall continues, Run.Backed (boxHost continues) Session.host false :=
    fun _ => Run.backed_hostOf _ _ (fun _ => rfl) (fun _ _ => rfl) (fun _ _ => rfl)
      fun _ _ _ => rfl
  refine ⟨session, task, hplan, hbulk, ?_, ?_⟩
  · rcases (bulk_delete_agrees_iff (hbacked true) hctx hplan hbulk hids "").2 selected session₁
      hconfirmed with ⟨hsame, _, hserved⟩
    refine hsame.mpr (hserved (TextQuery.serves_hostOf _ _) fun all' hall' => ?_)
    cases hall.symm.trans hall'
    rw [hlength, hhost]
    decide
  · rcases (bulk_delete_agrees_iff (hbacked false) hctx hplan hbulk hids "").2 one session₂
      honly with ⟨hsame, _⟩
    refine mt hsame.mp fun hboth => ?_
    rcases hboth.2 with ⟨all', hfound, hsubset⟩
    cases hall.symm.trans hfound
    rw [hall', hone] at hsubset
    exact absurd (hsubset (List.mem_cons_of_mem _ List.mem_cons_self)) (by decide)

end Plan

end RecordSql
