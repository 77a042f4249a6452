import RecordSql.Proofs.Execution

/-!
# The stages of a change

An update and a deletion go through the same stages: a guard, the definition of the table, the
selection of the records, a question, and the change of one record after the other in batches.  The
selected records are those of the first rows of all identifiers, and the batches together are all
records to change.
-/

namespace RecordSql
namespace Run

variable {σ α : Type}

/-!
# Selected records
-/

/-- The identifiers that rows hold, each of them once, in the order of their first rows. -/
def distinctIds (idColumn : String) (rows : List Record) : List Guid :=
  (rows.filterMap fun row => (row.get idColumn).asGuid).eraseDups

theorem nodup_eraseDups {β : Type} [BEq β] [LawfulBEq β] (l : List β) : l.eraseDups.Nodup := by
  cases l with
  | nil =>
      exact List.nodup_nil
  | cons a rest =>
      rw [List.eraseDups_cons, List.nodup_cons, List.mem_eraseDups]
      exact ⟨by simp, nodup_eraseDups _⟩
termination_by l.length
decreasing_by exact Nat.lt_succ_of_le (List.length_filter_le _ _)

theorem nodup_distinctIds (idColumn : String) (rows : List Record) :
    (distinctIds idColumn rows).Nodup :=
  nodup_eraseDups _

theorem mem_distinctIds {idColumn : String} {rows : List Record} {id : Guid} :
    id ∈ distinctIds idColumn rows <->
      exists row, row ∈ rows ∧ (row.get idColumn).asGuid = some id := by
  rw [distinctIds, List.mem_eraseDups, List.mem_filterMap]

theorem identifiedRows_eq_ok {idColumn : String} {rows : List Record}
    {pairs : List (Guid × Record)} (h : identifiedRows idColumn rows = .ok pairs) :
    pairs = rows.filterMap fun row => (row.get idColumn).asGuid.map (·, row) := by
  induction rows generalizing pairs with
  | nil =>
      cases h
      rfl
  | cons row rest ih =>
      rw [identifiedRows] at h
      split at h
      · rename_i hnull
        have hnone : (row.get idColumn).asGuid = none := by
          cases hvalue : row.get idColumn <;> rw [hvalue] at hnull <;> cases hnull
          rfl
        rw [List.filterMap_cons, hnone]
        exact ih h
      · split at h
        · cases h
        · rename_i id hid
          rcases Outcome.bind_eq_ok.mp h with ⟨more, hmore, hpairs⟩
          cases hpairs
          rw [List.filterMap_cons, hid, <- ih hmore]
          rfl

/-- What a row that selects nothing holds. -/
theorem isNull_of_identifiedRows {idColumn : String} {rows : List Record}
    {pairs : List (Guid × Record)} (h : identifiedRows idColumn rows = .ok pairs) :
    forall row, row ∈ rows -> (row.get idColumn).asGuid = none ->
      (row.get idColumn).isNull = true := by
  induction rows generalizing pairs with
  | nil =>
      intro row hrow
      cases hrow
  | cons first rest ih =>
      rw [identifiedRows] at h
      split at h
      · rename_i hnull
        exact List.forall_mem_cons.mpr ⟨fun _ => hnull, ih h⟩
      · split at h
        · cases h
        · rename_i id hid
          rcases Outcome.bind_eq_ok.mp h with ⟨more, hmore, _⟩
          refine List.forall_mem_cons.mpr ⟨fun hnone => ?_, ih hmore⟩
          rw [hid] at hnone
          cases hnone

theorem onePerId_sublist (seen : List Guid) (pairs : List (Guid × Record)) :
    (onePerId seen pairs).Sublist pairs := by
  induction pairs generalizing seen with
  | nil =>
      exact List.Sublist.refl _
  | cons pair rest ih =>
      rw [onePerId]
      split
      · exact (ih seen).cons pair
      · exact (ih (pair.1 :: seen)).cons_cons pair

theorem ids_onePerId (seen : List Guid) (pairs : List (Guid × Record)) :
    (onePerId seen pairs).map (·.1) =
      ((pairs.map (·.1)).filter fun id => !seen.contains id).eraseDups := by
  induction pairs generalizing seen with
  | nil =>
      rfl
  | cons pair rest ih =>
      rw [onePerId, List.map_cons]
      by_cases hseen : seen.contains pair.1 = true
      · rw [if_pos hseen, ih, List.filter_cons, hseen, if_neg (by decide)]
      · have hnew : (!seen.contains pair.1) = true := by
          rw [Bool.not_eq_true] at hseen
          rw [hseen]
          rfl
        rw [if_neg hseen, List.filter_cons, if_pos hnew, List.map_cons, ih, List.eraseDups_cons,
          List.filter_filter]
        congr 3
        funext id
        rw [List.contains_cons, Bool.not_or]

/-- The selected records are those of the first rows that hold their identifiers. -/
theorem recordIds_eq_ok {idColumn : String} {rows : List Record}
    {selected : List (Guid × Record)} (h : recordIds idColumn rows = .ok selected) :
    selected.map (·.1) = distinctIds idColumn rows ∧
      (forall pair, pair ∈ selected ->
        pair.2 ∈ rows ∧ (pair.2.get idColumn).asGuid = some pair.1) ∧
      forall row, row ∈ rows -> (row.get idColumn).asGuid = none ->
        (row.get idColumn).isNull = true := by
  rw [recordIds] at h
  cases hpairs : identifiedRows idColumn rows with
  | error e =>
      rw [hpairs] at h
      cases h
  | ok pairs =>
      rw [hpairs] at h
      cases h
      have heq := identifiedRows_eq_ok hpairs
      refine ⟨?_, ?_, isNull_of_identifiedRows hpairs⟩
      · rw [ids_onePerId, distinctIds]
        have hall : (pairs.map (·.1)).filter (fun id => !([] : List Guid).contains id) =
            pairs.map (·.1) := List.filter_eq_self.mpr fun _ _ => rfl
        rw [hall, heq, List.map_filterMap]
        congr 2
        funext row
        cases (row.get idColumn).asGuid <;> rfl
      · intro pair hpair
        have hmem := (onePerId_sublist [] pairs).subset hpair
        rw [heq, List.mem_filterMap] at hmem
        rcases hmem with ⟨row, hrow, hsome⟩
        rcases Option.map_eq_some_iff.mp hsome with ⟨id, hid, rfl⟩
        exact ⟨hrow, hid⟩

/-- Rows that all hold an identifier select their records. -/
theorem recordIds_of_guids {idColumn : String} {rows : List Record}
    (h : forall row, row ∈ rows -> exists id, row.get idColumn = .guid id) :
    exists selected, recordIds idColumn rows = .ok selected := by
  have hpairs : exists pairs, identifiedRows idColumn rows = .ok pairs := by
    induction rows with
    | nil =>
        exact ⟨[], rfl⟩
    | cons row rest ih =>
        rcases h row List.mem_cons_self with ⟨id, hid⟩
        rcases ih fun row hrow => h row (List.mem_cons_of_mem _ hrow) with ⟨pairs, hpairs⟩
        refine ⟨(id, row) :: pairs, ?_⟩
        rw [identifiedRows, hid, hpairs]
        rfl
  rcases hpairs with ⟨pairs, hpairs⟩
  rw [recordIds, hpairs]
  exact ⟨_, rfl⟩

theorem selectRecords_eq_ok {host : Host σ} {source : Plan} {idColumn : String} {w w' : σ}
    {selected : List (Guid × Record)} :
    selectRecords host source idColumn w = .ok selected w' <->
      exists rows, runPlan host source w = .ok rows w' ∧
        recordIds idColumn rows = .ok selected := by
  constructor
  · intro h
    rcases Outcome.run_bind_eq_ok.mp h with ⟨rows, w₁, hrows, hids⟩
    rcases Outcome.run_liftExcept_eq_ok.mp hids with ⟨hselected, rfl⟩
    exact ⟨rows, hrows, hselected⟩
  · rintro ⟨rows, hrows, hids⟩
    exact Outcome.run_bind_eq_ok.mpr
      ⟨rows, w', hrows, Outcome.run_liftExcept_eq_ok.mpr ⟨hids, rfl⟩⟩

/-!
# Batches
-/

theorem chunks_nil {size : Nat} (hsize : 0 < size) : chunks size ([] : List α) = [] := by
  have hzero : (([] : List α).length + size - 1) / size = 0 := by
    rw [List.length_nil]
    exact Nat.div_eq_of_lt (by omega)
  rw [chunks, hzero]
  rfl

theorem chunks_of_ne_nil {size : Nat} (hsize : 0 < size) {items : List α} (h : items ≠ []) :
    chunks size items = items.take size :: chunks size (items.drop size) := by
  have hlength := List.length_pos_of_ne_nil h
  have hcount : (items.length + size - 1) / size =
      ((items.drop size).length + size - 1) / size + 1 := by
    rw [List.length_drop]
    rcases Nat.le_total size items.length with hle | hle
    · rw [<- Nat.add_div_right _ hsize]
      congr 1
      omega
    · have hone : (items.length + size - 1) / size = 1 :=
        Nat.div_eq_of_lt_le (by omega) (by omega)
      have hzero : (items.length - size + size - 1) / size = 0 := Nat.div_eq_of_lt (by omega)
      rw [hone, hzero]
  rw [chunks, chunks, hcount, List.range_succ_eq_map, List.map_cons, List.map_map, Nat.zero_mul,
    List.drop_zero]
  congr 2
  funext i
  rw [Function.comp_apply, List.drop_drop, Nat.succ_mul, Nat.add_comm]

/-- What is done with the first of several batches. -/
theorem applyBatches_cons (host : Host σ) (describe : Nat -> String)
    (change : α -> EStateM PlatformError σ Unit) (applied : Nat) (batch : List α)
    (rest : List (List α)) (w : σ) :
    applyBatches host describe change applied (batch :: rest) w =
      if host.options.cancelled w then .error (.cancelled applied) w
      else (applyItems change applied batch >>= fun now =>
        modify (host.options.progress (describe now)) >>= fun _ =>
          applyBatches host describe change now rest) w := by
  rw [applyBatches]
  change (if host.options.cancelled w then _ else _ : EStateM RunError σ Nat) w = _
  split <;> rfl

/-!
# Both kinds of change
-/

/-- What is particular to a change of one kind. -/
structure Mutation (σ α : Type) where
  /-- Why the change is refused before anything is looked up. -/
  refusal : Option RunError
  table : String
  source : Plan
  idColumn : String
  idle : Affected
  declined : Affected
  confirm : Nat -> TableDef -> σ -> Bool × σ
  /-- What is to be changed, given the selected records. -/
  prepare : TableDef -> List (Guid × Record) -> Except RunError (List α)
  apply : List α -> EStateM RunError σ Affected

theorem modifyGet_of_eq {ε β : Type} {question : σ -> β × σ} {w w' : σ} {answer : β}
    (h : question w = (answer, w')) :
    (modifyGet question : EStateM ε σ β) w = .ok answer w' := by
  change EStateM.Result.ok (question w).1 (question w).2 = _
  rw [h]

def Mutation.run (host : Host σ) (m : Mutation σ α) : EStateM RunError σ Affected :=
  match m.refusal with
  | some e => throw e
  | none => do
      let target <- definition host m.table
      let selected <- selectRecords host m.source m.idColumn
      if selected.isEmpty then return m.idle
      else if !(<- modifyGet (m.confirm selected.length target)) then return m.declined
      else
        let items <- liftExcept (m.prepare target selected)
        m.apply items

def updating (host : Host σ) (task : Plan.UpdateTask) : Mutation σ Record where
  refusal :=
    if !task.hasWhere && host.options.blockUpdateWithoutWhere then some (.blocked "UPDATE")
    else none
  table := task.table
  source := task.source
  idColumn := task.idColumn
  idle := nothing task.table "update"
  declined := ⟨0, "Update cancelled by user"⟩
  confirm := host.options.confirmUpdate
  prepare target selected := (selected.mapM (changedRecord host target task)).mapError .eval
  apply changes := do
    let n <- applyAll host (progressText "Updated" task.table changes.length) host.client.update
      changes
    return ⟨n, doneText n task.table "updated"⟩

def deleting (host : Host σ) (task : Plan.DeleteTask) : Mutation σ (Guid × Record) where
  refusal :=
    if !task.hasWhere && host.options.blockDeleteWithoutWhere then some (.blocked "DELETE")
    else none
  table := task.table
  source := task.source
  idColumn := task.idColumn
  idle := nothing task.table "delete"
  declined := ⟨0, "Delete cancelled by user"⟩
  confirm := host.options.confirmDelete
  prepare _ selected := .ok selected
  apply selected :=
    if host.options.useBulkDelete && task.canBulkDelete then bulkDelete host task selected.length
    else do
      let n <- applyAll host (progressText "Deleted" task.table selected.length)
        (fun pair => host.client.delete task.table pair.1) selected
      return ⟨n, doneText n task.table "deleted"⟩

theorem runUpdate_eq (host : Host σ) (task : Plan.UpdateTask) :
    runUpdate host task = (updating host task).run host := by
  unfold runUpdate Mutation.run
  by_cases hblocked : (!task.hasWhere && host.options.blockUpdateWithoutWhere) = true
  · simp only [updating, if_pos hblocked]
  · simp only [updating, if_neg hblocked]
    congr
    funext target
    congr
    funext selected
    congr
    funext confirmed
    congr
    cases selected.mapM (changedRecord host target task) <;> rfl

theorem runDelete_eq (host : Host σ) (task : Plan.DeleteTask) :
    runDelete host task = (deleting host task).run host := by
  unfold runDelete Mutation.run
  by_cases hblocked : (!task.hasWhere && host.options.blockDeleteWithoutWhere) = true
  · simp only [deleting, if_pos hblocked]
  · simp only [deleting, if_neg hblocked]
    rfl

/-- A change is executed without an error if it is run without one. -/
theorem execute_affected_iff {host : Host σ} {task : Plan.Task} {x : EStateM RunError σ Affected}
    (htask : runTask host task = x >>= fun done => pure (.affected done)) {sql : String}
    {w w' : σ} {q : Query} :
    (Query.ofTask sql task).execute host w = ((q, none), w') <->
      exists a, x w = .ok a w' ∧ q = ⟨sql, task, .completed (.affected a)⟩ := by
  constructor
  · intro h
    rcases Query.execute_eq_ok h with ⟨outcome, hrun, rfl⟩
    rw [htask] at hrun
    rcases RecordSql.Outcome.run_bind_eq_ok.mp hrun with ⟨a, w₁, hx, hpure⟩
    cases hpure
    exact ⟨a, hx, rfl⟩
  · rintro ⟨a, hx, rfl⟩
    have hrun : runTask host task w = .ok (.affected a) w' := by
      rw [htask]
      exact RecordSql.Outcome.bind_apply_of_ok hx
    rw [Query.execute, Query.ofTask]
    simp only [hrun]

end Run
end RecordSql
