import Mathlib.Data.List.Nodup
import RecordSql.Platform.Store
import RecordSql.Proofs.Changes.Stages
import RecordSql.Proofs.TextQuery.Answer

/-!
# What changes do to a store

A change that is neither declined nor cancelled goes through all selected records.  If these are
records of the store, a deletion leaves the others in their order, and an update writes over them in
their places.
-/

namespace RecordSql

namespace Dict

variable {α : Type}

theorem put_put (name : String) (old new : α) (entries : List (String × α)) :
    put name new (put name old entries) = put name new entries := by
  induction entries with
  | nil =>
      simp [put]
  | cons entry rest ih =>
      rcases entry with ⟨key, value⟩
      by_cases hkey : key = name
      · simp [put, hkey]
      · simp [put, hkey, ih]

theorem put_of_find {name : String} {value : α} {entries : List (String × α)}
    (h : find name entries = some value) : put name value entries = entries := by
  induction entries with
  | nil =>
      cases h
  | cons entry rest ih =>
      rcases entry with ⟨key, old⟩
      rw [find] at h
      by_cases hkey : key = name
      · rw [if_pos hkey] at h
        cases h
        simp [put, hkey]
      · rw [if_neg hkey] at h
        simp [put, hkey, ih h]

theorem insert_insert (d : Dict α) (name : String) (old new : α) :
    (d.insert name old).insert name new = d.insert name new := by
  simp only [insert, put_put]

theorem insert_of_get? {d : Dict α} {name : String} {value : α} (h : d.get? name = some value) :
    d.insert name value = d := by
  simp only [insert, put_of_find h]

/-- Of several entries of one name the last one counts. -/
theorem get?_insertAll_lookup (d : Dict α) (entries : List (String × α)) (name : String) :
    (d.insertAll entries).get? name = (entries.reverse.lookup name).or (d.get? name) := by
  induction entries generalizing d with
  | nil =>
      rfl
  | cons entry rest ih =>
      rcases entry with ⟨key, value⟩
      have hrest : (d.insertAll ((key, value) :: rest)).get? name =
          (rest.reverse.lookup name).or ((d.insert key value).get? name) := ih (d.insert key value)
      rw [hrest, List.reverse_cons, List.lookup_append, Option.or_assoc, get?_insert]
      by_cases hkey : name = key
      · simp [hkey]
      · simp [hkey, List.lookup_cons, beq_eq_false_iff_ne.mpr hkey]

end Dict

namespace Store

variable {s : Store} {table : String} {records : List Record}

theorem setTable_setTable (s : Store) (table : String) (old new : List Record) :
    (s.setTable table old).setTable table new = s.setTable table new := by
  simp only [setTable, Dict.insert_insert]

theorem setTable_of_get? (h : s.tables.get? table = some records) :
    s.setTable table records = s := by
  simp only [setTable, Dict.insert_of_get? h]

theorem get?_setTable (s : Store) (table other : String) (records : List Record) :
    (s.setTable table records).tables.get? other =
      if other = table then some records else s.tables.get? other :=
  Dict.get?_insert _ _ _ _

/-!
# Records with identifiers
-/

/-- Every record has an identifier of its own, and holds it in the attribute that identifies it. -/
structure Identified (t : TableDef) (records : List Record) : Prop where
  ids : forall r, r ∈ records -> exists id, r.id = some id ∧ r.get t.primaryId = .guid id
  unique : (records.map (·.id)).Nodup

theorem eq_of_id_eq {records : List Record} (hunique : (records.map (·.id)).Nodup) {r r' : Record}
    (hr : r ∈ records) (hr' : r' ∈ records) (h : r.id = r'.id) : r = r' :=
  List.inj_on_of_nodup_map hunique hr hr' h

/-- The records that have none of the identifiers. -/
def without (ids : List Guid) (records : List Record) : List Record :=
  records.filter fun r => !r.id.any ids.contains

theorem without_nil (records : List Record) : without [] records = records := by
  refine List.filter_eq_self.mpr fun r _ => ?_
  cases r.id <;> rfl

theorem without_append (ids : List Guid) (id : Guid) (records : List Record) :
    without (ids ++ [id]) records = (without ids records).filter (·.id != some id) := by
  rw [without, without, List.filter_filter]
  refine List.filter_congr fun r _ => ?_
  cases r.id with
  | none =>
      rfl
  | some other =>
      simp [bne, Bool.and_comm, Bool.beq_eq_decide_eq]

theorem delete_of_get? {id : Guid} (htable : s.tables.get? table = some records)
    (hstored : some id ∈ records.map (·.id)) :
    Store.delete table id s = .ok () (s.setTable table (records.filter (·.id != some id))) := by
  have hfewer : ((records.filter (·.id != some id)).length == records.length) = false := by
    rw [beq_eq_false_iff_ne]
    intro hlength
    rcases List.mem_map.mp hstored with ⟨r, hr, hid⟩
    have hkept := List.length_filter_eq_length_iff.mp hlength r hr
    rw [hid] at hkept
    simp at hkept
  have hget : (get : EStateM PlatformError Store Store) s = .ok s s := rfl
  rw [Store.delete, Outcome.bind_apply_of_ok hget]
  simp only [htable, hfewer]
  rfl

/-- Deleting one more record, which is still there. -/
theorem delete_without {ids : List Guid} {id : Guid} (s : Store) (table : String)
    (hnew : id ∉ ids) (hstored : some id ∈ records.map (·.id)) :
    Store.delete table id (s.setTable table (without ids records)) =
      .ok () (s.setTable table (without (ids ++ [id]) records)) := by
  have hget : (s.setTable table (without ids records)).tables.get? table =
      some (without ids records) := by
    rw [get?_setTable, if_pos rfl]
  have hmem : some id ∈ (without ids records).map (·.id) := by
    rcases List.mem_map.mp hstored with ⟨r, hr, hid⟩
    refine List.mem_map.mpr ⟨r, List.mem_filter.mpr ⟨hr, ?_⟩, hid⟩
    rw [hid]
    simpa using hnew
  rw [delete_of_get? hget hmem, setTable_setTable, without_append]

/-- The identifiers are those of certain records, each of them once. -/
structure Picked (records : List Record) (picks : Record -> Bool) (ids : List Guid) : Prop where
  distinct : ids.Nodup
  mem : forall id, id ∈ ids <-> exists r, r ∈ records ∧ r.id = some id ∧ picks r = true

section

variable {picks : Record -> Bool} {ids : List Guid}

theorem Picked.mem_iff (h : Picked records picks ids) (hunique : (records.map (·.id)).Nodup)
    {r : Record} (hr : r ∈ records) {id : Guid} (hid : r.id = some id) :
    id ∈ ids <-> picks r = true := by
  rw [h.mem]
  constructor
  · rintro ⟨r', hr', hid', hpicks⟩
    cases eq_of_id_eq hunique hr hr' (hid.trans hid'.symm)
    exact hpicks
  · intro hpicks
    exact ⟨r, hr, hid, hpicks⟩

theorem Picked.stored (h : Picked records picks ids) {id : Guid} (hid : id ∈ ids) :
    some id ∈ records.map (·.id) := by
  rcases (h.mem id).mp hid with ⟨r, hr, hrid, _⟩
  exact List.mem_map.mpr ⟨r, hr, hrid⟩

/-- There are as many identifiers as records. -/
theorem Picked.length_eq (h : Picked records picks ids) {t : TableDef}
    (hids : Identified t records) : ids.length = (records.filter picks).length := by
  have hperm : (ids.map some).Perm ((records.filter picks).map (·.id)) := by
    refine (List.perm_ext_iff_of_nodup (h.distinct.map fun _ _ => Option.some.inj)
      (hids.unique.sublist (List.filter_sublist.map _))).mpr fun entry => ?_
    rw [List.mem_map, List.mem_map]
    constructor
    · rintro ⟨id, hid, rfl⟩
      rcases (h.mem id).mp hid with ⟨r, hr, hrid, hpicks⟩
      exact ⟨r, List.mem_filter.mpr ⟨hr, hpicks⟩, hrid⟩
    · rintro ⟨r, hr, rfl⟩
      rcases List.mem_filter.mp hr with ⟨hr, hpicks⟩
      rcases hids.ids r hr with ⟨id, hid, _⟩
      exact ⟨id, (h.mem id).mpr ⟨r, hr, hid, hpicks⟩, hid.symm⟩
  have hlength := hperm.length_eq
  rwa [List.length_map, List.length_map] at hlength

theorem Picked.without_eq (h : Picked records picks ids) {t : TableDef}
    (hids : Identified t records) : without ids records = records.filter fun r => !picks r := by
  refine List.filter_congr fun r hr => ?_
  rcases hids.ids r hr with ⟨id, hid, _⟩
  rw [hid, Option.any_some]
  refine congrArg not (Bool.eq_iff_iff.mpr ?_)
  rw [List.contains_iff_mem]
  exact h.mem_iff hids.unique hr hid

end

/-!
# Records that are written over
-/

/-- The record with the changes that are for its identifier written over it. -/
def written (changes : List Record) (r : Record) : Record :=
  (changes.find? (·.id == r.id)).elim r (overwrite r)

theorem id_written (changes : List Record) (r : Record) : (written changes r).id = r.id := by
  rw [written]
  cases changes.find? (·.id == r.id) <;> rfl

theorem map_written_nil (records : List Record) : records.map (written []) = records :=
  List.map_id records

theorem ids_map_written (changes records : List Record) :
    (records.map (written changes)).map (·.id) = records.map (·.id) := by
  rw [List.map_map]
  exact List.map_congr_left fun r _ => id_written changes r

/-- The record has got new values, of which the last one of each name counts. -/
structure Rewritten (values : List (String × Value)) (r r' : Record) : Prop where
  table : r'.table = r.table
  id : r'.id = r.id
  get? : forall name, r'.attributes.get? name =
    (values.reverse.lookup name).or (r.attributes.get? name)

theorem rewritten_overwrite {values : List (String × Value)} {change : Record}
    (h : change.attributes = .ofList values) (r : Record) :
    Rewritten values r (overwrite r change) := by
  refine ⟨rfl, rfl, fun name => ?_⟩
  have hvalues : (Dict.ofList values).get? name = values.reverse.lookup name := by
    rw [Dict.ofList, Dict.get?_insertAll_lookup]
    exact Option.or_none
  rw [overwrite, h, Dict.get?_insertAll, hvalues]

theorem updateFirst_of_unique {id : Guid} (f : Record -> Record)
    (hunique : (records.map (·.id)).Nodup) (hstored : some id ∈ records.map (·.id)) :
    updateFirst id f records =
      some (records.map fun r => if r.id == some id then f r else r) := by
  induction records with
  | nil =>
      cases hstored
  | cons r rest ih =>
      rw [List.map_cons, List.nodup_cons] at hunique
      rw [updateFirst, List.map_cons]
      by_cases hid : r.id = some id
      · have hothers : rest.map (fun r => if r.id == some id then f r else r) = rest := by
          refine (List.map_congr_left fun other hother => ?_).trans (List.map_id rest)
          have hne : other.id ≠ some id := by
            intro heq
            exact hunique.1 (hid ▸ heq ▸ List.mem_map_of_mem hother)
          rw [if_neg (by simpa using hne)]
          rfl
        rw [hothers, if_pos (by simpa using hid), if_pos (by simpa using hid)]
      · have hrest : some id ∈ rest.map (·.id) := by
          rcases List.mem_cons.mp hstored with heq | hrest
          · exact absurd heq.symm hid
          · exact hrest
        rw [if_neg (by simpa using hid), if_neg (by simpa using hid), ih hunique.2 hrest]
        rfl

/-- Writing over one more record. -/
theorem update_written (s : Store) {table : String}
    (hunique : (records.map (·.id)).Nodup) {changes : List Record} {change : Record} {id : Guid}
    (hchange : change.table = table ∧ change.id = some id)
    (hnew : some id ∉ changes.map (·.id)) (hstored : some id ∈ records.map (·.id)) :
    Store.update change (s.setTable table (records.map (written changes))) =
      .ok () (s.setTable table (records.map (written (changes ++ [change])))) := by
  have htable' : (s.setTable table (records.map (written changes))).tables.get? table =
      some (records.map (written changes)) := by
    rw [get?_setTable, if_pos rfl]
  have hupdate := @updateFirst_of_unique (records.map (written changes)) id (overwrite · change)
    (by rw [ids_map_written]; exact hunique) (by rw [ids_map_written]; exact hstored)
  have hone : (records.map (written changes)).map
      (fun r => if r.id == some id then overwrite r change else r) =
      records.map (written (changes ++ [change])) := by
    rw [List.map_map]
    refine List.map_congr_left fun r _ => ?_
    rw [Function.comp_apply, id_written, written, written, List.find?_append]
    by_cases hid : r.id = some id
    · have hnone : changes.find? (·.id == r.id) = none := by
        refine List.find?_eq_none.mpr fun c hc heq => hnew ?_
        rw [<- hid, <- eq_of_beq heq]
        exact List.mem_map_of_mem hc
      have hfound : [change].find? (·.id == r.id) = some change :=
        List.find?_cons_of_pos (by rw [hchange.2, hid]; exact beq_self_eq_true _)
      rw [hnone, hfound, if_pos (by rw [hid]; exact beq_self_eq_true _)]
      rfl
    · have hnone : [change].find? (·.id == r.id) = none := by
        refine List.find?_eq_none.mpr fun c hc heq => hid ?_
        rw [<- eq_of_beq heq, List.mem_singleton.mp hc, hchange.2]
      rw [hnone, Option.or_none, if_neg (by simpa using hid)]
  have hget : (get : EStateM PlatformError Store Store)
      (s.setTable table (records.map (written changes))) = .ok _ _ := rfl
  rw [Store.update, Outcome.bind_apply_of_ok hget]
  simp only [hchange.1, hchange.2, Option.bind_eq_bind, Option.bind_some, htable', hupdate, hone]
  change EStateM.Result.ok () _ = _
  rw [setTable_setTable]

end Store

namespace Run

variable {σ α : Type}

/-!
# Going through all records
-/

section

variable {host : Host σ} {store : σ -> Store} {change : α -> EStateM PlatformError σ Unit}
  {items : List α} {holds : List α -> Store -> Prop}

/-- Each of the items can be changed once those before it are, and then more holds of the store. -/
def Advances (store : σ -> Store) (change : α -> EStateM PlatformError σ Unit) (items : List α)
    (holds : List α -> Store -> Prop) : Prop :=
  forall front item rest w, items = front ++ item :: rest -> holds front (store w) ->
    exists w', change item w = .ok () w' ∧ holds (front ++ [item]) (store w')

theorem applyItems_advances (hadvances : Advances store change items holds)
    {before batch rest : List α} (hitems : items = before ++ (batch ++ rest)) {w : σ}
    (h : holds before (store w)) :
    exists w', applyItems change before.length batch w = .ok (before ++ batch).length w' ∧
      holds (before ++ batch) (store w') := by
  induction batch generalizing before w with
  | nil =>
      rw [List.append_nil]
      exact ⟨w, rfl, h⟩
  | cons item more ih =>
      rcases hadvances before item (more ++ rest) w hitems h with ⟨w₁, hitem, hholds⟩
      have hrest : items = (before ++ [item]) ++ (more ++ rest) := by
        rw [hitems, List.append_assoc]
        rfl
      rcases ih hrest hholds with ⟨w', hrun, hmore⟩
      have happend : before ++ [item] ++ more = before ++ item :: more := by
        rw [List.append_assoc]
        rfl
      rw [happend] at hrun hmore
      refine ⟨w', ?_, hmore⟩
      rw [applyItems, Outcome.bind_apply_of_ok (adaptExcept_eq_ok.mpr hitem)]
      rw [List.length_append] at hrun
      exact hrun

theorem applyBatches_advances (hgoesOn : forall w, host.options.cancelled w = false)
    (hquiet : forall message w, store (host.options.progress message w) = store w)
    (hadvances : Advances store change items holds) (describe : Nat -> String) {size : Nat}
    (hsize : 0 < size) {before left : List α} (hitems : items = before ++ left) {w : σ}
    (h : holds before (store w)) :
    exists w', applyBatches host describe change before.length (chunks size left) w =
      .ok items.length w' ∧ holds items (store w') := by
  induction hlength : left.length using Nat.strongRecOn generalizing before left w with
  | _ n ih =>
      by_cases hleft : left = []
      · rw [hleft, List.append_nil] at hitems
        rw [hleft, chunks_nil hsize, hitems]
        exact ⟨w, rfl, h⟩
      · have hsplit : items = before ++ (left.take size ++ left.drop size) := by
          rw [List.take_append_drop]
          exact hitems
        rcases applyItems_advances hadvances hsplit h with ⟨w₁, hbatch, hholds⟩
        have hfewer : (left.drop size).length < n := by
          have hpositive := List.length_pos_of_ne_nil hleft
          rw [List.length_drop]
          omega
        have hnext : holds (before ++ left.take size) (store
            (host.options.progress (describe (before ++ left.take size).length) w₁)) := by
          rw [hquiet]
          exact hholds
        rcases ih _ hfewer (by rw [hsplit, List.append_assoc]) hnext rfl with ⟨w', hrest, hall⟩
        refine ⟨w', ?_, hall⟩
        rw [chunks_of_ne_nil hsize hleft, applyBatches_cons, hgoesOn,
          if_neg Bool.false_ne_true, Outcome.bind_apply_of_ok hbatch]
        exact hrest

/-- A change that is never stopped goes through all items. -/
theorem applyAll_advances (hgoesOn : forall w, host.options.cancelled w = false)
    (hquiet : forall message w, store (host.options.progress message w) = store w)
    (hadvances : Advances store change items holds) (describe : Nat -> String) {w : σ}
    (h : holds [] (store w)) :
    exists w', applyAll host describe change items w = .ok items.length w' ∧
      holds items (store w') :=
  applyBatches_advances hgoesOn hquiet hadvances describe (Nat.le_max_right _ 1) rfl h

end

/-!
# Hosts that make changes
-/

/--
The host answers from a store that is part of the world, makes changes in it, and lets all of them
happen.
-/
structure Applies (host : Host σ) (store : σ -> Store) : Prop extends Serves host store where
  looksUp : forall name w t w', host.lookup name w = .ok t w' -> store w' = store w
  updates : forall r w s, Store.update r (store w) = .ok () s ->
    exists w', host.client.update r w = .ok () w' ∧ store w' = s
  deletes : forall table id w s, Store.delete table id (store w) = .ok () s ->
    exists w', host.client.delete table id w = .ok () w' ∧ store w' = s
  confirmsUpdate : forall n target w, exists w',
    host.options.confirmUpdate n target w = (true, w') ∧ store w' = store w
  confirmsDelete : forall n target w, exists w',
    host.options.confirmDelete n target w = (true, w') ∧ store w' = store w

variable {host : Host σ} {store : σ -> Store}

/-- A change whose records are selected and whose items are prepared is applied. -/
theorem Mutation.run_eq_ok {m : Mutation σ α} {w w₁ w₂ : σ} {target : TableDef}
    {selected : List (Guid × Record)} {items : List α} (hallowed : m.refusal = none)
    (hdefinition : definition host m.table w = .ok target w₁)
    (hselected : selectRecords host m.source m.idColumn w₁ = .ok selected w₂)
    (hconfirms : forall n, exists w', m.confirm n target w₂ = (true, w') ∧ store w' = store w₂)
    (hprepared : m.prepare target selected = .ok items) :
    selected = [] ∧ m.run host w = .ok m.idle w₂ ∨
      exists w₃, store w₃ = store w₂ ∧ m.run host w = m.apply items w₃ := by
  rw [Mutation.run, hallowed]
  simp only
  rw [Outcome.bind_apply_of_ok hdefinition, Outcome.bind_apply_of_ok hselected]
  cases selected with
  | nil =>
      exact Or.inl ⟨rfl, rfl⟩
  | cons first more =>
      rcases hconfirms (first :: more).length with ⟨w₃, hconfirm, hw₃⟩
      refine Or.inr ⟨w₃, hw₃, ?_⟩
      rw [List.isEmpty_cons, if_neg Bool.false_ne_true,
        Outcome.bind_apply_of_ok (modifyGet_of_eq hconfirm), hprepared]
      rfl

/-- Deleting selected records one after the other leaves the others. -/
theorem applyAll_delete (hgoesOn : forall w, host.options.cancelled w = false)
    (hquiet : forall message w, store (host.options.progress message w) = store w)
    (hdeletes : forall table id w s, Store.delete table id (store w) = .ok () s ->
      exists w', host.client.delete table id w = .ok () w' ∧ store w' = s)
    {table : String} {selected : List (Guid × Record)} {records : List Record} {w : σ}
    (htable : (store w).tables.get? table = some records)
    (hdistinct : (selected.map (·.1)).Nodup)
    (hstored : forall pair, pair ∈ selected -> some pair.1 ∈ records.map (·.id))
    (describe : Nat -> String) :
    exists w', applyAll host describe (fun pair => host.client.delete table pair.1) selected w =
        .ok selected.length w' ∧
      store w' = (store w).setTable table (Store.without (selected.map (·.1)) records) := by
  have hadvances : Advances store (fun pair => host.client.delete table pair.1) selected
      fun front s => s = (store w).setTable table (Store.without (front.map (·.1)) records) := by
    intro front pair rest w' hitems hs
    have hnew : pair.1 ∉ front.map (·.1) := by
      intro hmem
      rw [hitems, List.map_append, List.nodup_append] at hdistinct
      exact hdistinct.2.2 _ hmem _ List.mem_cons_self rfl
    have hdelete := Store.delete_without (store w) table hnew
      (hstored pair (hitems ▸ List.mem_append_right _ List.mem_cons_self))
    rw [<- hs] at hdelete
    rcases hdeletes _ _ _ _ hdelete with ⟨w₁, hw₁, hstore⟩
    refine ⟨w₁, hw₁, hstore.trans ?_⟩
    simp only [List.map_append, List.map_cons, List.map_nil]
  refine applyAll_advances hgoesOn hquiet hadvances describe ?_
  rw [List.map_nil, Store.without_nil, Store.setTable_of_get? htable]

/-- A deletion leaves the records that were not selected. -/
theorem runDelete_effect (happlies : Applies host store) {task : Plan.DeleteTask}
    (hbulk : (host.options.useBulkDelete && task.canBulkDelete) = false) {w w₁ w₂ : σ}
    (hallowed : (deleting host task).refusal = none) {target : TableDef}
    {selected : List (Guid × Record)} {records : List Record}
    (hdefinition : definition host task.table w = .ok target w₁)
    (hselected : selectRecords host task.source task.idColumn w₁ = .ok selected w₂)
    (htable : (store w₂).tables.get? task.table = some records)
    (hdistinct : (selected.map (·.1)).Nodup)
    (hstored : forall pair, pair ∈ selected -> some pair.1 ∈ records.map (·.id)) :
    exists a w', runDelete host task w = .ok a w' ∧ a.count = selected.length ∧
      store w' = (store w₂).setTable task.table
        (Store.without (selected.map (·.1)) records) := by
  rw [runDelete_eq]
  rcases @Mutation.run_eq_ok _ _ host store (deleting host task) w w₁ w₂ target selected selected
    hallowed hdefinition hselected (fun n => happlies.confirmsDelete n target w₂) rfl with
    ⟨rfl, hrun⟩ | ⟨w₃, hw₃, hrun⟩
  · refine ⟨_, w₂, hrun, rfl, ?_⟩
    rw [List.map_nil, Store.without_nil, Store.setTable_of_get? htable]
  · rw [<- hw₃] at htable
    rcases applyAll_delete happlies.goesOn happlies.quiet happlies.deletes htable hdistinct hstored
      (progressText "Deleted" task.table selected.length) with ⟨w', happly, hstore⟩
    refine ⟨⟨selected.length, doneText selected.length task.table "deleted"⟩, w', ?_, rfl,
      by rw [hstore, hw₃]⟩
    rw [hrun]
    simp only [deleting, hbulk, if_neg Bool.false_ne_true]
    exact Outcome.bind_apply_of_ok happly

theorem changedRecord_eq_ok {target : TableDef} {task : Plan.UpdateTask}
    {pair : Guid × Record} {change : Record}
    (h : changedRecord host target task pair = .ok change) :
    change.table = task.table ∧ change.id = some pair.1 ∧
      exists values, task.changes.mapM (changedValue host target pair.2) = .ok values ∧
        change.attributes = .ofList values := by
  rcases Outcome.bind_eq_ok.mp h with ⟨values, hvalues, hrecord⟩
  cases hrecord
  exact ⟨rfl, rfl, values, hvalues, rfl⟩

/-- An update writes over the records that were selected. -/
theorem runUpdate_effect (happlies : Applies host store) {task : Plan.UpdateTask} {w w₁ w₂ : σ}
    (hallowed : (updating host task).refusal = none) {target : TableDef}
    {selected : List (Guid × Record)} {records changes : List Record}
    (hdefinition : definition host task.table w = .ok target w₁)
    (hselected : selectRecords host task.source task.idColumn w₁ = .ok selected w₂)
    (hchanges : selected.mapM (changedRecord host target task) = .ok changes)
    (htable : (store w₂).tables.get? task.table = some records)
    (hunique : (records.map (·.id)).Nodup) (hdistinct : (selected.map (·.1)).Nodup)
    (hstored : forall pair, pair ∈ selected -> some pair.1 ∈ records.map (·.id)) :
    exists a w', runUpdate host task w = .ok a w' ∧ a.count = selected.length ∧
      store w' = (store w₂).setTable task.table (records.map (Store.written changes)) := by
  have heach := Outcome.mapM_eq_ok.mp hchanges
  have hids : changes.map (·.id) = (selected.map (·.1)).map some := by
    rw [List.map_map, <- List.forall₂_eq_eq_eq, List.forall₂_map_left_iff,
      List.forall₂_map_right_iff]
    exact heach.flip.imp fun change pair h => (changedRecord_eq_ok h).2.1
  have hprepared : (updating host task).prepare target selected = .ok changes := by
    simp only [updating, hchanges]
    rfl
  rw [runUpdate_eq]
  rcases @Mutation.run_eq_ok _ _ host store (updating host task) w w₁ w₂ target selected changes
    hallowed hdefinition hselected (fun n => happlies.confirmsUpdate n target w₂) hprepared with
    ⟨rfl, hrun⟩ | ⟨w₃, hw₃, hrun⟩
  · cases heach
    refine ⟨_, w₂, hrun, rfl, ?_⟩
    rw [Store.map_written_nil, Store.setTable_of_get? htable]
  · have hnodup : (changes.map (·.id)).Nodup := by
      rw [hids]
      exact hdistinct.map fun _ _ => Option.some.inj
    have hadvances : Advances store host.client.update changes
        fun front s => s = (store w₂).setTable task.table
          (records.map (Store.written front)) := by
      intro front change rest w hitems hs
      have hmem : change ∈ changes := hitems ▸ List.mem_append_right _ List.mem_cons_self
      rcases Outcome.exists_of_forall₂ heach hmem with ⟨pair, hpair, hchange⟩
      rcases changedRecord_eq_ok hchange with ⟨hname, hid, _⟩
      have hnew : some pair.1 ∉ front.map (·.id) := by
        intro hold
        rw [hitems, List.map_append, List.nodup_append] at hnodup
        exact hnodup.2.2 _ hold _ List.mem_cons_self hid.symm
      have hupdate := Store.update_written (store w₂) hunique ⟨hname, hid⟩ hnew
        (hstored pair hpair)
      rw [<- hs] at hupdate
      exact happlies.updates _ _ _ hupdate
    have hfirst : store w₃ = (store w₂).setTable task.table (records.map (Store.written [])) := by
      rw [Store.map_written_nil, Store.setTable_of_get? htable, hw₃]
    rcases applyAll_advances happlies.goesOn happlies.quiet hadvances
      (progressText "Updated" task.table changes.length) hfirst with ⟨w', happly, hstore⟩
    refine ⟨⟨changes.length, doneText changes.length task.table "updated"⟩, w', ?_,
      heach.length_eq.symm, hstore⟩
    rw [hrun]
    exact Outcome.bind_apply_of_ok happly

/-!
# Completed changes
-/

/-- A change that was completed has selected its records and prepared its items. -/
theorem Mutation.of_run_eq_ok {m : Mutation σ α} {w w' : σ} {a : Affected}
    (hconfirms : forall n target w, exists w', m.confirm n target w = (true, w') ∧
      store w' = store w)
    (hempty : forall target, exists items, m.prepare target [] = .ok items)
    (h : m.run host w = .ok a w') :
    m.refusal = none ∧ exists target w₁ selected w₂ items,
      definition host m.table w = .ok target w₁ ∧
      selectRecords host m.source m.idColumn w₁ = .ok selected w₂ ∧
      m.prepare target selected = .ok items := by
  rw [Mutation.run] at h
  cases hrefusal : m.refusal with
  | some e =>
      rw [hrefusal] at h
      cases h
  | none =>
      rw [hrefusal] at h
      rcases RecordSql.Outcome.run_bind_eq_ok.mp h with ⟨target, w₁, hdefinition, h⟩
      rcases RecordSql.Outcome.run_bind_eq_ok.mp h with ⟨selected, w₂, hselected, h⟩
      refine ⟨rfl, target, w₁, selected, w₂, ?_⟩
      cases selected with
      | nil =>
          rcases hempty target with ⟨items, hitems⟩
          exact ⟨items, hdefinition, hselected, hitems⟩
      | cons first more =>
          rcases hconfirms (first :: more).length target w₂ with ⟨w₃, hconfirm, _⟩
          rw [List.isEmpty_cons, if_neg Bool.false_ne_true] at h
          rcases RecordSql.Outcome.run_bind_eq_ok.mp h with ⟨answer, w₄, hanswer, h⟩
          cases (modifyGet_of_eq hconfirm).symm.trans hanswer
          rcases RecordSql.Outcome.run_bind_eq_ok.mp h with ⟨items, w₅, hitems, _⟩
          rcases RecordSql.Outcome.run_liftExcept_eq_ok.mp hitems with ⟨hprepared, _⟩
          exact ⟨items, hdefinition, hselected, hprepared⟩

theorem exists_mapM {ε β : Type} {f : α -> Except ε β} {l : List α}
    (h : forall a, a ∈ l -> exists b, f a = .ok b) : exists m, l.mapM f = .ok m := by
  induction l with
  | nil =>
      exact ⟨[], rfl⟩
  | cons a rest ih =>
      rcases h a List.mem_cons_self with ⟨b, hb⟩
      rcases ih fun a ha => h a (List.mem_cons_of_mem _ ha) with ⟨m, hm⟩
      refine ⟨b :: m, ?_⟩
      rw [List.mapM_cons, hb, hm]
      rfl

/-- The name and the value that an update writes, computed from what it reads. -/
def newValue (clock : Clock) (target : TableDef) (read : String -> Value) (c : Plan.Change) :
    Except EvalError (String × Value) :=
  (Eval.scalar clock read c.value).map fun v =>
    (c.name, (target.attribute? c.name).elim v (storeValue v))

theorem newValue_eq_ok {clock : Clock} {target : TableDef} {read : String -> Value}
    {c : Plan.Change} {entry : String × Value} :
    newValue clock target read c = .ok entry <->
      exists v, Eval.scalar clock read c.value = .ok v ∧
        entry = (c.name, (target.attribute? c.name).elim v (storeValue v)) := by
  rw [newValue]
  cases Eval.scalar clock read c.value with
  | error e =>
      simp [Except.map]
  | ok v =>
      simp [Except.map, eq_comm]

theorem changedValue_eq (host : Host σ) (target : TableDef) (row : Record) (c : Plan.Change) :
    changedValue host target row c = newValue host.clock target row.get c := by
  rw [changedValue, newValue]
  cases Eval.scalar host.clock row.get c.value with
  | error e =>
      rfl
  | ok v =>
      cases target.attribute? c.name <;> rfl

/-- An update is prepared if the values of all selected records can be computed. -/
theorem exists_prepared {target : TableDef} {task : Plan.UpdateTask}
    {selected : List (Guid × Record)}
    (h : forall pair, pair ∈ selected -> forall c, c ∈ task.changes ->
      exists v, Eval.scalar host.clock pair.2.get c.value = .ok v) :
    exists items, (updating host task).prepare target selected = .ok items := by
  have hchanged : exists items, selected.mapM (changedRecord host target task) = .ok items := by
    refine exists_mapM fun pair hpair => ?_
    have hvalues : exists values,
        task.changes.mapM (changedValue host target pair.2) = .ok values := by
      refine exists_mapM fun c hc => ?_
      rcases h pair hpair c hc with ⟨v, hv⟩
      exact ⟨_, (changedValue_eq host target pair.2 c).trans (newValue_eq_ok.mpr ⟨v, hv, rfl⟩)⟩
    rcases hvalues with ⟨values, hvalues⟩
    rw [changedRecord, hvalues]
    exact ⟨_, rfl⟩
  rcases hchanged with ⟨items, hitems⟩
  simp only [updating, hitems]
  exact ⟨items, rfl⟩

/-- What becomes of a record when the selected ones are written over. -/
theorem written_cases {target : TableDef} {task : Plan.UpdateTask}
    {selected : List (Guid × Record)} {changes : List Record}
    (h : List.Forall₂ (fun pair change => changedRecord host target task pair = .ok change)
      selected changes) {r : Record} {id : Guid} (hid : r.id = some id) :
    id ∉ selected.map (·.1) ∧ Store.written changes r = r ∨
      exists pair values, pair ∈ selected ∧ pair.1 = id ∧
        task.changes.mapM (newValue host.clock target pair.2.get) = .ok values ∧
        Store.Rewritten values r (Store.written changes r) := by
  cases hfound : changes.find? (·.id == r.id) with
  | none =>
      refine Or.inl ⟨fun hmem => ?_, by rw [Store.written, hfound]; rfl⟩
      rcases List.mem_map.mp hmem with ⟨pair, hpair, hpairId⟩
      rcases Outcome.exists_of_forall₂ h.flip hpair with ⟨change, hchange, hchanged⟩
      have hother := List.find?_eq_none.mp hfound change hchange
      rw [(changedRecord_eq_ok hchanged).2.1, hid, hpairId] at hother
      exact hother (beq_self_eq_true _)
  | some change =>
      rcases Outcome.exists_of_forall₂ h (List.mem_of_find?_eq_some hfound) with
        ⟨pair, hpair, hchanged⟩
      rcases changedRecord_eq_ok hchanged with ⟨_, hchangeId, values, hvalues, hattributes⟩
      have hsame : change.id = r.id := by
        simpa using List.find?_some hfound
      rw [hchangeId, hid] at hsame
      refine Or.inr ⟨pair, values, hpair, Option.some.inj hsame, ?_, ?_⟩
      · rw [<- hvalues]
        exact congrArg (task.changes.mapM ·) (funext fun c => (changedValue_eq _ _ _ c).symm)
      · rw [Store.written, hfound]
        exact Store.rewritten_overwrite hattributes r

/-!
# Changes of picked records
-/

section

variable {w w₁ w₂ : σ} {target t : TableDef} {selected : List (Guid × Record)}
  {records : List Record} {picks : Record -> Bool}

/-- A deletion that selects certain records leaves the others, in their order. -/
theorem runDelete_picked (happlies : Applies host store) {task : Plan.DeleteTask}
    (hbulk : (host.options.useBulkDelete && task.canBulkDelete) = false)
    (hallowed : (deleting host task).refusal = none)
    (hdefinition : definition host task.table w = .ok target w₁)
    (hselected : selectRecords host task.source task.idColumn w₁ = .ok selected w₂)
    (hstore : store w₂ = store w) (htable : (store w).tables.get? task.table = some records)
    (hids : Store.Identified t records)
    (hpicked : Store.Picked records picks (selected.map (·.1))) :
    exists a w', runDelete host task w = .ok a w' ∧ a.count = (records.filter picks).length ∧
      store w' = (store w).setTable task.table (records.filter fun r => !picks r) := by
  rw [<- hstore] at htable
  rcases runDelete_effect happlies hbulk hallowed hdefinition hselected htable hpicked.distinct
    (fun pair hpair => hpicked.stored (List.mem_map_of_mem hpair)) with ⟨a, w', hrun, hcount, hw'⟩
  refine ⟨a, w', hrun, ?_, ?_⟩
  · rw [hcount, <- hpicked.length_eq hids, List.length_map]
  · rw [hw', hstore, hpicked.without_eq hids]

/-- What an update makes of a record. -/
def Updates (clock : Clock) (target : TableDef) (changes : List Plan.Change)
    (picks : Record -> Bool) (selected : List (Guid × Record)) (r r' : Record) : Prop :=
  if picks r then exists pair values, pair ∈ selected ∧ r.id = some pair.1 ∧
    changes.mapM (newValue clock target pair.2.get) = .ok values ∧ Store.Rewritten values r r'
  else r' = r

/-- An update that selects certain records writes over them, in their places. -/
theorem runUpdate_picked (happlies : Applies host store) {task : Plan.UpdateTask}
    (hallowed : (updating host task).refusal = none)
    (hdefinition : definition host task.table w = .ok target w₁)
    (hselected : selectRecords host task.source task.idColumn w₁ = .ok selected w₂)
    {items : List Record} (hitems : (updating host task).prepare target selected = .ok items)
    (hstore : store w₂ = store w) (htable : (store w).tables.get? task.table = some records)
    (hids : Store.Identified t records)
    (hpicked : Store.Picked records picks (selected.map (·.1))) :
    exists a w' records', runUpdate host task w = .ok a w' ∧
      a.count = (records.filter picks).length ∧
      store w' = (store w).setTable task.table records' ∧
      List.Forall₂ (Updates host.clock target task.changes picks selected) records records' := by
  have hchanges : selected.mapM (changedRecord host target task) = .ok items := by
    cases hresult : selected.mapM (changedRecord host target task) with
    | ok found =>
        simp only [updating, hresult] at hitems
        cases hitems
        rfl
    | error e =>
        simp only [updating, hresult] at hitems
        cases hitems
  rw [<- hstore] at htable
  rcases runUpdate_effect happlies hallowed hdefinition hselected hchanges htable hids.unique
    hpicked.distinct (fun pair hpair => hpicked.stored (List.mem_map_of_mem hpair)) with
    ⟨a, w', hrun, hcount, hw'⟩
  refine ⟨a, w', _, hrun, ?_, by rw [hw', hstore], ?_⟩
  · rw [hcount, <- hpicked.length_eq hids, List.length_map]
  · rw [List.forall₂_map_right_iff, List.forall₂_same]
    intro r hr
    rcases hids.ids r hr with ⟨id, hid, _⟩
    have hiff := hpicked.mem_iff hids.unique hr hid
    rw [Updates]
    rcases written_cases (Outcome.mapM_eq_ok.mp hchanges) hid with
      ⟨hnot, hsame⟩ | ⟨pair, values, hpair, rfl, hvalues, hrewritten⟩
    · rw [if_neg (mt hiff.mpr hnot)]
      exact hsame
    · rw [if_pos (hiff.mp (List.mem_map_of_mem hpair))]
      exact ⟨pair, values, hpair, hid, hvalues, hrewritten⟩

end

/-!
# Sessions
-/

section

variable {ε β : Type} {action : EStateM ε Store β} {w w' : Session Store} {b : β}

theorem run_part_eq_ok :
    Session.part.run action w = .ok b w' <->
      exists s, action w.host = .ok b s ∧ w' = { w with host := s } := by
  have hpart : Session.part.get w = w.host := rfl
  rw [Part.run, hpart]
  cases action w.host with
  | ok a s =>
      constructor
      · intro h
        cases h
        exact ⟨s, rfl, rfl⟩
      · rintro ⟨_, hs, rfl⟩
        cases hs
        rfl
  | error e s =>
      constructor
      · intro h
        cases h
      · rintro ⟨_, hs, _⟩
        cases hs

theorem exists_run_part {s : Store} (h : action w.host = .ok b s) :
    exists w', Session.part.run action w = .ok b w' ∧ w'.host = s :=
  ⟨_, run_part_eq_ok.mpr ⟨s, h, rfl⟩, rfl⟩

theorem store_of_tableDef {name : String} {s s' : Store} {t : TableDef}
    (h : Store.tableDef name s = .ok t s') : s' = s := by
  rcases RecordSql.Outcome.run_bind_eq_ok.mp h with ⟨s₁, s₂, hget, h⟩
  cases hget
  split at h <;> cases h
  rfl

/-- Looking a definition up leaves the store of a session alone. -/
theorem host_of_lookup {clock : Clock} {name : String} {t : TableDef}
    (h : Session.lookup (Store.client clock) name w = .ok t w') : w'.host = w.host := by
  rw [Session.lookup] at h
  cases hvirtual : VirtualTable.ofName? name with
  | some table =>
      rw [hvirtual] at h
      cases h
      rfl
  | none =>
      rw [hvirtual] at h
      rcases RecordSql.Outcome.run_bind_eq_ok.mp h with ⟨w₁, w₂, hget, h⟩
      cases hget
      cases hcached : w.catalog.cached? name with
      | some table =>
          rw [hcached] at h
          cases h
          rfl
      | none =>
          rw [hcached] at h
          rcases RecordSql.Outcome.run_bind_eq_ok.mp h with ⟨found, w₃, hfound, h⟩
          rcases run_part_eq_ok.mp (adaptExcept_eq_ok.mp hfound) with ⟨s, hs, rfl⟩
          cases h
          exact store_of_tableDef hs

end

/-- A session on a store makes the changes that are asked of it in the store. -/
theorem applies_hostOf (clock : Clock) (options : Plan.Options) :
    Applies (Session.hostOf ⟨Store.client clock, options, clock⟩ .standard) Session.host where
  toServes := TextQuery.serves_hostOf clock options
  looksUp _ _ _ _ h := host_of_lookup h
  updates _ _ _ h := exists_run_part h
  deletes _ _ _ _ h := exists_run_part h
  confirmsUpdate _ _ w := ⟨w, rfl, rfl⟩
  confirmsDelete _ _ w := ⟨w, rfl, rfl⟩

end Run

end RecordSql
