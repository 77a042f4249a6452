import RecordSql.Proofs.Changes.Effects

/-!
# Records keep their identity

A store is consistent when every record has an identifier of its own and holds it in the attribute
that identifies it.  Whether a call keeps a store consistent depends on the identifiers that it
brings: a new record needs one that its table does not have, and an update must not give a record
the identifier of another.  A call that fails changes nothing.
-/

namespace RecordSql
namespace Store

/-- Every table is of a definition and holds identified records. -/
def Consistent (s : Store) : Prop :=
  forall table records, s.tables.get? table = some records ->
    exists d, s.definitions.get? table = some d ∧ Identified d records

/-- Nothing is stored so far, in tables that have definitions. -/
def EmptyTables (s : Store) : Prop :=
  forall table records, s.tables.get? table = some records ->
    records = [] ∧ (s.definitions.get? table).isSome = true

theorem EmptyTables.consistent {s : Store} (h : s.EmptyTables) : s.Consistent := by
  intro table records htable
  rcases h table records htable with ⟨rfl, hdefined⟩
  rcases Option.isSome_iff_exists.mp hdefined with ⟨d, hd⟩
  exact ⟨d, hd, fun r hr => absurd hr List.not_mem_nil, List.nodup_nil⟩

theorem Consistent.identified {s : Store} (h : s.Consistent) {table : String} {d : TableDef}
    (hd : s.definitions.get? table = some d) : Identified d (s.records table) := by
  rw [records]
  cases htable : s.tables.get? table with
  | none =>
      exact ⟨fun r hr => absurd hr List.not_mem_nil, List.nodup_nil⟩
  | some found =>
      rcases h table found htable with ⟨d', hd', hids⟩
      rw [hd] at hd'
      cases hd'
      exact hids

/-!
# Calls
-/

/-- What a client asks a store to change. -/
inductive Call where
  | create (r : Record)
  | update (r : Record)
  | delete (table : String) (id : Guid)
  | bulkDelete (clock : Clock) (q : Fetch.Query)

namespace Call

def run : Call -> EStateM PlatformError Store Unit
  | create r => do
      let _ <- Store.create r
  | update r => Store.update r
  | delete table id => Store.delete table id
  | bulkDelete clock q => do
      let _ <- Store.bulkDelete clock q

/-- The store after a call, whether it succeeds or fails. -/
def after (c : Call) (s : Store) : Store :=
  match c.run s with
  | .ok _ s' => s'
  | .error _ s' => s'

def succeeds (c : Call) (s : Store) : Bool :=
  match c.run s with
  | .ok _ _ => true
  | .error _ _ => false

end Call

/-- The identifier that a new record is stored under. -/
def newId (s : Store) (d : TableDef) (r : Record) : Guid :=
  (r.id.or (r.get d.primaryId).asGuid).getD s.fresh.1

/-- The call brings no identifier to a record that is not its own. -/
def Call.KeepsIdentity (s : Store) : Call -> Prop
  | .create r => forall d, s.definitions.get? r.table = some d ->
      some (s.newId d r) ∉ (s.records r.table).map (·.id)
  | .update r => forall d id, s.definitions.get? r.table = some d -> r.id = some id ->
      forall v, r.attributes.get? d.primaryId = some v -> v = .guid id
  | .delete _ _ => True
  | .bulkDelete _ _ => True

/-!
# One table is replaced
-/

/-- The stores differ in the records of one table, and in the identifiers they have given out. -/
structure Replaces (s : Store) (table : String) (records : List Record) (s' : Store) : Prop where
  tables : s'.tables = s.tables.insert table records
  definitions : s'.definitions = s.definitions

variable {s s' : Store}

theorem replaces_setTable (s : Store) (table : String) (records : List Record) :
    s.Replaces table records (s.setTable table records) :=
  ⟨rfl, rfl⟩

theorem Replaces.consistent_iff {table : String} {records : List Record} {d : TableDef}
    (h : s.Replaces table records s') (hs : s.Consistent)
    (hd : s.definitions.get? table = some d) : s'.Consistent <-> Identified d records := by
  constructor
  · intro hs'
    rcases hs' table records (by rw [h.tables, Dict.get?_insert_self]) with ⟨d', hd', hids⟩
    rw [h.definitions, hd] at hd'
    cases hd'
    exact hids
  · intro hids other found hfound
    rw [h.tables, Dict.get?_insert] at hfound
    rw [h.definitions]
    split at hfound
    · rename_i hother
      cases hfound
      exact ⟨d, hother ▸ hd, hids⟩
    · exact hs other found hfound

theorem Identified.sublist {d : TableDef} {records kept : List Record} (h : Identified d records)
    (hsub : kept.Sublist records) : Identified d kept :=
  ⟨fun r hr => h.ids r (hsub.subset hr), h.unique.sublist (hsub.map _)⟩

/-!
# Successful and failing calls
-/

theorem create_of_none {r : Record} (hd : s.definitions.get? r.table = none) :
    Store.create r s = .error (.unknownTable r.table) s := by
  have hget : (get : EStateM PlatformError Store Store) s = .ok s s := rfl
  rw [Store.create, Outcome.bind_apply_of_ok hget]
  simp only [hd]
  rfl

theorem create_of_some {r : Record} {d : TableDef} (hd : s.definitions.get? r.table = some d) :
    exists s', Store.create r s = .ok (s.newId d r) s' ∧
      s.Replaces r.table (s.records r.table ++ [identified r d.primaryId (s.newId d r)]) s' := by
  have hget : (get : EStateM PlatformError Store Store) s = .ok s s := rfl
  rw [Store.create, Outcome.bind_apply_of_ok hget]
  simp only [hd, newId]
  cases r.id.or (r.get d.primaryId).asGuid with
  | some id =>
      exact ⟨_, rfl, rfl, rfl⟩
  | none =>
      exact ⟨_, rfl, rfl, rfl⟩

/-- The first record with an identifier is changed, and the others stay. -/
theorem updateFirst_eq_some {id : Guid} {f : Record -> Record} {records updated : List Record}
    (h : updateFirst id f records = some updated) : exists front r back,
      records = front ++ r :: back ∧ r.id = some id ∧ updated = front ++ f r :: back := by
  induction records generalizing updated with
  | nil =>
      cases h
  | cons r rest ih =>
      rw [updateFirst] at h
      split at h
      · rename_i hid
        cases h
        exact ⟨[], r, rest, rfl, eq_of_beq hid, rfl⟩
      · rcases Option.map_eq_some_iff.mp h with ⟨found, hfound, rfl⟩
        rcases ih hfound with ⟨front, changed, back, rfl, hid, rfl⟩
        exact ⟨r :: front, changed, back, rfl, hid, rfl⟩

theorem update_cases (s : Store) (r : Record) :
    (exists e, Store.update r s = .error e s) ∨
      exists id front stored back, r.id = some id ∧ stored.id = some id ∧
        s.tables.get? r.table = some (front ++ stored :: back) ∧
        Store.update r s = .ok () (s.setTable r.table (front ++ overwrite stored r :: back)) := by
  have hget : (get : EStateM PlatformError Store Store) s = .ok s s := rfl
  rw [Store.update, Outcome.bind_apply_of_ok hget]
  cases hid : r.id with
  | none =>
      exact Or.inl ⟨_, rfl⟩
  | some id =>
      cases htable : s.tables.get? r.table with
      | none =>
          exact Or.inl ⟨_, rfl⟩
      | some records =>
          simp only [Option.bind_eq_bind, Option.bind_some]
          cases hupdated : updateFirst id (overwrite · r) records with
          | none =>
              exact Or.inl ⟨_, rfl⟩
          | some updated =>
              rcases updateFirst_eq_some hupdated with ⟨front, stored, back, rfl, hstored, rfl⟩
              exact Or.inr ⟨id, front, stored, back, rfl, hstored, rfl, rfl⟩

theorem delete_cases (s : Store) (table : String) (id : Guid) :
    (exists e, Store.delete table id s = .error e s) ∨
      exists records, s.tables.get? table = some records ∧
        Store.delete table id s = .ok () (s.setTable table (records.filter (·.id != some id))) := by
  have hget : (get : EStateM PlatformError Store Store) s = .ok s s := rfl
  rw [Store.delete, Outcome.bind_apply_of_ok hget]
  cases s.tables.get? table with
  | none =>
      exact Or.inl ⟨_, rfl⟩
  | some records =>
      simp only
      split
      · exact Or.inl ⟨_, rfl⟩
      · exact Or.inr ⟨records, rfl, rfl⟩

theorem bulkDelete_cases (s : Store) (clock : Clock) (q : Fetch.Query) :
    (exists e, Store.bulkDelete clock q s = .error e s) ∨
      exists job s', Store.bulkDelete clock q s = .ok job s' ∧
        ((s'.tables = s.tables ∧ s'.definitions = s.definitions) ∨
          exists records ids, s.tables.get? q.root.table = some records ∧
            s.Replaces q.root.table (without ids records) s') := by
  have hget : (get : EStateM PlatformError Store Store) s = .ok s s := rfl
  rw [Store.bulkDelete, Outcome.bind_apply_of_ok hget]
  cases s.selected clock q with
  | error e =>
      exact Or.inl ⟨e, rfl⟩
  | ok found =>
      have hfound : (liftExcept (.ok found : Except PlatformError (List Record)) :
          EStateM PlatformError Store (List Record)) s = .ok found s := rfl
      rw [Outcome.bind_apply_of_ok hfound]
      cases htable : s.tables.get? q.root.table with
      | none =>
          exact Or.inr ⟨_, _, rfl, Or.inl ⟨rfl, rfl⟩⟩
      | some records =>
          exact Or.inr ⟨_, _, rfl, Or.inr ⟨records, found.filterMap (·.id), rfl, rfl, rfl⟩⟩

/-!
# One call
-/

/-- A table with one more record. -/
theorem identified_append_iff {d : TableDef} {records : List Record} (h : Identified d records)
    (r : Record) (id : Guid) : Identified d (records ++ [identified r d.primaryId id]) <->
      some id ∉ records.map (·.id) := by
  rw [show some id = (identified r d.primaryId id).id from rfl]
  constructor
  · intro happended
    have hunique := happended.unique
    rw [List.map_append, List.map_singleton, List.nodup_append] at hunique
    exact fun hmem => hunique.2.2 _ hmem _ (List.mem_singleton_self _) rfl
  · intro hnew
    refine ⟨?_, ?_⟩
    · intro other hother
      rcases List.mem_append.mp hother with hother | hother
      · exact h.ids other hother
      · rw [List.mem_singleton.mp hother]
        refine ⟨id, rfl, ?_⟩
        rw [identified, Record.get_insert, if_pos rfl]
    · rw [List.map_append, List.map_singleton]
      exact List.nodup_append.mpr ⟨h.unique, List.nodup_singleton _, fun a ha b hb => by
        rw [List.mem_singleton.mp hb]
        exact fun heq => hnew (heq ▸ ha)⟩

/-- A table of which one record is written over. -/
theorem identified_overwrite_iff {d : TableDef} {front back : List Record} {stored r : Record}
    {id : Guid} (h : Identified d (front ++ stored :: back)) (hid : stored.id = some id) :
    Identified d (front ++ overwrite stored r :: back) <->
      forall v, r.attributes.get? d.primaryId = some v -> v = .guid id := by
  have hvalue : (overwrite stored r).get d.primaryId =
      (r.attributes.get? d.primaryId).getD (stored.get d.primaryId) := by
    rw [Record.get, overwrite, Dict.get?_insertAll, Record.get]
    cases r.attributes.get? d.primaryId <;> rfl
  have hheld : stored.get d.primaryId = .guid id := by
    rcases h.ids stored (List.mem_append_right _ List.mem_cons_self) with ⟨other, hother, hheld⟩
    rw [hid] at hother
    cases hother
    exact hheld
  rw [hheld] at hvalue
  constructor
  · intro hwritten v hv
    rcases hwritten.ids (overwrite stored r) (List.mem_append_right _ List.mem_cons_self) with
      ⟨other, hother, hget⟩
    rw [show (overwrite stored r).id = some id from hid] at hother
    cases hother
    rw [hvalue, hv] at hget
    exact hget
  · intro hkeeps
    refine ⟨?_, ?_⟩
    · intro other hother
      rcases List.mem_append.mp hother with hfront | hother
      · exact h.ids other (List.mem_append_left _ hfront)
      · rcases List.mem_cons.mp hother with rfl | hback
        · refine ⟨id, hid, ?_⟩
          rw [hvalue]
          cases hv : r.attributes.get? d.primaryId with
          | none =>
              rfl
          | some v =>
              exact hkeeps v hv
        · exact h.ids other (List.mem_append_right _ (List.mem_cons_of_mem _ hback))
    · have hunique := h.unique
      rw [List.map_append, List.map_cons] at hunique ⊢
      exact hunique

namespace Call

theorem outcome_of_ok {c : Call} {a : Unit} (h : c.run s = .ok a s') :
    c.succeeds s = true ∧ c.after s = s' := by
  rw [succeeds, after, h]
  exact ⟨rfl, rfl⟩

theorem outcome_of_error {c : Call} {e : PlatformError} (h : c.run s = .error e s') :
    c.succeeds s = false ∧ c.after s = s' := by
  rw [succeeds, after, h]
  exact ⟨rfl, rfl⟩

/-- A call fails and changes nothing, or it succeeds and leaves a consistent store as consistent as
it keeps identity. -/
def Settles (s : Store) (c : Call) : Prop :=
  (c.succeeds s = false ∧ c.after s = s) ∨
    (c.succeeds s = true ∧ (s.Consistent -> ((c.after s).Consistent <-> c.KeepsIdentity s)))

theorem settles_create (s : Store) (r : Record) : Settles s (.create r) := by
  cases hd : s.definitions.get? r.table with
  | none =>
      have hrun : (Call.create r).run s = .error (.unknownTable r.table) s :=
        Outcome.bind_apply_of_error (create_of_none hd)
      exact Or.inl (outcome_of_error hrun)
  | some d =>
      rcases create_of_some hd with ⟨s', hcreate, hreplaces⟩
      have hrun : (Call.create r).run s = .ok () s' := Outcome.bind_apply_of_ok hcreate
      refine Or.inr ⟨(outcome_of_ok hrun).1, fun hs => ?_⟩
      rw [(outcome_of_ok hrun).2, hreplaces.consistent_iff hs hd,
        identified_append_iff (hs.identified hd), KeepsIdentity]
      constructor
      · intro hnew d' hd'
        rw [hd] at hd'
        cases hd'
        exact hnew
      · exact fun hkeeps => hkeeps d hd

theorem settles_update (s : Store) (r : Record) : Settles s (.update r) := by
  rcases update_cases s r with ⟨e, hupdate⟩ | ⟨id, front, stored, back, hid, hstored, htable, hupdate⟩
  · exact Or.inl (@outcome_of_error s s (.update r) e hupdate)
  · have houtcome := @outcome_of_ok s _ (.update r) () hupdate
    refine Or.inr ⟨houtcome.1, fun hs => ?_⟩
    rcases hs r.table _ htable with ⟨d, hd, hids⟩
    rw [houtcome.2, (replaces_setTable s r.table _).consistent_iff hs hd,
      identified_overwrite_iff hids hstored, KeepsIdentity]
    constructor
    · intro hkeeps d' id' hd' hid'
      rw [hd] at hd'
      rw [hid] at hid'
      cases hd'
      cases hid'
      exact hkeeps
    · exact fun hkeeps => hkeeps d id hd hid

theorem settles_delete (s : Store) (table : String) (id : Guid) :
    Settles s (.delete table id) := by
  rcases delete_cases s table id with ⟨e, hdelete⟩ | ⟨records, htable, hdelete⟩
  · exact Or.inl (@outcome_of_error s s (.delete table id) e hdelete)
  · have houtcome := @outcome_of_ok s _ (.delete table id) () hdelete
    refine Or.inr ⟨houtcome.1, fun hs => ?_⟩
    rcases hs table records htable with ⟨d, hd, hids⟩
    rw [houtcome.2, (replaces_setTable s table _).consistent_iff hs hd]
    exact iff_of_true (hids.sublist List.filter_sublist) trivial

theorem settles_bulkDelete (s : Store) (clock : Clock) (q : Fetch.Query) :
    Settles s (.bulkDelete clock q) := by
  rcases bulkDelete_cases s clock q with ⟨e, hbulk⟩ | ⟨job, s', hbulk, hchanged⟩
  · have hrun : (Call.bulkDelete clock q).run s = .error e s := Outcome.bind_apply_of_error hbulk
    exact Or.inl (outcome_of_error hrun)
  · have hrun : (Call.bulkDelete clock q).run s = .ok () s' := Outcome.bind_apply_of_ok hbulk
    refine Or.inr ⟨(outcome_of_ok hrun).1, fun hs => ?_⟩
    rw [(outcome_of_ok hrun).2]
    refine iff_of_true ?_ trivial
    rcases hchanged with ⟨htables, hdefinitions⟩ | ⟨records, ids, htable, hreplaces⟩
    · intro table records htable
      rw [htables] at htable
      rw [hdefinitions]
      exact hs table records htable
    · rcases hs _ records htable with ⟨d, hd, hids⟩
      exact (hreplaces.consistent_iff hs hd).mpr (hids.sublist List.filter_sublist)

theorem settles (s : Store) (c : Call) : Settles s c := by
  cases c with
  | create r =>
      exact settles_create s r
  | update r =>
      exact settles_update s r
  | delete table id =>
      exact settles_delete s table id
  | bulkDelete clock q =>
      exact settles_bulkDelete s clock q

theorem unchanged_of_fails {c : Call} (h : c.succeeds s = false) : c.after s = s := by
  rcases settles s c with ⟨_, hafter⟩ | ⟨hsucceeds, _⟩
  · exact hafter
  · rw [h] at hsucceeds
    cases hsucceeds

theorem consistent_after_iff (hs : s.Consistent) (c : Call) :
    (c.after s).Consistent <-> (c.succeeds s = true -> c.KeepsIdentity s) := by
  rcases settles s c with ⟨hfails, hafter⟩ | ⟨hsucceeds, hiff⟩
  · rw [hafter, hfails]
    exact iff_of_true hs fun h => by cases h
  · rw [hiff hs, hsucceeds]
    exact ⟨fun hkeeps _ => hkeeps, fun hkeeps => hkeeps rfl⟩

end Call

/-!
# Runs
-/

/-- The store after a number of calls. -/
def afterAll (s : Store) (calls : List Call) : Store :=
  calls.foldl (fun s c => c.after s) s

/-- Each call that succeeds brings no identifier to a record that is not its own. -/
def KeepsIdentityAll : Store -> List Call -> Prop
  | _, [] => True
  | s, c :: calls => (c.succeeds s = true -> c.KeepsIdentity s) ∧ (c.after s).KeepsIdentityAll calls

/-- A store is consistent before a run, and stays consistent up to the first call that does not keep
identity. -/
theorem Consistent.afterAll_iff (hs : s.Consistent) (calls : List Call) :
    (forall front, front <+: calls -> (s.afterAll front).Consistent) <-> s.KeepsIdentityAll calls := by
  induction calls generalizing s with
  | nil =>
      refine iff_of_true ?_ trivial
      intro front hfront
      rw [List.prefix_nil.mp hfront]
      exact hs
  | cons c calls ih =>
      rw [KeepsIdentityAll, <- Call.consistent_after_iff hs c]
      constructor
      · intro hall
        have hafter : (c.after s).Consistent := hall [c] (List.prefix_append [c] calls)
        refine ⟨hafter, (ih hafter).mp fun front hfront => ?_⟩
        exact hall (c :: front) (List.cons_prefix_cons.mpr ⟨rfl, hfront⟩)
      · rintro ⟨hafter, hkeeps⟩ front hfront
        cases front with
        | nil =>
            exact hs
        | cons c' front =>
            rcases List.cons_prefix_cons.mp hfront with ⟨rfl, hrest⟩
            exact (ih hafter).mpr hkeeps front hrest

/-- Of calls on empty tables, every store on the way is consistent exactly when each of the calls that
succeed keeps identity, and a call that fails changes nothing. -/
theorem identity_kept_iff (hempty : s.EmptyTables) (calls : List Call) :
    ((forall front, front <+: calls -> (s.afterAll front).Consistent) <->
      s.KeepsIdentityAll calls) ∧
    forall front c, front ++ [c] <+: calls -> c.succeeds (s.afterAll front) = false ->
      s.afterAll (front ++ [c]) = s.afterAll front := by
  refine ⟨hempty.consistent.afterAll_iff calls, ?_⟩
  intro front c _ hfails
  rw [afterAll, List.foldl_concat]
  exact Call.unchanged_of_fails hfails

/-!
# Drawers

A drawer is labelled, another one is not found, and the first gets the identifier of another one.
-/

def drawers : Store :=
  { Store.empty with
    definitions := .ofList [("drawer", .ofKey "drawer" "drawerid")]
    tables := .ofList [("drawer", [])] }

def labelCalls : List Call :=
  [.create ⟨"drawer", some (.ofNat 1), .empty⟩,
    .update ⟨"drawer", some (.ofNat 1), .ofList [("label", .str "socks")]⟩,
    .delete "drawer" (.ofNat 2)]

def swapCall : Call :=
  .update ⟨"drawer", some (.ofNat 1), .ofList [("drawerid", .guid (.ofNat 2))]⟩

theorem drawer_identity : drawers.EmptyTables ∧
    (forall front, front <+: labelCalls -> (drawers.afterAll front).Consistent) ∧
    drawers.afterAll labelCalls = drawers.afterAll (labelCalls.take 2) ∧
    ¬ forall front, front <+: labelCalls ++ [swapCall] -> (drawers.afterAll front).Consistent := by
  have hempty : drawers.EmptyTables := by
    intro table records htable
    have hinserted : ((Dict.empty : Dict (List Record)).insert "drawer" []).get? table = some records :=
      htable
    rw [Dict.get?_insert] at hinserted
    split at hinserted
    · rename_i hdrawer
      cases hinserted
      exact ⟨rfl, hdrawer ▸ rfl⟩
    · cases hinserted
  have hkeeps : drawers.KeepsIdentityAll labelCalls := by
    refine ⟨fun _ => ?_, fun _ => ?_, fun _ => trivial, trivial⟩
    · intro d _
      exact List.not_mem_nil
    · intro d id hd hid v hv
      cases hd
      cases hid
      cases hv
  have hswap : ¬ drawers.KeepsIdentityAll (labelCalls ++ [swapCall]) := by
    rintro ⟨-, -, -, hcall, -⟩
    have hvalue := hcall (by decide +kernel) (.ofKey "drawer" "drawerid") (.ofNat 1) rfl rfl
      (.guid (.ofNat 2)) rfl
    exact absurd hvalue (by decide)
  refine ⟨hempty, (identity_kept_iff hempty labelCalls).1.mpr hkeeps, ?_, ?_⟩
  · exact (identity_kept_iff hempty labelCalls).2 (labelCalls.take 2) (.delete "drawer" (.ofNat 2))
      (List.prefix_refl _) (by decide +kernel)
  · exact fun hall => hswap ((identity_kept_iff hempty _).1.mp hall)

end Store
end RecordSql
