import RecordSql.Platform.Recorder
import RecordSql.Proofs.Changes.Stages

/-!
# What a change is seen to do

A host can be watched: what it is asked before a change and the calls that change records are
written down, and nothing else is different.  Whatever the client and the options do, the calls of
a change come after the guard and the question, concern the selected records one after the other,
and are counted exactly by what the change reports.
-/

namespace RecordSql

/-- What is seen of a change. -/
inductive Event where
  | asked (count : Nat) (table : TableDef) (answer : Bool)
  | called (call : Call) (failure : Option PlatformError)

structure Traced (σ : Type) where
  host : σ
  /-- What was seen so far, in order. -/
  events : List Event

namespace Traced

variable {σ ε α β : Type}

def part : Part (Traced σ) σ :=
  ⟨fun t => t.host, fun host t => { t with host }⟩

/-- A call that is written down with its failure, if it fails. -/
def calling (call : Call) (action : EStateM PlatformError σ Unit) :
    EStateM PlatformError (Traced σ) Unit := fun t =>
  match action t.host with
  | .ok _ w => .ok () ⟨w, t.events ++ [.called call none]⟩
  | .error e w => .error e ⟨w, t.events ++ [.called call (some e)]⟩

/-- A question that is written down with its answer. -/
def asking (n : Nat) (table : TableDef) (question : σ -> Bool × σ) (t : Traced σ) :
    Bool × Traced σ :=
  let (answer, w) := question t.host
  (answer, ⟨w, t.events ++ [.asked n table answer]⟩)

end Traced

/-- The host that does the same and is watched. -/
def Host.traced {σ : Type} (host : Host σ) : Host (Traced σ) where
  client :=
    { host.client.within Traced.part with
      update := fun r => Traced.calling (.update r) (host.client.update r)
      delete := fun table id => Traced.calling (.delete table id) (host.client.delete table id) }
  lookup name := Traced.part.run (host.lookup name)
  options :=
    { host.options.within Traced.part with
      confirmUpdate := fun n table => Traced.asking n table (host.options.confirmUpdate n table)
      confirmDelete := fun n table => Traced.asking n table (host.options.confirmDelete n table) }
  clock := host.clock

namespace Traced

variable {σ ε ε' α β : Type}

/-!
# What nobody sees
-/

theorem run_bind (x : EStateM ε σ α) (f : α -> EStateM ε σ β) :
    part.run (x >>= f) = part.run x >>= fun a => part.run (f a) := by
  funext t
  change part.run (EStateM.bind x f) t = EStateM.bind (part.run x) _ t
  simp only [Part.run, EStateM.bind, part]
  cases x t.host with
  | ok a w =>
      cases f a w <;> rfl
  | error e w =>
      rfl

theorem run_adaptExcept (f : ε -> ε') (x : EStateM ε σ α) :
    part.run (x.adaptExcept f) = (part.run x).adaptExcept f := by
  funext t
  simp only [Part.run, EStateM.adaptExcept]
  cases x (part.get t) <;> rfl

theorem run_of_ok {x : EStateM ε σ α} {w w' : σ} {a : α} (h : x w = .ok a w')
    (events : List Event) : part.run x ⟨w, events⟩ = .ok a ⟨w', events⟩ := by
  simp only [Part.run, part, h]

theorem run_of_error {x : EStateM ε σ α} {w w' : σ} {e : ε} (h : x w = .error e w')
    (events : List Event) : part.run x ⟨w, events⟩ = .error e ⟨w', events⟩ := by
  simp only [Part.run, part, h]

theorem run_liftExcept (x : Except ε α) :
    part.run (liftExcept x : EStateM ε σ α) = liftExcept x := by
  cases x <;> rfl

variable (host : Host σ)

theorem wantsMore_traced (n : Nat) :
    Run.wantsMore host.traced n = part.run (Run.wantsMore host n) := by
  rw [Run.wantsMore, Run.wantsMore, run_bind]
  funext t
  change (if host.options.cancelled t.host then _ else _ : EStateM PlatformError _ Bool) t =
    part.run (if host.options.cancelled t.host then _ else _) t
  cases host.options.cancelled t.host <;> rfl

theorem pages_traced (single : Bool) (n : Nat) (q : Fetch.Query) (sofar : List Record) :
    Run.pages host.traced single n q sofar = part.run (Run.pages host single n q sofar) := by
  induction n generalizing q sofar with
  | zero =>
      rfl
  | succ n ih =>
      rw [Run.pages, Run.pages, run_bind]
      refine congrArg (host.traced.client.retrieve q >>= ·) (funext fun page => ?_)
      simp only [run_bind]
      refine congrArg (bind _) (funext fun _ => ?_)
      split
      · rfl
      · rw [run_bind, wantsMore_traced]
        refine congrArg (bind _) (funext fun wants => ?_)
        cases wants with
        | true =>
            exact ih _ _
        | false =>
            rfl

theorem runPlan_traced (plan : Plan) :
    Run.runPlan host.traced plan = part.run (Run.runPlan host plan) := by
  rw [Run.runPlan, Run.runPlan, run_bind, run_adaptExcept, Run.retrieveAll, pages_traced]
  congr
  funext records
  have hclock : host.traced.clock = host.clock := rfl
  rw [Run.runSteps, Run.runSteps, hclock]
  cases Step.run host.clock plan.steps records <;> rfl

theorem selectRecords_traced (source : Plan) (idColumn : String) :
    Run.selectRecords host.traced source idColumn =
      part.run (Run.selectRecords host source idColumn) := by
  rw [Run.selectRecords, Run.selectRecords, run_bind, runPlan_traced]
  congr
  funext rows
  rw [run_liftExcept]

theorem definition_traced (table : String) :
    Run.definition host.traced table = part.run (Run.definition host table) :=
  (run_adaptExcept _ _).symm

end Traced

namespace Run

variable {σ ε α β : Type}

/-!
# One record after the other
-/

/-- A result in the state that it was reached in. -/
def settled (result : Except ε β) (w : σ) : EStateM.Result ε σ β :=
  match result with
  | .ok b => .ok b w
  | .error e => .error e w

/--
How the items of a change fare, in batches of the given size: all of them are changed, or one
cannot be changed, or the change is cancelled between two batches.  An item that was tried stands
with its failure, if it failed.
-/
inductive Applied (size : Nat) (items : List α) :
    Except RunError Nat -> List (α × Option PlatformError) -> Prop where
  | done : Applied size items (.ok items.length) (items.map (·, none))
  | failed {front rest : List α} {item : α} (cause : PlatformError)
      (h : items = front ++ item :: rest) :
      Applied size items
        (.error (if front.length = 0 then .platform cause else .stopped front.length cause))
        (front.map (·, none) ++ [(item, some cause)])
  | cancelled {front rest : List α} (h : items = front ++ rest) (hbatches : size ∣ front.length) :
      Applied size items (.error (.cancelled front.length)) (front.map (·, none))

/-- Calls for items, as they are seen. -/
def seen (call : α -> Call) (tried : List (α × Option PlatformError)) : List Event :=
  tried.map fun (item, failure) => .called (call item) failure

theorem seen_append (call : α -> Call) (tried tried' : List (α × Option PlatformError)) :
    seen call (tried ++ tried') = seen call tried ++ seen call tried' :=
  List.map_append

variable {call : α -> Call} {change : α -> EStateM PlatformError σ Unit}
  {change' : α -> EStateM PlatformError (Traced σ) Unit}

/-- The items of one batch, after those that were changed before. -/
theorem applyItems_traced
    (hchange : forall item, change' item = Traced.calling (call item) (change item))
    (size : Nat) (before items rest : List α) (w : σ) (events : List Event) :
    exists result w' tried, applyItems change before.length items w = settled result w' ∧
      applyItems change' before.length items ⟨w, events ++ seen call (before.map (·, none))⟩ =
        settled result ⟨w', events ++ seen call tried⟩ ∧
      (result = .ok (before ++ items).length ∧ tried = (before ++ items).map (·, none) ∨
        (exists e, result = .error e) ∧ Applied size (before ++ (items ++ rest)) result tried) := by
  induction items generalizing before w with
  | nil =>
      refine ⟨.ok before.length, w, before.map (·, none), rfl, rfl, Or.inl ?_⟩
      rw [List.append_nil]
      exact ⟨rfl, rfl⟩
  | cons item more ih =>
      rw [applyItems, applyItems, hchange]
      cases hitem : change item w with
      | ok u w₁ =>
          have hcalled : Traced.calling (call item) (change item)
              ⟨w, events ++ seen call (before.map (·, none))⟩ =
              .ok () ⟨w₁, events ++ seen call ((before ++ [item]).map (·, none))⟩ := by
            simp only [Traced.calling, hitem, List.map_append, seen_append, List.append_assoc]
            rfl
          rcases ih (before ++ [item]) w₁ with ⟨result, w', tried, hrun, hrun', hfared⟩
          rw [List.append_assoc, List.append_assoc, List.length_append] at *
          refine ⟨result, w', tried, ?_, ?_, hfared⟩
          · rw [Outcome.bind_apply_of_ok (adaptExcept_eq_ok.mpr hitem)]
            exact hrun
          · rw [Outcome.bind_apply_of_ok (adaptExcept_eq_ok.mpr hcalled)]
            exact hrun'
      | error cause w₁ =>
          refine ⟨_, w₁, before.map (·, none) ++ [(item, some cause)], ?_, ?_,
            Or.inr ⟨⟨_, rfl⟩, .failed cause rfl⟩⟩
          · refine Outcome.bind_apply_of_error ?_
            rw [EStateM.adaptExcept, hitem]
          · refine Outcome.bind_apply_of_error ?_
            rw [EStateM.adaptExcept, Traced.calling]
            simp only [hitem, seen_append, List.append_assoc]
            rfl

theorem applyBatches_traced
    (hchange : forall item, change' item = Traced.calling (call item) (change item))
    (host : Host σ) (describe : Nat -> String) {size : Nat} (hsize : 0 < size)
    (before items : List α) (hbefore : items ≠ [] -> size ∣ before.length) (w : σ)
    (events : List Event) :
    exists result w' tried,
      applyBatches host describe change before.length (chunks size items) w = settled result w' ∧
      applyBatches host.traced describe change' before.length (chunks size items)
          ⟨w, events ++ seen call (before.map (·, none))⟩ =
        settled result ⟨w', events ++ seen call tried⟩ ∧
      Applied size (before ++ items) result tried := by
  -- The number of items left decreases with every batch, which is not empty.
  induction hlength : items.length using Nat.strongRecOn generalizing before items w with
  | _ n ih =>
      by_cases hitems : items = []
      · rw [hitems, chunks_nil hsize, List.append_nil]
        exact ⟨.ok before.length, w, before.map (·, none), rfl, rfl, .done⟩
      · rw [chunks_of_ne_nil hsize hitems, applyBatches_cons, applyBatches_cons]
        change exists result w' tried, (if host.options.cancelled w then _ else _) = _ ∧
          (if host.options.cancelled w then _ else _) = _ ∧ _
        by_cases hcancelled : host.options.cancelled w = true
        · rw [if_pos hcancelled, if_pos hcancelled]
          exact ⟨.error (.cancelled before.length), w, before.map (·, none), rfl, rfl,
            .cancelled rfl (hbefore hitems)⟩
        · rw [if_neg hcancelled, if_neg hcancelled]
          rcases applyItems_traced hchange size before (items.take size) (items.drop size) w events
            with ⟨result, w₁, tried, hrun, hrun', hfared⟩
          rw [List.take_append_drop] at hfared
          rcases hfared with ⟨rfl, rfl⟩ | ⟨⟨e, rfl⟩, hfared⟩
          · rw [Outcome.bind_apply_of_ok hrun, Outcome.bind_apply_of_ok hrun']
            have hfewer : (items.drop size).length < n := by
              have hpositive := List.length_pos_of_ne_nil hitems
              rw [List.length_drop]
              omega
            have hmultiple : items.drop size ≠ [] ->
                size ∣ (before ++ items.take size).length := by
              intro hmore
              have hlt := List.length_pos_of_ne_nil hmore
              rw [List.length_drop] at hlt
              rw [List.length_append, List.length_take, Nat.min_eq_left (by omega)]
              exact Nat.dvd_add (hbefore hitems) (Nat.dvd_refl size)
            rcases ih _ hfewer (before ++ items.take size) (items.drop size) hmultiple
              (host.options.progress (describe (before ++ items.take size).length) w₁) rfl with
              ⟨result, w', tried, hrest, hrest', hfared⟩
            rw [List.append_assoc, List.take_append_drop] at hfared
            exact ⟨result, w', tried, hrest, hrest', hfared⟩
          · rw [Outcome.bind_apply_of_error hrun, Outcome.bind_apply_of_error hrun']
            exact ⟨.error e, w₁, tried, rfl, rfl, hfared⟩

/-!
# The course of a change
-/

/-- The failure does not report changes that were made before it. -/
def isEarly : RunError -> Bool
  | .stopped _ _ | .cancelled _ => false
  | _ => true

theorem isEarly_runPlan {host : Host σ} {plan : Plan} {w w' : σ} {e : RunError}
    (h : runPlan host plan w = .error e w') : isEarly e = true := by
  rw [runPlan] at h
  cases hretrieve : retrieveAll host plan.fetch w with
  | error cause w₁ =>
      have hadapted : (retrieveAll host plan.fetch).adaptExcept RunError.platform w =
          .error (.platform cause) w₁ := by
        rw [EStateM.adaptExcept, hretrieve]
      rw [Outcome.bind_apply_of_error hadapted] at h
      cases h
      rfl
  | ok records w₁ =>
      rw [Outcome.bind_apply_of_ok (adaptExcept_eq_ok.mpr hretrieve), runSteps] at h
      cases hsteps : Step.run host.clock plan.steps records with
      | error cause =>
          rw [hsteps] at h
          cases h
          rfl
      | ok rows =>
          rw [hsteps] at h
          cases h

theorem isEarly_identifiedRows {idColumn : String} {rows : List Record} {e : RunError}
    (h : identifiedRows idColumn rows = .error e) : isEarly e = true := by
  induction rows with
  | nil =>
      cases h
  | cons row rest ih =>
      rw [identifiedRows] at h
      split at h
      · exact ih h
      · split at h
        · cases h
          rfl
        · cases hrest : identifiedRows idColumn rest with
          | error e' =>
              rw [hrest] at h
              cases h
              exact ih hrest
          | ok pairs =>
              rw [hrest] at h
              cases h

theorem isEarly_selectRecords {host : Host σ} {source : Plan} {idColumn : String} {w w' : σ}
    {e : RunError} (h : selectRecords host source idColumn w = .error e w') :
    isEarly e = true := by
  rw [selectRecords] at h
  cases hplan : runPlan host source w with
  | error e' w₁ =>
      rw [Outcome.bind_apply_of_error hplan] at h
      cases h
      exact isEarly_runPlan hplan
  | ok rows w₁ =>
      rw [Outcome.bind_apply_of_ok hplan, recordIds] at h
      cases hrows : identifiedRows idColumn rows with
      | error e' =>
          rw [hrows] at h
          cases h
          exact isEarly_identifiedRows hrows
      | ok pairs =>
          rw [hrows] at h
          cases h

/-- The rows that a change selects its records from, and the definition of their table. -/
def Selects (host : Host σ) (table : String) (source : Plan) (w : σ) (target : TableDef)
    (rows : List Record) : Prop :=
  exists w₁ w₂, definition host table w = .ok target w₁ ∧ runPlan host source w₁ = .ok rows w₂

/-- How a change may go: what it ends with, and what is seen of it. -/
inductive Course (host : Host σ) (m : Mutation σ α) (call : α -> Call) (report : Nat -> Affected)
    (w : σ) : Except RunError Affected -> List Event -> Prop where
  | unasked {e : RunError} (hearly : isEarly e = true) : Course host m call report w (.error e) []
  | idle {target : TableDef} {rows : List Record}
      (hselects : Selects host m.table m.source w target rows)
      (hids : recordIds m.idColumn rows = .ok []) : Course host m call report w (.ok m.idle) []
  | declined {target : TableDef} {rows : List Record} {selected : List (Guid × Record)}
      (hselects : Selects host m.table m.source w target rows)
      (hids : recordIds m.idColumn rows = .ok selected) :
      Course host m call report w (.ok m.declined) [.asked selected.length target false]
  | unprepared {e : RunError} (n : Nat) (target : TableDef) (hearly : isEarly e = true) :
      Course host m call report w (.error e) [.asked n target true]
  | applied {target : TableDef} {rows : List Record} {selected : List (Guid × Record)}
      {items : List α} {result : Except RunError Nat} {tried : List (α × Option PlatformError)}
      (hallowed : m.refusal = none) (hselects : Selects host m.table m.source w target rows)
      (hids : recordIds m.idColumn rows = .ok selected)
      (hitems : m.prepare target selected = .ok items)
      (happlied : Applied (max host.options.batchSize 1) items result tried) :
      Course host m call report w (result.map report)
        (.asked selected.length target true :: seen call tried)

/-- A change and the same change by a host that is watched. -/
structure Watched (host : Host σ) (m : Mutation σ α) (m' : Mutation (Traced σ) α)
    (call : α -> Call) (report : Nat -> Affected) : Prop where
  refusal : m'.refusal = m.refusal
  table : m'.table = m.table
  source : m'.source = m.source
  idColumn : m'.idColumn = m.idColumn
  idle : m'.idle = m.idle
  declined : m'.declined = m.declined
  confirm : forall n target, m'.confirm n target = Traced.asking n target (m.confirm n target)
  prepare : m'.prepare = m.prepare
  apply : forall items w events, exists result w' tried,
    m.apply items w = settled (result.map report) w' ∧
    m'.apply items ⟨w, events⟩ = settled (result.map report) ⟨w', events ++ seen call tried⟩ ∧
    Applied (max host.options.batchSize 1) items result tried
  refused : forall e, m.refusal = some e -> isEarly e = true
  unprepared : forall target selected e, m.prepare target selected = .error e -> isEarly e = true

/-- What is done once the records are selected. -/
theorem run_watched_selected {host : Host σ} {m : Mutation σ α} {m' : Mutation (Traced σ) α}
    {call : α -> Call} {report : Nat -> Affected} (h : Watched host m m' call report)
    (hallowed : m.refusal = none) {w : σ} {target : TableDef} {rows : List Record}
    {selected : List (Guid × Record)} (hselects : Selects host m.table m.source w target rows)
    (hids : recordIds m.idColumn rows = .ok selected) (w₁ : σ) :
    exists result w' events,
      (if selected.isEmpty then pure m.idle
        else modifyGet (m.confirm selected.length target) >>= fun confirmed =>
          if !confirmed then pure m.declined
          else liftExcept (m.prepare target selected) >>= m.apply :
        EStateM RunError σ Affected) w₁ = settled result w' ∧
      (if selected.isEmpty then pure m.idle
        else modifyGet (m'.confirm selected.length target) >>= fun confirmed =>
          if !confirmed then pure m.declined
          else liftExcept (m.prepare target selected) >>= m'.apply :
        EStateM RunError (Traced σ) Affected) ⟨w₁, []⟩ = settled result ⟨w', events⟩ ∧
      Course host m call report w result events := by
  cases selected with
  | nil =>
      exact ⟨.ok m.idle, w₁, [], rfl, rfl, .idle hselects hids⟩
  | cons first more =>
      rw [List.isEmpty_cons, if_neg Bool.false_ne_true, if_neg Bool.false_ne_true, h.confirm]
      generalize hall : first :: more = selected at *
      cases hconfirm : m.confirm selected.length target w₁ with
      | mk answer w₂ =>
          have hasked : Traced.asking selected.length target (m.confirm selected.length target)
              ⟨w₁, []⟩ = (answer, ⟨w₂, [.asked selected.length target answer]⟩) := by
            simp only [Traced.asking, hconfirm, List.nil_append]
          rw [Outcome.bind_apply_of_ok (modifyGet_of_eq hconfirm),
            Outcome.bind_apply_of_ok (modifyGet_of_eq hasked)]
          cases answer with
          | false =>
              exact ⟨.ok m.declined, w₂, _, rfl, rfl, .declined hselects hids⟩
          | true =>
              cases hprepare : m.prepare target selected with
              | error e =>
                  exact ⟨.error e, w₂, _, rfl, rfl, .unprepared selected.length target
                    (h.unprepared target selected e hprepare)⟩
              | ok items =>
                  rcases h.apply items w₂ [.asked selected.length target true] with
                    ⟨result, w', tried, happly, happly', happlied⟩
                  exact ⟨_, w', _, happly, happly',
                    .applied hallowed hselects hids hprepare happlied⟩

theorem run_watched {host : Host σ} {m : Mutation σ α} {m' : Mutation (Traced σ) α}
    {call : α -> Call} {report : Nat -> Affected} (h : Watched host m m' call report) (w : σ) :
    exists result w' events, m.run host w = settled result w' ∧
      m'.run host.traced ⟨w, []⟩ = settled result ⟨w', events⟩ ∧
      Course host m call report w result events := by
  rw [Mutation.run, Mutation.run, h.refusal, h.table, h.source, h.idColumn, h.idle, h.declined,
    h.prepare, Traced.definition_traced, Traced.selectRecords_traced]
  cases hrefusal : m.refusal with
  | some e =>
      exact ⟨.error e, w, [], rfl, rfl, .unasked (h.refused e hrefusal)⟩
  | none =>
      simp only
      cases hdefinition : definition host m.table w with
      | error e w₁ =>
          have hunresolved : isEarly e = true := by
            rw [definition, EStateM.adaptExcept] at hdefinition
            split at hdefinition <;> cases hdefinition
            rfl
          rw [Outcome.bind_apply_of_error hdefinition,
            Outcome.bind_apply_of_error (Traced.run_of_error hdefinition [])]
          exact ⟨.error e, w₁, [], rfl, rfl, .unasked hunresolved⟩
      | ok target w₁ =>
          rw [Outcome.bind_apply_of_ok hdefinition,
            Outcome.bind_apply_of_ok (Traced.run_of_ok hdefinition [])]
          cases hselected : selectRecords host m.source m.idColumn w₁ with
          | error e w₂ =>
              rw [Outcome.bind_apply_of_error hselected,
                Outcome.bind_apply_of_error (Traced.run_of_error hselected [])]
              exact ⟨.error e, w₂, [], rfl, rfl, .unasked (isEarly_selectRecords hselected)⟩
          | ok selected w₂ =>
              rw [Outcome.bind_apply_of_ok hselected,
                Outcome.bind_apply_of_ok (Traced.run_of_ok hselected [])]
              rcases selectRecords_eq_ok.mp hselected with ⟨rows, hrows, hids⟩
              exact run_watched_selected h hrefusal ⟨w₁, w₂, hdefinition, hrows⟩ hids w₂

/-!
# Updates and deletions
-/

theorem settled_bind_pure {x : EStateM ε σ α} {w w' : σ} {result : Except ε α} (f : α -> β)
    (h : x w = settled result w') :
    (x >>= fun a => pure (f a)) w = settled (result.map f) w' := by
  cases result with
  | ok a =>
      exact Outcome.bind_apply_of_ok h
  | error e =>
      exact Outcome.bind_apply_of_error h

theorem applyAll_traced {host : Host σ}
    (hchange : forall item, change' item = Traced.calling (call item) (change item))
    (describe : Nat -> String) (report : Nat -> Affected) (items : List α) (w : σ)
    (events : List Event) :
    exists result w' tried,
      (applyAll host describe change items >>= fun n => pure (report n)) w =
        settled (result.map report) w' ∧
      (applyAll host.traced describe change' items >>= fun n => pure (report n)) ⟨w, events⟩ =
        settled (result.map report) ⟨w', events ++ seen call tried⟩ ∧
      Applied (max host.options.batchSize 1) items result tried := by
  have hnone : events ++ seen call (([] : List α).map (·, none)) = events := List.append_nil events
  rcases applyBatches_traced hchange host describe (Nat.le_max_right host.options.batchSize 1) []
    items (fun _ => Nat.dvd_zero _) w events with ⟨result, w', tried, hrun, hrun', happlied⟩
  rw [hnone] at hrun'
  exact ⟨result, w', tried, settled_bind_pure report hrun, settled_bind_pure report hrun', happlied⟩

theorem watched_updating (host : Host σ) (task : Plan.UpdateTask) :
    Watched host (updating host task) (updating host.traced task) Call.update
      fun n => ⟨n, doneText n task.table "updated"⟩ := by
  refine ⟨rfl, rfl, rfl, rfl, rfl, rfl, fun _ _ => rfl, rfl, ?_, ?_, ?_⟩
  · intro items w events
    exact applyAll_traced (fun _ => rfl) _ _ items w events
  · intro e he
    simp only [updating] at he
    split at he <;> cases he
    rfl
  · intro target selected e he
    simp only [updating] at he
    cases hchanged : selected.mapM (changedRecord host target task) <;> rw [hchanged] at he <;>
      cases he
    rfl

theorem watched_deleting {host : Host σ} (hbulk : host.options.useBulkDelete = false)
    (task : Plan.DeleteTask) :
    Watched host (deleting host task) (deleting host.traced task)
      (fun pair => .delete task.table pair.1) fun n => ⟨n, doneText n task.table "deleted"⟩ := by
  have hbulk' : host.traced.options.useBulkDelete = false := hbulk
  refine ⟨rfl, rfl, rfl, rfl, rfl, rfl, fun _ _ => rfl, rfl, ?_, ?_, ?_⟩
  · intro items w events
    simp only [deleting, hbulk, hbulk', Bool.false_and, if_neg Bool.false_ne_true]
    exact applyAll_traced (fun _ => rfl) _ _ items w events
  · intro e he
    simp only [deleting] at he
    split at he <;> cases he
    rfl
  · intro target selected e he
    cases he

/-- A change of either kind. -/
inductive ChangeTask where
  | update (task : Plan.UpdateTask)
  | delete (task : Plan.DeleteTask)

namespace ChangeTask

def task : ChangeTask -> Plan.Task
  | update task => .update task
  | delete task => .delete task

def table : ChangeTask -> String
  | update task => task.table
  | delete task => task.table

def source : ChangeTask -> Plan
  | update task => task.source
  | delete task => task.source

def idColumn : ChangeTask -> String
  | update task => task.idColumn
  | delete task => task.idColumn

def hasWhere : ChangeTask -> Bool
  | update task => task.hasWhere
  | delete task => task.hasWhere

/-- Whether changes of this kind need a condition. -/
def needsWhere (options : RunOptions σ) : ChangeTask -> Bool
  | update _ => options.blockUpdateWithoutWhere
  | delete _ => options.blockDeleteWithoutWhere

/-- The call changes the record that an identifier names, as the task asks for. -/
def Targets : ChangeTask -> Guid -> Call -> Prop
  | update task, id, .update r => r.table = task.table ∧ r.id = some id
  | delete task, id, .delete table id' => table = task.table ∧ id' = id
  | _, _, _ => False

end ChangeTask

/-- The calls among events, each with its failure, if it failed. -/
def calls (events : List Event) : List (Call × Option PlatformError) :=
  events.filterMap fun
    | .called call failure => some (call, failure)
    | .asked _ _ _ => none

/--
What a change reports fits its calls, which come in batches of the given size: all succeeded, or
those that are reported as applied did and the next one failed, or those did and whole batches of
them, or none did.
-/
def Reports (size : Nat) (made : List (Call × Option PlatformError)) :
    Except RunError Affected -> Prop
  | .ok a => made.length = a.count ∧ forall c, c ∈ made -> c.2 = none
  | .error (.stopped n cause) =>
      1 ≤ n ∧ exists front call, made = front ++ [(call, some cause)] ∧ front.length = n ∧
        forall c, c ∈ front -> c.2 = none
  | .error (.cancelled n) => size ∣ n ∧ made.length = n ∧ forall c, c ∈ made -> c.2 = none
  | .error _ => forall c, c ∈ made -> c.2 ≠ none

theorem reports_of_isEarly {size : Nat} {e : RunError} (h : isEarly e = true) :
    Reports size [] (.error e) := by
  cases e with
  | stopped n cause =>
      cases h
  | cancelled n =>
      cases h
  | _ =>
      exact fun c hc => by cases hc

theorem calls_seen (call : α -> Call) (tried : List (α × Option PlatformError)) :
    calls (seen call tried) = tried.map fun (item, failure) => (call item, failure) := by
  rw [calls, seen, List.filterMap_map]
  exact congrFun List.filterMap_eq_map tried

/-- The calls for items report how these fare. -/
theorem Applied.reports {size : Nat} {items : List α} {result : Except RunError Nat}
    {tried : List (α × Option PlatformError)} (h : Applied size items result tried)
    (call : α -> Call) {report : Nat -> Affected} (hreport : forall n, (report n).count = n) :
    Reports size (calls (seen call tried)) (result.map report) := by
  rw [calls_seen]
  have hchanged : forall (front : List α) (c : Call × Option PlatformError),
      c ∈ (front.map (·, (none : Option PlatformError))).map
        (fun (item, failure) => (call item, failure)) -> c.2 = none := by
    intro front c hc
    rw [List.map_map] at hc
    rcases List.mem_map.mp hc with ⟨item, _, rfl⟩
    rfl
  cases h with
  | done =>
      refine ⟨?_, hchanged items⟩
      rw [List.length_map, List.length_map, hreport]
  | @failed front rest item cause h =>
      rw [List.map_append]
      by_cases hfront : front.length = 0
      · rw [if_pos hfront, List.length_eq_zero_iff.mp hfront]
        intro c hc
        cases List.mem_singleton.mp hc
        exact Option.some_ne_none cause
      · rw [if_neg hfront]
        refine ⟨by omega, _, call item, rfl, ?_, hchanged front⟩
        rw [List.length_map, List.length_map]
  | @cancelled front rest h hbatches =>
      refine ⟨hbatches, ?_, hchanged front⟩
      rw [List.length_map, List.length_map]

theorem Applied.items_prefix {size : Nat} {items : List α} {result : Except RunError Nat}
    {tried : List (α × Option PlatformError)} (h : Applied size items result tried) :
    tried.map (·.1) <+: items := by
  have hitems : forall front : List α,
      (front.map (·, (none : Option PlatformError))).map (·.1) = front := by
    intro front
    rw [List.map_map]
    exact List.map_id front
  cases h with
  | done =>
      exact ⟨[], by rw [List.append_nil, hitems]⟩
  | @failed front rest item cause h =>
      rw [List.map_append, hitems, h]
      exact ⟨rest, by simp⟩
  | @cancelled front rest h _ =>
      rw [hitems, h]
      exact List.prefix_append front rest

/-!
# What is seen of a change
-/

/--
A change that goes as it should: calls are made only if the change is allowed and after it was
confirmed, they concern distinct records in the order in which these were selected, they are
reported exactly, and none of them is left out by a change that succeeds.
-/
structure Orderly (host : Host σ) (change : ChangeTask) (w : σ)
    (result : Except RunError Affected) (events : List Event) : Prop where
  allowed : calls events ≠ [] ->
    change.hasWhere = true ∨ change.needsWhere host.options = false
  confirmed : calls events ≠ [] -> exists target rows ids,
    Selects host change.table change.source w target rows ∧
    (forall row, row ∈ rows -> (row.get change.idColumn).asGuid = none ->
      (row.get change.idColumn).isNull = true) ∧
    events = .asked (distinctIds change.idColumn rows).length target true ::
      (calls events).map (fun c => .called c.1 c.2) ∧
    ids <+: distinctIds change.idColumn rows ∧ ids.Nodup ∧
    List.Forall₂ change.Targets ids ((calls events).map (·.1))
  reported : Reports (max host.options.batchSize 1) (calls events) result
  complete : forall a, result = .ok a -> exists target rows,
    Selects host change.table change.source w target rows ∧
    (a.count = (distinctIds change.idColumn rows).length ∨ a.count = 0 ∧
      .asked (distinctIds change.idColumn rows).length target false ∈ events)

/-- What a change of one kind has to do with a task. -/
structure IsChange (host : Host σ) (m : Mutation σ α) (call : α -> Call)
    (report : Nat -> Affected) (change : ChangeTask) : Prop where
  table : m.table = change.table
  source : m.source = change.source
  idColumn : m.idColumn = change.idColumn
  allowed : m.refusal = none -> change.hasWhere = true ∨ change.needsWhere host.options = false
  idle : m.idle.count = 0
  declined : m.declined.count = 0
  counts : forall n, (report n).count = n
  targets : forall target selected items, m.prepare target selected = .ok items ->
    List.Forall₂ (fun pair item => change.Targets pair.1 (call item)) selected items

theorem Course.orderly {host : Host σ} {m : Mutation σ α} {call : α -> Call}
    {report : Nat -> Affected} {change : ChangeTask} {w : σ} {result : Except RunError Affected}
    {events : List Event} (hchange : IsChange host m call report change)
    (h : Course host m call report w result events) : Orderly host change w result events := by
  have hnothing : forall {P : Prop}, ([] : List (Call × Option PlatformError)) ≠ [] -> P :=
    fun h => absurd rfl h
  cases h with
  | unasked hearly =>
      exact ⟨hnothing, hnothing, reports_of_isEarly hearly, fun a ha => by cases ha⟩
  | @idle target rows hselects hids =>
      rw [hchange.table, hchange.source] at hselects
      rw [hchange.idColumn] at hids
      refine ⟨hnothing, hnothing, ⟨hchange.idle.symm, fun c hc => by cases hc⟩, fun a ha => ?_⟩
      cases ha
      refine ⟨target, rows, hselects, Or.inl ?_⟩
      rw [hchange.idle, <- (recordIds_eq_ok hids).1]
      rfl
  | @declined target rows selected hselects hids =>
      rw [hchange.table, hchange.source] at hselects
      rw [hchange.idColumn] at hids
      refine ⟨hnothing, hnothing, ⟨hchange.declined.symm, fun c hc => by cases hc⟩,
        fun a ha => ?_⟩
      cases ha
      refine ⟨target, rows, hselects, Or.inr ⟨hchange.declined, ?_⟩⟩
      rw [<- (recordIds_eq_ok hids).1, List.length_map]
      exact List.mem_cons_self
  | unprepared n target hearly =>
      exact ⟨hnothing, hnothing, reports_of_isEarly hearly, fun a ha => by cases ha⟩
  | @applied target rows selected items result tried hallowed hselects hids hitems happlied =>
      rw [hchange.table, hchange.source] at hselects
      rw [hchange.idColumn] at hids
      rcases recordIds_eq_ok hids with ⟨hdistinct, _, hnull⟩
      have hlength : selected.length = (distinctIds change.idColumn rows).length := by
        rw [<- hdistinct, List.length_map]
      have hcalls : calls (.asked selected.length target true :: seen call tried) =
          calls (seen call tried) := rfl
      refine ⟨fun _ => hchange.allowed hallowed, fun _ => ?_, ?_, fun a ha => ?_⟩
      · have htargets : List.Forall₂ (fun id item => change.Targets id (call item))
            (distinctIds change.idColumn rows) items := by
          rw [<- hdistinct, List.forall₂_map_left_iff]
          exact hchange.targets target selected items hitems
        refine ⟨target, rows, (distinctIds change.idColumn rows).take tried.length, hselects, hnull,
          ?_, List.take_prefix _ _, (nodup_distinctIds _ rows).sublist (List.take_sublist _ _), ?_⟩
        · rw [hcalls, calls_seen, hlength, List.map_map]
          rfl
        · have htaken : tried.map (·.1) = items.take tried.length := by
            rw [List.prefix_iff_eq_take.mp happlied.items_prefix, List.length_map]
          rw [hcalls, calls_seen, List.map_map]
          change List.Forall₂ change.Targets _ (tried.map (call ∘ (·.1)))
          rw [<- List.map_map, htaken, List.forall₂_map_right_iff]
          exact List.forall₂_take _ htargets
      · rw [hcalls]
        exact happlied.reports call hchange.counts
      · cases happlied with
        | done =>
            cases ha
            refine ⟨target, rows, hselects, Or.inl ?_⟩
            rw [hchange.counts, <- (hchange.targets target selected items hitems).length_eq,
              hlength]
        | failed _ _ =>
            cases ha
        | cancelled _ _ =>
            cases ha

theorem allowed_of_not_blocked {hasWhere blocks : Bool} (h : ¬(!hasWhere && blocks) = true) :
    hasWhere = true ∨ blocks = false := by
  cases hasWhere <;> cases blocks <;> simp_all

theorem isChange_updating (host : Host σ) (task : Plan.UpdateTask) :
    IsChange host (updating host task) Call.update
      (fun n => ⟨n, doneText n task.table "updated"⟩) (.update task) := by
  refine ⟨rfl, rfl, rfl, ?_, rfl, rfl, fun _ => rfl, ?_⟩
  · intro hallowed
    simp only [updating] at hallowed
    split at hallowed
    · cases hallowed
    · rename_i hblocked
      exact allowed_of_not_blocked hblocked
  · intro target selected items hitems
    have hchanged : selected.mapM (changedRecord host target task) = .ok items := by
      simp only [updating] at hitems
      cases hmap : selected.mapM (changedRecord host target task) <;> rw [hmap] at hitems <;>
        cases hitems
      rfl
    refine (Outcome.mapM_eq_ok.mp hchanged).imp ?_
    intro pair item hitem
    rcases Outcome.bind_eq_ok.mp hitem with ⟨values, _, hrecord⟩
    cases hrecord
    exact ⟨rfl, rfl⟩

theorem isChange_deleting (host : Host σ) (task : Plan.DeleteTask) :
    IsChange host (deleting host task) (fun pair => .delete task.table pair.1)
      (fun n => ⟨n, doneText n task.table "deleted"⟩) (.delete task) := by
  refine ⟨rfl, rfl, rfl, ?_, rfl, rfl, fun _ => rfl, ?_⟩
  · intro hallowed
    simp only [deleting] at hallowed
    split at hallowed
    · cases hallowed
    · rename_i hblocked
      exact allowed_of_not_blocked hblocked
  · intro target selected items hitems
    cases hitems
    exact List.forall₂_same.mpr fun pair _ => ⟨rfl, rfl⟩

end Run

namespace Query

/-- The query after a change that ended in one way or another, and what went wrong with it. -/
def after (q : Query) : Except RunError Run.Affected -> Query × Option RunError
  | .ok a => ({ q with state := .completed (.affected a) }, none)
  | .error e => ({ q with state := .failed e.message }, some e)

end Query

namespace Run

variable {σ : Type}

theorem execute_of_runTask {host : Host σ} {task : Plan.Task} {x : EStateM RunError σ Affected}
    (htask : runTask host task = x >>= fun done => pure (.affected done)) {w w' : σ}
    {result : Except RunError Affected} (h : x w = settled result w') (sql : String) :
    (Query.ofTask sql task).execute host w = ((Query.ofTask sql task).after result, w') := by
  have hrun : runTask host task w = settled (result.map .affected) w' := by
    rw [htask]
    exact settled_bind_pure _ h
  rw [Query.execute, Query.ofTask]
  simp only [hrun]
  cases result <;> rfl

/--
Whatever the client and the options of a host do, a change calls the client only when it is allowed
and confirmed, for one selected record after the other, and reports its calls exactly.
-/
theorem execute_orderly {host : Host σ} (hbulk : host.options.useBulkDelete = false)
    (change : ChangeTask) (sql : String) (w : σ) :
    exists result w' events,
      (Query.ofTask sql change.task).execute host w =
        ((Query.ofTask sql change.task).after result, w') ∧
      (Query.ofTask sql change.task).execute host.traced ⟨w, []⟩ =
        ((Query.ofTask sql change.task).after result, ⟨w', events⟩) ∧
      Orderly host change w result events := by
  cases change with
  | update task =>
      rcases run_watched (watched_updating host task) w with
        ⟨result, w', events, hrun, hrun', hcourse⟩
      rw [<- runUpdate_eq] at hrun hrun'
      exact ⟨result, w', events, execute_of_runTask rfl hrun sql, execute_of_runTask rfl hrun' sql,
        hcourse.orderly (isChange_updating host task)⟩
  | delete task =>
      rcases run_watched (watched_deleting hbulk task) w with
        ⟨result, w', events, hrun, hrun', hcourse⟩
      rw [<- runDelete_eq] at hrun hrun'
      exact ⟨result, w', events, execute_of_runTask rfl hrun sql, execute_of_runTask rfl hrun' sql,
        hcourse.orderly (isChange_deleting host task)⟩

/-!
# Crates on the move

Two of the rows are of one crate and one row is of none, and the platform lets two changes through.
-/

def crate (id : List (String × Value)) : Record :=
  ⟨"crate", none, .ofList id⟩

def crateNumber (n : Nat) : Record :=
  { crate [("id", .guid (.ofNat n))] with id := some (.ofNat n) }

def crateStore : Store :=
  { Store.empty with
    tables := .ofList [("crate",
      [crateNumber 1, crateNumber 2, crateNumber 1, crate [], crateNumber 3])]
    pageSize := 2 }

def firstOfMay : Calendar.DateTime :=
  .midnight ⟨2024, 5, 1, by decide⟩

def crateClock : Clock :=
  ⟨firstOfMay, firstOfMay⟩

def crateHost : Host (Recorded Store) where
  client := Recorded.client (Store.client crateClock)
  lookup _ := pure (.ofKey "crate" "id")
  options := { (RunOptions.standard : RunOptions (Recorded Store)) with batchSize := 2 }
  clock := crateClock

def crateDeletion : Plan.DeleteTask where
  source := ⟨{ Fetch.Query.ofTable "crate" with
    root := { Fetch.Scope.ofTable "crate" with attributes := [.ofName "id"] } }, [], ["id"]⟩
  table := "crate"
  idColumn := "id"
  hasWhere := true
  targetIsRoot := true

def crateState : Recorded Store :=
  { Recorded.ofHost crateStore with changes := some 2 }

theorem execute_orderly_crates : crateHost.options.useBulkDelete = false ∧
    ((Query.ofTask "" (.delete crateDeletion)).execute crateHost crateState).1.2 =
      some (.stopped 2 Recorded.unavailable) ∧
    exists result w' events,
      (Query.ofTask "" (.delete crateDeletion)).execute crateHost crateState =
        ((Query.ofTask "" (.delete crateDeletion)).after result, w') ∧
      (Query.ofTask "" (.delete crateDeletion)).execute crateHost.traced ⟨crateState, []⟩ =
        ((Query.ofTask "" (.delete crateDeletion)).after result, ⟨w', events⟩) ∧
      Orderly crateHost (.delete crateDeletion) crateState result events :=
  ⟨rfl, by decide +kernel, execute_orderly rfl (.delete crateDeletion) "" crateState⟩

end Run

end RecordSql
