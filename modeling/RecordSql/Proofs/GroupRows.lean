import Mathlib.Data.List.Perm.Subperm
import RecordSql.Proofs.GroupColumns
import RecordSql.Proofs.GroupPlans

/-!
# Rows of groups

Both the platform and a local step make one row of each class of joined rows.  The row holds the
values of the keys on the first row of the class, and the totals of the aggregates over all of them.
-/

namespace RecordSql

open Outcome (Agree)

/-!
# Some of the rows, in any order
-/

theorem exists_sublist_of_forall₂ {α β : Type} {r : α -> β -> Prop} {l : List α} {m m' : List β}
    (h : List.Forall₂ r l m) (hm : m'.Sublist m) :
    exists l', l'.Sublist l ∧ List.Forall₂ r l' m' := by
  induction hm generalizing l with
  | slnil =>
      cases h
      exact ⟨[], List.Sublist.refl _, .nil⟩
  | cons b _ ih =>
      cases h with
      | cons _ hrest =>
          rcases ih hrest with ⟨l', hl', hforall⟩
          exact ⟨l', hl'.cons _, hforall⟩
  | cons_cons b _ ih =>
      cases h with
      | cons hfirst hrest =>
          rcases ih hrest with ⟨l', hl', hforall⟩
          exact ⟨_, hl'.cons_cons _, .cons hfirst hforall⟩

theorem exists_subperm_of_forall₂ {α β : Type} {r : α -> β -> Prop} {l : List α} {m m' : List β}
    (h : List.Forall₂ r l m) (hm : m'.Subperm m) :
    exists l', l'.Subperm l ∧ List.Forall₂ r l' m' := by
  rcases hm with ⟨some, hperm, hsublist⟩
  rcases exists_sublist_of_forall₂ h hsublist with ⟨l', hl', hforall⟩
  rcases List.perm_comp_forall₂ hperm.symm hforall.flip with ⟨l'', hforall', hperm'⟩
  exact ⟨l'', hperm'.subperm.trans hl'.subperm, hforall'.flip⟩

theorem map_eq_of_forall₂ {α β : Type} {r : α -> β -> Prop} {f : α -> β} {l : List α} {m : List β}
    (h : List.Forall₂ r l m) (hf : forall a, a ∈ l -> forall b, r a b -> f a = b) : l.map f = m := by
  induction h with
  | nil =>
      rfl
  | cons hfirst _ ih =>
      rw [List.map_cons, hf _ List.mem_cons_self _ hfirst,
        ih fun a ha => hf a (List.mem_cons_of_mem _ ha)]

/-!
# Groups of classes
-/

namespace Grouping

variable {α : Type} {g : Grouping α} {cells : List (String × (α -> Value))}
  {sums : List (String × Summary α)} {key : α -> String} {rows : List α}

theorem exists_of_foldlM {β γ : Type} {f : β -> γ -> Except EvalError β} {l : List γ} {b b' : β}
    (h : l.foldlM f b = .ok b') {c : γ} (hc : c ∈ l) : exists x y, f x c = .ok y := by
  induction l generalizing b with
  | nil =>
      cases hc
  | cons first rest ih =>
      rw [List.foldlM_cons, Outcome.bind_eq_ok] at h
      rcases h with ⟨y, hfirst, hrest⟩
      rcases List.mem_cons.mp hc with rfl | hc
      · exact ⟨b, y, hfirst⟩
      · exact ih hrest hc

/-- Rows can only be grouped if their keys can be computed. -/
theorem exists_keys_of_groups {ungrouped : Bool} {found : List Group}
    (h : g.groups ungrouped rows = .ok found) {row : α} (hrow : row ∈ rows) :
    exists keys, g.keys row = .ok keys := by
  rw [groups, Outcome.bind_eq_ok] at h
  rcases h with ⟨pending, hpending, _⟩
  rcases exists_of_foldlM hpending hrow with ⟨x, y, hadd⟩
  rw [add, Outcome.bind_eq_ok] at hadd
  rcases hadd with ⟨keys, hkeys, _⟩
  exact ⟨keys, hkeys⟩

theorem tally_congr {s s' : Summary α} (hfunction : s.function = s'.function)
    (hdistinct : s.distinct = s'.distinct) {c : List α}
    (hargs : forall row, row ∈ c -> s.args row = s'.args row) : tally s c = tally s' c := by
  have hstart : start s = start s' := by
    rw [start, start, hfunction]
  have hcount : forall t, c.foldlM (fun t row => count row s t) t =
      c.foldlM (fun t row => count row s' t) t := by
    induction c with
    | nil =>
        intro t
        rfl
    | cons row rest ih =>
        intro t
        have hfirst : count row s t = count row s' t := by
          rw [count, count, hargs row List.mem_cons_self, hdistinct]
        rw [List.foldlM_cons, List.foldlM_cons, hfirst]
        refine congrArg _ ?_
        funext t'
        exact ih (fun r hr => hargs r (List.mem_cons_of_mem _ hr)) t'
  rw [tally, tally, hstart]
  refine congrArg _ ?_
  funext t
  exact hcount t

/-- What is shown of a class: its first row and its totals. -/
structure Shows (cells : List (String × (α -> Value))) (sums : List (String × Summary α))
    (c : List α) (shown : String -> Value) : Prop where
  first : forall cell, cell ∈ cells -> forall row rest, c = row :: rest ->
    shown cell.1 = cell.2 row
  totals : forall sum, sum ∈ sums -> exists t, tally sum.2 c = .ok t ∧
    shown sum.1 = t.total.result

theorem Shows.mono {cells' : List (String × (α -> Value))} {sums' : List (String × Summary α)}
    {c : List α} {shown : String -> Value} (h : Shows cells sums c shown) (hcells : cells' ⊆ cells)
    (hsums : sums' ⊆ sums) : Shows cells' sums' c shown :=
  ⟨fun cell hcell => h.first cell (hcells hcell), fun sum hsum => h.totals sum (hsums hsum)⟩

theorem forall₂_zip {β γ : Type} {r : β -> γ -> Prop} {l : List β} {m : List γ}
    (h : List.Forall₂ r l m) {names : β -> String} {b : β} (hb : b ∈ l) :
    exists c, r b c ∧ (names b, c) ∈ (l.map names).zip m := by
  induction h with
  | nil =>
      cases hb
  | @cons b' c' _ _ hfirst _ ih =>
      rcases List.mem_cons.mp hb with rfl | hb
      · exact ⟨c', hfirst, List.mem_cons_self⟩
      · rcases ih hb with ⟨c, hc, hmem⟩
        exact ⟨c, hc, List.mem_cons_of_mem _ hmem⟩

theorem look_eq {names labels : List String} (hdistinct : (names ++ labels).Nodup) {group : Group}
    {name : String} {v : Value}
    (h : (name, v) ∈ names.zip group.values ++ labels.zip group.results) :
    look names labels group name = v := by
  have hnames := ((sublist_fst_zip names group.values).append
    (sublist_fst_zip labels group.results)).nodup hdistinct
  rw [<- List.map_append] at hnames
  rw [look, Dict.ofList, Dict.get?_insertAll_of_mem hnames h]
  rfl

theorem Labelled.shows (h : Labelled g cells sums key rows)
    (hdistinct : (cells.map (·.1) ++ sums.map (·.1)).Nodup) {c : List α} {group : Group}
    (hgroup : g.groupOf (fun row => cells.map (·.2 row)) c = .ok group) :
    Shows cells sums c (look (cells.map (·.1)) (sums.map (·.1)) group) := by
  rw [groupOf, Outcome.bind_eq_ok] at hgroup
  rcases hgroup with ⟨ts, hts, hgroup⟩
  cases hgroup
  constructor
  · rintro cell hcell row rest rfl
    refine look_eq hdistinct (List.mem_append_left _ ?_)
    change (cell.1, cell.2 row) ∈ (cells.map (·.1)).zip (cells.map (·.2 row))
    rw [List.zip_map']
    exact List.mem_map_of_mem hcell
  · intro sum hsum
    rw [tallies, h.summaries, Outcome.mapM_eq_ok, List.forall₂_map_left_iff] at hts
    rcases @forall₂_zip _ _ _ _ _ hts (·.1) _ hsum with ⟨t, ht, hmem⟩
    refine ⟨t, ht, look_eq hdistinct (List.mem_append_right _ ?_)⟩
    change (sum.1, t.total.result) ∈ (sums.map (·.1)).zip (ts.map (·.total.result))
    rw [List.zip_map_right]
    exact List.mem_map_of_mem hmem

/-- The groups that are found are those of the shown classes. -/
theorem Labelled.exists_classes (h : Labelled g cells sums key rows)
    (hdistinct : (cells.map (·.1) ++ sums.map (·.1)).Nodup) {ungrouped : Bool} {found : List Group}
    (hfound : g.groups ungrouped rows = .ok found) :
    exists cs, cs.Perm (shownClasses ungrouped key rows) ∧
      List.Forall₂ (fun c group => Shows cells sums c (look (cells.map (·.1)) (sums.map (·.1)) group))
        cs found := by
  have hagree := agree_groups h.reads ungrouped
  rw [hfound] at hagree
  rcases hagree.ok_right with ⟨groups, hgroups, hperm⟩
  rw [Outcome.mapM_eq_ok] at hgroups
  rcases List.perm_comp_forall₂ hperm hgroups.flip with ⟨cs, hcs, hclasses⟩
  exact ⟨cs, hclasses, hcs.flip.imp fun c group hgroup => h.shows hdistinct hgroup⟩

end Grouping

namespace Plan

open Fetch (Joined Placed)
open Grouping (Labelled Shows shownClasses)
open Sql (Column Scalar Select)

/-!
# Keys of joined rows
-/

/-- The value of an expression on a joined row, if it has one. -/
def valueAt (clock : Clock) (e : Scalar) (row : Joined) : Value :=
  match Eval.scalar clock row.get e with
  | .ok v => v
  | .error _ => .null

/-- The text by which rows are told apart, with regard to case in some of the keys. -/
def keyText (clock : Clock) (keys : List Scalar) (exact : Scalar -> Bool) (row : Joined) : String :=
  Value.tupleText (keys.map fun key => (valueAt clock key row).keyIf (exact key))

/-- Case counts in the keys that ask for it, and in columns that are no texts. -/
def Compares (ctx : Context) (keys : List Scalar) (exact : Scalar -> Bool) : Prop :=
  forall key, key ∈ keys -> exact key = key.isCaseSensitive ∨
    exists b, key = .column (ctx.scopes.qualified b) ∧
      (ctx.typeOf? b).any (·.isString) = false

theorem valueAt_of_ok {clock : Clock} {e : Scalar} {row : Joined} {v : Value}
    (h : Eval.scalar clock row.get e = .ok v) : valueAt clock e row = v := by
  rw [valueAt, h]

theorem columns_of_qualify {ctx : Context} {e q : Scalar} (h : ctx.qualify e = .ok q) {c : Column}
    (hc : c ∈ reads q) : exists b, b ∈ ctx.used e ∧ c = ctx.scopes.qualified b := by
  rcases Context.reads_qualify e h c hc with ⟨c', hc', b, hb, rfl⟩
  exact ⟨b, mem_use.mpr (Or.inr ⟨c', hc', hb⟩), rfl⟩

theorem scope_lt_of_used {ctx : Context} {e : Scalar} {b : Bound} (h : b ∈ ctx.used e) :
    b.scope < ctx.scopes.length := by
  rcases mem_use.mp h with h | ⟨c, _, hc⟩
  · cases h
  · exact Scopes.resolve_lt (Context.resolve_eq hc)

theorem columnsKey_iff_forall {get : Joined -> String -> Value} {names : List String}
    {a b : Joined} : Fetch.columnsKey get names a = Fetch.columnsKey get names b <->
      forall name, name ∈ names -> Value.SameText (get a name).key (get b name).key := by
  rw [Fetch.columnsKey, Fetch.columnsKey, Value.tupleText_eq_iff (by simp),
    List.forall₂_map_left_iff, List.forall₂_map_right_iff, List.forall₂_same]

/-- Keys that tell the same rows apart have the same classes. -/
theorem shownClasses_perm {key key' : Joined -> String} {rows : List Joined} (ungrouped : Bool)
    (h : forall a b, key a = key b <-> key' a = key' b) :
    (shownClasses ungrouped key rows).Perm (shownClasses ungrouped key' rows) := by
  unfold shownClasses
  split
  · exact List.Perm.refl _
  · refine Grouping.classes_perm (List.Perm.refl _) fun row _ => ?_
    refine List.filter_congr fun other _ => ?_
    rw [Bool.eq_iff_iff, beq_iff_eq, beq_iff_eq]
    exact h other row

namespace GroupPlan

variable {p : GroupPlan} {ctx : Context} {select : Select} {clock : Clock} {whereUsed : List Bound}

theorem IsOf.inScope (h : p.IsOf ctx select) (hready : Ready p.ctx)
    (hused : forall b, b ∈ whereUsed -> b.scope < p.ctx.scopes.length) : p.InScope whereUsed := by
  refine ⟨hready, ?_, ?_⟩
  · intro b hb
    rcases mem_needed.mp hb with hb | ⟨g, hg, hb⟩ | ⟨a, ha, hb⟩ | ⟨a, ha, harg, hb⟩
    · exact hused b hb
    · rcases h.groups g hg with ⟨e, _, _, _, hg⟩
      rw [hg] at hb
      rw [h.context]
      exact scope_lt_of_used hb
    · rcases h.aggregates a ha with ⟨_, _, _, hof⟩
      rw [hof.used] at hb
      rw [h.context]
      exact scope_lt_of_used hb
    · rcases h.aggregates a ha with ⟨_, _, _, hof⟩
      rcases hof.cases hb with ⟨_, _, rfl⟩ | ⟨_, _, _, hsome⟩
      · exact hready.nonempty
      · rw [harg] at hsome
        cases hsome
  · intro b hb
    rcases List.mem_filterMap.mp hb with ⟨g, hg, hb⟩
    rcases h.groups g hg with ⟨e, _, _, hcolumn, _⟩
    rw [hb] at hcolumn
    rw [h.context]
    exact scope_lt_of_plainColumn hcolumn.symm

/-- A shown row reads like the joined row, as far as it is needed. -/
theorem InScope.sameOn (h : p.InScope whereUsed) {columns : List Column}
    (hcolumns : forall c, c ∈ columns -> exists b, b ∈ p.needed whereUsed ∧
      c = p.ctx.scopes.qualified b) (row : Joined) :
    Eval.SameOn (p.shownRow whereUsed row).get row.get columns := by
  intro c hc
  rcases hcolumns c hc with ⟨b, hb, rfl⟩
  exact h.get_shownRow hb row

/-- A group key has the same value on a shown row as on the joined row. -/
theorem InScope.scalar_group (h : p.InScope whereUsed) (hp : p.IsOf ctx select) {g : GroupSpec}
    (hg : g ∈ p.groups) (row : Joined) :
    Eval.scalar clock (p.shownRow whereUsed row).get g.expr = Eval.scalar clock row.get g.expr := by
  refine Eval.scalar_congr g.expr (h.sameOn (fun c hc => ?_) row)
  rcases hp.groups g hg with ⟨e, _, hqualified, _, hused⟩
  rcases columns_of_qualify hqualified hc with ⟨b, hb, rfl⟩
  rw [<- hused] at hb
  rw [hp.context]
  exact ⟨b, mem_needed.mpr (Or.inr (Or.inl ⟨g, hg, hb⟩)), rfl⟩

/-!
# Aggregates
-/

theorem qualify_literal {e : Scalar} {i : Int}
    (h : ctx.qualify e = .ok (.literal (.int i))) : e = .literal (.int i) := by
  cases Context.qualify_eq_ok.mp h with
  | literal _ =>
      rfl

theorem qualify_ne_star {e : Scalar} : ctx.qualify e ≠ .ok .star := by
  intro h
  cases Context.qualify_eq_ok.mp h

/-- An aggregate counts rows, or takes the one argument of its call. -/
theorem aggregate_cases {a : AggregateSpec} {name : String} {distinct : Bool} {args : List Scalar}
    (h : a.IsOf ctx name distinct args) :
    ((Scalar.call name distinct args).isRowCount = true ∧ a.arg = none ∧
        a.key = .call name distinct args) ∨
      exists arg, a.arg = some arg ∧ a.key = .call name distinct [arg] ∧
        (Scalar.call name distinct [arg]).isRowCount = false := by
  rcases h.argument with ⟨base, hargument⟩
  have hkey := h.key
  unfold argumentOf at hargument
  split at hargument
  · rename_i hrows
    rw [Context.qualify, if_pos hrows] at hkey
    simp only [Except.ok.injEq, Argument.mk.injEq] at hargument
    exact Or.inl ⟨hrows, hargument.1.symm, (Except.ok.inj hkey).symm⟩
  · rename_i hrows
    rw [Context.qualify, if_neg hrows, Outcome.bind_eq_ok] at hkey
    rcases hkey with ⟨args', hargs, hkey⟩
    split at hargument
    · rename_i arg
      split at hargument
      · cases hargument
      · rcases Outcome.bind_eq_ok.mp hargument with ⟨q, hq, hargument⟩
        simp only [Outcome.pure_eq, Except.ok.injEq, Argument.mk.injEq] at hargument
        simp only [Context.qualifyList, hq, Outcome.ok_bind] at hargs
        cases hargs
        refine Or.inr ⟨q, hargument.1.symm, (Except.ok.inj hkey).symm, ?_⟩
        -- Qualifying does not make a call count rows that did not.
        cases hcount : (Scalar.call name distinct [q]).isRowCount with
        | false =>
            rfl
        | true =>
            unfold Scalar.isRowCount at hcount
            split at hcount
            · rename_i heq
              cases heq
              exact absurd hq qualify_ne_star
            · rename_i heq
              cases heq
              rw [qualify_literal hq] at hrows
              exact absurd hcount hrows
            · cases hcount
    · cases hargument

/-- The total of an aggregate over a class is that of its summary of the shown rows. -/
theorem InScope.aggregateOn_eq (h : p.InScope whereUsed) (hp : p.IsOf ctx select)
    {a : AggregateSpec} (ha : a ∈ p.aggregates) (c : List Joined) :
    aggregateOn clock c a.key = some (Grouping.tally ((Step.summary clock
        ⟨a.function, a.arg, a.distinct, a.output⟩).comap (p.shownRow whereUsed)) c >>= fun t =>
      .ok t.total.result) := by
  rcases hp.aggregates a ha with ⟨name, distinct, args, hof⟩
  have hknown : Sql.aggregateNames.contains (Text.lowerAscii name) = true := by
    rw [<- hof.function]
    exact hof.known
  have htotal : forall args', a.key = .call name distinct args' ->
      (if distinct then some (Value.keyIf (args'.any Scalar.isCaseSensitive)) else none) =
        (if a.distinct then some (Value.keyIf (a.arg.any Scalar.isCaseSensitive)) else none) ->
      (forall row, (callSummary clock name distinct args').args row =
        Step.argValues clock a.arg (p.shownRow whereUsed row)) ->
      aggregateOn clock c a.key = some (Grouping.tally ((Step.summary clock
          ⟨a.function, a.arg, a.distinct, a.output⟩).comap (p.shownRow whereUsed)) c >>= fun t =>
        .ok t.total.result) := by
    intro args' hkey hdistinct hargs
    have hcall : (Scalar.call name distinct args').isAggregate = true := hknown
    have htally : Grouping.tally (callSummary clock name distinct args') c =
        Grouping.tally ((Step.summary clock ⟨a.function, a.arg, a.distinct, a.output⟩).comap
          (p.shownRow whereUsed)) c :=
      Grouping.tally_congr hof.function.symm hdistinct fun row _ => hargs row
    rw [hkey, aggregateOn, if_pos hcall, htally]
    rfl
  rcases aggregate_cases hof with ⟨hrows, harg, hkey⟩ | ⟨arg, harg, hkey, hrows⟩
  · refine htotal args hkey ?_ fun row => ?_
    · rw [hof.distinct, (rowCount_cases hrows).1]
      rfl
    · rw [callSummary, harg]
      exact if_pos hrows
  · refine htotal [arg] hkey ?_ fun row => ?_
    · rw [hof.distinct, harg]
      simp
    · have hread : Eval.scalar clock (p.shownRow whereUsed row).get arg =
          Eval.scalar clock row.get arg := by
        refine Eval.scalar_congr arg (h.sameOn (fun col hcol => ?_) row)
        have hmem : col ∈ reads a.key := by
          rw [hkey, reads, readsOfList]
          exact List.mem_append_left _ hcol
        rcases columns_of_qualify hof.key hmem with ⟨b, hb, rfl⟩
        rw [<- hof.used] at hb
        rw [hp.context]
        exact ⟨b, mem_needed.mpr (Or.inr (Or.inr (Or.inl ⟨a, ha, hb⟩))), rfl⟩
      have hnot : (Scalar.call name distinct [arg]).isRowCount ≠ true := by
        rw [hrows]
        exact Bool.false_ne_true
      rw [callSummary, harg, Step.argValues, hread]
      simp only [if_neg hnot, Eval.scalars]
      rfl

/-!
# Classes of rows
-/

/-- What a group shows of a key. -/
def cellAt (clock : Clock) (g : GroupSpec) : String × (Joined -> Value) :=
  (g.output, valueAt clock g.expr)

/-- What a group shows of the aggregates. -/
def sumsAt (p : GroupPlan) (clock : Clock) (whereUsed : List Bound) :
    List (String × Summary Joined) :=
  p.shownColumns.map (Step.sum clock (p.shownRow whereUsed))

theorem outputs_eq (p : GroupPlan) (clock : Clock) (whereUsed : List Bound) :
    (p.groups.map (cellAt clock)).map (·.1) ++ (p.sumsAt clock whereUsed).map (·.1) =
      p.groups.map (·.output) ++ p.aggregates.map (·.output) := by
  rw [sumsAt, shownColumns, List.map_map, List.map_map, List.map_map]
  rfl

theorem InScope.holds (h : p.InScope whereUsed) (hp : p.IsOf ctx select) {c : List Joined}
    {row : Row} (hshows : Shows (p.groups.map (cellAt clock)) (p.sumsAt clock whereUsed) c row.get)
    (hnonempty : p.groups ≠ [] -> c ≠ [])
    (hvalues : forall g, g ∈ p.groups -> forall r, r ∈ c ->
      exists v, Eval.scalar clock r.get g.expr = .ok v) : p.Holds clock c row where
  keys := by
    intro g hg
    rcases List.exists_cons_of_ne_nil (hnonempty (List.ne_nil_of_mem hg)) with ⟨first, rest, rfl⟩
    rcases hvalues g hg first List.mem_cons_self with ⟨v, hv⟩
    have hshown := hshows.first (cellAt clock g) (List.mem_map_of_mem hg) first rest rfl
    refine ⟨first, rest, rfl, ?_⟩
    rw [hv]
    exact congrArg Except.ok ((valueAt_of_ok hv).symm.trans hshown.symm)
  totals := by
    intro a ha
    have hsum : Step.sum clock (p.shownRow whereUsed)
        ⟨a.function, a.arg, a.distinct, a.output⟩ ∈ p.sumsAt clock whereUsed :=
      List.mem_map_of_mem (List.mem_map_of_mem ha)
    rcases hshows.totals _ hsum with ⟨t, ht, hshown⟩
    rw [h.aggregateOn_eq hp ha c]
    rw [Step.sum] at ht hshown
    rw [ht, hshown]
    rfl

theorem ne_nil_of_mem_classes {key : Joined -> String} {rows c : List Joined} {ungrouped : Bool}
    (hungrouped : ungrouped = false) (hc : c ∈ shownClasses ungrouped key rows) : c ≠ [] := by
  rw [shownClasses, hungrouped, Bool.false_and, if_neg Bool.false_ne_true] at hc
  rcases Grouping.mem_classes.mp hc with ⟨row, hrow, rfl⟩
  exact List.ne_nil_of_mem (Grouping.mem_members.mpr ⟨hrow, rfl⟩)

theorem mem_of_mem_shownClasses {key : Joined -> String} {rows c : List Joined} {ungrouped : Bool}
    (hc : c ∈ shownClasses ungrouped key rows) : c ⊆ rows := by
  unfold shownClasses at hc
  split at hc
  · rw [List.mem_singleton.mp hc]
    exact List.nil_subset _
  · rcases Grouping.mem_classes.mp hc with ⟨row, _, rfl⟩
    exact fun r hr => (Grouping.mem_members.mp hr).1

/-!
# Retrieved rows
-/

/-- The keys in which case counts when retrieved rows are grouped. -/
def comparesCase (p : GroupPlan) : Scalar -> Bool
  | .column c => !(p.foldedColumns.map Column.rowKey).contains c.rowKey
  | e => e.isCaseSensitive

theorem qualify_eq_column {e : Scalar} {c : Column} (h : ctx.qualify e = .ok (.column c)) :
    exists b, ctx.plainColumn? e = some b ∧ c = ctx.scopes.qualified b := by
  cases Context.qualify_eq_ok.mp h with
  | column hfound =>
      exact ⟨_, bound?_eq_some_iff.mpr hfound, rfl⟩

theorem IsOf.compares (h : p.IsOf ctx select) : Compares p.ctx p.keys p.comparesCase := by
  intro key hkey
  rcases List.mem_map.mp hkey with ⟨g, hg, rfl⟩
  rcases h.groups g hg with ⟨e, _, hqualified, hcolumn, _⟩
  rw [<- h.context] at hqualified hcolumn
  cases hexpr : g.expr with
  | column c =>
      rw [hexpr] at hqualified
      rcases qualify_eq_column hqualified with ⟨b, hb, rfl⟩
      cases htype : (p.ctx.typeOf? b).any (·.isString) with
      | false =>
          exact Or.inr ⟨b, rfl, htype⟩
      | true =>
          have hfolded : p.ctx.scopes.qualified b ∈ p.foldedColumns := by
            refine List.mem_map_of_mem (List.mem_filter.mpr ⟨?_, htype⟩)
            exact List.mem_filterMap.mpr ⟨g, hg, hcolumn.trans hb⟩
          have hcontains : (p.foldedColumns.map Column.rowKey).contains
              (p.ctx.scopes.qualified b).rowKey = true :=
            List.contains_iff_mem.mpr (List.mem_map_of_mem hfolded)
          refine Or.inl ?_
          rw [comparesCase, hcontains]
          rfl
  | _ =>
      exact Or.inl rfl

theorem keyOf_shownRow (p : GroupPlan) (whereUsed : List Bound) (row : Joined) (c : Column) :
    (p.shownRow whereUsed row).keyOf c =
      ((p.shownRow whereUsed row).get c.rowKey).keyIf (p.comparesCase (.column c)) := by
  rw [Row.keyOf, Row.get, shownRow, Row.get?_keys_foldColumns, Row.record_foldColumns, comparesCase]
  by_cases hmem : c.rowKey ∈ p.foldedColumns.map Column.rowKey
  · rw [if_pos hmem, List.contains_iff_mem.mpr hmem]
    rfl
  · have hcontains : (p.foldedColumns.map Column.rowKey).contains c.rowKey = false := by
      rw [<- Bool.not_eq_true, List.contains_iff_mem]
      exact hmem
    rw [if_neg hmem, hcontains]
    rfl

theorem InScope.groupValue_eq (h : p.InScope whereUsed) (hp : p.IsOf ctx select) {g : GroupSpec}
    (hg : g ∈ p.groups) {row : Joined} {shown : Value × Value}
    (hshown : Step.groupValue clock (p.shownRow whereUsed row) ⟨g.expr, g.output⟩ = .ok shown) :
    Eval.scalar clock row.get g.expr = .ok (valueAt clock g.expr row) ∧
      (valueAt clock g.expr row, (valueAt clock g.expr row).keyIf (p.comparesCase g.expr)) =
        shown := by
  have hread := @InScope.scalar_group _ _ _ clock _ h hp g hg row
  cases hexpr : g.expr with
  | column c =>
      rw [hexpr] at hread hshown
      have hget : (p.shownRow whereUsed row).get c.rowKey = row.get c.rowKey := Except.ok.inj hread
      have heq : ((p.shownRow whereUsed row).get c.rowKey, (p.shownRow whereUsed row).keyOf c) =
          shown := Except.ok.inj hshown
      rw [keyOf_shownRow, hget] at heq
      exact ⟨rfl, heq⟩
  | _ =>
      rw [hexpr] at hread hshown
      rw [Step.groupValue, Outcome.bind_eq_ok, hread] at hshown
      rcases hshown with ⟨v, hv, hshown⟩
      rw [valueAt_of_ok hv]
      exact ⟨hv, Except.ok.inj hshown⟩

/-- The step that groups retrieved rows. -/
def localGrouping (p : GroupPlan) (clock : Clock) : Grouping Row :=
  Step.grouping clock (p.groups.map fun g => ⟨g.expr, g.output⟩) p.shownColumns

theorem InScope.keys_eq (h : p.InScope whereUsed) (hp : p.IsOf ctx select) {row : Joined}
    {keys : List (Value × Value)}
    (hkeys : (p.localGrouping clock).keys (p.shownRow whereUsed row) = .ok keys) :
    (forall g, g ∈ p.groups ->
      Eval.scalar clock row.get g.expr = .ok (valueAt clock g.expr row)) ∧
    p.groups.map (fun g => (valueAt clock g.expr row,
      (valueAt clock g.expr row).keyIf (p.comparesCase g.expr))) = keys := by
  have hall := List.forall₂_map_left_iff.mp (Outcome.mapM_eq_ok.mp hkeys)
  constructor
  · intro g hg
    rcases Outcome.exists_of_forall₂ hall.flip hg with ⟨shown, _, hshown⟩
    exact (h.groupValue_eq hp hg hshown).1
  · exact map_eq_of_forall₂ hall fun g hg shown hshown => (h.groupValue_eq hp hg hshown).2

/-- The local step groups joined rows by the texts of their keys. -/
theorem InScope.labelled (h : p.InScope whereUsed) (hp : p.IsOf ctx select) {rows : List Joined}
    (hkeys : forall row, row ∈ rows ->
      exists keys, (p.localGrouping clock).keys (p.shownRow whereUsed row) = .ok keys) :
    Labelled ((p.localGrouping clock).comap (p.shownRow whereUsed)) (p.groups.map (cellAt clock))
      (p.sumsAt clock whereUsed) (keyText clock p.keys p.comparesCase) rows := by
  constructor
  · change List.map _ (List.map _ p.shownColumns) = _
    rw [sumsAt, List.map_map, List.map_map]
    rfl
  · intro row hrow
    rcases hkeys row hrow with ⟨keys, hkeys⟩
    have heq := (h.keys_eq hp hkeys).2
    refine ⟨keys, hkeys, ?_, ?_⟩
    · change _ = List.map _ (List.map (cellAt clock) p.groups)
      rw [<- heq, List.map_map, List.map_map]
      rfl
    · rw [<- heq, List.map_map, keyText, GroupPlan.keys, List.map_map]
      rfl

theorem get_showGroup (p : GroupPlan) (clock : Clock) (whereUsed : List Bound) (table : String)
    (group : Group) :
    (Step.showGroup table (p.groups.map fun g => ⟨g.expr, g.output⟩) p.shownColumns group).get =
      Grouping.look ((p.groups.map (cellAt clock)).map (·.1)) ((p.sumsAt clock whereUsed).map (·.1))
        group := by
  rw [sumsAt, List.map_map, List.map_map, Step.showGroup, List.map_map]
  rfl

/-- The local step returns a row for each class. -/
theorem InScope.local_rows (h : p.InScope whereUsed) (hp : p.IsOf ctx select)
    (hdistinct : (p.groups.map (·.output) ++ p.aggregates.map (·.output)).Nodup)
    {rows : List Joined} {out : List Row}
    (hout : Step.aggregateRows clock (p.groups.map fun g => ⟨g.expr, g.output⟩) p.shownColumns
      (rows.map (p.shownRow whereUsed)) = .ok out) :
    exists cs, cs.Perm (shownClasses p.keys.isEmpty (keyText clock p.keys p.comparesCase) rows) ∧
      List.Forall₂ (p.Holds clock) cs out := by
  have hempty : (p.groups.map fun g => (⟨g.expr, g.output⟩ : GroupKey)).isEmpty =
      p.keys.isEmpty := by
    rw [GroupPlan.keys, List.isEmpty_map, List.isEmpty_map]
  rw [Step.aggregateRows, Outcome.bind_eq_ok, hempty] at hout
  rcases hout with ⟨found, hfound, hout⟩
  cases hout
  change (p.localGrouping clock).groups p.keys.isEmpty _ = .ok found at hfound
  rw [Grouping.groups_map] at hfound
  have hkeys : forall row, row ∈ rows ->
      exists keys, (p.localGrouping clock).keys (p.shownRow whereUsed row) = .ok keys :=
    fun row hrow => Grouping.exists_keys_of_groups hfound hrow
  have hlabelled := h.labelled hp hkeys
  have hnames := outputs_eq p clock whereUsed
  rcases hlabelled.exists_classes (hnames ▸ hdistinct) hfound with ⟨cs, hcs, hshows⟩
  refine ⟨cs, hcs, List.forall₂_map_right_iff.mpr ?_⟩
  have hmem := (Outcome.forall₂_and_mem hshows.flip).flip
  refine hmem.imp fun c group hc => ?_
  have hclass := hcs.mem_iff.mp hc.2
  refine h.holds hp ?_ ?_ ?_
  · rw [get_showGroup]
    exact hc.1
  · intro hgroups
    refine ne_nil_of_mem_classes ?_ hclass
    rw [GroupPlan.keys, List.isEmpty_map]
    exact List.isEmpty_eq_false_iff.mpr hgroups
  · intro g hg row hrow
    rcases hkeys row (mem_of_mem_shownClasses hclass hrow) with ⟨ks, hks⟩
    exact ⟨_, (h.keys_eq hp hks).1 g hg⟩

/-!
# Joined rows
-/

theorem IsOf.specified (h : p.IsOf ctx select) (hnative : p.isNative = true)
    (hdistinct : (p.groups.map (·.output) ++ p.aggregates.map (·.output)).Nodup) :
    p.Specified ctx select := by
  rw [isNative, Bool.and_eq_true, List.all_eq_true, List.all_eq_true] at hnative
  refine ⟨h.context, h.statement, ?_, ?_, hdistinct⟩
  · intro g hg
    rcases Option.isSome_iff_exists.mp (hnative.1 g hg) with ⟨b, hb⟩
    have hof := h.groups g hg
    refine ⟨b, hb, hof.expr_eq hb, ?_⟩
    rcases hof with ⟨e, he, _, hcolumn, hused⟩
    rw [hb] at hcolumn
    exact ⟨hused.trans (used_plainColumn hcolumn.symm), e, he, hcolumn.symm⟩
  · intro a ha
    rcases Option.isSome_iff_exists.mp (hnative.2 a ha) with ⟨b, hb⟩
    rcases h.aggregates a ha with ⟨name, distinct, args, hof⟩
    exact ⟨b, name, distinct, args, hof, hb⟩

theorem Specified.valueAt_eq (h : p.Specified ctx select) {g : GroupSpec} (hg : g ∈ p.groups) :
    valueAt clock g.expr = fun row => row.get (p.ctx.scopes.rowKey (boundOf g)) := by
  funext row
  rw [(h.column_eq hg).2.1]
  rfl

theorem Specified.keyText_eq (h : p.Specified ctx select) :
    keyText clock p.keys (fun _ => false) =
      Fetch.columnsKey Joined.get (p.shownGroups.map (·.1.rowKey)) := by
  funext row
  rw [keyText, Fetch.columnsKey, GroupPlan.keys, shownGroups, List.map_map, List.map_map,
    List.map_map]
  refine congrArg Value.tupleText (List.map_congr_left fun g hg => ?_)
  rw [Function.comp_apply, h.valueAt_eq hg]
  rfl

/-- The platform returns a record for each class. -/
theorem Specified.native_rows (h : p.Specified ctx select) (hp : p.IsOf ctx select)
    (hinScope : p.InScope whereUsed) {attributes : List Placed}
    (hperm : attributes.Perm (p.groups.map p.placedGroup ++ p.aggregates.map p.placedAggregate))
    {table : String} {rows : List Joined} {records : List Record}
    (hrecords : Fetch.aggregateRows table attributes rows = .ok records) :
    exists cs, cs.Perm (shownClasses p.keys.isEmpty (keyText clock p.keys fun _ => false) rows) ∧
      List.Forall₂ (fun c r => p.Holds clock c (Row.ofRecord r)) cs records := by
  have hgroups := groupsOf_perm hperm
  have hsums := h.summedOf_perm hinScope.ready.nonempty hperm clock fun a ha b hb row =>
    hinScope.get_shownRow (mem_needed.mpr (Or.inr (Or.inr (Or.inl ⟨a, ha, hb⟩)))) row
  have hcells : ((Fetch.groupsOf attributes).map Fetch.cell).Perm (p.groups.map (cellAt clock)) := by
    have hmap := hgroups.map fun x => (x.1, fun row : Joined => row.get x.2)
    rw [List.map_map, shownGroups, List.map_map, List.map_map] at hmap
    refine hmap.trans (List.Perm.of_eq (List.map_congr_left fun g hg => ?_))
    rw [cellAt, h.valueAt_eq hg]
    rfl
  have hdistinct : (((Fetch.groupsOf attributes).map Fetch.cell).map (·.1) ++
      ((Fetch.summedOf attributes).map Fetch.sum).map (·.1)).Nodup := by
    rw [((hcells.map (·.1)).append (hsums.map (·.1))).nodup_iff]
    exact (outputs_eq p clock whereUsed) ▸ h.distinct
  have hempty : (Fetch.groupsOf attributes).isEmpty = p.keys.isEmpty := by
    have hlength := hcells.length_eq
    rw [List.length_map, List.length_map] at hlength
    rw [GroupPlan.keys, List.isEmpty_map, Bool.eq_iff_iff, List.isEmpty_iff_length_eq_zero,
      List.isEmpty_iff_length_eq_zero, hlength]
  have hagree := Fetch.agree_aggregateRows table attributes rows
  rw [hrecords] at hagree
  rcases hagree.ok_right with ⟨found, hfound, hviews⟩
  rw [<- List.forall₂_eq_eq_eq, List.forall₂_map_left_iff, List.forall₂_map_right_iff] at hviews
  rcases (Fetch.labelled_placedGrouping attributes rows).exists_classes hdistinct hfound with
    ⟨cs, hcs, hshows⟩
  have hclasses : cs.Perm (shownClasses p.keys.isEmpty (keyText clock p.keys fun _ => false)
      rows) := by
    rw [hempty] at hcs
    refine hcs.trans (shownClasses_perm _ fun a b => ?_)
    have hnames := hgroups.map (·.2)
    rw [List.map_map, List.map_map] at hnames
    rw [h.keyText_eq, columnsKey_iff_forall, columnsKey_iff_forall]
    exact forall_congr' fun name => imp_congr_left hnames.mem_iff
  refine ⟨cs, hclasses, ?_⟩
  refine forall₂_of_common hviews.flip (Outcome.forall₂_and_mem hshows.flip)
    fun group r c _ hview hc => ?_
  have hclass := hclasses.mem_iff.mp hc.2
  refine hinScope.holds hp ?_ ?_ ?_
  · have hget := congrArg Prod.fst hview
    change (Row.ofRecord r).get = _ at hget
    rw [hget]
    have hshown := hc.1
    rw [List.map_map, List.map_map] at hshown
    exact hshown.mono hcells.symm.subset hsums.symm.subset
  · intro hsome
    refine ne_nil_of_mem_classes ?_ hclass
    rw [GroupPlan.keys, List.isEmpty_map]
    exact List.isEmpty_eq_false_iff.mpr hsome
  · intro g hg row _
    rw [(h.column_eq hg).2.1]
    exact ⟨_, rfl⟩

end GroupPlan

end Plan

end RecordSql
