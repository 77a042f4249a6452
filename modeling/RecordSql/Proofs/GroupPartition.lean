import Mathlib.Algebra.GroupWithZero.Nat
import RecordSql.Proofs.Changes.Stages
import RecordSql.Proofs.EqualRows
import RecordSql.Proofs.Grouping
import RecordSql.Proofs.TupleKeys
import RecordSql.Step.Apply

/-!
# Rows in groups

Aggregating takes the rows apart by the texts of their key tuples.  The parts stand in the order of
their first rows, and what is shown of a part depends on its own rows only: the values of the first
one, and a total of each aggregate for the arguments that count.
-/

namespace RecordSql

/-!
# Totals
-/

namespace Aggregate.Total

/-- The total of the same aggregate before any rows. -/
def blank : Total -> Total
  | .count _ => .count 0
  | .sum _ _ _ => .sum 0 none false
  | .avg _ _ => .avg 0.0 0
  | .extreme wanted _ => .extreme wanted none

theorem blank_start (f : Aggregate) : f.start.blank = f.start := by
  cases f <;> rfl

/-- Whether a total takes the arguments of a row does not depend on the rows before it. -/
theorem update_of_blank {t : Total} {args : List Value}
    (h : exists u, t.blank.update args = .ok u) :
    exists u, t.update args = .ok u ∧ u.blank = t.blank := by
  rcases h with ⟨u, h⟩
  cases t with
  | count n =>
      rcases args with _ | ⟨v, _ | ⟨w, rest⟩⟩
      · exact ⟨_, rfl, rfl⟩
      · exact ⟨_, rfl, rfl⟩
      · cases h
  | sum whole other seen =>
      rcases args with _ | ⟨v, _ | ⟨w, rest⟩⟩
      · cases h
      · change addToSum 0 none false v = .ok u at h
        change exists u, addToSum whole other seen v = .ok u ∧ _
        cases hfloat : v.asFloat <;> cases v <;> simp only [addToSum, hfloat] at h ⊢ <;>
          first | exact ⟨_, rfl, rfl⟩ | cases h
      · cases h
  | avg total n =>
      rcases args with _ | ⟨v, _ | ⟨w, rest⟩⟩
      · cases h
      · change addToMean 0.0 0 v = .ok u at h
        change exists u, addToMean total n v = .ok u ∧ _
        unfold addToMean at h ⊢
        split
        · exact ⟨_, rfl, rfl⟩
        · rename_i hnull
          rw [if_neg hnull] at h
          cases hfloat : v.asFloat with
          | none =>
              rw [hfloat] at h
              cases h
          | some x =>
              exact ⟨_, rfl, rfl⟩
      · cases h
  | extreme wanted best =>
      rcases args with _ | ⟨v, _ | ⟨w, rest⟩⟩
      · cases h
      · change exists u, (if v.isNull then _ else _) = Except.ok u ∧ _
        split
        · exact ⟨_, rfl, rfl⟩
        · exact ⟨_, rfl, rfl⟩
      · cases h

theorem exists_foldlM_update {t : Total} {arguments : List (List Value)}
    (h : forall args, args ∈ arguments -> exists u, t.blank.update args = .ok u) :
    exists u, arguments.foldlM update t = .ok u := by
  induction arguments generalizing t with
  | nil =>
      exact ⟨t, rfl⟩
  | cons args rest ih =>
      rcases update_of_blank (h args List.mem_cons_self) with ⟨next, hnext, hblank⟩
      rcases ih (t := next) (fun other hother => hblank ▸ h other (List.mem_cons_of_mem _ hother))
        with ⟨u, hu⟩
      exact ⟨u, by rw [List.foldlM_cons, hnext, Outcome.ok_bind, hu]⟩

end Aggregate.Total

/-!
# Parts
-/

namespace Grouping

variable {α : Type} {g : Grouping α} {values : α -> List Value} {key : α -> String}
  {rows : List α}

/-- The rows of each key, in the order of the first rows; `ungrouped` asks for one part even of no
rows. -/
def parts (ungrouped : Bool) (key : α -> String) (rows : List α) : List (List α) :=
  if ungrouped && rows.isEmpty then [[]]
  else (rows.map key).eraseDups.map fun text => members key text rows

theorem eraseDups_snoc (texts : List String) (text : String) :
    (texts ++ [text]).eraseDups =
      if text ∈ texts then texts.eraseDups else texts.eraseDups ++ [text] := by
  rw [List.eraseDups_append]
  have hsingle : [text].eraseDups = [text] := rfl
  by_cases h : text ∈ texts <;> simp [List.removeAll, h, hsingle]

/-- Adding a row writes an entry under its key. -/
theorem exists_insert_of_add {found found' : Dict Pending} {row : α} (hrow : Reads g values key row)
    (h : g.add found row = .ok found') :
    exists pending, found' = found.insert (key row) pending := by
  rcases hrow with ⟨keys, hkeys, _, htext⟩
  rw [add, hkeys, Outcome.ok_bind] at h
  simp only [htext] at h
  split at h
  all_goals
    rcases Outcome.bind_eq_ok.mp h with ⟨pending, _, h⟩
    rcases Outcome.bind_eq_ok.mp h with ⟨ts, _, h⟩
    exact ⟨_, (Except.ok.inj h).symm⟩

/-- The keys are found in the order of their first rows. -/
theorem keys_of_foldlM_add (hrows : forall row, row ∈ rows -> Reads g values key row)
    {found : Dict Pending} (h : rows.foldlM g.add .empty = .ok found) :
    found.keys = (rows.map key).eraseDups := by
  induction rows using List.reverseRecOn generalizing found with
  | nil =>
      cases h
      rfl
  | append_singleton rows row ih =>
      rw [List.foldlM_append] at h
      rcases Outcome.bind_eq_ok.mp h with ⟨before, hbefore, h⟩
      rcases Outcome.bind_eq_ok.mp h with ⟨_, hadd, h⟩
      cases h
      have hrow := hrows row (List.mem_append_right _ (List.mem_singleton_self row))
      rcases exists_insert_of_add hrow hadd with ⟨pending, rfl⟩
      have hkeys := ih (fun r hr => hrows r (List.mem_append_left _ hr)) hbefore
      change (Dict.put _ _ _).map (·.1) = _
      change before.entries.map (·.1) = _ at hkeys
      rw [Dict.map_fst_put, hkeys, List.map_append, List.map_singleton, eraseDups_snoc]
      simp only [List.mem_eraseDups]

/-- If every part can be summarised, the groups are those of the parts. -/
theorem groups_eq (hrows : forall row, row ∈ rows -> Reads g values key row)
    (htallies : forall text, exists ts, g.tallies (members key text rows) = .ok ts)
    (ungrouped : Bool) :
    g.groups ungrouped rows = (parts ungrouped key rows).mapM (g.groupOf values) := by
  rcases foldlM_add hrows with ⟨found, hfound, hpends⟩ | ⟨_, text, e, _, _, herror⟩
  · rw [groups, hfound, Outcome.ok_bind, hpends.isEmpty_entries, parts]
    split
    · rw [List.mapM_cons, List.mapM_nil, begin, groupOf, tallies_nil]
      cases g.summaries.mapM start <;> rfl
    · rw [<- keys_of_foldlM_add hrows hfound, hpends.mapM_groupOf]
      rfl
  · rcases htallies text with ⟨ts, hts⟩
    rw [hts] at herror
    cases herror

/-- Rows taken apart by keys that differ are put together again. -/
theorem flatten_members {texts : List String} (hdistinct : texts.Nodup)
    (h : forall row, row ∈ rows -> key row ∈ texts) :
    (texts.map fun text => members key text rows).flatten.Perm rows := by
  induction texts generalizing rows with
  | nil =>
      cases rows with
      | nil =>
          exact List.Perm.refl _
      | cons row rest =>
          cases h row List.mem_cons_self
  | cons text texts ih =>
      rw [List.nodup_cons] at hdistinct
      have hothers : (texts.map fun other => members key other rows) =
          texts.map fun other => members key other (rows.filter fun row => !(key row == text)) := by
        refine List.map_congr_left ?_
        intro other hother
        rw [members, members, List.filter_filter]
        refine List.filter_congr ?_
        intro row _
        by_cases heq : key row = other
        · have hne : other ≠ text := fun h => hdistinct.1 (h ▸ hother)
          simp [heq, hne]
        · simp [heq]
      rw [List.map_cons, List.flatten_cons, hothers]
      have hrest := @ih (rows.filter fun row => !(key row == text)) hdistinct.2 (by
        intro row hrow
        rw [List.mem_filter] at hrow
        rcases List.mem_cons.mp (h row hrow.1) with heq | hmem
        · simp [heq] at hrow
        · exact hmem)
      exact (hrest.append_left _).trans (List.filter_append_perm _ rows)

theorem flatten_parts (ungrouped : Bool) (key : α -> String) (rows : List α) :
    (parts ungrouped key rows).flatten.Perm rows := by
  unfold parts
  split
  · rename_i hempty
    rw [Bool.and_eq_true, List.isEmpty_iff] at hempty
    rw [hempty.2]
    exact List.Perm.refl _
  · refine flatten_members (Run.nodup_eraseDups _) ?_
    intro row hrow
    exact List.mem_eraseDups.mpr (List.mem_map_of_mem hrow)

/-- Rows of two parts have different keys. -/
theorem pairwise_parts (ungrouped : Bool) (key : α -> String) (rows : List α) :
    (parts ungrouped key rows).Pairwise fun first second =>
      forall a b, a ∈ first -> b ∈ second -> key a ≠ key b := by
  unfold parts
  split
  · exact List.pairwise_singleton _ _
  · rw [List.pairwise_map]
    refine (Run.nodup_eraseDups _).imp ?_
    intro text text' hne a b ha hb heq
    rw [mem_members] at ha hb
    exact hne (ha.2.symm.trans (heq.trans hb.2))

end Grouping

namespace Step

open Aggregate (Total)
open Grouping (count tally)

/-!
# What groups show
-/

/-- The table of which groups are shown. -/
def tableOf (rows : List Row) : String :=
  (rows.head?.map (·.record.table)).getD ""

/-- What the group expressions and the aggregates are for each row. -/
structure Readings where
  shown : Row -> GroupKey -> Value
  key : Row -> GroupKey -> Value
  function : AggregateColumn -> Aggregate
  args : Row -> AggregateColumn -> List Value

namespace Readings

/-- Everything is evaluated to what is said, and aggregates take the arguments of every row. -/
structure Hold (v : Readings) (clock : Clock) (groups : List GroupKey)
    (columns : List AggregateColumn) (rows : List Row) : Prop where
  keys : forall row, row ∈ rows -> forall group, group ∈ groups ->
    groupValue clock row group = .ok (v.shown row group, v.key row group)
  functions : forall column, column ∈ columns ->
    Aggregate.ofName? column.function = some (v.function column)
  args : forall row, row ∈ rows -> forall column, column ∈ columns ->
    argValues clock column.arg row = .ok (v.args row column)
  accepted : forall row, row ∈ rows -> forall column, column ∈ columns ->
    exists total, (v.function column).start.update (v.args row column) = .ok total

/-- The text by which a row is grouped. -/
def keyText (v : Readings) (groups : List GroupKey) (row : Row) : String :=
  Value.tupleText (groups.map (v.key row))

/-- The rows of each group, in the order of their first rows. -/
def parts (v : Readings) (groups : List GroupKey) (rows : List Row) : List (List Row) :=
  Grouping.parts groups.isEmpty (v.keyText groups) rows

/-- The text by which the arguments of an aggregate are told apart. -/
def argText (column : AggregateColumn) (args : List Value) : String :=
  Value.tupleText (args.map (Value.keyIf (column.arg.any Sql.Scalar.isCaseSensitive)))

/-- The arguments that count: all of them, or the first ones of each text not seen before. -/
def counted (column : AggregateColumn) (seen : List String) (arguments : List (List Value)) :
    List (List Value) :=
  if column.distinct then firstOfEach (argText column) seen arguments else arguments

/-- The aggregate of the rows of a part. -/
def result (v : Readings) (column : AggregateColumn) (part : List Row) : Except EvalError Value :=
  ((counted column [] (part.map (v.args · column))).foldlM Total.update
    (v.function column).start).map Total.result

/-- The values of the first row of a part, under the names of the groups. -/
def visible (v : Readings) (groups : List GroupKey) : List Row -> List (String × Value)
  | [] => []
  | first :: _ => groups.map fun group => (group.output, v.shown first group)

/-- The row shows the values of the first row of the part and the aggregates of all its rows. -/
def Presents (v : Readings) (table : String) (groups : List GroupKey)
    (columns : List AggregateColumn) (part : List Row) (row : Row) : Prop :=
  exists results, columns.mapM (v.result · part) = .ok results ∧
    row = .ofRecord ⟨table, none,
      .ofList (v.visible groups part ++ (columns.map (·.output)).zip results)⟩

end Readings

variable {v : Readings} {clock : Clock} {groups : List GroupKey} {columns : List AggregateColumn}
  {rows part : List Row}

theorem Readings.Hold.reads (h : v.Hold clock groups columns rows) {row : Row} (hrow : row ∈ rows) :
    Grouping.Reads (grouping clock groups columns) (fun row => groups.map (v.shown row))
      (v.keyText groups) row := by
  refine ⟨groups.map fun group => (v.shown row group, v.key row group), ?_, ?_, ?_⟩
  · change groups.mapM (groupValue clock row) = _
    rw [Outcome.mapM_eq_ok, List.forall₂_map_right_iff, List.forall₂_same]
    exact h.keys row hrow
  · rw [List.map_map]
    rfl
  · rw [List.map_map]
    rfl

/-- A row is added to a total unless it is told apart by nothing from an earlier one. -/
theorem count_summary {column : AggregateColumn} {row : Row} {args : List Value}
    (hargs : argValues clock column.arg row = .ok args) (t : Total) (seen : List String) :
    count row (summary clock column) ⟨t, seen⟩ =
      if column.distinct && seen.contains (Readings.argText column args) then .ok ⟨t, seen⟩
      else t.update args >>= fun u =>
        .ok ⟨u, if column.distinct then Readings.argText column args :: seen else seen⟩ := by
  have hrow : (summary clock column).args row = .ok args := hargs
  rw [count, hrow, Outcome.ok_bind]
  cases hdistinct : column.distinct with
  | false =>
      simp [summary, hdistinct]
  | true =>
      simp [summary, hdistinct, Readings.argText]

theorem counted_cons (column : AggregateColumn) (seen : List String) (args : List Value)
    (rest : List (List Value)) :
    Readings.counted column seen (args :: rest) =
      if column.distinct && seen.contains (Readings.argText column args) then
        Readings.counted column seen rest
      else args :: Readings.counted column
        (if column.distinct then Readings.argText column args :: seen else seen) rest := by
  unfold Readings.counted
  cases column.distinct with
  | false =>
      rfl
  | true =>
      rfl

/-- Counting the rows of a part is adding up the arguments that count. -/
theorem foldlM_count {column : AggregateColumn}
    (hargs : forall row, row ∈ part -> argValues clock column.arg row = .ok (v.args row column))
    (t : Total) (seen : List String) {u : Total}
    (h : (Readings.counted column seen (part.map (v.args · column))).foldlM Total.update t =
      .ok u) :
    exists seen', part.foldlM (fun t row => count row (summary clock column) t) ⟨t, seen⟩ =
      .ok ⟨u, seen'⟩ := by
  induction part generalizing t seen with
  | nil =>
      have hsame : t = u := by
        unfold Readings.counted at h
        cases hdistinct : column.distinct <;> rw [hdistinct] at h <;> exact Except.ok.inj h
      exact ⟨seen, congrArg _ (congrArg (Grouping.Tally.mk · seen) hsame)⟩
  | cons row rest ih =>
      have hrest := ih fun r hr => hargs r (List.mem_cons_of_mem _ hr)
      rw [List.foldlM_cons, count_summary (hargs row List.mem_cons_self)]
      rw [List.map_cons, counted_cons] at h
      split
      · rename_i hskip
        rw [if_pos hskip] at h
        exact hrest t seen h
      · rename_i hcounts
        rw [if_neg hcounts, List.foldlM_cons] at h
        rcases Outcome.bind_eq_ok.mp h with ⟨next, hnext, h⟩
        rw [hnext]
        exact hrest next _ h

theorem mem_of_mem_counted {column : AggregateColumn} {arguments : List (List Value)}
    {seen : List String} {args : List Value} (h : args ∈ Readings.counted column seen arguments) :
    args ∈ arguments := by
  induction arguments generalizing seen with
  | nil =>
      unfold Readings.counted at h
      cases hdistinct : column.distinct <;> rw [hdistinct] at h <;> exact h
  | cons first rest ih =>
      rw [counted_cons] at h
      split at h
      · exact List.mem_cons_of_mem _ (ih h)
      · rcases List.mem_cons.mp h with rfl | h
        · exact List.mem_cons_self
        · exact List.mem_cons_of_mem _ (ih h)

/-- The aggregates of a part can be summed up, and are what the part shows. -/
theorem Readings.Hold.exists_tally (h : v.Hold clock groups columns rows) (hpart : part ⊆ rows)
    {column : AggregateColumn} (hcolumn : column ∈ columns) :
    exists t, tally (summary clock column) part = .ok t ∧
      v.result column part = .ok t.total.result := by
  have hblank := Total.blank_start (v.function column)
  have haccepted : forall args,
      args ∈ Readings.counted column [] (part.map (v.args · column)) ->
      exists u, (v.function column).start.blank.update args = .ok u := by
    intro args hargs
    rcases List.mem_map.mp (mem_of_mem_counted hargs) with ⟨row, hrow, rfl⟩
    rw [hblank]
    exact h.accepted row (hpart hrow) column hcolumn
  rcases Total.exists_foldlM_update haccepted with ⟨u, hu⟩
  rcases foldlM_count (fun row hrow => h.args row (hpart hrow) column hcolumn) _ [] hu with
    ⟨seen, hseen⟩
  refine ⟨⟨u, seen⟩, ?_, ?_⟩
  · have hstart : Grouping.start (summary clock column) = .ok ⟨(v.function column).start, []⟩ := by
      unfold Grouping.start
      rw [show (summary clock column).function = column.function from rfl,
        h.functions column hcolumn]
    rw [tally, hstart, Outcome.ok_bind, hseen]
  · rw [Readings.result, hu]
    rfl

/-- All aggregates of a part. -/
theorem Readings.Hold.exists_tallies (h : v.Hold clock groups columns rows) (hpart : part ⊆ rows) :
    exists ts, (grouping clock groups columns).tallies part = .ok ts ∧
      columns.mapM (v.result · part) = .ok (ts.map (·.total.result)) := by
  have hall : forall some : List AggregateColumn, some ⊆ columns ->
      exists ts, (some.map (summary clock)).mapM (tally · part) = .ok ts ∧
        some.mapM (v.result · part) = .ok (ts.map (·.total.result)) := by
    intro some hsome
    induction some with
    | nil =>
        exact ⟨[], rfl, rfl⟩
    | cons column rest ih =>
        rw [List.cons_subset] at hsome
        rcases h.exists_tally hpart hsome.1 with ⟨t, ht, hresult⟩
        rcases ih hsome.2 with ⟨ts, hts, hresults⟩
        refine ⟨t :: ts, ?_, ?_⟩
        · rw [List.map_cons, List.mapM_cons, ht, Outcome.ok_bind, hts]
          rfl
        · rw [List.mapM_cons, hresult, Outcome.ok_bind, hresults]
          rfl
  exact hall columns (List.Subset.refl _)

/-- The group of a part is shown as the part presents it. -/
theorem Readings.Hold.presents (h : v.Hold clock groups columns rows) (hpart : part ⊆ rows)
    (table : String) : exists group,
      (grouping clock groups columns).groupOf (fun row => groups.map (v.shown row)) part =
        .ok group ∧
      v.Presents table groups columns part (showGroup table groups columns group) := by
  rcases h.exists_tallies hpart with ⟨ts, hts, hresults⟩
  rw [Grouping.groupOf, hts]
  refine ⟨_, rfl, _, hresults, ?_⟩
  cases part with
  | nil =>
      simp [showGroup, Readings.visible]
  | cons first rest =>
      simp [showGroup, Readings.visible, List.zip_map']

theorem Readings.subset_of_mem_parts (hpart : part ∈ v.parts groups rows) : part ⊆ rows := by
  unfold parts Grouping.parts at hpart
  split at hpart
  · rw [List.mem_singleton.mp hpart]
    exact List.nil_subset rows
  · rcases List.mem_map.mp hpart with ⟨text, _, rfl⟩
    exact List.filter_subset_self _

/-- The step shows every part by a row. -/
theorem Readings.Hold.aggregateRows (h : v.Hold clock groups columns rows) :
    exists out, Step.aggregateRows clock groups columns rows = .ok out ∧
      List.Forall₂ (v.Presents (tableOf rows) groups columns) (v.parts groups rows) out := by
  have htallies : forall text, exists ts, (grouping clock groups columns).tallies
      (Grouping.members (v.keyText groups) text rows) = .ok ts := by
    intro text
    rcases h.exists_tallies (List.filter_subset_self rows) with ⟨ts, hts, _⟩
    exact ⟨ts, hts⟩
  have hgroups := Grouping.groups_eq (fun row hrow => h.reads hrow) htallies groups.isEmpty
  have hshown : forall some : List (List Row), (forall part, part ∈ some -> part ⊆ rows) ->
      exists found, some.mapM ((grouping clock groups columns).groupOf
          fun row => groups.map (v.shown row)) = .ok found ∧
        List.Forall₂ (v.Presents (tableOf rows) groups columns) some
          (found.map (showGroup (tableOf rows) groups columns)) := by
    intro some hsome
    induction some with
    | nil =>
        exact ⟨[], rfl, .nil⟩
    | cons part rest ih =>
        rw [List.forall_mem_cons] at hsome
        rcases h.presents hsome.1 (tableOf rows) with
          ⟨group, hgroup, hpresents⟩
        rcases ih hsome.2 with ⟨found, hfound, hall⟩
        refine ⟨group :: found, ?_, hall.cons hpresents⟩
        rw [List.mapM_cons, hgroup, Outcome.ok_bind, hfound]
        rfl
  rcases hshown _ (fun part hpart => Readings.subset_of_mem_parts hpart) with ⟨found, hfound, hall⟩
  refine ⟨_, ?_, hall⟩
  rw [Step.aggregateRows, hgroups, show (Grouping.parts _ _ rows).mapM _ = _ from hfound]
  rfl

/-!
# Names of columns
-/

theorem get_ofRecord {table name : String} {value : Value} {entries : List (String × Value)}
    (hdistinct : (entries.map (·.1)).Nodup) (h : (name, value) ∈ entries) :
    (Row.ofRecord ⟨table, none, .ofList entries⟩).get name = value := by
  change ((Dict.ofList entries).get? name).getD .null = value
  rw [Dict.ofList, Dict.get?_insertAll_of_mem hdistinct h]
  rfl

theorem exists_mem_zip {β γ : Type} {r : β -> γ -> Prop} {l : List β} {m : List γ}
    (h : List.Forall₂ r l m) {b : β} (hb : b ∈ l) : exists c, (b, c) ∈ l.zip m ∧ r b c := by
  induction h with
  | nil =>
      cases hb
  | cons hfirst _ ih =>
      rcases List.mem_cons.mp hb with rfl | hrest
      · exact ⟨_, List.mem_cons_self, hfirst⟩
      · rcases ih hrest with ⟨c, hc, hr⟩
        exact ⟨c, List.mem_cons_of_mem _ hc, hr⟩

/-- Under names that differ, the values and the results of a part can be read. -/
theorem Readings.Presents.get_eq {table : String} {row : Row}
    (h : v.Presents table groups columns part row)
    (hdistinct : (groups.map (·.output) ++ columns.map (·.output)).Nodup) :
    (forall first rest, part = first :: rest -> forall group, group ∈ groups ->
      row.get group.output = v.shown first group) ∧
    (forall column, column ∈ columns -> v.result column part = .ok (row.get column.output)) := by
  rcases h with ⟨results, hresults, rfl⟩
  have hvisible : ((v.visible groups part).map (·.1)).Sublist (groups.map (·.output)) := by
    cases part with
    | nil =>
        exact List.nil_sublist _
    | cons first rest =>
        rw [visible, List.map_map]
        exact List.Sublist.refl _
  have hnames : ((v.visible groups part ++
      (columns.map (·.output)).zip results).map (·.1)).Nodup := by
    rw [List.map_append]
    exact (hvisible.append (Grouping.sublist_fst_zip _ results)).nodup hdistinct
  constructor
  · rintro first rest rfl group hgroup
    refine get_ofRecord hnames (List.mem_append_left _ ?_)
    exact List.mem_map_of_mem hgroup
  · intro column hcolumn
    rcases exists_mem_zip (Outcome.mapM_eq_ok.mp hresults) hcolumn with ⟨result, hzip, hresult⟩
    rw [hresult]
    refine (congrArg Except.ok (get_ofRecord hnames (List.mem_append_right _ ?_))).symm
    rw [List.zip_map_left]
    exact List.mem_map_of_mem hzip

/-!
# Counting rows
-/

theorem foldlM_update_count (n : Int) (part : List Row) :
    (part.map fun _ => ([] : List Value)).foldlM Total.update (.count n) =
      .ok (.count (n + part.length)) := by
  induction part generalizing n with
  | nil =>
      exact congrArg (fun n => Except.ok (Total.count n)) (Int.add_zero n).symm
  | cons row rest ih =>
      rw [List.map_cons, List.foldlM_cons]
      refine (ih (n + 1)).trans (congrArg (fun n => Except.ok (Total.count n)) ?_)
      rw [List.length_cons]
      omega

/-- Without an argument the rows themselves are counted. -/
theorem Readings.Hold.result_count (h : v.Hold clock groups columns rows) (hpart : part ⊆ rows)
    {column : AggregateColumn} (hcolumn : column ∈ columns) (hcount : v.function column = .count)
    (harg : column.arg = none) (hdistinct : column.distinct = false) :
    v.result column part = .ok (.int part.length) := by
  have hargs : part.map (v.args · column) = part.map fun _ => [] := by
    refine List.map_congr_left ?_
    intro row hrow
    have hrow := h.args row (hpart hrow) column hcolumn
    rw [harg] at hrow
    exact (Except.ok.inj hrow).symm
  rw [result, counted, hdistinct, if_neg Bool.false_ne_true, hargs, hcount]
  change ((part.map fun _ => ([] : List Value)).foldlM Total.update (.count 0)).map _ = _
  rw [foldlM_update_count, Int.zero_add]
  rfl

/-- The rows of all parts together are counted. -/
theorem Readings.Hold.sum_counts (h : v.Hold clock groups columns rows)
    {column : AggregateColumn} (hcolumn : column ∈ columns) (hcount : v.function column = .count)
    (harg : column.arg = none) (hdistinct : column.distinct = false) :
    exists counts : List Nat,
      (v.parts groups rows).mapM (v.result column) =
        .ok (counts.map fun n : Nat => Value.int n) ∧
      counts.sum = rows.length := by
  refine ⟨(v.parts groups rows).map List.length, ?_, ?_⟩
  · rw [Outcome.mapM_eq_ok, List.map_map, List.forall₂_map_right_iff, List.forall₂_same]
    intro part hpart
    exact h.result_count (Readings.subset_of_mem_parts hpart) hcolumn hcount harg hdistinct
  · rw [<- List.length_flatten]
    exact (Grouping.flatten_parts _ _ rows).length_eq

/-!
# Failures
-/

theorem add_error {row : Row} {group : GroupKey} {e : EvalError} (hgroup : group ∈ groups)
    (h : groupValue clock row group = .error e) (found : Dict Grouping.Pending) :
    exists e, (grouping clock groups columns).add found row = .error e := by
  rcases Grouping.mapM_error hgroup h with ⟨e', hkeys⟩
  have hkeys' : (grouping clock groups columns).keys row = .error e' := hkeys
  exact ⟨e', by rw [Grouping.add, hkeys']; rfl⟩

theorem aggregateRows_error {row : Row} {group : GroupKey} {e : EvalError} (hrow : row ∈ rows)
    (hgroup : group ∈ groups) (h : groupValue clock row group = .error e) :
    exists e, aggregateRows clock groups columns rows = .error e := by
  have hfold : forall found, exists e,
      rows.foldlM (grouping clock groups columns).add found = .error e := by
    induction rows with
    | nil =>
        cases hrow
    | cons first rest ih =>
        intro found
        rw [List.foldlM_cons]
        rcases List.mem_cons.mp hrow with rfl | hrest
        · rcases add_error hgroup h found with ⟨e', he'⟩
          rw [he']
          exact ⟨e', rfl⟩
        · cases (grouping clock groups columns).add found first with
          | error e' =>
              exact ⟨e', rfl⟩
          | ok next =>
              exact ih hrest next
  rcases hfold .empty with ⟨e', he'⟩
  refine ⟨e', ?_⟩
  rw [aggregateRows, Grouping.groups, he']
  rfl

/-!
# The partition
-/

/--
Every part of the rows is shown by one row, and every row is in one part.  The parts stand for the
different texts of keys in the order of their first rows.  Keys that match have one text exactly if
they are equal, but for a missing value and a double that is not finite: those two fall together.
-/
theorem rows_in_groups (clock : Clock) (groups : List GroupKey) (columns : List AggregateColumn)
    (rows : List Row) :
    (forall v : Readings, v.Hold clock groups columns rows ->
      (exists out, Step.aggregateRows clock groups columns rows = .ok out ∧
        List.Forall₂ (v.Presents (tableOf rows) groups columns) (v.parts groups rows) out ∧
        ((groups.map (·.output) ++ columns.map (·.output)).Nodup ->
          List.Forall₂ (fun part row =>
            (forall first rest, part = first :: rest -> forall group, group ∈ groups ->
              row.get group.output = v.shown first group) ∧
            (forall column, column ∈ columns ->
              v.result column part = .ok (row.get column.output)))
            (v.parts groups rows) out)) ∧
      (v.parts groups rows).flatten.Perm rows ∧
      ((v.parts groups rows).Pairwise fun first second =>
        forall a b, a ∈ first -> b ∈ second -> v.keyText groups a ≠ v.keyText groups b) ∧
      (forall a b, List.Forall₂ Value.Matched (groups.map (v.key a)) (groups.map (v.key b)) ->
        (v.keyText groups a = v.keyText groups b <->
          List.Forall₂ (fun x y : Value => x = y ∨ x.Unwritten ∧ y.Unwritten)
            (groups.map (v.key a)) (groups.map (v.key b))) ∧
        ((forall x, x ∈ groups.map (v.key a) ++ groups.map (v.key b) -> Value.Legible x) ->
          (v.keyText groups a = v.keyText groups b <->
            groups.map (v.key a) = groups.map (v.key b)))) ∧
      (forall column, column ∈ columns -> v.function column = .count -> column.arg = none ->
        column.distinct = false ->
        exists counts : List Nat,
          (v.parts groups rows).mapM (v.result column) =
            .ok (counts.map fun n : Nat => Value.int n) ∧
          counts.sum = rows.length)) ∧
    (forall row group e, row ∈ rows -> group ∈ groups -> groupValue clock row group = .error e ->
      exists e, Step.aggregateRows clock groups columns rows = .error e) := by
  constructor
  · intro v h
    rcases h.aggregateRows with ⟨out, hout, hpresents⟩
    refine ⟨⟨out, hout, hpresents, ?_⟩, Grouping.flatten_parts _ _ rows,
      Grouping.pairwise_parts _ _ rows, ?_, ?_⟩
    · intro hdistinct
      exact hpresents.imp fun part row hrow => hrow.get_eq hdistinct
    · intro a b hmatched
      exact ⟨Value.tupleText_eq_iff_of_matched hmatched,
        Value.tupleText_eq_iff_of_legible hmatched⟩
    · intro column hcolumn hcount harg hdistinct
      exact h.sum_counts hcolumn hcount harg hdistinct
  · intro row group e hrow hgroup hfailure
    exact aggregateRows_error hrow hgroup hfailure

theorem isDay_coinDay : Calendar.IsDay 2000 1 1 := by
  decide

def coinClock : Clock :=
  ⟨.midnight ⟨2000, 1, 1, isDay_coinDay⟩, .midnight ⟨2000, 1, 1, isDay_coinDay⟩⟩

def coinRow (weight mint : Value) : Row :=
  .ofRecord ⟨"coin", none, .ofList [("weight", weight), ("mint", mint)]⟩

/-- A coin that was never weighed. -/
def unweighedCoin : Row :=
  coinRow .null (.str "b")

/-- A coin whose weight is no number. -/
def weightlessCoin : Row :=
  coinRow (.float (0.0 / 0.0)) (.str "c")

def coinRows : List Row :=
  [coinRow (.int 1) (.str "a"), unweighedCoin, coinRow (.int 1) (.str "A"), weightlessCoin]

def coinGroups : List GroupKey :=
  [⟨.column (.ofName "weight"), "weight"⟩]

/-- The coins, and the mints that they come from. -/
def coinColumns : List AggregateColumn :=
  [⟨"COUNT", none, false, "coins"⟩, ⟨"COUNT", some (.column (.ofName "mint")), true, "mints"⟩]

def coinReadings : Readings where
  shown row _ := row.get "weight"
  key row _ := row.get "weight"
  function _ := .count
  args row column := if column.arg.isNone then [] else [row.get "mint"]

theorem coinReadings_hold : coinReadings.Hold coinClock coinGroups coinColumns coinRows where
  keys := by
    intro row hrow group hgroup
    rw [List.mem_singleton.mp hgroup]
    simp only [coinRows, List.mem_cons, List.not_mem_nil, or_false] at hrow
    rcases hrow with rfl | rfl | rfl | rfl <;> rfl
  functions := by
    intro column hcolumn
    simp only [coinColumns, List.mem_cons, List.not_mem_nil, or_false] at hcolumn
    rcases hcolumn with rfl | rfl <;> decide
  args := by
    intro row _ column hcolumn
    simp only [coinColumns, List.mem_cons, List.not_mem_nil, or_false] at hcolumn
    rcases hcolumn with rfl | rfl <;> rfl
  accepted := by
    intro row _ column hcolumn
    simp only [coinColumns, List.mem_cons, List.not_mem_nil, or_false] at hcolumn
    rcases hcolumn with rfl | rfl <;> exact ⟨_, rfl⟩

/-- A coin that was never weighed is in the group of the one whose weight is no number. -/
theorem coins_in_groups :
    (exists out, aggregateRows coinClock coinGroups coinColumns coinRows = .ok out ∧
      List.Forall₂ (coinReadings.Presents "coin" coinGroups coinColumns)
        (coinReadings.parts coinGroups coinRows) out) ∧
    (coinReadings.parts coinGroups coinRows).flatten.Perm coinRows ∧
    coinReadings.keyText coinGroups unweighedCoin =
      coinReadings.keyText coinGroups weightlessCoin := by
  rcases (rows_in_groups coinClock coinGroups coinColumns coinRows).1 coinReadings
    coinReadings_hold with ⟨⟨out, hout, hpresents, _⟩, hperm, _, htexts, _⟩
  refine ⟨⟨out, hout, hpresents⟩, hperm, ?_⟩
  have hmatched : List.Forall₂ Value.Matched (coinGroups.map (coinReadings.key unweighedCoin))
      (coinGroups.map (coinReadings.key weightlessCoin)) := .cons (Or.inl rfl) .nil
  refine (htexts _ _ hmatched).1.mpr (.cons (Or.inr ⟨Or.inl rfl, Or.inr ⟨_, rfl, ?_⟩⟩) .nil)
  decide

end Step
end RecordSql
