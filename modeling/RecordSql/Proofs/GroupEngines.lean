import RecordSql.Fetch.Evaluate
import RecordSql.Proofs.GroupOrder
import RecordSql.Proofs.GroupSteps

/-!
# Grouping by the platform and grouping by a local step

The platform groups joined rows by their attributes.  A local step groups the rows that have been
retrieved, after some of their columns have got keys of their own.  Both are groupings of the joined
rows, with cells and summaries that can be compared.
-/

namespace RecordSql

open Outcome (Agree)

/-!
# Grouping the images of rows
-/

section

variable {α β : Type}

/-- The summary of the images of rows. -/
def Summary.comap (f : α -> β) (s : Summary β) : Summary α :=
  ⟨s.function, fun row => s.args (f row), s.distinct⟩

namespace Grouping

def comap (f : α -> β) (g : Grouping β) : Grouping α :=
  ⟨fun row => g.keys (f row), g.summaries.map (·.comap f)⟩

theorem add_comap (f : α -> β) (g : Grouping β) (sofar : Dict Pending) (row : α) :
    (g.comap f).add sofar row = g.add sofar (f row) := by
  have hbegin : (g.comap f).begin = g.begin := by
    funext values
    rw [begin, comap, List.mapM_map]
    rfl
  have hcount : forall ts : List Tally, (((g.comap f).summaries.zip ts).mapM fun pair =>
      count row pair.1 pair.2) = (g.summaries.zip ts).mapM fun pair =>
        count (f row) pair.1 pair.2 := by
    intro ts
    rw [comap, List.zip_map_left, List.mapM_map]
    rfl
  rw [add, add, hbegin]
  simp only [hcount]
  rfl

theorem groups_map (f : α -> β) (g : Grouping β) (ungrouped : Bool) (rows : List α) :
    g.groups ungrouped (rows.map f) = (g.comap f).groups ungrouped rows := by
  have hadd : (g.comap f).add = fun sofar row => g.add sofar (f row) := by
    funext sofar row
    exact add_comap f g sofar row
  rw [groups, groups, List.foldlM_map, hadd]
  have hbegin : (g.comap f).begin [] = g.begin [] := by
    rw [begin, comap, List.mapM_map]
    rfl
  rw [hbegin]

end Grouping

end

/-!
# The platform
-/

namespace Fetch

/-- The attributes that rows are grouped by. -/
def groupsOf (attributes : List Placed) : List Placed :=
  attributes.filter (·.attr.groupBy)

/-- The attributes that are summarised. -/
def summedOf (attributes : List Placed) : List Placed :=
  attributes.filter (·.attr.aggregation.isSome)

/-- How the platform groups joined rows. -/
def placedGrouping (attributes : List Placed) : Grouping Joined where
  keys := fun row =>
    .ok ((groupsOf attributes).map fun g => (row.get g.key, (row.get g.key).key))
  summaries := (summedOf attributes).filterMap fun a => a.attr.aggregation.map (summary a)

/-- What a group shows of an attribute. -/
def cell (a : Placed) : String × (Joined -> Value) :=
  (a.output, fun row => row.get a.key)

/-- What a group shows of an attribute that is summarised. -/
def sum (a : Placed) : String × Summary Joined :=
  (a.output, summary a (a.attr.aggregation.getD .count))

theorem filterMap_summary (attributes : List Placed) :
    ((summedOf attributes).filterMap fun a => a.attr.aggregation.map (summary a)) =
      ((summedOf attributes).map sum).map (·.2) := by
  rw [List.map_map, <- List.filterMap_eq_map]
  refine List.filterMap_congr ?_
  intro a ha
  rcases Option.isSome_iff_exists.mp (List.mem_filter.mp ha).2 with ⟨aggregation, h⟩
  rw [h, Function.comp_apply, Function.comp_apply, sum, h]
  rfl

theorem labelled_placedGrouping (attributes : List Placed) (rows : List Joined) :
    Grouping.Labelled (placedGrouping attributes) ((groupsOf attributes).map cell)
      ((summedOf attributes).map sum)
      (columnsKey Joined.get ((groupsOf attributes).map Placed.key)) rows := by
  refine ⟨filterMap_summary attributes, ?_⟩
  intro row _
  refine ⟨_, rfl, ?_, ?_⟩
  · change List.map _ (List.map _ _) = List.map _ (List.map cell _)
    rw [List.map_map, List.map_map]
    rfl
  · rw [columnsKey, List.map_map, List.map_map]
    rfl

/-- The platform returns a record for each group. -/
theorem agree_aggregateRows (table : String) (attributes : List Placed) (rows : List Joined) :
    Agree (fun records found => records.map (fun r => (Row.ofRecord r).view) = found.map fun group =>
        (Grouping.look ((groupsOf attributes).map Placed.output)
          ((summedOf attributes).map Placed.output) group, Dict.empty))
      (aggregateRows table attributes rows)
      ((placedGrouping attributes).groups (groupsOf attributes).isEmpty rows) := by
  rw [aggregateRows]
  simp only
  split
  · rename_i e hfound
    rw [show (placedGrouping attributes).groups (groupsOf attributes).isEmpty rows = .error e
      from hfound]
    trivial
  · rename_i found hfound
    rw [show (placedGrouping attributes).groups (groupsOf attributes).isEmpty rows = .ok found
      from hfound]
    change List.map _ (List.map _ found) = _
    rw [List.map_map]
    rfl

end Fetch

/-!
# Keys of retrieved rows
-/

open Sql (Column Scalar)

namespace Row

/-- The row with a key for a column that disregards case. -/
def foldColumn (r : Row) (c : Column) : Row :=
  { r with keys := r.keys.insert c.rowKey (r.get c.rowKey).key }

def foldColumns (r : Row) (columns : List Column) : Row :=
  columns.foldl foldColumn r

theorem record_foldColumns (r : Row) (columns : List Column) :
    (r.foldColumns columns).record = r.record := by
  induction columns generalizing r with
  | nil =>
      rfl
  | cons c rest ih =>
      exact ih (r.foldColumn c)

theorem get?_keys_foldColumns (r : Row) (columns : List Column) (name : String) :
    (r.foldColumns columns).keys.get? name =
      if name ∈ columns.map Column.rowKey then some (r.get name).key else r.keys.get? name := by
  induction columns generalizing r with
  | nil =>
      rfl
  | cons c rest ih =>
      have hrest := ih (r.foldColumn c)
      have hget : (r.foldColumn c).get name = r.get name := rfl
      have hkeys : (r.foldColumn c).keys.get? name =
          if name = c.rowKey then some (r.get c.rowKey).key else r.keys.get? name :=
        Dict.get?_insert r.keys c.rowKey name _
      rw [hget, hkeys] at hrest
      rw [show r.foldColumns (c :: rest) = (r.foldColumn c).foldColumns rest from rfl, hrest,
        List.map_cons]
      by_cases heq : name = c.rowKey
      · subst heq
        simp
      · simp [heq]

/-- Values that are no texts have no need of a key of their own. -/
theorem keyOf_foldColumns {r : Record} {columns : List Column} {c : Column}
    (h : (r.get c.rowKey).kind? = some .text -> c ∈ columns) :
    ((Row.ofRecord r).foldColumns columns).keyOf c = (r.get c.rowKey).key := by
  rw [keyOf, get?_keys_foldColumns]
  split
  · rfl
  · rename_i hnot
    rw [Value.key_eq_of_not_text fun htext => hnot (List.mem_map_of_mem (h htext)),
      Row.get, record_foldColumns]
    rfl

end Row

/-!
# A local step
-/

namespace Step

open Fetch (Joined columnsKey)

theorem foldlM_foldCase (clock : Clock) (columns : List Column) (rows : List Row) :
    (columns.map Step.foldCase).foldlM (fun rows step => step.apply clock rows) rows =
      .ok (rows.map (·.foldColumns columns)) := by
  induction columns generalizing rows with
  | nil =>
      rw [List.map_nil, List.foldlM_nil]
      exact congrArg Except.ok (List.map_id' rows).symm
  | cons c rest ih =>
      have hfirst : (Step.foldCase c).apply clock rows = .ok (rows.map (·.foldColumn c)) := rfl
      rw [List.map_cons, List.foldlM_cons, hfirst, Outcome.ok_bind, ih, List.map_map]
      rfl

/-- What a group shows of a column. -/
def cell (g : Column × String) : String × (Joined -> Value) :=
  (g.2, fun row => row.get g.1.rowKey)

def groupKey (g : Column × String) : GroupKey :=
  ⟨.column g.1, g.2⟩

/-- What a group shows of a summary of retrieved rows. -/
def sum (clock : Clock) (shown : Joined -> Row) (c : AggregateColumn) : String × Summary Joined :=
  (c.output, (summary clock c).comap shown)

variable {shown : Joined -> Row} {groups : List (Column × String)} {rows : List Joined}

theorem labelled_grouping (clock : Clock)
    (hget : forall g, g ∈ groups -> forall row,
      (shown row).get g.1.rowKey = row.get g.1.rowKey)
    (hkey : forall g, g ∈ groups -> forall row, row ∈ rows ->
      (shown row).keyOf g.1 = (row.get g.1.rowKey).key) (columns : List AggregateColumn) :
    Grouping.Labelled ((grouping clock (groups.map groupKey) columns).comap shown)
      (groups.map cell) (columns.map (sum clock shown))
      (columnsKey Joined.get (groups.map (·.1.rowKey))) rows := by
  constructor
  · change List.map _ (List.map _ columns) = _
    rw [List.map_map, List.map_map]
    rfl
  · intro row hrow
    refine ⟨groups.map fun g => ((shown row).get g.1.rowKey, (shown row).keyOf g.1), ?_, ?_, ?_⟩
    · change (groups.map groupKey).mapM (groupValue clock (shown row)) = _
      rw [List.mapM_map]
      exact List.mapM_pure
    · change _ = List.map _ (List.map cell groups)
      rw [List.map_map, List.map_map]
      exact List.map_congr_left fun g hg => hget g hg row
    · rw [columnsKey, List.map_map, List.map_map]
      exact congrArg Value.tupleText (List.map_congr_left fun g hg => hkey g hg row hrow)

/-- A local step returns a row for each group. -/
theorem agree_aggregateRows (clock : Clock) (groups : List (Column × String))
    (columns : List AggregateColumn) (shown : Joined -> Row) (rows : List Joined) :
    Agree (fun rows found => rows.map Row.view = found.map fun group =>
        (Grouping.look ((groups.map cell).map (·.1))
          ((columns.map (sum clock shown)).map (·.1)) group, Dict.empty))
      (aggregateRows clock (groups.map groupKey) columns (rows.map shown))
      (((grouping clock (groups.map groupKey) columns).comap shown).groups groups.isEmpty rows) := by
  have hempty : (groups.map groupKey).isEmpty = groups.isEmpty := List.isEmpty_map
  rw [aggregateRows, Grouping.groups_map, hempty]
  cases ((grouping clock (groups.map groupKey) columns).comap shown).groups groups.isEmpty rows with
  | error e =>
      trivial
  | ok found =>
      change List.map _ (List.map _ found) = _
      rw [List.map_map, List.map_map, List.map_map]
      refine List.map_congr_left ?_
      intro group _
      rw [Function.comp_apply, showGroup, List.map_map]
      rfl

end Step

/-!
# Agreement
-/

open Fetch (Joined Placed SortKey Uniform columnsKey groupsOf sortBy summedOf)

/--
The platform and a local step group the same rows in the same way, if they group by the same columns
and compute the same summaries, and the retrieved rows are sorted by columns of the groups.
-/
theorem agree_engines (clock : Clock) (table : String) {attributes : List Placed}
    {groups : List (Column × String)} {columns : List AggregateColumn} {shown : Joined -> Row}
    {rows : List Joined} {keys : List SortKey}
    (hget : forall g, g ∈ groups -> forall row,
      (shown row).get g.1.rowKey = row.get g.1.rowKey)
    (hkey : forall g, g ∈ groups -> forall row, row ∈ rows ->
      (shown row).keyOf g.1 = (row.get g.1.rowKey).key)
    (huniform : forall g, g ∈ groups -> Uniform Joined.get rows g.1.rowKey)
    (hkeys : forall key, key ∈ keys -> key.name ∈ groups.map (·.1.rowKey))
    (hgroups : ((groupsOf attributes).map fun a => (a.output, a.key)).Perm
      (groups.map fun g => (g.2, g.1.rowKey)))
    (hsums : ((summedOf attributes).map Fetch.sum).Perm (columns.map (Step.sum clock shown)))
    (hdistinct : (groups.map (·.2) ++ columns.map (·.output)).Nodup) :
    Agree (fun records rows => SameRows (records.map Row.ofRecord) rows)
      (Fetch.aggregateRows table attributes rows)
      (Step.aggregateRows clock (groups.map Step.groupKey) columns
        ((sortBy Joined.get keys rows).map shown)) := by
  have hsorted : (sortBy Joined.get keys rows).Perm rows := Sorting.stable_perm _ _
  have hcells : ((groupsOf attributes).map Fetch.cell).Perm (groups.map Step.cell) := by
    have hmap := hgroups.map fun x => (x.1, fun row : Joined => row.get x.2)
    rw [List.map_map, List.map_map] at hmap
    exact hmap
  have hnames : ((groupsOf attributes).map Placed.key).Perm (groups.map (·.1.rowKey)) := by
    have hmap := hgroups.map (·.2)
    rw [List.map_map, List.map_map] at hmap
    exact hmap
  have hcolumns : forall name, name ∈ groups.map (·.1.rowKey) -> Uniform Joined.get rows name := by
    intro name hname
    rcases List.mem_map.mp hname with ⟨g, hg, rfl⟩
    exact huniform g hg
  have hempty : groups.isEmpty = (groupsOf attributes).isEmpty := by
    have hlength := hgroups.length_eq
    rw [List.length_map, List.length_map] at hlength
    rw [Bool.eq_iff_iff, List.isEmpty_iff_length_eq_zero, List.isEmpty_iff_length_eq_zero, hlength]
  have hmembers : forall row, row ∈ rows ->
      Grouping.members (columnsKey Joined.get ((groupsOf attributes).map Placed.key))
        (columnsKey Joined.get ((groupsOf attributes).map Placed.key) row) rows =
      Grouping.members (columnsKey Joined.get (groups.map (·.1.rowKey)))
        (columnsKey Joined.get (groups.map (·.1.rowKey)) row) (sortBy Joined.get keys rows) := by
    intro row hrow
    rw [Fetch.members_sortBy hcolumns hkeys hrow]
    exact (Fetch.members_congr hcolumns hnames.symm hrow).symm
  have houtputs : (((groupsOf attributes).map Fetch.cell).map (·.1) ++
      ((summedOf attributes).map Fetch.sum).map (·.1)).Nodup := by
    have hperm := (hcells.map (·.1)).append (hsums.map (·.1))
    rw [hperm.nodup_iff, List.map_map, List.map_map]
    exact hdistinct
  have hlooks := Grouping.agree_looks (Fetch.labelled_placedGrouping attributes rows)
    (Step.labelled_grouping clock hget (fun g hg row hrow => hkey g hg row
      (hsorted.mem_iff.mp hrow)) columns) hcells hsums houtputs hsorted.symm hmembers
    (groupsOf attributes).isEmpty
  have hnative := Fetch.agree_aggregateRows table attributes rows
  have hlocal := Step.agree_aggregateRows clock groups columns shown (sortBy Joined.get keys rows)
  rw [hempty] at hlocal
  refine ((hnative.trans hlooks).trans hlocal.symm).mono ?_
  rintro records shownRows ⟨found', ⟨found, hrecords, hfound⟩, hshown⟩
  change ((records.map Row.ofRecord).map Row.view).Perm (shownRows.map Row.view)
  have hviews := hfound.map fun look => (look, (Dict.empty : Dict Value))
  rw [List.map_map, List.map_map] at hviews
  rw [List.map_map, hshown]
  refine (List.Perm.of_eq hrecords).trans ?_
  rw [List.map_map, List.map_map] at hviews
  exact hviews

end RecordSql
