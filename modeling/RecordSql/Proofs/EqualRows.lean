import RecordSql.Fetch.Evaluate
import RecordSql.Proofs.DocumentText

/-!
# Equal rows

Rows are compared column by column, and case counts only in some of the columns.  The platform
compares whole records and disregards case everywhere; if all that it returns is shown, it tells
records apart by the rows that they show.
-/

namespace RecordSql

/-- The values by which a row is compared; case counts in the marked columns only. -/
def foldRow (marks : List Bool) (row : List Value) : List Value :=
  List.zipWith Value.keyIf marks row

/-- The rows are equal in all columns, as far as their case counts. -/
def SameRow (marks : List Bool) (a b : List Value) : Prop :=
  List.Forall₂ Value.SameText (foldRow marks a) (foldRow marks b)

theorem sameRow_iff {marks : List Bool} {a b : List Value} (h : a.length = b.length) :
    SameRow marks a b <->
      Value.tupleText (foldRow marks a) = Value.tupleText (foldRow marks b) := by
  refine (Value.tupleText_eq_iff ?_).symm
  rw [foldRow, foldRow, List.length_zipWith, List.length_zipWith, h]

theorem ofKind_keyIf {kind : Value.Kind} {v : Value} (h : Value.OfKind kind v) (caseSensitive : Bool) :
    Value.OfKind kind (v.keyIf caseSensitive) := by
  cases caseSensitive with
  | true =>
      exact h
  | false =>
      cases v <;> exact h

/-- Rows with values of the same kinds are equal if the values are, as far as their case counts. -/
theorem SameRow.fold_eq {marks : List Bool} {a b : List Value} (h : SameRow marks a b)
    (halike : List.Forall₂ Value.Alike a b) : foldRow marks a = foldRow marks b := by
  have hfolded : List.Forall₂ Value.Alike (foldRow marks a) (foldRow marks b) := by
    unfold foldRow
    induction halike generalizing marks with
    | nil =>
        rw [List.zipWith_nil_right]
        exact .nil
    | cons hfirst _ ih =>
        cases marks with
        | nil =>
            exact .nil
        | cons mark rest =>
            rcases hfirst with ⟨kind, hkind, hv, hw⟩
            refine .cons ⟨kind, hkind, ofKind_keyIf hv mark, ofKind_keyIf hw mark⟩ (ih ?_)
            cases h with
            | cons _ hrest =>
                exact hrest
  exact Value.tupleText_inj hfolded ((Value.tupleText_eq_iff hfolded.length_eq).mpr h)

/-!
# Records that the platform returns

All records of a native query hold the same names.  The platform does not tell two of them apart if
their values under these names are the same, but for case.
-/

namespace Dict

variable {α : Type}

theorem map_fst_put (name : String) (value : α) (entries : List (String × α)) :
    (put name value entries).map (·.1) =
      if name ∈ entries.map (·.1) then entries.map (·.1) else entries.map (·.1) ++ [name] := by
  induction entries with
  | nil =>
      rfl
  | cons entry rest ih =>
      rcases entry with ⟨key, old⟩
      by_cases hkey : key = name
      · simp [put, hkey]
      · have hne : name ≠ key := fun h => hkey h.symm
        simp only [put, hkey, if_false, List.map_cons, ih, List.mem_cons, hne, false_or]
        split <;> rfl

/-- Which names there are depends on the names that are written. -/
theorem keys_insertAll_congr {β : Type} {d : Dict α} {d' : Dict β} (h : d.keys = d'.keys)
    {entries : List (String × α)} {entries' : List (String × β)}
    (hnames : entries.map (·.1) = entries'.map (·.1)) :
    (d.insertAll entries).keys = (d'.insertAll entries').keys := by
  induction entries generalizing d d' entries' with
  | nil =>
      rw [List.map_eq_nil_iff.mp hnames.symm]
      exact h
  | cons entry rest ih =>
      cases entries' with
      | nil =>
          cases hnames
      | cons entry' rest' =>
          rw [List.map_cons, List.map_cons, List.cons.injEq] at hnames
          refine @ih (d.insert entry.1 entry.2) (d'.insert entry'.1 entry'.2) ?_ rest' hnames.2
          have hkeys : d.entries.map (·.1) = d'.entries.map (·.1) := h
          change (put _ _ _).map (·.1) = (put _ _ _).map (·.1)
          rw [map_fst_put, map_fst_put, hkeys, hnames.1]

theorem mem_keys_iff {d : Dict α} {name : String} : name ∈ d.keys <-> (d.get? name).isSome := by
  constructor
  · intro h
    rcases List.mem_map.mp h with ⟨entry, hentry, rfl⟩
    rw [(get?_eq_some_iff d).mpr hentry]
    rfl
  · intro h
    rcases Option.isSome_iff_exists.mp h with ⟨value, hvalue⟩
    exact List.mem_map_of_mem ((get?_eq_some_iff d).mp hvalue)

end Dict

namespace Record

theorem values_eq (r : Record) : r.attributes.values = r.attributes.keys.map r.get := by
  rw [Dict.values, Dict.keys, List.map_map]
  refine List.map_congr_left fun entry hentry => ?_
  rw [Function.comp_apply, get, (Dict.get?_eq_some_iff r.attributes).mpr hentry]
  rfl

theorem get_of_not_mem_keys {r : Record} {name : String} (h : name ∉ r.attributes.keys) :
    r.get name = .null := by
  rw [Dict.mem_keys_iff, Option.not_isSome_iff_eq_none] at h
  rw [get, h]
  rfl

end Record

namespace Fetch

theorem distinctKey_eq_iff {r r' : Record} (hkeys : r.attributes.keys = r'.attributes.keys) :
    distinctKey r = distinctKey r' <->
      forall name, Value.SameText (r.get name).key (r'.get name).key := by
  rw [distinctKey, distinctKey, Record.values_eq, Record.values_eq, <- hkeys, List.map_map,
    List.map_map, Value.tupleText_eq_iff (by rw [List.length_map, List.length_map]),
    List.forall₂_map_left_iff, List.forall₂_map_right_iff, List.forall₂_same]
  constructor
  · intro h name
    by_cases hname : name ∈ r.attributes.keys
    · exact h name hname
    · rw [Record.get_of_not_mem_keys hname, Record.get_of_not_mem_keys (hkeys ▸ hname)]
      rfl
  · exact fun h name _ => h name

variable {root : Scope} {attributes : List Placed} (hnamed : forall row, wholeScopes row "" root = [])

include hnamed

theorem keys_project (row row' : Joined) :
    (project root attributes row).attributes.keys =
      (project root attributes row').attributes.keys := by
  simp only [project, hnamed, List.nil_append, Dict.ofList]
  refine Dict.keys_insertAll_congr rfl ?_
  rw [List.map_map, List.map_map]
  rfl

/-- If no two attributes are returned under one name, a record holds each of them. -/
theorem get_project_output
    (hone : forall p, p ∈ attributes -> forall p', p' ∈ attributes -> p.output = p'.output ->
      p.key = p'.key) {p : Placed} (hp : p ∈ attributes) (row : Joined) :
    (project root attributes row).get p.output = row.get p.key := by
  have hmem : p.output ∈ (attributes.map fun a => (a.output, row.get a.key)).map (·.1) := by
    rw [List.map_map]
    exact List.mem_map_of_mem hp
  have hall : forall entry, entry ∈ attributes.map (fun a => (a.output, row.get a.key)) ->
      entry.1 = p.output -> entry.2 = row.get p.key := by
    intro entry hentry hname
    rcases List.mem_map.mp hentry with ⟨p', hp', rfl⟩
    exact congrArg row.get (hone p' hp' p hp hname)
  simp only [Record.get, project, hnamed, List.nil_append, Dict.ofList]
  rw [Dict.get?_insertAll_of_all hmem hall]
  rfl

theorem mem_keys_project {name : String} {row : Joined}
    (h : name ∈ (project root attributes row).attributes.keys) :
    exists p, p ∈ attributes ∧ p.output = name := by
  by_contra hnone
  have hmem : name ∉ (attributes.map fun a => (a.output, row.get a.key)).map (·.1) := by
    rw [List.map_map]
    intro hmem
    rcases List.mem_map.mp hmem with ⟨p, hp, hname⟩
    exact hnone ⟨p, hp, hname⟩
  rw [Dict.mem_keys_iff] at h
  simp only [project, hnamed, List.nil_append, Dict.ofList] at h
  rw [Dict.get?_insertAll_of_not_mem hmem] at h
  cases h

/-- The platform tells records apart by the columns that are shown, if they show all it returns. -/
theorem distinctKey_project_iff {columns : List String}
    (hone : forall p, p ∈ attributes -> forall p', p' ∈ attributes -> p.output = p'.output ->
      p.key = p'.key)
    (hshown : forall p, p ∈ attributes -> exists p', p' ∈ attributes ∧ p'.key = p.key ∧
      p'.output ∈ columns) (row row' : Joined) :
    distinctKey (project root attributes row) = distinctKey (project root attributes row') <->
      forall name, name ∈ columns ->
        Value.SameText ((project root attributes row).get name).key
          ((project root attributes row').get name).key := by
  rw [distinctKey_eq_iff (keys_project hnamed row row')]
  constructor
  · exact fun h name _ => h name
  · intro h name
    by_cases hname : name ∈ (project root attributes row).attributes.keys
    · rcases mem_keys_project hnamed hname with ⟨p, hp, rfl⟩
      rcases hshown p hp with ⟨p', hp', hkey, hcolumn⟩
      have hsame := h p'.output hcolumn
      rw [get_project_output hnamed hone hp', get_project_output hnamed hone hp', hkey] at hsame
      rw [get_project_output hnamed hone hp, get_project_output hnamed hone hp]
      exact hsame
    · rw [Record.get_of_not_mem_keys hname,
        Record.get_of_not_mem_keys (keys_project hnamed row row' ▸ hname)]
      rfl

end Fetch

end RecordSql
