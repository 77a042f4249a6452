import RecordSql.Proofs.Retrieved
import RecordSql.Proofs.ScopeRows

/-!
# Where the values of joined rows come from

A joined row holds values of records of the tables that its tree reads, each under the name of an
attribute with the text of its scope in front.
-/

namespace RecordSql
namespace Fetch

namespace Scope

/-- The tables that a tree reads, each with the text in front of the names of its scope. -/
def tables (front : String) (s : Scope) : List (String × String) :=
  gather (fun front s => [(front, s.table)]) front s

end Scope

/-- A record of one of the tables holds the value, and rows show it under the name. -/
def StoredIn (db : Database) (tables : List (String × String)) (key : String) (v : Value) : Prop :=
  exists front table records r name, (front, table) ∈ tables ∧ db.tables table = some records ∧
    r ∈ records ∧ key = front ++ name ∧ r.attributes.get? name = some v

theorem StoredIn.mono {db : Database} {tables tables' : List (String × String)} {key : String}
    {v : Value} (h : StoredIn db tables key v) (hsubset : tables ⊆ tables') :
    StoredIn db tables' key v := by
  rcases h with ⟨front, table, records, r, name, hmem, hrest⟩
  exact ⟨front, table, records, r, name, hsubset hmem, hrest⟩

/-- All values that rows hold are stored in the tables. -/
def AllStored (db : Database) (tables : List (String × String)) (rows : List Joined) : Prop :=
  forall row, row ∈ rows -> forall key v, row.values.get? key = some v -> StoredIn db tables key v

theorem AllStored.mono {db : Database} {tables tables' : List (String × String)}
    {rows : List Joined} (h : AllStored db tables rows) (hsubset : tables ⊆ tables') :
    AllStored db tables' rows :=
  fun row hrow key v hv => (h row hrow key v hv).mono hsubset

theorem allStored_ofRecord {db : Database} {front table : String} {records : List Record}
    (h : db.tables table = some records) :
    AllStored db [(front, table)] (records.map (.ofRecord front)) := by
  intro row hrow key v hv
  rcases List.mem_map.mp hrow with ⟨r, hr, rfl⟩
  rcases (Dict.get?_withFront front r.attributes).mp hv with ⟨name, hkey, hname⟩
  exact ⟨front, table, records, r, name, List.mem_singleton.mpr rfl, h, hr, hkey, hname⟩

theorem mem_joinRow {front : String} {link : Link} {children : List Joined} {parent row : Joined}
    (h : row ∈ joinRow front link children parent) :
    row = parent ∨ exists child, child ∈ children ∧ row = parent.link child := by
  unfold joinRow at h
  simp only at h
  split at h
  · split at h
    · exact Or.inl (List.mem_singleton.mp h)
    · cases h
  · rcases List.mem_map.mp h with ⟨child, hchild, rfl⟩
    exact Or.inr ⟨child, List.mem_of_mem_filter hchild, rfl⟩

/-- Joining further rows to rows adds the values of the further rows. -/
theorem AllStored.join {db : Database} {tables tables' : List (String × String)}
    {rows children : List Joined} (h : AllStored db tables rows)
    (hchildren : AllStored db tables' children) (front : String) (link : Link) :
    AllStored db (tables ++ tables') (rows.flatMap (joinRow front link children)) := by
  intro row hrow key v hv
  rcases List.mem_flatMap.mp hrow with ⟨parent, hparent, hrow⟩
  rcases mem_joinRow hrow with rfl | ⟨child, hchild, rfl⟩
  · exact (h row hparent key v hv).mono (List.subset_append_left _ _)
  · rw [Joined.link, Dict.get?_insertAll, Option.or_eq_some_iff] at hv
    rcases hv with hv | ⟨_, hv⟩
    · exact (hchildren child hchild key v hv).mono (List.subset_append_right _ _)
    · exact (h parent hparent key v hv).mono (List.subset_append_left _ _)

mutual

theorem allStored_scopeRows {db : Database} {front : String} :
    forall s rows, scopeRows db front s = .ok rows -> AllStored db (s.tables front) rows
  | ⟨table, _, _, filters, links, _⟩ => by
      intro rows h
      rcases scopeRows_eq_ok.mp h with ⟨records, joined, htable, hjoined, hkept⟩
      have hall := allStored_joinLinks links _ _ joined (allStored_ofRecord htable) hjoined
      rw [Scope.tables, Scope.gather]
      exact fun row hrow => hall row ((keepMatching_sublist hkept).subset hrow)

theorem allStored_joinLinks {db : Database} {front : String} :
    forall links tables rows joined, AllStored db tables rows ->
      joinLinks db front links rows = .ok joined ->
      AllStored db (tables ++ Scope.gatherLinks (fun front s => [(front, s.table)]) links) joined
  | [] => by
      intro tables rows joined hrows h
      rw [joinLinks] at h
      cases h
      exact hrows.mono (List.subset_append_left _ _)
  | (link, scope) :: rest => by
      intro tables rows joined hrows h
      rcases joinLinks_cons_eq_ok.mp h with ⟨children, hchildren, h⟩
      have hfirst := hrows.join (allStored_scopeRows scope children hchildren) front link
      have hall := allStored_joinLinks rest _ _ joined hfirst h
      rw [Scope.gatherLinks, <- List.append_assoc]
      exact hall

end

theorem allStored_of_mem {db : Database} {front : String} {s : Scope} {rows : List Joined}
    (hrows : scopeRows db front s = .ok rows) {row : Joined} (hrow : row ∈ rows) :
    AllStored db (s.tables front) [row] := by
  intro row' hrow'
  cases List.mem_singleton.mp hrow'
  exact allStored_scopeRows s rows hrows row hrow

/-- What holds of all stored values of a name, and of the missing value, holds of rows. -/
theorem get_of_stored {db : Database} {front key : String} {s : Scope} {rows : List Joined}
    (hrows : scopeRows db front s = .ok rows) {p : Value -> Prop} (hnull : p .null)
    (h : forall v, StoredIn db (s.tables front) key v -> p v) :
    forall row, row ∈ rows -> p (row.get key) := by
  intro row hrow
  rw [Joined.get]
  cases hvalue : row.values.get? key with
  | none =>
      exact hnull
  | some v =>
      exact h v (allStored_scopeRows s rows hrows row hrow key v hvalue)

end Fetch
end RecordSql
