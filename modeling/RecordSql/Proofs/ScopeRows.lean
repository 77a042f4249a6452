import RecordSql.Fetch.Evaluate
import RecordSql.Proofs.Outcome

/-!
# Rows of a scope

When a scope has rows, and which: its table is known, its links are joined to the records one after
the other, and its filters are decided on every row that results.
-/

namespace RecordSql
namespace Fetch

variable {db : Database} {now : Calendar.DateTime} {front : String}

/-!
# Filters
-/

section

variable {filters : List Filter} {rows kept : List Joined}

theorem keepMatching_map {α : Type} {rowOf : α -> Joined} {holds : α -> Bool} {items : List α}
    (h : forall a, a ∈ items -> filtersHold now front (rowOf a) filters = .ok (holds a)) :
    keepMatching now front filters (items.map rowOf) = .ok ((items.filter holds).map rowOf) := by
  induction items with
  | nil =>
      rfl
  | cons a rest ih =>
      rw [List.map_cons, keepMatching, h a List.mem_cons_self, Outcome.ok_bind,
        ih fun later hlater => h later (List.mem_cons_of_mem _ hlater), Outcome.ok_bind,
        List.filter_cons]
      cases holds a <;> rfl

theorem keepMatching_of_decided {holds : Joined -> Bool}
    (h : forall row, row ∈ rows -> filtersHold now front row filters = .ok (holds row)) :
    keepMatching now front filters rows = .ok (rows.filter holds) := by
  have hmap := @keepMatching_map now front filters Joined id holds rows h
  rwa [List.map_id, List.map_id] at hmap

theorem decided_of_keepMatching (h : keepMatching now front filters rows = .ok kept) {row : Joined}
    (hrow : row ∈ rows) : exists b, filtersHold now front row filters = .ok b := by
  induction rows generalizing kept with
  | nil =>
      cases hrow
  | cons first rest ih =>
      simp only [keepMatching, Outcome.bind_eq_ok] at h
      rcases h with ⟨b, hb, later, hlater, _⟩
      rcases List.mem_cons.mp hrow with rfl | hrow
      · exact ⟨b, hb⟩
      · exact ih hlater hrow

/-- Filters keep rows without a fault if they are decided on all of them. -/
theorem keepMatching_eq_ok : keepMatching now front filters rows = .ok kept <->
    exists holds : Joined -> Bool,
      (forall row, row ∈ rows -> filtersHold now front row filters = .ok (holds row)) ∧
        kept = rows.filter holds := by
  constructor
  · intro h
    let holds := fun row => (filtersHold now front row filters).toOption.getD false
    have hdecided : forall row, row ∈ rows ->
        filtersHold now front row filters = .ok (holds row) := by
      intro row hrow
      rcases decided_of_keepMatching h hrow with ⟨b, hb⟩
      simp only [holds, hb]
      rfl
    exact ⟨holds, hdecided, Except.ok.inj (h.symm.trans (keepMatching_of_decided hdecided))⟩
  · rintro ⟨holds, hdecided, rfl⟩
    exact keepMatching_of_decided hdecided

theorem keepMatching_sublist (h : keepMatching now front filters rows = .ok kept) :
    kept.Sublist rows := by
  rcases keepMatching_eq_ok.mp h with ⟨holds, _, rfl⟩
  exact List.filter_sublist

theorem keepMatching_nil (now : Calendar.DateTime) (front : String) (rows : List Joined) :
    keepMatching now front [] rows = .ok rows :=
  keepMatching_eq_ok.mpr
    ⟨fun _ => true, fun _ _ => rfl, (List.filter_eq_self.mpr fun _ _ => rfl).symm⟩

end

/-!
# Links
-/

theorem joinLinks_cons_eq_ok {link : Link} {scope : Scope} {rest : List (Link × Scope)}
    {rows joined : List Joined} :
    joinLinks db front ((link, scope) :: rest) rows = .ok joined <->
      exists children, scopeRows db link.front scope = .ok children ∧
        joinLinks db front rest (rows.flatMap (joinRow front link children)) = .ok joined := by
  rw [joinLinks, Outcome.bind_eq_ok]

theorem scopeRows_eq_ok {s : Scope} {rows : List Joined} :
    scopeRows db front s = .ok rows <->
      exists records joined, db.tables s.table = some records ∧
        joinLinks db front s.links (records.map (.ofRecord front)) = .ok joined ∧
        keepMatching db.now front s.filters joined = .ok rows := by
  rcases s with ⟨table, all, attributes, filters, links, orders⟩
  rw [scopeRows]
  cases db.tables table with
  | none =>
      constructor
      · intro h
        cases h
      · rintro ⟨_, _, hnone, _⟩
        cases hnone
  | some records =>
      simp only [Outcome.bind_eq_ok]
      constructor
      · rintro ⟨joined, hjoined, hkept⟩
        exact ⟨records, joined, rfl, hjoined, hkept⟩
      · rintro ⟨_, joined, hrecords, hjoined, hkept⟩
        cases hrecords
        exact ⟨joined, hjoined, hkept⟩

end Fetch
end RecordSql
