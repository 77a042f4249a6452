import RecordSql.Proofs.Stored

/-!
# Filters of linked scopes

A filter of a linked scope is decided before the rows of that scope are joined to those above.  If
all joins on the way are inner ones, that is as good as deciding it on the joined rows, as long as
the names that it reads are written by its own scope only.  An outer join on the way would keep the
rows above without the ones that were removed.
-/

namespace RecordSql
namespace Fetch

/-!
# Names of one scope
-/

/-- The row holds nothing under the given names. -/
def Lacks (names : String -> Prop) (row : Joined) : Prop :=
  forall key, names key -> row.values.get? key = none

/-- Whether a row is kept depends on its values under the given names. -/
def ReadsOnly (names : String -> Prop) (keep : Joined -> Bool) : Prop :=
  forall row row' : Joined, (forall key, names key -> row.get key = row'.get key) ->
    keep row = keep row'

/-- Among the tables, only one with the given text in front writes the names. -/
def WrittenAt (db : Database) (tables : List (String × String)) (front : String)
    (names : String -> Prop) : Prop :=
  forall entry, entry ∈ tables -> forall key v, names key -> StoredIn db [entry] key v ->
    entry.1 = front

variable {db : Database} {names : String -> Prop} {keep : Joined -> Bool}

theorem WrittenAt.mono {tables tables' : List (String × String)} {front : String}
    (h : WrittenAt db tables' front names) (hsubset : tables ⊆ tables') :
    WrittenAt db tables front names :=
  fun entry hentry => h entry (hsubset hentry)

theorem lacks_of_allStored {tables : List (String × String)} {rows : List Joined} {front : String}
    (hrows : AllStored db tables rows) (hwritten : WrittenAt db tables front names)
    (hfront : front ∉ tables.map (·.1)) : forall row, row ∈ rows -> Lacks names row := by
  intro row hrow key hkey
  cases hv : row.values.get? key with
  | none =>
      rfl
  | some v =>
      rcases hrows row hrow key v hv with ⟨at_, table, records, r, name, hentry, hstored⟩
      have hone : StoredIn db [(at_, table)] key v :=
        ⟨at_, table, records, r, name, List.mem_singleton_self _, hstored⟩
      have heq : at_ = front := hwritten _ hentry key v hkey hone
      exact absurd (List.mem_map.mpr ⟨_, hentry, heq⟩) hfront

theorem get?_link (parent child : Joined) (key : String) :
    (parent.link child).values.get? key =
      (child.values.get? key).or (parent.values.get? key) :=
  Dict.get?_insertAll parent.values child.values key

theorem keep_link_of_parent (hkeep : ReadsOnly names keep) {parent : Joined}
    (hparent : Lacks names parent) (child : Joined) : keep (parent.link child) = keep child := by
  refine hkeep _ _ fun key hkey => ?_
  rw [Joined.get, Joined.get, get?_link, hparent key hkey, Option.or_none]

theorem keep_link_of_child (hkeep : ReadsOnly names keep) {child : Joined}
    (hchild : Lacks names child) (parent : Joined) : keep (parent.link child) = keep parent := by
  refine hkeep _ _ fun key hkey => ?_
  rw [Joined.get, Joined.get, get?_link, hchild key hkey, Option.none_or]

/-!
# Joining filtered rows
-/

theorem joinRow_inner {link : Link} (hinner : link.outer = false) (front : String)
    (children : List Joined) (parent : Joined) :
    joinRow front link children parent =
      (children.filter fun child =>
        keysMatch (parent.get (front ++ link.parent)) (child.get (link.front ++ link.child))).map
          parent.link := by
  rw [joinRow, hinner]
  cases hmatching : children.filter fun child =>
      keysMatch (parent.get (front ++ link.parent)) (child.get (link.front ++ link.child)) with
  | nil =>
      rfl
  | cons child rest =>
      rfl

theorem joinRow_filter (hkeep : ReadsOnly names keep) {link : Link} (hinner : link.outer = false)
    (front : String) (children : List Joined) {parent : Joined} (hparent : Lacks names parent) :
    joinRow front link (children.filter keep) parent =
      (joinRow front link children parent).filter keep := by
  rw [joinRow_inner hinner, joinRow_inner hinner, List.filter_map, List.filter_comm]
  have hsame : keep ∘ parent.link = keep := funext (keep_link_of_parent hkeep hparent)
  rw [hsame]

/-- Rows that lack the names are joined to a row without changing whether it is kept. -/
theorem keep_of_mem_joinRow (hkeep : ReadsOnly names keep) {front : String} {link : Link}
    {children : List Joined} (hchildren : forall child, child ∈ children -> Lacks names child)
    {parent row : Joined} (h : row ∈ joinRow front link children parent) :
    keep row = keep parent := by
  rcases mem_joinRow h with rfl | ⟨child, hchild, rfl⟩
  · rfl
  · exact keep_link_of_child hkeep (hchildren child hchild) parent

theorem flatMap_joinRow_filter (hkeep : ReadsOnly names keep) (front : String) (link : Link)
    {children : List Joined} (hchildren : forall child, child ∈ children -> Lacks names child)
    (rows : List Joined) :
    (rows.filter keep).flatMap (joinRow front link children) =
      (rows.flatMap (joinRow front link children)).filter keep := by
  induction rows with
  | nil =>
      rfl
  | cons row rest ih =>
      rw [List.flatMap_cons, List.filter_append, <- ih]
      cases hrow : keep row with
      | true =>
          have hall : (joinRow front link children row).filter keep =
              joinRow front link children row :=
            List.filter_eq_self.mpr fun joined h =>
              (keep_of_mem_joinRow hkeep hchildren h).trans hrow
          rw [List.filter_cons_of_pos hrow, List.flatMap_cons, hall]
      | false =>
          have hnone : (joinRow front link children row).filter keep = [] := by
            refine List.filter_eq_nil_iff.mpr fun joined h => ?_
            rw [keep_of_mem_joinRow hkeep hchildren h, hrow]
            exact Bool.false_ne_true
          rw [List.filter_cons_of_neg (by rw [hrow]; exact Bool.false_ne_true), hnone,
            List.nil_append]

namespace Scope

/-- The tables that linked scopes read. -/
def linkedTables (links : List (Link × Scope)) : List (String × String) :=
  gatherLinks (fun front s => [(front, s.table)]) links

theorem tables_eq_cons (front : String) (s : Scope) :
    s.tables front = (front, s.table) :: linkedTables s.links := by
  cases s
  rw [tables, gather]
  rfl

theorem linkedTables_cons (link : Link) (child : Scope) (rest : List (Link × Scope)) :
    linkedTables ((link, child) :: rest) = child.tables link.front ++ linkedTables rest := by
  rw [linkedTables, gatherLinks]
  rfl

theorem tables_sublist_linkedTables {links : List (Link × Scope)} {i : Nat} {link : Link}
    {child : Scope} (h : links[i]? = some (link, child)) :
    (child.tables link.front).Sublist (linkedTables links) := by
  induction links generalizing i with
  | nil =>
      cases h
  | cons entry rest ih =>
      rw [linkedTables_cons]
      cases i with
      | zero =>
          cases h
          exact List.sublist_append_left _ _
      | succ i =>
          exact (ih h).trans (List.sublist_append_right _ _)

end Scope

open Scope (linkedTables linkedTables_cons tables_eq_cons tables_sublist_linkedTables)

/-- Scopes that do not write the names are joined to rows whether or not these are filtered. -/
theorem joinLinks_filter (hkeep : ReadsOnly names keep) {front after : String}
    {links : List (Link × Scope)} (hwritten : WrittenAt db (linkedTables links) after names)
    (hafter : after ∉ (linkedTables links).map (·.1)) {rows joined : List Joined}
    (h : joinLinks db front links rows = .ok joined) :
    joinLinks db front links (rows.filter keep) = .ok (joined.filter keep) := by
  induction links generalizing rows with
  | nil =>
      rw [joinLinks] at h ⊢
      cases h
      rfl
  | cons entry rest ih =>
      rcases entry with ⟨link, child⟩
      rw [linkedTables_cons, List.map_append, List.mem_append, not_or] at hafter
      rw [linkedTables_cons] at hwritten
      rcases joinLinks_cons_eq_ok.mp h with ⟨children, hchildren, h⟩
      have hlack := lacks_of_allStored (allStored_scopeRows child children hchildren)
        (hwritten.mono (List.subset_append_left _ _)) hafter.1
      refine joinLinks_cons_eq_ok.mpr ⟨children, hchildren, ?_⟩
      rw [flatMap_joinRow_filter hkeep front link hlack]
      exact ih (hwritten.mono (List.subset_append_right _ _)) hafter.2 h

theorem lacks_joinRow {front : String} {link : Link} {rows children : List Joined}
    (hrows : forall row, row ∈ rows -> Lacks names row)
    (hchildren : forall child, child ∈ children -> Lacks names child) :
    forall row, row ∈ rows.flatMap (joinRow front link children) -> Lacks names row := by
  intro row hrow key hkey
  rcases List.mem_flatMap.mp hrow with ⟨parent, hparent, hrow⟩
  rcases mem_joinRow hrow with rfl | ⟨child, hchild, rfl⟩
  · exact hrows row hparent key hkey
  · rw [get?_link, hchildren child hchild key hkey, hrows parent hparent key hkey]
    rfl

theorem flatMap_joinRow_filter_children (hkeep : ReadsOnly names keep) {link : Link}
    (hinner : link.outer = false) (front : String) (children : List Joined) {rows : List Joined}
    (hrows : forall row, row ∈ rows -> Lacks names row) :
    rows.flatMap (joinRow front link (children.filter keep)) =
      (rows.flatMap (joinRow front link children)).filter keep := by
  induction rows with
  | nil =>
      rfl
  | cons row rest ih =>
      rw [List.flatMap_cons, List.flatMap_cons, List.filter_append,
        joinRow_filter hkeep hinner front children (hrows row List.mem_cons_self),
        ih fun row hrow => hrows row (List.mem_cons_of_mem _ hrow)]

/-- One inner link whose rows are filtered filters the joined rows. -/
theorem joinLinks_updateLink_filter (hkeep : ReadsOnly names keep) {front after : String}
    {change : Scope -> Scope} {links : List (Link × Scope)} {i : Nat} {link : Link} {child : Scope}
    (hlink : links[i]? = some (link, child)) (hinner : link.outer = false)
    (hchange : forall children, scopeRows db link.front child = .ok children ->
      scopeRows db link.front (change child) = .ok (children.filter keep))
    (hwritten : WrittenAt db (linkedTables links) after names)
    (hnodup : ((linkedTables links).map (·.1)).Nodup)
    (hafter : after ∈ (child.tables link.front).map (·.1)) {rows joined : List Joined}
    (hrows : forall row, row ∈ rows -> Lacks names row)
    (h : joinLinks db front links rows = .ok joined) :
    joinLinks db front (Scope.updateLink change links i) rows = .ok (joined.filter keep) := by
  induction links generalizing i rows with
  | nil =>
      cases hlink
  | cons entry rest ih =>
      rcases entry with ⟨first, scope⟩
      rw [linkedTables_cons] at hwritten hnodup
      rw [List.map_append] at hnodup
      rcases List.nodup_append.mp hnodup with ⟨_, hlinked, hapart⟩
      rcases joinLinks_cons_eq_ok.mp h with ⟨children, hchildren, hjoined⟩
      cases i with
      | zero =>
          cases hlink
          refine joinLinks_cons_eq_ok.mpr ⟨_, hchange children hchildren, ?_⟩
          rw [flatMap_joinRow_filter_children hkeep hinner front children hrows]
          exact joinLinks_filter hkeep (hwritten.mono (List.subset_append_right _ _))
            (fun hlater => hapart _ hafter _ hlater rfl) hjoined
      | succ i =>
          have hrest : rest[i]? = some (link, child) := hlink
          have hlater : after ∈ (linkedTables rest).map (·.1) :=
            List.map_subset _ (tables_sublist_linkedTables hrest).subset hafter
          have hlack := lacks_of_allStored (allStored_scopeRows scope children hchildren)
            (hwritten.mono (List.subset_append_left _ _)) fun hfirst => hapart _ hfirst _ hlater rfl
          exact joinLinks_cons_eq_ok.mpr ⟨children, hchildren,
            ih hrest (hwritten.mono (List.subset_append_right _ _)) hlinked
              (lacks_joinRow hrows hlack) hjoined⟩

/-!
# Keeping rows
-/

theorem keepMatching_filter {now : Calendar.DateTime} {front : String} {filters : List Filter}
    {rows kept : List Joined} (h : keepMatching now front filters rows = .ok kept) :
    keepMatching now front filters (rows.filter keep) = .ok (kept.filter keep) := by
  rcases keepMatching_eq_ok.mp h with ⟨holds, hholds, rfl⟩
  rw [List.filter_comm]
  exact keepMatching_of_decided fun row hrow => hholds row (List.mem_of_mem_filter hrow)

theorem filtersHold_append {now : Calendar.DateTime} {front : String} {row : Joined}
    (filters : List Filter) (f : Filter) :
    filtersHold now front row (filters ++ [f]) = (do
      if <- filtersHold now front row filters then filterHolds now front row f
      else return false) := by
  induction filters with
  | nil =>
      rw [List.nil_append, filtersHold, filtersHold, filtersHold]
      cases filterHolds now front row f with
      | error e =>
          rfl
      | ok b =>
          cases b <;> rfl
  | cons first rest ih =>
      rw [List.cons_append, filtersHold, filtersHold, ih]
      cases filterHolds now front row first with
      | error e =>
          rfl
      | ok b =>
          cases b <;> rfl

/-- A further filter is decided on the rows that the others keep. -/
theorem keepMatching_append {now : Calendar.DateTime} {front : String} {filters : List Filter}
    {f : Filter} {rows kept : List Joined} (h : keepMatching now front filters rows = .ok kept)
    (hf : forall row, row ∈ kept -> filterHolds now front row f = .ok (keep row)) :
    keepMatching now front (filters ++ [f]) rows = .ok (kept.filter keep) := by
  rcases keepMatching_eq_ok.mp h with ⟨holds, hholds, rfl⟩
  rw [List.filter_filter]
  refine keepMatching_of_decided fun row hrow => ?_
  rw [filtersHold_append, hholds row hrow]
  cases hrowHolds : holds row with
  | true =>
      rw [Outcome.ok_bind, if_pos rfl, hf row (List.mem_filter.mpr ⟨hrow, hrowHolds⟩),
        Bool.and_true]
  | false =>
      rw [Bool.and_false]
      rfl

/-!
# The filter of one scope
-/

namespace Scope

/-- No link on the path is an outer one. -/
def innerPath : List Nat -> Scope -> Bool
  | [], _ => true
  | i :: path, s => s.links[i]?.all fun (link, child) => !link.outer && innerPath path child

theorem innerPath_addFilter (f : Filter) (path other : List Nat) (s : Scope) :
    (s.update (·.addFilter f) other).innerPath path = s.innerPath path := by
  induction path generalizing s other with
  | nil =>
      rfl
  | cons i path ih =>
      cases other with
      | nil =>
          rfl
      | cons j other =>
          rw [update, innerPath, innerPath, getElem?_updateLink]
          cases s.links[i]? with
          | none =>
              rfl
          | some entry =>
              rcases entry with ⟨link, child⟩
              dsimp only [Option.map_some, Option.all_some]
              by_cases h : i = j
              · rw [if_pos h, ih]
              · rw [if_neg h]

end Scope

theorem mem_tables_of_place {front after : String} {path : List Nat} {s found : Scope}
    (h : s.place front path = some (after, found)) : after ∈ (s.tables front).map (·.1) := by
  have hsubset : found.tables after ⊆ s.tables front := Scope.gather_subset_of_place h
  rw [tables_eq_cons after found] at hsubset
  exact List.mem_map.mpr ⟨_, hsubset List.mem_cons_self, rfl⟩

/-- A filter behind inner joins filters the joined rows. -/
theorem scopeRows_addFilter (hkeep : ReadsOnly names keep) {after : String} {found : Scope}
    {f : Filter}
    (hf : forall rows, scopeRows db after found = .ok rows -> forall row, row ∈ rows ->
      filterHolds db.now after row f = .ok (keep row))
    {path : List Nat} {s : Scope} {front : String}
    (hplace : s.place front path = some (after, found)) (hinner : s.innerPath path = true)
    (hwritten : WrittenAt db (s.tables front) after names)
    (hnodup : ((s.tables front).map (·.1)).Nodup) {rows : List Joined}
    (h : scopeRows db front s = .ok rows) :
    scopeRows db front (s.update (·.addFilter f) path) = .ok (rows.filter keep) := by
  induction path generalizing s front rows with
  | nil =>
      cases hplace
      have hrows := hf rows h
      rcases found with ⟨table, all, attributes, filters, links, orders⟩
      rcases scopeRows_eq_ok.mp h with ⟨records, joined, htable, hjoined, hkept⟩
      exact scopeRows_eq_ok.mpr
        ⟨records, joined, htable, hjoined, keepMatching_append hkept hrows⟩
  | cons i path ih =>
      rcases s with ⟨table, all, attributes, filters, links, orders⟩
      rw [Scope.place] at hplace
      rcases Option.bind_eq_some_iff.mp hplace with ⟨⟨link, child⟩, hlink, hchild⟩
      rw [Scope.innerPath, hlink] at hinner
      rcases (Bool.and_eq_true _ _).mp hinner with ⟨houter, hinner⟩
      rw [tables_eq_cons] at hwritten hnodup
      rw [List.map_cons, List.nodup_cons] at hnodup
      have hsublist := tables_sublist_linkedTables hlink
      have hafter := mem_tables_of_place hchild
      have hlater : after ∈ (linkedTables links).map (·.1) := List.map_subset _ hsublist.subset hafter
      rcases scopeRows_eq_ok.mp h with ⟨records, joined, htable, hjoined, hkept⟩
      have hlack : forall row, row ∈ records.map (.ofRecord front) -> Lacks names row := by
        refine lacks_of_allStored (allStored_ofRecord htable)
          (hwritten.mono (List.cons_subset_cons _ (List.nil_subset _))) fun hmem => ?_
        rw [List.map_singleton, List.mem_singleton] at hmem
        exact hnodup.1 (hmem ▸ hlater)
      have hrows : WrittenAt db (linkedTables links) after names :=
        hwritten.mono (List.subset_cons_self _ _)
      have hbelow : forall children, scopeRows db link.front child = .ok children ->
          scopeRows db link.front (child.update (·.addFilter f) path) =
            .ok (children.filter keep) := by
        intro children hchildren
        exact ih hchild hinner (hrows.mono hsublist.subset)
          (hnodup.2.sublist (hsublist.map _)) hchildren
      refine scopeRows_eq_ok.mpr
        ⟨records, joined.filter keep, htable, ?_, keepMatching_filter hkept⟩
      exact joinLinks_updateLink_filter hkeep hlink (by simpa using houter) hbelow hrows
        hnodup.2 hafter hlack hjoined

end Fetch
end RecordSql
