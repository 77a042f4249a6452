import Mathlib.Data.List.Dedup
import Mathlib.Data.List.Induction
import RecordSql.Grouping
import RecordSql.Proofs.Outcome

/-!
# Groups one by one

Rows are grouped in one pass that keeps a total for every group.  The groups are the same as if the
rows of each were taken together and summarised by themselves.  They depend only on which rows stand
together and in which order, and not on the order of the keys and the summaries.
-/

namespace RecordSql
namespace Grouping

open Outcome (Agree)

variable {α : Type}

/-!
# The rows of a group
-/

/-- The rows of a key, in order. -/
def members (key : α -> String) (text : String) (rows : List α) : List α :=
  rows.filter fun row => key row == text

theorem members_snoc (key : α -> String) (text : String) (rows : List α) (row : α) :
    members key text (rows ++ [row]) =
      members key text rows ++ if key row = text then [row] else [] := by
  by_cases h : key row = text <;> simp [members, h]

/-- The total of a summary for the rows of one group. -/
def tally (summary : Summary α) (rows : List α) : Except EvalError Tally :=
  start summary >>= fun t => rows.foldlM (fun t row => count row summary t) t

def tallies (g : Grouping α) (rows : List α) : Except EvalError (List Tally) :=
  g.summaries.mapM (tally · rows)

theorem tally_snoc (summary : Summary α) (rows : List α) (row : α) :
    tally summary (rows ++ [row]) = tally summary rows >>= count row summary := by
  unfold tally
  cases start summary with
  | error e =>
      rfl
  | ok t =>
      rw [Outcome.ok_bind, Outcome.ok_bind, List.foldlM_append]
      refine congrArg _ ?_
      funext t
      exact bind_pure _

/-- Binding member by member, and binding all of them after each other. -/
theorem agree_mapM_bind {ε β γ δ : Type} (f : β -> Except ε γ) (g : β -> γ -> Except ε δ)
    (l : List β) :
    Agree Eq (l.mapM fun b => f b >>= g b)
      (l.mapM f >>= fun cs => (l.zip cs).mapM fun (b, c) => g b c) := by
  induction l with
  | nil =>
      rfl
  | cons b rest ih =>
      rw [List.mapM_cons, List.mapM_cons]
      cases hb : f b with
      | error e =>
          trivial
      | ok c =>
          cases hrest : rest.mapM f with
          | error e =>
              rw [hrest] at ih
              cases hall : rest.mapM fun b => f b >>= g b with
              | error e' =>
                  rw [Outcome.ok_bind]
                  cases g b c <;> trivial
              | ok ds =>
                  rw [hall] at ih
                  cases ih
          | ok cs =>
              rw [hrest] at ih
              simp only [Outcome.ok_bind, Outcome.pure_eq, List.zip_cons_cons, List.mapM_cons]
              refine (Outcome.agree_refl (g b c)).bind ?_
              rintro d _ rfl
              refine ih.bind ?_
              rintro ds _ rfl
              rfl

theorem agree_tallies_snoc (g : Grouping α) (rows : List α) (row : α) :
    Agree Eq (g.tallies (rows ++ [row])) (g.tallies rows >>= fun ts =>
      (g.summaries.zip ts).mapM fun (summary, t) => count row summary t) := by
  unfold tallies
  simp only [tally_snoc]
  exact agree_mapM_bind _ _ _

/-!
# One pass over all rows
-/

/-- The grouping shows the given values of a row, and keeps it under the given key. -/
def Reads (g : Grouping α) (values : α -> List Value) (key : α -> String) (row : α) : Prop :=
  exists keys, g.keys row = .ok keys ∧ keys.map (·.1) = values row ∧
    Value.tupleText (keys.map (·.2)) = key row

/-- What is pending after some rows: of every key that there is, the totals of its rows. -/
structure Pends (g : Grouping α) (values : α -> List Value) (key : α -> String) (rows : List α)
    (found : Dict Pending) : Prop where
  absent : forall text, members key text rows = [] -> found.get? text = none
  present : forall text first rest, members key text rows = first :: rest ->
    exists ts, g.tallies (first :: rest) = .ok ts ∧ found.get? text = some ⟨values first, ts⟩

variable {g : Grouping α} {values : α -> List Value} {key : α -> String}

theorem tallies_nil (g : Grouping α) : g.tallies [] = g.summaries.mapM start := by
  unfold tallies tally
  refine congrArg (fun f => g.summaries.mapM f) ?_
  funext summary
  exact bind_pure _

/-- A further row of a key is added to the totals of the rows before it. -/
theorem Pends.add_eq {rows : List α} {found : Dict Pending} (h : Pends g values key rows found)
    {row : α} (hrow : Reads g values key row) :
    g.add found row = (g.tallies (members key (key row) rows) >>= fun ts =>
      (g.summaries.zip ts).mapM fun (summary, t) => count row summary t) >>= fun ts =>
        .ok (found.insert (key row)
          ⟨values ((members key (key row) rows).head?.getD row), ts⟩) := by
  rcases hrow with ⟨keys, hkeys, hvalues, htext⟩
  rw [add, hkeys, Outcome.ok_bind, htext, hvalues]
  cases hmembers : members key (key row) rows with
  | nil =>
      simp only [h.absent _ hmembers, tallies_nil, begin, bind_assoc]
      rfl
  | cons first rest =>
      rcases h.present _ _ _ hmembers with ⟨ts, hts, hfound⟩
      simp only [hfound, hts]
      rfl

theorem Pends.agree_add {rows : List α} {found : Dict Pending} (h : Pends g values key rows found)
    {row : α} (hrow : Reads g values key row) :
    Agree (fun found' ts => found' = found.insert (key row)
        ⟨values ((members key (key row) rows).head?.getD row), ts⟩)
      (g.add found row) (g.tallies (members key (key row) rows ++ [row])) := by
  rw [h.add_eq hrow, <- bind_pure (g.tallies (members key (key row) rows ++ [row]))]
  refine (agree_tallies_snoc g (members key (key row) rows) row).symm.bind ?_
  rintro ts _ rfl
  rfl

theorem Pends.snoc {rows : List α} {found : Dict Pending} (h : Pends g values key rows found)
    {row : α} {ts : List Tally}
    (hts : g.tallies (members key (key row) rows ++ [row]) = .ok ts) :
    Pends g values key (rows ++ [row]) (found.insert (key row)
      ⟨values ((members key (key row) rows).head?.getD row), ts⟩) := by
  constructor
  · intro text hnone
    rw [members_snoc] at hnone
    have hne : text ≠ key row := by
      rintro rfl
      simp at hnone
    rw [if_neg (Ne.symm hne), List.append_nil] at hnone
    rw [Dict.get?_insert_of_ne hne]
    exact h.absent text hnone
  · intro text first rest hsome
    rw [members_snoc] at hsome
    by_cases heq : key row = text
    · subst heq
      rw [if_pos rfl] at hsome
      rw [hsome] at hts
      refine ⟨ts, hts, ?_⟩
      rw [Dict.get?_insert_self]
      cases hmembers : members key (key row) rows with
      | nil =>
          rw [hmembers] at hsome
          cases hsome
          rfl
      | cons a as =>
          rw [hmembers] at hsome
          cases hsome
          rfl
    · rw [if_neg heq, List.append_nil] at hsome
      rw [Dict.get?_insert_of_ne (Ne.symm heq)]
      exact h.present text first rest hsome

/-- A group that cannot be summarised stays so with more rows. -/
theorem tallies_append_error {rows : List α} {e : EvalError} (h : g.tallies rows = .error e)
    (row : α) : exists e, g.tallies (rows ++ [row]) = .error e := by
  have hsnoc := agree_tallies_snoc g rows row
  rw [h] at hsnoc
  cases htallies : g.tallies (rows ++ [row]) with
  | error e' =>
      exact ⟨e', rfl⟩
  | ok ts =>
      rw [htallies] at hsnoc
      cases hsnoc

/-- The pass succeeds exactly if every group can be summarised. -/
theorem foldlM_add {rows : List α} (hrows : forall row, row ∈ rows -> Reads g values key row) :
    (exists found, rows.foldlM g.add .empty = .ok found ∧ Pends g values key rows found) ∨
      exists e text e', rows.foldlM g.add .empty = .error e ∧ members key text rows ≠ [] ∧
        g.tallies (members key text rows) = .error e' := by
  induction rows using List.reverseRecOn with
  | nil =>
      refine Or.inl ⟨.empty, rfl, fun _ _ => rfl, ?_⟩
      intro text first rest h
      cases h
  | append_singleton rows row ih =>
      rw [List.foldlM_append]
      have hrow := hrows row (List.mem_append_right _ (List.mem_singleton_self row))
      rcases ih fun r hr => hrows r (List.mem_append_left _ hr) with
        ⟨found, hfound, hpends⟩ | ⟨e, text, e', hfold, hsome, htallies⟩
      · rw [hfound, Outcome.ok_bind, List.foldlM_cons]
        have hagree := hpends.agree_add hrow
        have hmembers := members_snoc key (key row) rows row
        rw [if_pos rfl] at hmembers
        cases hts : g.tallies (members key (key row) rows ++ [row]) with
        | ok ts =>
            rw [hts] at hagree
            cases hadd : g.add found row with
            | error e =>
                rw [hadd] at hagree
                cases hagree
            | ok found' =>
                rw [hadd] at hagree
                cases hagree
                exact Or.inl ⟨_, rfl, hpends.snoc hts⟩
        | error e =>
            rw [hts] at hagree
            cases hadd : g.add found row with
            | ok found' =>
                rw [hadd] at hagree
                cases hagree
            | error e' =>
                refine Or.inr ⟨e', key row, e, rfl, ?_, ?_⟩
                · rw [hmembers]
                  simp
                · rw [hmembers, hts]
      · refine Or.inr ⟨e, text, ?_⟩
        rw [hfold, members_snoc]
        split
        · rcases tallies_append_error htallies row with ⟨e'', hmore⟩
          exact ⟨e'', rfl, by simp, hmore⟩
        · rw [List.append_nil]
          exact ⟨e', rfl, hsome, htallies⟩

/-!
# Classes of rows
-/

/-- The rows of each key. -/
def classes (key : α -> String) (rows : List α) : List (List α) :=
  (rows.map key).dedup.map fun text => members key text rows

theorem mem_classes {rows c : List α} :
    c ∈ classes key rows <-> exists row, row ∈ rows ∧ members key (key row) rows = c := by
  simp only [classes, List.mem_map, List.mem_dedup]
  constructor
  · rintro ⟨_, ⟨row, hrow, rfl⟩, hc⟩
    exact ⟨row, hrow, hc⟩
  · rintro ⟨row, hrow, hc⟩
    exact ⟨_, ⟨row, hrow, rfl⟩, hc⟩

theorem mem_members {rows : List α} {text : String} {row : α} :
    row ∈ members key text rows <-> row ∈ rows ∧ key row = text := by
  simp [members]

theorem nodup_classes (key : α -> String) (rows : List α) : (classes key rows).Nodup := by
  refine List.Nodup.map_on ?_ (List.nodup_dedup _)
  intro a ha b _ hab
  rcases List.mem_map.mp (List.mem_dedup.mp ha) with ⟨row, hrow, rfl⟩
  have hmem : row ∈ members key b rows := by
    rw [<- hab]
    exact mem_members.mpr ⟨hrow, rfl⟩
  exact (mem_members.mp hmem).2

/-- Two orders of rows have the same classes if the rows of each class are in the same order. -/
theorem classes_perm {key' : α -> String} {rows rows' : List α} (h : rows.Perm rows')
    (hmembers : forall row, row ∈ rows ->
      members key (key row) rows = members key' (key' row) rows') :
    (classes key rows).Perm (classes key' rows') := by
  rw [List.perm_ext_iff_of_nodup (nodup_classes key rows) (nodup_classes key' rows')]
  intro c
  rw [mem_classes, mem_classes]
  constructor
  · rintro ⟨row, hrow, rfl⟩
    exact ⟨row, h.mem_iff.mp hrow, (hmembers row hrow).symm⟩
  · rintro ⟨row, hrow, rfl⟩
    exact ⟨row, h.mem_iff.mpr hrow, hmembers row (h.mem_iff.mpr hrow)⟩

/-- The classes that are shown; `ungrouped` asks for one class even of no rows. -/
def shownClasses (ungrouped : Bool) (key : α -> String) (rows : List α) : List (List α) :=
  if ungrouped && rows.isEmpty then [[]] else classes key rows

/-- The group of a class. -/
def groupOf (g : Grouping α) (values : α -> List Value) (rows : List α) :
    Except EvalError Group :=
  g.tallies rows >>= fun ts =>
    .ok ⟨(rows.head?.map values).getD [], ts.map (·.total.result)⟩

theorem Pends.keys_perm {rows : List α} {found : Dict Pending} (h : Pends g values key rows found) :
    found.keys.Perm (rows.map key).dedup := by
  refine (List.perm_ext_iff_of_nodup found.distinct (List.nodup_dedup _)).mpr ?_
  intro text
  rw [List.mem_dedup]
  constructor
  · intro htext
    rcases List.mem_map.mp htext with ⟨⟨text, pending⟩, hentry, rfl⟩
    cases hmembers : members key text rows with
    | nil =>
        have hnone := h.absent text hmembers
        rw [(Dict.get?_eq_some_iff found).mpr hentry] at hnone
        cases hnone
    | cons first rest =>
        have hfirst : first ∈ members key text rows := by
          rw [hmembers]
          exact List.mem_cons_self
        rcases mem_members.mp hfirst with ⟨hrow, rfl⟩
        exact List.mem_map_of_mem hrow
  · intro htext
    rcases List.mem_map.mp htext with ⟨row, hrow, rfl⟩
    cases hmembers : members key (key row) rows with
    | nil =>
        have hmem := @mem_members _ key rows (key row) row |>.mpr ⟨hrow, rfl⟩
        rw [hmembers] at hmem
        cases hmem
    | cons first rest =>
        rcases h.present _ _ _ hmembers with ⟨ts, _, hfound⟩
        exact List.mem_map.mpr ⟨_, (Dict.get?_eq_some_iff found).mp hfound, rfl⟩

theorem Pends.groupOf_eq {rows : List α} {found : Dict Pending}
    (h : Pends g values key rows found) {text : String} {pending : Pending}
    (hfound : found.get? text = some pending) :
    g.groupOf values (members key text rows) = .ok pending.group := by
  cases hmembers : members key text rows with
  | nil =>
      rw [h.absent text hmembers] at hfound
      cases hfound
  | cons first rest =>
      rcases h.present _ _ _ hmembers with ⟨ts, hts, hpending⟩
      rw [hfound] at hpending
      cases hpending
      rw [groupOf, hts]
      rfl

theorem Pends.isEmpty_entries {rows : List α} {found : Dict Pending}
    (h : Pends g values key rows found) : found.entries.isEmpty = rows.isEmpty := by
  have hlength := h.keys_perm.length_eq
  cases rows with
  | nil =>
      cases hentries : found.entries with
      | nil =>
          rfl
      | cons entry rest =>
          rw [Dict.keys, hentries] at hlength
          cases hlength
  | cons row rest =>
      have hkey : key row ∈ found.keys := by
        rw [h.keys_perm.mem_iff, List.mem_dedup]
        exact List.mem_cons_self
      cases hentries : found.entries with
      | nil =>
          rw [Dict.keys, hentries] at hkey
          cases hkey
      | cons entry more =>
          rfl

theorem Pends.mapM_groupOf {rows : List α} {found : Dict Pending}
    (h : Pends g values key rows found) :
    (found.keys.map fun text => members key text rows).mapM (g.groupOf values) =
      .ok (found.values.map Pending.group) := by
  have hentries : forall entries, entries ⊆ found.entries ->
      ((entries.map (·.1)).map fun text => members key text rows).mapM (g.groupOf values) =
        .ok ((entries.map (·.2)).map Pending.group) := by
    intro entries hsubset
    induction entries with
    | nil =>
        rfl
    | cons entry rest ih =>
        have hfound := (Dict.get?_eq_some_iff found).mpr (hsubset List.mem_cons_self)
        rw [List.map_cons, List.map_cons, List.mapM_cons, h.groupOf_eq hfound, Outcome.ok_bind,
          ih fun a ha => hsubset (List.mem_cons_of_mem _ ha)]
        rfl
  exact hentries found.entries fun _ ha => ha

theorem mapM_error {ε β γ : Type} {f : β -> Except ε γ} {l : List β} {b : β} {e : ε} (hb : b ∈ l)
    (h : f b = .error e) : exists e, l.mapM f = .error e := by
  induction l with
  | nil =>
      cases hb
  | cons first rest ih =>
      rw [List.mapM_cons]
      cases hfirst : f first with
      | error e' =>
          exact ⟨e', rfl⟩
      | ok c =>
          rcases List.mem_cons.mp hb with rfl | hrest
          · rw [h] at hfirst
            cases hfirst
          · rcases ih hrest with ⟨e', he'⟩
            rw [he']
            exact ⟨e', rfl⟩

/-- The groups of the rows are the groups of their classes, each by itself. -/
theorem agree_groups {rows : List α} (hrows : forall row, row ∈ rows -> Reads g values key row)
    (ungrouped : Bool) :
    Agree List.Perm (g.groups ungrouped rows)
      ((shownClasses ungrouped key rows).mapM (g.groupOf values)) := by
  rcases foldlM_add hrows with ⟨found, hfound, hpends⟩ | ⟨e, text, e', hfold, hsome, htallies⟩
  · rw [groups, hfound, Outcome.ok_bind, hpends.isEmpty_entries, shownClasses]
    split
    · have hbegin : (g.begin [] >>= fun pending => pure [pending.group]) =
          [[]].mapM (g.groupOf values) := by
        rw [List.mapM_cons, List.mapM_nil, begin, groupOf, tallies_nil]
        cases g.summaries.mapM start <;> rfl
      rw [hbegin]
      exact (Outcome.agree_refl _).mono fun _ _ h => List.Perm.of_eq h
    · have hperm := @Outcome.agree_mapM_perm _ _ _ (g.groupOf values) _ _
        (hpends.keys_perm.map fun text => members key text rows)
      rw [hpends.mapM_groupOf] at hperm
      exact hperm
  · rcases List.exists_cons_of_ne_nil hsome with ⟨first, rest, hmembers⟩
    have hfirst : first ∈ members key text rows := by
      rw [hmembers]
      exact List.mem_cons_self
    rcases mem_members.mp hfirst with ⟨hrow, rfl⟩
    have hshown : shownClasses ungrouped key rows = classes key rows := by
      rw [shownClasses, if_neg]
      cases rows with
      | nil =>
          cases hrow
      | cons _ _ =>
          simp
    have hgroup : g.groupOf values (members key (key first) rows) = .error e' := by
      rw [groupOf, htallies]
      rfl
    rcases mapM_error (mem_classes.mpr ⟨first, hrow, rfl⟩) hgroup with ⟨e'', hall⟩
    rw [groups, hfold, hshown, hall]
    trivial

/-!
# Groups with names

The values and results of a group are shown under names.  As long as the names differ, it does not
matter in which order they are given.
-/

/-- What a group shows under each name. -/
def look (names labels : List String) (group : Group) (name : String) : Value :=
  ((Dict.ofList (names.zip group.values ++ labels.zip group.results)).get? name).getD .null

theorem get?_ofList_perm {β : Type} {entries entries' : List (String × β)}
    (h : entries.Perm entries') (hdistinct : (entries.map (·.1)).Nodup) (name : String) :
    (Dict.ofList entries).get? name = (Dict.ofList entries').get? name := by
  have hdistinct' : (entries'.map (·.1)).Nodup := (h.map _).nodup_iff.mp hdistinct
  by_cases hname : name ∈ entries.map (·.1)
  · rcases List.mem_map.mp hname with ⟨⟨key, b⟩, hentry, rfl⟩
    rw [Dict.ofList, Dict.ofList, Dict.get?_insertAll_of_mem hdistinct hentry,
      Dict.get?_insertAll_of_mem hdistinct' (h.mem_iff.mp hentry)]
  · have hname' : name ∉ entries'.map (·.1) := by
      rw [<- (h.map _).mem_iff]
      exact hname
    rw [Dict.ofList, Dict.ofList, Dict.get?_insertAll_of_not_mem hname,
      Dict.get?_insertAll_of_not_mem hname']

theorem sublist_fst_zip {β γ : Type} (l : List β) (m : List γ) :
    ((l.zip m).map (·.1)).Sublist l := by
  induction l generalizing m with
  | nil =>
      exact List.Sublist.refl _
  | cons b rest ih =>
      cases m with
      | nil =>
          exact List.nil_sublist _
      | cons c more =>
          exact (ih more).cons_cons b

theorem look_eq_of_perm {names labels names' labels' : List String} {a b : Group}
    (hdistinct : (names ++ labels).Nodup)
    (h : (names.zip a.values ++ labels.zip a.results).Perm
      (names'.zip b.values ++ labels'.zip b.results)) :
    look names labels a = look names' labels' b := by
  have hnames := ((sublist_fst_zip names a.values).append
    (sublist_fst_zip labels a.results)).nodup hdistinct
  rw [<- List.map_append] at hnames
  funext name
  exact congrArg (Option.getD · Value.null) (get?_ofList_perm h hnames name)

/-- The grouping shows cells of a row and results of summaries, each with a name. -/
structure Labelled (g : Grouping α) (cells : List (String × (α -> Value)))
    (sums : List (String × Summary α)) (key : α -> String) (rows : List α) : Prop where
  summaries : g.summaries = sums.map (·.2)
  reads : forall row, row ∈ rows -> Reads g (fun row => cells.map (·.2 row)) key row

theorem mapM_labelled {ε β γ δ : Type} (f : β -> Except ε γ) (result : γ -> δ)
    (sums : List (String × β)) :
    (sums.mapM fun s => f s.2 >>= fun t => .ok (s.1, result t)) =
      (sums.map (·.2)).mapM f >>= fun ts => .ok ((sums.map (·.1)).zip (ts.map result)) := by
  induction sums with
  | nil =>
      rfl
  | cons first rest ih =>
      rw [List.mapM_cons, ih, List.map_cons, List.mapM_cons]
      cases f first.2 with
      | error e =>
          rfl
      | ok t =>
          cases (rest.map (·.2)).mapM f <;> rfl

variable {g' : Grouping α} {cells cells' : List (String × (α -> Value))}
  {sums sums' : List (String × Summary α)} {key' : α -> String} {rows rows' : List α}

theorem zip_cells_perm (hcells : cells.Perm cells') (c : List α) :
    ((cells.map (·.1)).zip ((c.head?.map fun row => cells.map (·.2 row)).getD [])).Perm
      ((cells'.map (·.1)).zip ((c.head?.map fun row => cells'.map (·.2 row)).getD [])) := by
  cases c with
  | nil =>
      simp
  | cons row rest =>
      simp only [List.head?_cons, Option.map_some, Option.getD_some, List.zip_map']
      exact hcells.map _

theorem agree_groupOf (h : Labelled g cells sums key rows)
    (h' : Labelled g' cells' sums' key' rows') (hcells : cells.Perm cells')
    (hsums : sums.Perm sums') (hdistinct : (cells.map (·.1) ++ sums.map (·.1)).Nodup)
    (c : List α) :
    Agree (fun a b => look (cells.map (·.1)) (sums.map (·.1)) a =
        look (cells'.map (·.1)) (sums'.map (·.1)) b)
      (g.groupOf (fun row => cells.map (·.2 row)) c)
      (g'.groupOf (fun row => cells'.map (·.2 row)) c) := by
  have hresults := @Outcome.agree_mapM_perm _ _ _
    (fun s : String × Summary α => tally s.2 c >>= fun t => .ok (s.1, t.total.result)) _ _ hsums
  rw [mapM_labelled (tally · c), mapM_labelled (tally · c), <- h.summaries, <- h'.summaries]
    at hresults
  unfold groupOf tallies
  cases hts : g.summaries.mapM (tally · c) with
  | error e =>
      rw [hts] at hresults
      cases hts' : g'.summaries.mapM (tally · c) with
      | error e' =>
          trivial
      | ok ts' =>
          rw [hts'] at hresults
          exact hresults
  | ok ts =>
      rw [hts] at hresults
      cases hts' : g'.summaries.mapM (tally · c) with
      | error e' =>
          rw [hts'] at hresults
          exact hresults
      | ok ts' =>
          rw [hts'] at hresults
          exact look_eq_of_perm hdistinct ((zip_cells_perm hcells c).append hresults)

/-- Two groupings of the same rows that differ in the order of rows, cells and summaries. -/
theorem agree_looks (h : Labelled g cells sums key rows) (h' : Labelled g' cells' sums' key' rows')
    (hcells : cells.Perm cells') (hsums : sums.Perm sums')
    (hdistinct : (cells.map (·.1) ++ sums.map (·.1)).Nodup) (hrows : rows.Perm rows')
    (hmembers : forall row, row ∈ rows ->
      members key (key row) rows = members key' (key' row) rows') (ungrouped : Bool) :
    Agree (fun found found' => (found.map (look (cells.map (·.1)) (sums.map (·.1)))).Perm
        (found'.map (look (cells'.map (·.1)) (sums'.map (·.1)))))
      (g.groups ungrouped rows) (g'.groups ungrouped rows') := by
  have hclasses : (shownClasses ungrouped key rows).Perm (shownClasses ungrouped key' rows') := by
    have hempty : rows.isEmpty = rows'.isEmpty := by
      rw [Bool.eq_iff_iff, List.isEmpty_iff, List.isEmpty_iff]
      constructor
      · rintro rfl
        exact hrows.nil_eq.symm
      · rintro rfl
        exact hrows.eq_nil
    unfold shownClasses
    rw [hempty]
    split
    · exact List.Perm.refl _
    · exact classes_perm hrows hmembers
  have hfirst := (agree_groups h.reads ungrouped).trans (Outcome.agree_mapM_perm hclasses)
  have hsecond := (agree_groups h'.reads ungrouped).symm
  have hsame := @Outcome.agree_mapM _ _ _ _ _ _ (g.groupOf fun row => cells.map (·.2 row))
    (g'.groupOf fun row => cells'.map (·.2 row)) _ (shownClasses ungrouped key' rows') _
    (List.forall₂_same.mpr fun c _ => agree_groupOf h h' hcells hsums hdistinct c)
  refine ((hfirst.trans hsame).trans hsecond).mono ?_
  rintro found found' ⟨b, ⟨a, ⟨c, hfound, hc⟩, hab⟩, hfound'⟩
  refine ((hfound.trans hc).map _).trans ?_
  have hmap := List.forall₂_map_right_iff.mpr (List.forall₂_map_left_iff.mpr hab)
  rw [List.forall₂_eq_eq_eq] at hmap
  rw [hmap]
  exact (hfound'.map _).symm

end Grouping
end RecordSql
