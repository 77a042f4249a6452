import Mathlib.Data.List.Forall2
import RecordSql.Plan.Context
import RecordSql.Proofs.Join.Picks
import RecordSql.Proofs.ScopeRows

/-!
# Rows of joined tables

A chain of joins is carried out in two ways.  Read from left to right, each table is joined to the
rows so far.  As a tree of linked scopes, each table is first joined with the tables below it.  Both
ways are described by picks of records, and so have the same complete rows.
-/

namespace RecordSql
namespace Join

open Fetch (Joined Link Scope Database keepMatching_nil keysMatch joinLinks_cons_eq_ok joinRow
  joinLinks scopeRows scopeRows_eq_ok)
open Plan (Bound)

/-- A joined table: its column `name` is equated with a column of an earlier table. -/
structure Joint where
  table : String
  aliasName : String
  outer : Bool
  earlier : Bound
  name : String

structure Chain where
  root : String
  joints : List Joint

/-!
# From left to right

A combination holds, for each table so far, the record that takes part in a row, or none.
-/

abbrev Combination := List (Option Record)

/-- The value of a column; it is missing where there is no record. -/
def cell (row : Combination) (b : Bound) : Value :=
  match row[b.scope]? with
  | some (some r) => r.get b.name
  | _ => .null

/-- The combinations that one becomes when a further table is joined to it. -/
def Joint.extend (j : Joint) (records : List Record) (row : Combination) : List Combination :=
  let found := records.filter fun r => keysMatch (cell row j.earlier) (r.get j.name)
  if found.isEmpty then if j.outer then [row ++ [none]] else []
  else found.map fun r => row ++ [some r]

def leftToRight (tables : String -> Option (List Record)) :
    List Joint -> List Combination -> Option (List Combination)
  | [], rows => some rows
  | j :: rest, rows => do
      let records <- tables j.table
      leftToRight tables rest (rows.flatMap (j.extend records))

def Chain.rows (c : Chain) (tables : String -> Option (List Record)) :
    Option (List Combination) := do
  let records <- tables c.root
  leftToRight tables c.joints (records.map fun r => [some r])

/-!
# The layout of a chain
-/

namespace Chain

variable (c : Chain)

def joint? : Nat -> Option Joint
  | 0 => none
  | n + 1 => c.joints[n]?

def table (n : Nat) : String :=
  ((c.joint? n).map (·.table)).getD c.root

/-- The text in front of the names of a table. -/
def front (n : Nat) : String :=
  ((c.joint? n).map (·.aliasName ++ ".")).getD ""

def link (n : Nat) : Link :=
  ((c.joint? n).map fun j => ⟨j.name, j.earlier.name, j.aliasName, j.outer⟩).getD ⟨"", "", "", false⟩

def records (tables : String -> Option (List Record)) (n : Nat) : List Record :=
  (tables (c.table n)).getD []

def layout (tables : String -> Option (List Record)) : Layout where
  count n := (c.records tables n).length
  parent n := ((c.joint? n).map (·.earlier.scope)).getD 0
  outer n := ((c.joint? n).map (·.outer)).getD false
  fits n a b :=
    match c.joint? n with
    | none => false
    | some j =>
        match (c.records tables j.earlier.scope)[a]?, (c.records tables n)[b]? with
        | some p, some r => keysMatch (p.get j.earlier.name) (r.get j.name)
        | _, _ => false

/-- The linked scopes of a forest of tables. -/
def links : Forest -> List (Link × Scope)
  | .nil => []
  | .cons n below rest =>
      (c.link n, ⟨c.table n, false, [], [], links below, []⟩) :: links rest

/-- The scope of the first table, with a forest of tables below it. -/
def scope (F : Forest) : Scope :=
  ⟨c.root, false, [], [], c.links F, []⟩

/-- The tables of a forest are joined to the table above them. -/
def Fits : Nat -> Forest -> Prop
  | _, .nil => True
  | p, .cons n below rest =>
      (exists j, c.joint? n = some j ∧ j.earlier.scope = p) ∧ Fits n below ∧ Fits p rest

variable {c}

theorem table_of_joint {n : Nat} {j : Joint} (h : c.joint? n = some j) : c.table n = j.table := by
  simp [table, h]

theorem front_of_joint {n : Nat} {j : Joint} (h : c.joint? n = some j) :
    c.front n = (c.link n).front := by
  simp [front, link, h, Link.front]

theorem placed_of_fits {tables : String -> Option (List Record)} {F : Forest} {A : List Nat}
    {p : Nat} (h : c.Fits p F) (hp : p ∈ A) : (c.layout tables).Placed A F := by
  induction F generalizing A p with
  | nil =>
      exact trivial
  | cons n below rest ihbelow ihrest =>
      rcases h with ⟨⟨j, hj, hscope⟩, hbelow, hrest⟩
      refine ⟨?_, ihbelow hbelow (List.mem_singleton_self n), ihrest hrest ?_⟩
      · simp only [layout, hj, Option.map_some, Option.getD_some, hscope]
        exact hp
      · exact List.mem_cons_of_mem _ (List.mem_append_right _ hp)

end Chain

theorem keysMatch_null (v : Value) : keysMatch .null v = false := by
  unfold keysMatch
  cases v <;> rfl

/-!
# Combinations and picks

A pick stands for the combination of the records that it names.
-/

namespace Chain

variable (c : Chain) (tables : String -> Option (List Record))

/-- The record that is picked from a table. -/
def picked (s : Pick) (n : Nat) : Option Record :=
  (s n).bind fun b => (c.records tables n)[b]?

/-- The records that are picked from the first tables. -/
def combine (count : Nat) (s : Pick) : Combination :=
  (List.range count).map (c.picked tables s)

/-- The value of a column in a pick. -/
def pickedValue (s : Pick) (b : Bound) : Value :=
  ((c.picked tables s b.scope).map (·.get b.name)).getD .null

variable {c tables}

theorem cell_combine {count : Nat} {s : Pick} (hs : Pick.Within (List.range count) s) (b : Bound) :
    cell (c.combine tables count s) b = c.pickedValue tables s b := by
  unfold cell combine pickedValue
  by_cases hb : b.scope < count
  · rw [List.getElem?_map, List.getElem?_range hb]
    cases hp : c.picked tables s b.scope with
    | none =>
        simp [hp]
    | some r =>
        simp [hp]
  · have hnone : s b.scope = none := hs b.scope (by simpa using hb)
    have hpicked : c.picked tables s b.scope = none := by
      simp [picked, hnone]
    rw [List.getElem?_eq_none (by simpa using hb), hpicked]
    rfl

theorem agrees_single {n : Nat} {j : Joint} (hj : c.joint? n = some j) {s : Pick} {b : Nat}
    {r : Record} (hr : (c.records tables n)[b]? = some r) :
    (c.layout tables).agrees n s (Pick.single n b) =
      keysMatch (c.pickedValue tables s j.earlier) (r.get j.name) := by
  have hparent : (c.layout tables).parent n = j.earlier.scope := by
    simp [layout, hj]
  unfold Layout.agrees
  rw [hparent, Pick.single_self]
  cases ha : s j.earlier.scope with
  | none =>
      simp [pickedValue, picked, ha, keysMatch_null]
  | some a =>
      simp only [layout, hj, hr]
      cases hp : (c.records tables j.earlier.scope)[a]? with
      | none =>
          simp [pickedValue, picked, ha, hp, keysMatch_null]
      | some p =>
          simp [pickedValue, picked, ha, hp]

theorem combine_merge_single {n b : Nat} {s : Pick} {r : Record}
    (hr : (c.records tables n)[b]? = some r) (hs : Pick.Within (List.range n) s) :
    c.combine tables (n + 1) (s.merge (Pick.single n b)) = c.combine tables n s ++ [some r] := by
  unfold combine
  rw [List.range_succ, List.map_append]
  congr 1
  · refine List.map_congr_left ?_
    intro m hm
    have hne : m ≠ n := Nat.ne_of_lt (List.mem_range.mp hm)
    have hkept : s.merge (Pick.single n b) m = s m := by
      refine Pick.merge_left ?_
      simp [Pick.single, hne]
    rw [picked, picked, hkept]
  · have hnew : s.merge (Pick.single n b) n = some b := by
      rw [Pick.merge_right (hs n (by simp)), Pick.single_self]
    simp [picked, hnew, hr]

theorem combine_succ {n : Nat} {s : Pick} (hs : Pick.Within (List.range n) s) :
    c.combine tables (n + 1) s = c.combine tables n s ++ [none] := by
  have hnone : s n = none := hs n (by simp)
  unfold combine
  rw [List.range_succ, List.map_append]
  simp [picked, hnone]

/-- Joining a table from left to right is joining it to picks. -/
theorem extend_combine {n : Nat} {j : Joint} (hj : c.joint? n = some j) {s : Pick}
    (hs : Pick.Within (List.range n) s) :
    j.extend (c.records tables n) (c.combine tables n s) =
      ((c.layout tables).joinOne n ((c.layout tables).singles n) s).map
        (c.combine tables (n + 1)) := by
  let record (b : Nat) : Record := ((c.records tables n)[b]?).getD (.ofTable "")
  have hrecord : forall b, b ∈ List.range (c.records tables n).length ->
      (c.records tables n)[b]? = some (record b) := by
    intro b hb
    have hlt := List.mem_range.mp hb
    simp [record, List.getElem?_eq_getElem hlt]
  have hrecords : c.records tables n = (List.range (c.records tables n).length).map record := by
    refine List.ext_getElem? ?_
    intro b
    by_cases hb : b < (c.records tables n).length
    · rw [hrecord b (List.mem_range.mpr hb), List.getElem?_map, List.getElem?_range hb]
      rfl
    · rw [List.getElem?_eq_none (by omega), List.getElem?_eq_none (by simpa using hb)]
  have hfound : (c.records tables n).filter (fun r =>
        keysMatch (cell (c.combine tables n s) j.earlier) (r.get j.name)) =
      ((List.range (c.records tables n).length).filter fun b =>
        (c.layout tables).agrees n s (Pick.single n b)).map record := by
    conv => lhs; rw [hrecords, List.filter_map]
    refine congrArg (List.map record) (List.filter_congr ?_)
    intro b hb
    rw [agrees_single hj (hrecord b hb), Function.comp_apply, cell_combine hs]
  have hsingles : ((c.layout tables).singles n).filter ((c.layout tables).agrees n s) =
      ((List.range (c.records tables n).length).filter fun b =>
        (c.layout tables).agrees n s (Pick.single n b)).map (Pick.single n) := by
    exact List.filter_map
  have houter : (c.layout tables).outer n = j.outer := by
    simp [layout, hj]
  unfold Joint.extend Layout.joinOne
  simp only [hfound, hsingles, houter, List.isEmpty_map]
  split
  · split
    · rw [List.map_singleton, combine_succ hs]
    · rfl
  · rw [List.map_map, List.map_map, List.map_map]
    refine List.map_congr_left ?_
    intro b hb
    have hr := hrecord b (List.mem_filter.mp hb).1
    exact (combine_merge_single hr hs).symm

theorem leftToRight_combine {todo : List Joint} {k : Nat} {start : List Pick}
    (htodo : c.joints.drop k = todo)
    (htables : forall j, j ∈ c.joints -> exists records, tables j.table = some records)
    (hstart : forall s, s ∈ start -> Pick.Within (List.range (k + 1)) s) :
    leftToRight tables todo (start.map (c.combine tables (k + 1))) =
      some (((c.layout tables).picks (.ofList (List.range' (k + 1) todo.length)) start).map
        (c.combine tables (k + 1 + todo.length))) := by
  induction todo generalizing k start with
  | nil =>
      rfl
  | cons j rest ih =>
      have hj : c.joint? (k + 1) = some j := by
        have hhead := congrArg List.head? htodo
        rw [List.head?_drop] at hhead
        exact hhead
      have hmem : j ∈ c.joints := List.mem_of_mem_drop (htodo ▸ List.mem_cons_self ..)
      rcases htables j hmem with ⟨records, hrecords⟩
      have hsame : c.records tables (k + 1) = records := by
        rw [Chain.records, table_of_joint hj, hrecords]
        rfl
      have hrest : c.joints.drop (k + 1) = rest := by
        rw [<- List.tail_drop, htodo]
        rfl
      have hstep : (start.map (c.combine tables (k + 1))).flatMap (j.extend records) =
          (start.flatMap ((c.layout tables).joinOne (k + 1)
            ((c.layout tables).singles (k + 1)))).map (c.combine tables (k + 1 + 1)) := by
        rw [List.flatMap_map, List.map_flatMap]
        refine List.flatMap_congr ?_
        intro s hs
        rw [<- hsame]
        exact extend_combine hj (hstart s hs)
      have hnext : forall s, s ∈ start.flatMap ((c.layout tables).joinOne (k + 1)
          ((c.layout tables).singles (k + 1))) -> Pick.Within (List.range (k + 1 + 1)) s := by
        intro s hs
        have hwithin : Pick.Within ((k + 1) :: ([] ++ List.range (k + 1))) s :=
          Layout.joined_within hstart (fun _ => Layout.singles_within) s hs
        refine hwithin.mono ?_
        intro m hm
        simp only [List.nil_append, List.mem_cons, List.mem_range] at hm ⊢
        omega
      have hfinal := ih hrest hnext
      rw [leftToRight, hrecords]
      change leftToRight tables rest _ = _
      rw [hstep, hfinal, List.length_cons, List.range'_succ, Forest.ofList, Layout.picks,
        Layout.picks]
      congr 3
      omega

end Chain

/-!
# Rows and picks

A row of linked scopes holds the attributes of the picked records, each name with the text of its
table in front.  That text must tell the tables apart: no key may belong to two of them.
-/

namespace Chain

variable (c : Chain) (tables : String -> Option (List Record))

/-- A name of a table: of an attribute that one of its records has, or of a column that links it. -/
def Named (n : Nat) (name : String) : Prop :=
  n ≤ c.joints.length ∧
    ((exists r v, r ∈ c.records tables n ∧ r.attributes.get? name = some v) ∨
      (exists j, c.joint? n = some j ∧ j.name = name) ∨
      (exists m j, c.joint? m = some j ∧ j.earlier = ⟨n, name⟩))

def Separate : Prop :=
  forall n m name name', c.Named tables n name -> c.Named tables m name' ->
    c.front n ++ name = c.front m ++ name' -> n = m

/-- The row holds the attributes of the picked records and nothing else. -/
def Holds (row : Joined) (s : Pick) : Prop :=
  forall key v, row.values.get? key = some v <->
    exists n r name, c.picked tables s n = some r ∧ key = c.front n ++ name ∧
      r.attributes.get? name = some v

/-- A row of the tables `A`, read as a row of the table `p` with others linked to it. -/
structure Shown (A : List Nat) (p : Nat) (row : Joined) (s : Pick) : Prop where
  holds : c.Holds tables row s
  within : Pick.Within A s
  known : forall n, n ∈ A -> n ≤ c.joints.length
  root : exists r, c.picked tables s p = some r ∧ row.id = r.id

variable {c tables}

theorem picked_eq_some {s : Pick} {n : Nat} {r : Record} (h : c.picked tables s n = some r) :
    exists b, s n = some b ∧ (c.records tables n)[b]? = some r :=
  Option.bind_eq_some_iff.mp h

theorem Shown.mem {A : List Nat} {p : Nat} {row : Joined} {s : Pick}
    (h : c.Shown tables A p row s) {n : Nat} {r : Record} (hr : c.picked tables s n = some r) :
    n ∈ A := by
  rcases picked_eq_some hr with ⟨b, hb, _⟩
  by_cases hn : n ∈ A
  · exact hn
  · rw [h.within n hn] at hb
    cases hb

theorem Shown.named {A : List Nat} {p : Nat} {row : Joined} {s : Pick}
    (h : c.Shown tables A p row s) {n : Nat} {r : Record} (hr : c.picked tables s n = some r)
    {name : String} {v : Value} (hv : r.attributes.get? name = some v) :
    c.Named tables n name := by
  rcases picked_eq_some hr with ⟨b, _, hmem⟩
  exact ⟨h.known n (h.mem hr), Or.inl ⟨r, v, List.mem_of_getElem? hmem, hv⟩⟩

/-- A row shows the value that a picked record has for a name. -/
theorem Shown.get {A : List Nat} {p : Nat} {row : Joined} {s : Pick}
    (h : c.Shown tables A p row s) (hseparate : c.Separate tables) {n : Nat} {r : Record}
    (hr : c.picked tables s n = some r) {name : String} (hname : c.Named tables n name) :
    row.get (c.front n ++ name) = r.get name := by
  unfold Joined.get Record.get
  cases hv : r.attributes.get? name with
  | some v =>
      rw [(h.holds _ v).mpr ⟨n, r, name, hr, rfl, hv⟩]
  | none =>
      cases hv' : row.values.get? (c.front n ++ name) with
      | none =>
          rfl
      | some v' =>
          rcases (h.holds _ v').mp hv' with ⟨m, r', name', hr', hkey, hvalue⟩
          have hnm := hseparate n m name name' hname (h.named hr' hvalue) hkey
          subst hnm
          rw [hr] at hr'
          cases hr'
          rw [String.append_right_inj] at hkey
          subst hkey
          rw [hv] at hvalue
          cases hvalue

theorem shown_ofRecord {n b : Nat} (hn : n ≤ c.joints.length) {r : Record}
    (hr : (c.records tables n)[b]? = some r) :
    c.Shown tables [n] n (.ofRecord (c.front n) r) (Pick.single n b) where
  holds := by
    intro key v
    have hpicked : forall m r', c.picked tables (Pick.single n b) m = some r' <->
        m = n ∧ r' = r := by
      intro m r'
      constructor
      · intro h
        rcases picked_eq_some h with ⟨b', hb', hr'⟩
        by_cases hm : m = n
        · subst hm
          rw [Pick.single_self] at hb'
          cases hb'
          rw [hr] at hr'
          cases hr'
          exact ⟨rfl, rfl⟩
        · simp [Pick.single, hm] at hb'
      · rintro ⟨rfl, rfl⟩
        simp [picked, Pick.single_self, hr]
    rw [Joined.ofRecord, Dict.get?_withFront]
    constructor
    · rintro ⟨name, rfl, hv⟩
      exact ⟨n, r, name, (hpicked n r).mpr ⟨rfl, rfl⟩, rfl, hv⟩
    · rintro ⟨m, r', name, hm, hkey, hv⟩
      rcases (hpicked m r').mp hm with ⟨rfl, rfl⟩
      exact ⟨name, hkey, hv⟩
  within := Pick.single_within n b
  known := by
    intro m hm
    rw [List.mem_singleton.mp hm]
    exact hn
  root := ⟨r, by simp [picked, Pick.single_self, hr], rfl⟩

theorem shown_link {A B : List Nat} {p q : Nat} {parent child : Joined} {s t : Pick}
    (hseparate : c.Separate tables) (hparent : c.Shown tables A p parent s)
    (hchild : c.Shown tables B q child t) (hdisjoint : forall m, m ∈ B -> m ∉ A) :
    c.Shown tables (B ++ A) p (parent.link child) (s.merge t) := by
  have hleft : forall m, m ∈ A -> s.merge t m = s m := by
    intro m hm
    refine Pick.merge_left (hchild.within m ?_)
    intro hB
    exact hdisjoint m hB hm
  have hright : forall m, m ∈ B -> s.merge t m = t m := by
    intro m hm
    exact Pick.merge_right (hparent.within m (hdisjoint m hm))
  have hpickedleft : forall m, m ∈ A -> c.picked tables (s.merge t) m = c.picked tables s m := by
    intro m hm
    rw [picked, picked, hleft m hm]
  have hpickedright : forall m, m ∈ B -> c.picked tables (s.merge t) m = c.picked tables t m := by
    intro m hm
    rw [picked, picked, hright m hm]
  refine ⟨?_, Pick.merge_within hparent.within hchild.within, ?_, ?_⟩
  · intro key v
    rw [Joined.link, Dict.get?_insertAll, Option.or_eq_some_iff]
    constructor
    · rintro (hv | ⟨_, hv⟩)
      · rcases (hchild.holds key v).mp hv with ⟨m, r, name, hr, hkey, hvalue⟩
        exact ⟨m, r, name, (hpickedright m (hchild.mem hr)).trans hr, hkey, hvalue⟩
      · rcases (hparent.holds key v).mp hv with ⟨m, r, name, hr, hkey, hvalue⟩
        exact ⟨m, r, name, (hpickedleft m (hparent.mem hr)).trans hr, hkey, hvalue⟩
    · rintro ⟨m, r, name, hr, hkey, hvalue⟩
      by_cases hB : m ∈ B
      · rw [hpickedright m hB] at hr
        exact Or.inl ((hchild.holds key v).mpr ⟨m, r, name, hr, hkey, hvalue⟩)
      · have hA : m ∈ A := by
          rcases picked_eq_some hr with ⟨b, hb, _⟩
          rw [Pick.merge_left (hchild.within m hB)] at hb
          by_cases hA : m ∈ A
          · exact hA
          · rw [hparent.within m hA] at hb
            cases hb
        rw [hpickedleft m hA] at hr
        refine Or.inr ⟨?_, (hparent.holds key v).mpr ⟨m, r, name, hr, hkey, hvalue⟩⟩
        cases hv' : child.values.get? key with
        | none =>
            rfl
        | some v' =>
            rcases (hchild.holds key v').mp hv' with ⟨m', r', name', hr', hkey', hvalue'⟩
            have hsame := hseparate m m' name name' (hparent.named hr hvalue)
              (hchild.named hr' hvalue') (hkey ▸ hkey')
            subst hsame
            exact absurd (hchild.mem hr') hB
  · intro m hm
    rcases List.mem_append.mp hm with hm | hm
    · exact hchild.known m hm
    · exact hparent.known m hm
  · rcases hparent.root with ⟨r, hr, hid⟩
    exact ⟨r, (hpickedleft p (hparent.mem hr)).trans hr, hid⟩

theorem Shown.mono {A B : List Nat} {p : Nat} {row : Joined} {s : Pick}
    (h : c.Shown tables A p row s) (hsub : forall m, m ∈ A -> m ∈ B)
    (hknown : forall m, m ∈ B -> m ≤ c.joints.length) : c.Shown tables B p row s where
  holds := h.holds
  within := h.within.mono hsub
  known := hknown
  root := h.root

/-- The order in which the tables are listed does not matter. -/
theorem Shown.congr {A B : List Nat} {p : Nat} {row : Joined} {s : Pick}
    (h : c.Shown tables A p row s) (hsame : forall m, m ∈ B <-> m ∈ A) :
    c.Shown tables B p row s :=
  h.mono (fun m hm => (hsame m).mpr hm) fun m hm => h.known m ((hsame m).mp hm)

/-!
# The tree of scopes
-/

theorem agrees_shown {A B : List Nat} {n : Nat} {j : Joint} (hj : c.joint? n = some j)
    (hseparate : c.Separate tables) (hn : n ≤ c.joints.length) {parent child : Joined} {s t : Pick}
    (hparent : c.Shown tables A j.earlier.scope parent s) (hchild : c.Shown tables B n child t) :
    keysMatch (parent.get (c.front j.earlier.scope ++ (c.link n).parent))
        (child.get ((c.link n).front ++ (c.link n).child)) =
      (c.layout tables).agrees n s t := by
  have hlink : c.link n = ⟨j.name, j.earlier.name, j.aliasName, j.outer⟩ := by
    simp [link, hj]
  rcases hparent.root with ⟨p, hp, _⟩
  rcases hchild.root with ⟨r, hr, _⟩
  have hpname : c.Named tables j.earlier.scope j.earlier.name :=
    ⟨hparent.known _ (hparent.mem hp), Or.inr (Or.inr ⟨n, j, hj, rfl⟩)⟩
  have hrname : c.Named tables n j.name := ⟨hn, Or.inr (Or.inl ⟨j, hj, rfl⟩)⟩
  rcases picked_eq_some hp with ⟨a, ha, hpa⟩
  rcases picked_eq_some hr with ⟨b, hb, hrb⟩
  have hagrees : (c.layout tables).agrees n s t =
      keysMatch (p.get j.earlier.name) (r.get j.name) := by
    have hparentn : (c.layout tables).parent n = j.earlier.scope := by
      simp [layout, hj]
    unfold Layout.agrees
    rw [hparentn, ha, hb]
    simp [layout, hj, hpa, hrb]
  rw [hagrees, <- front_of_joint hj, hlink]
  change keysMatch (parent.get (c.front j.earlier.scope ++ j.earlier.name))
    (child.get (c.front n ++ j.name)) = _
  rw [hparent.get hseparate hp hpname, hchild.get hseparate hr hrname]

theorem joinRow_shown {A B : List Nat} {n : Nat} {j : Joint} (hj : c.joint? n = some j)
    (hseparate : c.Separate tables) (hn : n ≤ c.joints.length)
    (hdisjoint : forall m, m ∈ B -> m ∉ A) {parent : Joined} {s : Pick}
    (hparent : c.Shown tables A j.earlier.scope parent s) {children : List Joined}
    {picks : List Pick} (hB : forall m, m ∈ B -> m ≤ c.joints.length)
    (hchildren : List.Forall₂ (c.Shown tables B n) children picks) :
    List.Forall₂ (c.Shown tables (B ++ A) j.earlier.scope)
      (joinRow (c.front j.earlier.scope) (c.link n) children parent)
      ((c.layout tables).joinOne n picks s) := by
  have hfound : List.Forall₂ (c.Shown tables B n)
      (children.filter fun child =>
        keysMatch (parent.get (c.front j.earlier.scope ++ (c.link n).parent))
          (child.get ((c.link n).front ++ (c.link n).child)))
      (picks.filter ((c.layout tables).agrees n s)) := by
    refine List.rel_filter ?_ hchildren
    intro child t hchild
    exact iff_of_eq (congrArg (· = true) (agrees_shown hj hseparate hn hparent hchild))
  have houter : (c.link n).outer = (c.layout tables).outer n := by
    simp [link, layout, hj]
  unfold joinRow Layout.joinOne
  simp only [houter]
  generalize (children.filter fun child =>
    keysMatch (parent.get (c.front j.earlier.scope ++ (c.link n).parent))
      (child.get ((c.link n).front ++ (c.link n).child))) = rows at hfound
  generalize picks.filter ((c.layout tables).agrees n s) = found at hfound
  cases hfound with
  | nil =>
      simp only [List.isEmpty_nil, if_true]
      split
      · refine .cons (hparent.mono (fun m hm => List.mem_append_right _ hm) ?_) .nil
        intro m hm
        rcases List.mem_append.mp hm with hm | hm
        · exact hB m hm
        · exact hparent.known m hm
      · exact .nil
  | cons hfirst hmore =>
      simp only [List.isEmpty_cons, Bool.false_eq_true, if_false]
      refine List.rel_map ?_ (.cons hfirst hmore)
      intro child t hchild
      exact shown_link hseparate hparent hchild hdisjoint

theorem singles_shown {n : Nat} (hn : n ≤ c.joints.length) :
    List.Forall₂ (c.Shown tables [n] n) ((c.records tables n).map (.ofRecord (c.front n)))
      ((c.layout tables).singles n) := by
  unfold Layout.singles
  rw [List.forall₂_map_left_iff, List.forall₂_map_right_iff, List.forall₂_iff_get]
  refine ⟨by simp [layout], ?_⟩
  intro b hb hb'
  have hget : (List.range ((c.layout tables).count n)).get ⟨b, hb'⟩ = b := by
    simp
  rw [hget]
  refine shown_ofRecord hn ?_
  rw [List.getElem?_eq_getElem hb]
  rfl

/-- The rows of linked scopes are the rows of the picks. -/
theorem joinLinks_shown {db : Database} (hseparate : c.Separate db.tables) {F : Forest}
    (hknown : forall n, n ∈ F.tables -> exists records, db.tables (c.table n) = some records)
    (hbound : forall n, n ∈ F.tables -> n ≤ c.joints.length)
    {A : List Nat} {p : Nat} (hfits : c.Fits p F) {rows : List Joined} {start : List Pick}
    (hjoinable : (c.layout db.tables).Joinable A F start)
    (hrows : List.Forall₂ (c.Shown db.tables A p) rows start) :
    exists joined, joinLinks db (c.front p) (c.links F) rows = .ok joined ∧
      List.Forall₂ (c.Shown db.tables (F.tables ++ A) p) joined
        ((c.layout db.tables).picks F start) := by
  induction F generalizing A p rows start with
  | nil =>
      exact ⟨rows, rfl, hrows⟩
  | cons n below rest ihbelow ihrest =>
      rcases hfits with ⟨⟨j, hj, hscope⟩, hfitsbelow, hfitsrest⟩
      subst hscope
      have hn : n ≤ c.joints.length := hbound n (by simp [Forest.tables])
      have hbelowmem : forall m, m ∈ below.tables -> m ∈ (Forest.cons n below rest).tables := by
        intro m hm
        simp [Forest.tables, hm]
      have hrestmem : forall m, m ∈ rest.tables -> m ∈ (Forest.cons n below rest).tables := by
        intro m hm
        simp [Forest.tables, hm]
      rcases ihbelow (fun m hm => hknown m (hbelowmem m hm)) (fun m hm => hbound m (hbelowmem m hm))
        hfitsbelow hjoinable.ofBelow (singles_shown hn) with ⟨children, hchildren, hshown⟩
      rcases hknown n (by simp [Forest.tables]) with ⟨records, hrecords⟩
      have hsame : c.records db.tables n = records := by
        rw [Chain.records, hrecords]
        rfl
      have hscopeRows : scopeRows db (c.link n).front
          ⟨c.table n, false, [], [], c.links below, []⟩ = .ok children := by
        rw [front_of_joint hj, hsame] at hchildren
        exact scopeRows_eq_ok.mpr ⟨records, _, hrecords, hchildren, keepMatching_nil _ _ _⟩
      have hB : forall m, m ∈ below.tables ++ [n] -> m ≤ c.joints.length := by
        intro m hm
        rcases List.mem_append.mp hm with hm | hm
        · exact hbound m (hbelowmem m hm)
        · rw [List.mem_singleton.mp hm]
          exact hn
      have hdisjoint : forall m, m ∈ below.tables ++ [n] -> m ∉ A := by
        intro m hm
        refine hjoinable.branch.fresh m ?_
        rcases List.mem_append.mp hm with hm | hm
        · exact List.mem_cons_of_mem _ hm
        · rw [List.mem_singleton.mp hm]
          exact List.mem_cons_self ..
      have hstep : List.Forall₂ (c.Shown db.tables (n :: (below.tables ++ A)) j.earlier.scope)
          (rows.flatMap (joinRow (c.front j.earlier.scope) (c.link n) children))
          (start.flatMap ((c.layout db.tables).joinOne n
            ((c.layout db.tables).picks below ((c.layout db.tables).singles n)))) := by
        refine List.rel_flatMap hrows ?_
        intro parent s hparent
        refine (joinRow_shown hj hseparate hn hdisjoint hparent hB hshown).imp ?_
        intro row t hrow
        refine hrow.congr fun m => ?_
        simp only [List.mem_append, List.mem_cons, List.not_mem_nil, or_false]
        rw [or_assoc, or_left_comm]
      rcases ihrest (fun m hm => hknown m (hrestmem m hm)) (fun m hm => hbound m (hrestmem m hm))
        hfitsrest hjoinable.ofRest hstep with ⟨joined, hjoined, hfinal⟩
      refine ⟨joined, ?_, ?_⟩
      · exact joinLinks_cons_eq_ok.mpr ⟨children, hscopeRows, hjoined⟩
      · refine hfinal.imp ?_
        intro row t hrow
        refine hrow.congr fun m => ?_
        simp only [Forest.tables, List.cons_append, List.append_assoc, List.mem_append,
          List.mem_cons]
        rw [or_left_comm (a := m ∈ rest.tables), or_left_comm (a := m ∈ rest.tables)]

/-!
# Both orders of joining
-/

/-- A row shows a combination: the attributes of its records, and nothing else. -/
structure Shows (c : Chain) (row : Joined) (combination : Combination) : Prop where
  values : forall key v, row.values.get? key = some v <->
    exists n r name, combination[n]? = some (some r) ∧ key = c.front n ++ name ∧
      r.attributes.get? name = some v
  id : exists r, combination[0]? = some (some r) ∧ row.id = r.id

/-- Every table of an inner join has a record in the combination. -/
def isComplete (c : Chain) (combination : Combination) : Bool :=
  c.joints.zipIdx.all fun (j, k) => j.outer || (combination[k + 1]?.join).isSome

theorem combine_getElem? {count n : Nat} (hn : n < count) (s : Pick) :
    (c.combine tables count s)[n]? = some (c.picked tables s n) := by
  rw [combine, List.getElem?_map, List.getElem?_range hn]
  rfl

theorem shows_combine {A : List Nat} {row : Joined} {s : Pick}
    (h : c.Shown tables A 0 row s) :
    c.Shows row (c.combine tables (c.joints.length + 1) s) where
  values := by
    intro key v
    rw [h.holds key v]
    constructor
    · rintro ⟨n, r, name, hr, hkey, hvalue⟩
      refine ⟨n, r, name, ?_, hkey, hvalue⟩
      rw [combine_getElem? (Nat.lt_succ_of_le (h.known n (h.mem hr))), hr]
    · rintro ⟨n, r, name, hr, hkey, hvalue⟩
      refine ⟨n, r, name, ?_, hkey, hvalue⟩
      have hn : n < c.joints.length + 1 := by
        have hlt := (List.getElem?_eq_some_iff.mp hr).1
        simpa [combine] using hlt
      rw [combine_getElem? hn] at hr
      exact Option.some.inj hr
  id := by
    rcases h.root with ⟨r, hr, hid⟩
    refine ⟨r, ?_, hid⟩
    rw [combine_getElem? (Nat.succ_pos _), hr]

theorem exists_joint {n : Nat} (hn : n ∈ List.range' 1 c.joints.length) :
    exists k j, n = k + 1 ∧ c.joints[k]? = some j := by
  rcases List.mem_range'_1.mp hn with ⟨hlow, hhigh⟩
  have hk : n - 1 < c.joints.length := by omega
  exact ⟨n - 1, c.joints[n - 1], by omega, List.getElem?_eq_getElem hk⟩

theorem isComplete_combine {s : Pick}
    (hs : forall m b, s m = some b -> b < (c.layout tables).count m) :
    c.isComplete (c.combine tables (c.joints.length + 1) s) =
      (c.layout tables).complete (List.range' 1 c.joints.length) s := by
  have hpicked : forall n, (c.picked tables s n).isSome = (s n).isSome := by
    intro n
    unfold picked
    cases hb : s n with
    | none =>
        rfl
    | some b =>
        have hlt : b < (c.records tables n).length := hs n b hb
        simp [List.getElem?_eq_getElem hlt]
  rw [Bool.eq_iff_iff, isComplete, Layout.complete, List.all_eq_true, List.all_eq_true]
  constructor
  · intro h n hn
    rcases exists_joint hn with ⟨k, j, rfl, hjk⟩
    have hk : k < c.joints.length := (List.getElem?_eq_some_iff.mp hjk).1
    have hj := h (j, k) (List.mk_mem_zipIdx_iff_getElem?.mpr hjk)
    have hjoint : c.joint? (k + 1) = some j := hjk
    simp only [combine_getElem? (show k + 1 < c.joints.length + 1 by omega), Option.join_some,
      hpicked] at hj
    simpa [layout, hjoint] using hj
  · rintro h ⟨j, k⟩ hjk
    have hj : c.joints[k]? = some j := List.mk_mem_zipIdx_iff_getElem?.mp hjk
    have hk : k < c.joints.length := (List.getElem?_eq_some_iff.mp hj).1
    have hn := h (k + 1) (List.mem_range'_1.mpr ⟨by omega, by omega⟩)
    have hjoint : c.joint? (k + 1) = some j := hj
    simp only [combine_getElem? (show k + 1 < c.joints.length + 1 by omega), Option.join_some,
      hpicked]
    simpa [layout, hjoint] using hn

theorem placed_ofList {n count : Nat} {A : List Nat} (hA : forall m, m < n -> m ∈ A)
    (hearlier : forall m j, c.joint? m = some j -> j.earlier.scope < m)
    (hjoint : forall m, m ∈ List.range' n count -> exists j, c.joint? m = some j) :
    (c.layout tables).Placed A (.ofList (List.range' n count)) := by
  induction count generalizing n A with
  | zero =>
      exact trivial
  | succ count ih =>
      rw [List.range'_succ] at hjoint ⊢
      rcases hjoint n (List.mem_cons_self ..) with ⟨j, hj⟩
      refine ⟨?_, trivial, ih ?_ fun m hm => hjoint m (List.mem_cons_of_mem _ hm)⟩
      · have hparent : (c.layout tables).parent n = j.earlier.scope := by
          simp [layout, hj]
        rw [hparent]
        exact hA _ (hearlier n j hj)
      · intro m hm
        by_cases hmn : m = n
        · rw [hmn]
          exact List.mem_cons_self ..
        · exact List.mem_cons_of_mem _ (List.mem_append_right _ (hA m (by omega)))

theorem roots_combine :
    (c.records tables 0).map (fun r => [some r]) =
      ((c.layout tables).singles 0).map (c.combine tables 1) := by
  unfold Layout.singles
  rw [List.map_map]
  refine List.ext_getElem? ?_
  intro b
  by_cases hb : b < (c.records tables 0).length
  · have hcount : b < (c.layout tables).count 0 := hb
    rw [List.getElem?_map, List.getElem?_map, List.getElem?_range hcount,
      List.getElem?_eq_getElem hb]
    simp [combine, picked, Pick.single_self, List.getElem?_eq_getElem hb]
  · rw [List.getElem?_eq_none (by simpa using hb), List.getElem?_eq_none (by simpa [layout] using hb)]

/-- Each table is joined to an earlier one, and the forest has every joined table once. -/
structure Spans (c : Chain) (F : Forest) : Prop where
  fits : c.Fits 0 F
  tables : F.tables.Perm (List.range' 1 c.joints.length)
  earlier : forall n j, c.joint? n = some j -> j.earlier.scope < n

namespace Spans

variable {F : Forest}

theorem joinable (h : c.Spans F) (tables : String -> Option (List Record)) :
    (c.layout tables).Joinable [0] F ((c.layout tables).singles 0) where
  placed := placed_of_fits h.fits (List.mem_singleton_self 0)
  distinct := h.tables.nodup_iff.mpr List.nodup_range'
  fresh := by
    intro m hm hzero
    have hlow := (List.mem_range'_1.mp (h.tables.mem_iff.mp hm)).1
    rw [List.mem_singleton.mp hzero] at hlow
    omega
  within := fun _ => Layout.singles_within

theorem joinable_ofList (h : c.Spans F) (tables : String -> Option (List Record)) :
    (c.layout tables).Joinable [0] (.ofList (List.range' 1 c.joints.length))
      ((c.layout tables).singles 0) where
  placed := by
    refine placed_ofList ?_ h.earlier ?_
    · intro m hm
      have hzero : m = 0 := by omega
      rw [hzero]
      exact List.mem_singleton_self 0
    · intro m hm
      rcases exists_joint hm with ⟨k, j, rfl, hj⟩
      exact ⟨j, hj⟩
  distinct := by
    rw [Forest.tables_ofList]
    exact List.nodup_range'
  fresh := by
    intro m hm hzero
    rw [Forest.tables_ofList] at hm
    have hlow := (List.mem_range'_1.mp hm).1
    rw [List.mem_singleton.mp hzero] at hlow
    omega
  within := fun _ => Layout.singles_within

end Spans

/-- The combinations that the tree of a forest picks. -/
def treeCombinations (c : Chain) (tables : String -> Option (List Record)) (F : Forest) :
    List Combination :=
  ((c.layout tables).picks F ((c.layout tables).singles 0)).map
    (c.combine tables (c.joints.length + 1))

section

variable {F : Forest} {db : Database}

theorem Spans.le (h : c.Spans F) {n : Nat} (hn : n ∈ F.tables) : n ≤ c.joints.length := by
  have hhigh := (List.mem_range'_1.mp (h.tables.mem_iff.mp hn)).2
  omega

theorem scopeRows_scope (h : c.Spans F) (hseparate : c.Separate db.tables)
    (hknown : forall n, n ≤ c.joints.length ->
      exists records, db.tables (c.table n) = some records) :
    exists rows, scopeRows db "" (c.scope F) = .ok rows ∧
      List.Forall₂ c.Shows rows (c.treeCombinations db.tables F) := by
  rcases hknown 0 (Nat.zero_le _) with ⟨records, hrecords⟩
  have hroot : c.records db.tables 0 = records := by
    rw [Chain.records, hrecords]
    rfl
  rcases joinLinks_shown hseparate (fun n hn => hknown n (h.le hn)) (fun n hn => h.le hn) h.fits
    (h.joinable db.tables) (singles_shown (Nat.zero_le _)) with ⟨rows, hrows, hshown⟩
  refine ⟨rows, ?_, ?_⟩
  · rw [hroot] at hrows
    exact scopeRows_eq_ok.mpr ⟨records, _, hrecords, hrows, keepMatching_nil _ _ _⟩
  · rw [treeCombinations, List.forall₂_map_right_iff]
    exact hshown.imp fun row t hrow => shows_combine hrow

/-- Joining from left to right is joining the tables one after the other. -/
theorem rows_eq
    (hknown : forall n, n ≤ c.joints.length -> exists records, tables (c.table n) = some records) :
    c.rows tables =
      some (c.treeCombinations tables (.ofList (List.range' 1 c.joints.length))) := by
  rcases hknown 0 (Nat.zero_le _) with ⟨records, hrecords⟩
  have hroot : c.records tables 0 = records := by
    rw [Chain.records, hrecords]
    rfl
  have htables : forall j, j ∈ c.joints -> exists records, tables j.table = some records := by
    intro j hj
    rcases List.getElem?_of_mem hj with ⟨k, hk⟩
    have hlt : k < c.joints.length := (List.getElem?_eq_some_iff.mp hk).1
    have hjoint : c.joint? (k + 1) = some j := hk
    rw [<- table_of_joint hjoint]
    exact hknown (k + 1) hlt
  have hleft := @leftToRight_combine c tables c.joints 0 ((c.layout tables).singles 0) rfl htables
    fun s hs => Layout.singles_within hs
  rw [Chain.rows, show c.root = c.table 0 from rfl, hrecords]
  change leftToRight tables c.joints (records.map _) = _
  rw [<- hroot, roots_combine, hleft, treeCombinations, Nat.add_comm c.joints.length 1]

theorem isComplete_of_mem_picks (h : c.Spans F) {t : Pick}
    (ht : t ∈ (c.layout tables).picks F ((c.layout tables).singles 0)) :
    c.isComplete (c.combine tables (c.joints.length + 1) t) =
      (c.layout tables).complete F.tables t := by
  rw [isComplete_combine (Layout.picks_bounded (fun _ => Layout.singles_bounded) t ht)]
  exact h.tables.symm.all_eq

/-- The complete combinations of the tree are those of the joins one after the other. -/
theorem treeCombinations_perm (h : c.Spans F) (tables : String -> Option (List Record)) :
    (c.treeCombinations tables (.ofList (List.range' 1 c.joints.length))).Perm
      ((c.treeCombinations tables F).filter c.isComplete) := by
  have hflat := h.joinable_ofList tables
  have hperm := Layout.picks_perm hflat (h.joinable tables)
    (by rw [Forest.tables_ofList]; exact h.tables.symm) (Layout.nodup_singles 0)
  have hall : forall t, t ∈ (c.layout tables).picks (.ofList (List.range' 1 c.joints.length))
      ((c.layout tables).singles 0) -> (c.layout tables).complete
        (Forest.ofList (List.range' 1 c.joints.length)).tables t = true := by
    intro t ht
    exact Layout.complete_iff.mpr
      (Layout.complete_of_sheltered hflat (Layout.sheltered_ofList _) ht)
  rw [List.filter_eq_self.mpr hall] at hperm
  rw [treeCombinations, treeCombinations, List.filter_map]
  refine List.Perm.map _ (hperm.trans (List.Perm.of_eq (List.filter_congr ?_)))
  intro t ht
  rw [Function.comp_apply, isComplete_of_mem_picks h ht]

/-- No inner join is made to a table of an outer join. -/
def InnerOnInner (c : Chain) : Prop :=
  forall n j i, c.joint? n = some j -> j.outer = false -> c.joint? j.earlier.scope = some i ->
    i.outer = false

theorem isComplete_of_innerOnInner (h : c.Spans F) (hinner : c.InnerOnInner) {row : Combination}
    (hrow : row ∈ c.treeCombinations tables F) : c.isComplete row = true := by
  rcases List.mem_map.mp hrow with ⟨t, ht, rfl⟩
  have hplaced := (h.joinable tables).placed
  rw [isComplete_of_mem_picks h ht]
  refine Layout.complete_iff.mpr (Layout.complete_of_sheltered (h.joinable tables)
    (Layout.sheltered_of_placed hplaced ?_) ht)
  intro m hm houter
  rcases exists_joint (h.tables.mem_iff.mp hm) with ⟨k, j, rfl, hj⟩
  have hjoint : c.joint? (k + 1) = some j := hj
  have houterj : j.outer = false := by
    simpa [layout, hjoint] using houter
  have hparent : (c.layout tables).parent (k + 1) = j.earlier.scope := by
    simp [layout, hjoint]
  rw [hparent]
  cases hi : c.joint? j.earlier.scope with
  | none =>
      simp [layout, hi]
  | some i =>
      simpa [layout, hi] using hinner (k + 1) j i hjoint houterj hi

end

end Chain

end Join
end RecordSql
