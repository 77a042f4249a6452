/-!
# Picking records for joined tables

The tables of a join are numbered, and so are the records of each table.  A pick names, for each
table, the record that a joined row takes from it, or none.

A join can be carried out in more than one order: a table together with the tables below it first,
or one table after the other.  Picks that have a record for every table of an inner join do not
depend on that order.
-/

namespace RecordSql
namespace Join

/-- The shape of a join: how many records each table has, and how it is joined to which table. -/
structure Layout where
  count : Nat -> Nat
  parent : Nat -> Nat
  outer : Nat -> Bool
  /-- A record of the table above, by its number, matches a record of the table. -/
  fits : Nat -> Nat -> Nat -> Bool

abbrev Pick := Nat -> Option Nat

/-- Numbered tables, each with the tables that are joined below it before it is joined itself. -/
inductive Forest where
  | nil
  | cons (table : Nat) (below rest : Forest)

namespace Forest

def tables : Forest -> List Nat
  | nil => []
  | cons n below rest => n :: (below.tables ++ rest.tables)

/-- The tables one after the other, with nothing below them. -/
def ofList : List Nat -> Forest
  | [] => nil
  | n :: rest => cons n nil (ofList rest)

theorem tables_ofList (ns : List Nat) : (ofList ns).tables = ns := by
  induction ns with
  | nil =>
      rfl
  | cons n rest ih =>
      simp [ofList, tables, ih]

end Forest

namespace Pick

def single (n b : Nat) : Pick :=
  fun m => if m = n then some b else none

/-- A pick together with one for further tables. -/
def merge (s t : Pick) : Pick :=
  fun m => (t m).or (s m)

/-- A pick without the records of some tables. -/
def off (s : Pick) (tables : List Nat) : Pick :=
  fun m => if m ∈ tables then none else s m

/-- A pick has records of the given tables only. -/
def Within (tables : List Nat) (s : Pick) : Prop :=
  forall m, m ∉ tables -> s m = none

theorem single_self (n b : Nat) : single n b n = some b := by
  simp [single]

theorem single_within (n b : Nat) : Within [n] (single n b) := by
  intro m hm
  have hne : m ≠ n := by
    simpa using hm
  simp [single, hne]

theorem merge_left {s t : Pick} {m : Nat} (h : t m = none) : s.merge t m = s m := by
  simp [merge, h]

theorem merge_right {s t : Pick} {m : Nat} (h : s m = none) : s.merge t m = t m := by
  simp [merge, h]

theorem off_mem {s : Pick} {tables : List Nat} {m : Nat} (h : m ∈ tables) :
    s.off tables m = none := by
  simp [off, h]

theorem off_not_mem {s : Pick} {tables : List Nat} {m : Nat} (h : m ∉ tables) :
    s.off tables m = s m := by
  simp [off, h]

theorem Within.mono {A B : List Nat} {s : Pick} (h : Within A s) (hsub : forall m, m ∈ A -> m ∈ B) :
    Within B s := by
  intro m hm
  exact h m fun hA => hm (hsub m hA)

theorem merge_within {A B : List Nat} {s t : Pick} (hs : Within A s) (ht : Within B t) :
    Within (B ++ A) (s.merge t) := by
  intro m hm
  rw [List.mem_append, not_or] at hm
  rw [merge_left (ht m hm.1)]
  exact hs m hm.2

end Pick

namespace Layout

variable (L : Layout)

def agrees (n : Nat) (s t : Pick) : Bool :=
  match s (L.parent n), t n with
  | some a, some b => L.fits n a b
  | _, _ => false

/-- The picks that a pick becomes when a table is joined to it. -/
def joinOne (n : Nat) (children : List Pick) (s : Pick) : List Pick :=
  let found := children.filter (L.agrees n s)
  if found.isEmpty then if L.outer n then [s] else []
  else found.map s.merge

def singles (n : Nat) : List Pick :=
  (List.range (L.count n)).map (Pick.single n)

def picks : Forest -> List Pick -> List Pick
  | .nil, start => start
  | .cons n below rest, start =>
      picks rest (start.flatMap (L.joinOne n (picks below (L.singles n))))

/-- Every table is joined to one that is there already. -/
def Placed : List Nat -> Forest -> Prop
  | _, .nil => True
  | A, .cons n below rest =>
      L.parent n ∈ A ∧ Placed [n] below ∧ Placed (n :: (below.tables ++ A)) rest

/-- What a join asks of the record that is picked from a table, or of there being none. -/
def Valid (n : Nat) (s : Pick) : Prop :=
  match s n with
  | some b => b < L.count n ∧ exists a, s (L.parent n) = some a ∧ L.fits n a b = true
  | none => L.outer n = true ∧ forall a, s (L.parent n) = some a ->
      forall b, b < L.count n -> L.fits n a b = false

/-- No table of an inner join is without a record. -/
def Complete (tables : List Nat) (s : Pick) : Prop :=
  forall m, m ∈ tables -> L.outer m = false -> exists b, s m = some b

variable {L}

theorem mem_joinOne {n : Nat} {children : List Pick} {s t : Pick} :
    t ∈ L.joinOne n children s <->
      (exists c, c ∈ children ∧ L.agrees n s c = true ∧ t = s.merge c) ∨
        (L.outer n = true ∧ (forall c, c ∈ children -> L.agrees n s c = false) ∧ t = s) := by
  unfold joinOne
  simp only
  cases hfound : children.filter (L.agrees n s) with
  | nil =>
      have hnone : forall c, c ∈ children -> L.agrees n s c = false := by
        intro c hc
        have hc' := List.filter_eq_nil_iff.mp hfound c hc
        simpa using hc'
      constructor
      · intro ht
        cases houter : L.outer n with
        | false =>
            simp [houter] at ht
        | true =>
            simp only [houter, List.isEmpty_nil, if_true, List.mem_singleton] at ht
            exact Or.inr ⟨rfl, hnone, ht⟩
      · rintro (⟨c, hc, hagrees, _⟩ | ⟨houter, _, rfl⟩)
        · rw [hnone c hc] at hagrees
          cases hagrees
        · simp [houter]
  | cons first more =>
      have hmem : forall c, c ∈ first :: more <-> c ∈ children ∧ L.agrees n s c = true := by
        intro c
        rw [<- hfound, List.mem_filter]
      simp only [List.isEmpty_cons, Bool.false_eq_true, if_false, List.mem_map]
      constructor
      · rintro ⟨c, hc, rfl⟩
        exact Or.inl ⟨c, ((hmem c).mp hc).1, ((hmem c).mp hc).2, rfl⟩
      · rintro (⟨c, hc, hagrees, rfl⟩ | ⟨_, hnone, _⟩)
        · exact ⟨c, (hmem c).mpr ⟨hc, hagrees⟩, rfl⟩
        · have hfirst := (hmem first).mp (List.mem_cons_self ..)
          rw [hnone first hfirst.1] at hfirst
          cases hfirst.2

theorem agrees_iff {n : Nat} {s t : Pick} :
    L.agrees n s t = true <->
      exists a b, s (L.parent n) = some a ∧ t n = some b ∧ L.fits n a b = true := by
  unfold agrees
  cases hs : s (L.parent n) with
  | none =>
      simp
  | some a =>
      cases ht : t n with
      | none =>
          simp
      | some b =>
          simp

theorem mem_singles {n : Nat} {s : Pick} :
    s ∈ L.singles n <-> exists b, b < L.count n ∧ s = Pick.single n b := by
  unfold singles
  simp only [List.mem_map, List.mem_range]
  constructor
  · rintro ⟨b, hb, rfl⟩
    exact ⟨b, hb, rfl⟩
  · rintro ⟨b, hb, rfl⟩
    exact ⟨b, hb, rfl⟩

/-- Whether a choice is valid depends on the table and the one above it only. -/
theorem valid_congr {n : Nat} {s t : Pick} (hn : s n = t n)
    (hparent : s (L.parent n) = t (L.parent n)) : L.Valid n s <-> L.Valid n t := by
  unfold Valid
  rw [hn, hparent]

/-!
# Where picks have records
-/

theorem joined_within {n : Nat} {A B : List Nat} {start children : List Pick}
    (hstart : forall s, s ∈ start -> Pick.Within A s)
    (hchildren : forall c, c ∈ children -> Pick.Within (B ++ [n]) c) :
    forall t, t ∈ start.flatMap (L.joinOne n children) -> Pick.Within (n :: (B ++ A)) t := by
  intro t ht
  rcases List.mem_flatMap.mp ht with ⟨s, hs, ht⟩
  rcases mem_joinOne.mp ht with ⟨c, hc, _, rfl⟩ | ⟨_, _, rfl⟩
  · refine (Pick.merge_within (hstart s hs) (hchildren c hc)).mono ?_
    intro m hm
    simp only [List.mem_append, List.mem_cons, List.not_mem_nil, or_false] at hm ⊢
    rcases hm with (hm | hm) | hm
    · exact Or.inr (Or.inl hm)
    · exact Or.inl hm
    · exact Or.inr (Or.inr hm)
  · refine (hstart _ hs).mono ?_
    intro m hm
    exact List.mem_cons_of_mem _ (List.mem_append_right _ hm)

theorem singles_within {n : Nat} {s : Pick} (hs : s ∈ L.singles n) : Pick.Within [n] s := by
  rcases mem_singles.mp hs with ⟨b, _, rfl⟩
  exact Pick.single_within n b

theorem singles_bounded {n : Nat} {s : Pick} (hs : s ∈ L.singles n) (m b : Nat)
    (hb : s m = some b) : b < L.count m := by
  rcases mem_singles.mp hs with ⟨b', hb', rfl⟩
  by_cases hm : m = n
  · subst hm
    rw [Pick.single_self] at hb
    cases hb
    exact hb'
  · simp [Pick.single, hm] at hb

theorem picks_within {F : Forest} {A : List Nat} {start : List Pick}
    (h : forall s, s ∈ start -> Pick.Within A s) :
    forall t, t ∈ L.picks F start -> Pick.Within (F.tables ++ A) t := by
  induction F generalizing A start with
  | nil =>
      exact h
  | cons n below rest ihbelow ihrest =>
      intro t ht
      rw [picks] at ht
      have hchildren : forall c, c ∈ L.picks below (L.singles n) ->
          Pick.Within (below.tables ++ [n]) c := ihbelow fun _ => singles_within
      refine (ihrest (joined_within h hchildren) t ht).mono ?_
      intro m hm
      simp only [Forest.tables, List.mem_append, List.mem_cons] at hm ⊢
      rcases hm with hm | hm | hm | hm
      · exact Or.inl (Or.inr (Or.inr hm))
      · exact Or.inl (Or.inl hm)
      · exact Or.inl (Or.inr (Or.inl hm))
      · exact Or.inr hm

theorem child_within {n : Nat} {below : Forest} {c : Pick}
    (h : c ∈ L.picks below (L.singles n)) : Pick.Within (below.tables ++ [n]) c := by
  exact picks_within (fun _ => singles_within) c h

/-- Joining further tables leaves what is picked from the others as it is. -/
theorem exists_start_of_mem_picks {F : Forest} {start : List Pick} {t : Pick}
    (h : t ∈ L.picks F start) :
    exists s, s ∈ start ∧ forall m, m ∉ F.tables -> t m = s m := by
  induction F generalizing start with
  | nil =>
      exact ⟨t, h, fun m _ => rfl⟩
  | cons n below rest _ ihrest =>
      rw [picks] at h
      rcases ihrest h with ⟨u, hu, hsame⟩
      rcases List.mem_flatMap.mp hu with ⟨s, hs, hu⟩
      refine ⟨s, hs, ?_⟩
      intro m hm
      simp only [Forest.tables, List.mem_cons, List.mem_append, not_or] at hm
      rw [hsame m hm.2.2]
      rcases mem_joinOne.mp hu with ⟨c, hc, _, rfl⟩ | ⟨_, _, rfl⟩
      · refine Pick.merge_left (child_within hc m ?_)
        simp only [List.mem_append, List.mem_singleton, not_or]
        exact ⟨hm.2.1, hm.1⟩
      · rfl

/-- A table that is joined with the tables below it has a record in every row. -/
theorem exists_root {n : Nat} {below : Forest} (hn : n ∉ below.tables) {c : Pick}
    (h : c ∈ L.picks below (L.singles n)) : exists b, b < L.count n ∧ c n = some b := by
  rcases exists_start_of_mem_picks h with ⟨s, hs, hsame⟩
  rcases mem_singles.mp hs with ⟨b, hb, rfl⟩
  refine ⟨b, hb, ?_⟩
  rw [hsame n hn, Pick.single_self]

/-- Only records that are there are picked. -/
theorem picks_bounded {F : Forest} {start : List Pick}
    (h : forall s, s ∈ start -> forall m b, s m = some b -> b < L.count m) :
    forall t, t ∈ L.picks F start -> forall m b, t m = some b -> b < L.count m := by
  induction F generalizing start with
  | nil =>
      exact h
  | cons n below rest ihbelow ihrest =>
      rw [picks]
      refine ihrest ?_
      intro u hu m b hb
      rcases List.mem_flatMap.mp hu with ⟨s, hs, hu⟩
      rcases mem_joinOne.mp hu with ⟨c, hc, _, rfl⟩ | ⟨_, _, rfl⟩
      · rcases Option.or_eq_some_iff.mp hb with hcm | ⟨_, hsm⟩
        · exact ihbelow (fun _ => singles_bounded) c hc m b hcm
        · exact h s hs m b hsm
      · exact h _ hs m b hb

/-- Outer joins keep every row. -/
theorem exists_mem_picks_of_outer {F : Forest} {start : List Pick}
    (houter : forall m, m ∈ F.tables -> L.outer m = true) {s : Pick} (hs : s ∈ start) :
    exists t, t ∈ L.picks F start ∧ forall m, m ∉ F.tables -> t m = s m := by
  induction F generalizing start s with
  | nil =>
      exact ⟨s, hs, fun m _ => rfl⟩
  | cons n below rest _ ihrest =>
      have hjoined : exists u, u ∈ L.joinOne n (L.picks below (L.singles n)) s := by
        cases hfound : (L.picks below (L.singles n)).find? (L.agrees n s) with
        | some c =>
            exact ⟨s.merge c, mem_joinOne.mpr (Or.inl
              ⟨c, List.mem_of_find?_eq_some hfound, List.find?_some hfound, rfl⟩)⟩
        | none =>
            refine ⟨s, mem_joinOne.mpr (Or.inr ⟨houter n (by simp [Forest.tables]), ?_, rfl⟩)⟩
            intro c hc
            simpa using List.find?_eq_none.mp hfound c hc
      rcases hjoined with ⟨u, hu⟩
      have hrest : forall m, m ∈ rest.tables -> L.outer m = true := by
        intro m hm
        exact houter m (by simp [Forest.tables, hm])
      rcases ihrest hrest (List.mem_flatMap.mpr ⟨s, hs, hu⟩) with ⟨t, ht, hsame⟩
      refine ⟨t, ht, ?_⟩
      intro m hm
      simp only [Forest.tables, List.mem_cons, List.mem_append, not_or] at hm
      rw [hsame m hm.2.2]
      rcases mem_joinOne.mp hu with ⟨c, hc, _, rfl⟩ | ⟨_, _, rfl⟩
      · refine Pick.merge_left (child_within hc m ?_)
        simp only [List.mem_append, List.mem_singleton, not_or]
        exact ⟨hm.2.1, hm.1⟩
      · rfl

/-- Below a table without a record there are no records. -/
theorem none_of_valid {F : Forest} {A : List Nat} (hplaced : L.Placed A F) {t : Pick}
    (hvalid : forall m, m ∈ F.tables -> L.Valid m t) (hnone : forall m, m ∈ A -> t m = none) :
    forall m, m ∈ F.tables -> t m = none := by
  induction F generalizing A with
  | nil =>
      intro m hm
      cases hm
  | cons n below rest ihbelow ihrest =>
      rcases hplaced with ⟨hparent, hbelow, hrest⟩
      have hn : t n = none := by
        have hvalidn := hvalid n (by simp [Forest.tables])
        unfold Valid at hvalidn
        cases htn : t n with
        | none =>
            rfl
        | some b =>
            rw [htn] at hvalidn
            rcases hvalidn with ⟨_, a, ha, _⟩
            rw [hnone _ hparent] at ha
            cases ha
      have hbelow' : forall m, m ∈ below.tables -> t m = none := by
        refine ihbelow hbelow (fun m hm => hvalid m (by simp [Forest.tables, hm])) ?_
        intro m hm
        rw [List.mem_singleton.mp hm, hn]
      have hrest' : forall m, m ∈ rest.tables -> t m = none := by
        refine ihrest hrest (fun m hm => hvalid m (by simp [Forest.tables, hm])) ?_
        intro m hm
        rcases List.mem_cons.mp hm with rfl | hm
        · exact hn
        · rcases List.mem_append.mp hm with hm | hm
          · exact hbelow' m hm
          · exact hnone m hm
      intro m hm
      simp only [Forest.tables, List.mem_cons, List.mem_append] at hm
      rcases hm with rfl | hm | hm
      · exact hn
      · exact hbelow' m hm
      · exact hrest' m hm

theorem parent_mem_of_placed {F : Forest} {A : List Nat} (hplaced : L.Placed A F) {m : Nat}
    (hm : m ∈ F.tables) : L.parent m ∈ F.tables ∨ L.parent m ∈ A := by
  induction F generalizing A with
  | nil =>
      cases hm
  | cons n below rest ihbelow ihrest =>
      rcases hplaced with ⟨hparent, hbelow, hrest⟩
      simp only [Forest.tables, List.mem_cons, List.mem_append] at hm ⊢
      rcases hm with rfl | hm | hm
      · exact Or.inr hparent
      · rcases ihbelow hbelow hm with h | h
        · exact Or.inl (Or.inr (Or.inl h))
        · exact Or.inl (Or.inl (List.mem_singleton.mp h))
      · rcases ihrest hrest hm with h | h
        · exact Or.inl (Or.inr (Or.inr h))
        · rcases List.mem_cons.mp h with h | h
          · exact Or.inl (Or.inl h)
          · rcases List.mem_append.mp h with h | h
            · exact Or.inl (Or.inr (Or.inl h))
            · exact Or.inr h

theorem complete_of_valid {tables : List Nat} {s : Pick}
    (h : forall m, m ∈ tables -> L.Valid m s) : L.Complete tables s := by
  intro m hm houter
  have hvalid := h m hm
  unfold Valid at hvalid
  cases hs : s m with
  | some b =>
      exact ⟨b, rfl⟩
  | none =>
      rw [hs, houter] at hvalid
      cases hvalid.1

/-!
# Complete picks

A complete pick comes about exactly if every choice in it is valid, and so regardless of the order
in which the tables are joined.
-/

section

variable {n : Nat} {below : Forest} {A : List Nat} {start : List Pick}

/-- The tables of a branch are joined to a pick of other tables. -/
structure Branch (L : Layout) (n : Nat) (below : Forest) (A : List Nat) (start : List Pick) :
    Prop where
  placed : L.Placed [n] below
  parent : L.parent n ∈ A
  fresh : forall m, m ∈ n :: below.tables -> m ∉ A
  root : n ∉ below.tables
  within : forall s, s ∈ start -> Pick.Within A s

/-- Which complete picks the joined tables of a branch have. -/
def Describes (L : Layout) (n : Nat) (below : Forest) : Prop :=
  forall c, c ∈ L.picks below (L.singles n) ∧ L.Complete below.tables c <->
    c.off below.tables ∈ L.singles n ∧ forall m, m ∈ below.tables -> L.Valid m c

theorem Branch.parent_mem (h : Branch L n below A start) {m : Nat} (hm : m ∈ below.tables) :
    L.parent m ∈ n :: below.tables := by
  rcases parent_mem_of_placed h.placed hm with hparent | hparent
  · exact List.mem_cons_of_mem _ hparent
  · rw [List.mem_singleton.mp hparent]
    exact List.mem_cons_self ..

theorem Branch.child_none (_h : Branch L n below A start) {c : Pick}
    (hc : c ∈ L.picks below (L.singles n)) {m : Nat} (hm : m ∉ n :: below.tables) :
    c m = none := by
  refine child_within hc m ?_
  intro hmem
  rcases List.mem_append.mp hmem with hbelow | hn
  · exact hm (List.mem_cons_of_mem _ hbelow)
  · rw [List.mem_singleton.mp hn] at hm
    exact hm (List.mem_cons_self ..)

/-- What a pick is joined to can be read off it. -/
theorem off_of_mem_joinOne (h : Branch L n below A start) {s u : Pick} (hu : u ∈ start)
    (hs : s ∈ L.joinOne n (L.picks below (L.singles n)) u) : s.off (n :: below.tables) = u := by
  funext m
  by_cases hm : m ∈ n :: below.tables
  · rw [Pick.off_mem hm, h.within u hu m (h.fresh m hm)]
  · rw [Pick.off_not_mem hm]
    rcases mem_joinOne.mp hs with ⟨c, hc, _, rfl⟩ | ⟨_, _, rfl⟩
    · exact Pick.merge_left (h.child_none hc hm)
    · rfl

theorem valid_of_joined (h : Branch L n below A start) (hbelow : Describes L n below) {u c : Pick}
    (hu : u ∈ start) (hc : c ∈ L.picks below (L.singles n)) (hagrees : L.agrees n u c = true)
    (hcomplete : L.Complete (n :: below.tables) (u.merge c)) :
    forall m, m ∈ n :: below.tables -> L.Valid m (u.merge c) := by
  have hinside : forall m, m ∈ n :: below.tables -> u.merge c m = c m :=
    fun m hm => Pick.merge_right (h.within u hu m (h.fresh m hm))
  have hcompletec : L.Complete below.tables c := by
    intro m hm houter
    rw [<- hinside m (List.mem_cons_of_mem _ hm)]
    exact hcomplete m (List.mem_cons_of_mem _ hm) houter
  have hvalidc := ((hbelow c).mp ⟨hc, hcompletec⟩).2
  intro m hm
  rcases List.mem_cons.mp hm with rfl | hmbelow
  · rcases agrees_iff.mp hagrees with ⟨a, b, ha, hb, hfits⟩
    rcases exists_root h.root hc with ⟨b', hb', hcn⟩
    rw [hb] at hcn
    cases hcn
    have hparent : L.parent m ∉ m :: below.tables := fun hmem => h.fresh _ hmem h.parent
    unfold Valid
    rw [hinside m hm, hb, Pick.merge_left (h.child_none hc hparent)]
    exact ⟨hb', a, ha, hfits⟩
  · exact (valid_congr (hinside m hm) (hinside _ (h.parent_mem hmbelow))).mpr
      (hvalidc m hmbelow)

theorem valid_of_unmatched (h : Branch L n below A start) {u : Pick} (hu : u ∈ start)
    (hnone : forall c, c ∈ L.picks below (L.singles n) -> L.agrees n u c = false)
    (hcomplete : L.Complete (n :: below.tables) u) :
    forall m, m ∈ n :: below.tables -> L.Valid m u := by
  have hinside : forall m, m ∈ n :: below.tables -> u m = none :=
    fun m hm => h.within u hu m (h.fresh m hm)
  have houters : forall m, m ∈ n :: below.tables -> L.outer m = true := by
    intro m hm
    cases hm' : L.outer m with
    | true =>
        rfl
    | false =>
        rcases hcomplete m hm hm' with ⟨b, hb⟩
        rw [hinside m hm] at hb
        cases hb
  intro m hm
  unfold Valid
  rw [hinside m hm]
  refine ⟨houters m hm, ?_⟩
  intro a ha b hb
  rcases List.mem_cons.mp hm with rfl | hmbelow
  · have hsingle : Pick.single m b ∈ L.singles m := mem_singles.mpr ⟨b, hb, rfl⟩
    rcases exists_mem_picks_of_outer (fun k hk => houters k (List.mem_cons_of_mem _ hk)) hsingle
      with ⟨c, hc, hsame⟩
    have hcm : c m = some b := by
      rw [hsame m h.root, Pick.single_self]
    have hdisagrees := hnone c hc
    unfold agrees at hdisagrees
    rw [ha, hcm] at hdisagrees
    exact hdisagrees
  · rw [hinside _ (h.parent_mem hmbelow)] at ha
    cases ha

theorem mem_joined_of_valid (h : Branch L n below A start) (hbelow : Describes L n below)
    {s : Pick} (hu : s.off (n :: below.tables) ∈ start)
    (hvalid : forall m, m ∈ n :: below.tables -> L.Valid m s) :
    s ∈ L.joinOne n (L.picks below (L.singles n)) (s.off (n :: below.tables)) := by
  have hparent : L.parent n ∉ n :: below.tables := fun hmem => h.fresh _ hmem h.parent
  have hvalidn := hvalid n (List.mem_cons_self ..)
  unfold Valid at hvalidn
  cases hsn : s n with
  | some b =>
      rw [hsn] at hvalidn
      rcases hvalidn with ⟨hb, a, ha, hfits⟩
      let c : Pick := fun m => if m ∈ n :: below.tables then s m else none
      have hinside : forall m, m ∈ n :: below.tables -> c m = s m := fun m hm => if_pos hm
      have houtside : forall m, m ∉ n :: below.tables -> c m = none := fun m hm => if_neg hm
      have hroot : c.off below.tables = Pick.single n b := by
        funext m
        by_cases hm : m ∈ below.tables
        · have hne : m ≠ n := fun heq => h.root (heq ▸ hm)
          simp [Pick.off_mem hm, Pick.single, hne]
        · rw [Pick.off_not_mem hm]
          by_cases hmn : m = n
          · subst hmn
            rw [hinside m (List.mem_cons_self ..), hsn, Pick.single_self]
          · rw [houtside m (by simp [hmn, hm])]
            simp [Pick.single, hmn]
      have hc : c ∈ L.picks below (L.singles n) := by
        refine ((hbelow c).mpr ⟨?_, ?_⟩).1
        · rw [hroot]
          exact mem_singles.mpr ⟨b, hb, rfl⟩
        · intro m hm
          exact (valid_congr (hinside m (List.mem_cons_of_mem _ hm))
            (hinside _ (h.parent_mem hm))).mpr (hvalid m (List.mem_cons_of_mem _ hm))
      refine mem_joinOne.mpr (Or.inl ⟨c, hc, ?_, ?_⟩)
      · refine agrees_iff.mpr ⟨a, b, ?_, ?_, hfits⟩
        · rw [Pick.off_not_mem hparent, ha]
        · rw [hinside n (List.mem_cons_self ..), hsn]
      · funext m
        by_cases hm : m ∈ n :: below.tables
        · rw [Pick.merge_right (Pick.off_mem hm), hinside m hm]
        · rw [Pick.merge_left (houtside m hm), Pick.off_not_mem hm]
  | none =>
      rw [hsn] at hvalidn
      have hnone : forall m, m ∈ below.tables -> s m = none := by
        refine none_of_valid h.placed (fun m hm => hvalid m (List.mem_cons_of_mem _ hm)) ?_
        intro m hm
        rw [List.mem_singleton.mp hm, hsn]
      refine mem_joinOne.mpr (Or.inr ⟨hvalidn.1, ?_, ?_⟩)
      · intro c hc
        rcases exists_root h.root hc with ⟨b, hb, hcn⟩
        unfold agrees
        rw [Pick.off_not_mem hparent, hcn]
        cases ha : s (L.parent n) with
        | none =>
            rfl
        | some a =>
            exact hvalidn.2 a ha b hb
      · funext m
        by_cases hm : m ∈ n :: below.tables
        · rw [Pick.off_mem hm]
          rcases List.mem_cons.mp hm with rfl | hm
          · exact hsn
          · exact hnone m hm
        · rw [Pick.off_not_mem hm]

theorem mem_joined_iff (h : Branch L n below A start) (hbelow : Describes L n below) {s : Pick} :
    s ∈ start.flatMap (L.joinOne n (L.picks below (L.singles n))) ∧
        L.Complete (n :: below.tables) s <->
      s.off (n :: below.tables) ∈ start ∧ forall m, m ∈ n :: below.tables -> L.Valid m s := by
  constructor
  · rintro ⟨hs, hcomplete⟩
    rcases List.mem_flatMap.mp hs with ⟨u, hu, hs⟩
    rw [off_of_mem_joinOne h hu hs]
    refine ⟨hu, ?_⟩
    rcases mem_joinOne.mp hs with ⟨c, hc, hagrees, rfl⟩ | ⟨_, hnone, rfl⟩
    · exact valid_of_joined h hbelow hu hc hagrees hcomplete
    · exact valid_of_unmatched h hu hnone hcomplete
  · rintro ⟨hu, hvalid⟩
    refine ⟨List.mem_flatMap.mpr ⟨_, hu, mem_joined_of_valid h hbelow hu hvalid⟩, ?_⟩
    exact complete_of_valid hvalid

end

/-- A forest is joined to picks of other tables, and no table occurs twice. -/
structure Joinable (L : Layout) (A : List Nat) (F : Forest) (start : List Pick) : Prop where
  placed : L.Placed A F
  distinct : F.tables.Nodup
  fresh : forall m, m ∈ F.tables -> m ∉ A
  within : forall s, s ∈ start -> Pick.Within A s

namespace Joinable

variable {n : Nat} {below rest : Forest} {A : List Nat} {start : List Pick}

theorem branch (h : Joinable L A (.cons n below rest) start) : Branch L n below A start where
  placed := h.placed.2.1
  parent := h.placed.1
  fresh := by
    intro m hm
    refine h.fresh m ?_
    simp only [Forest.tables, List.mem_cons, List.mem_append] at hm ⊢
    rcases hm with hm | hm
    · exact Or.inl hm
    · exact Or.inr (Or.inl hm)
  root := by
    have hdistinct := h.distinct
    rw [Forest.tables, List.nodup_cons, List.mem_append, not_or] at hdistinct
    exact hdistinct.1.1
  within := h.within

theorem ofBelow (h : Joinable L A (.cons n below rest) start) :
    Joinable L [n] below (L.singles n) where
  placed := h.placed.2.1
  distinct := by
    have hdistinct := h.distinct
    rw [Forest.tables, List.nodup_cons, List.nodup_append] at hdistinct
    exact hdistinct.2.1
  fresh := by
    intro m hm hn
    exact h.branch.root (List.mem_singleton.mp hn ▸ hm)
  within := fun _ => singles_within

theorem rest_disjoint (h : Joinable L A (.cons n below rest) start) {m : Nat}
    (hm : m ∈ rest.tables) : m ∉ n :: (below.tables ++ A) := by
  have hdistinct := h.distinct
  rw [Forest.tables, List.nodup_cons, List.nodup_append] at hdistinct
  intro hmem
  rcases List.mem_cons.mp hmem with rfl | hmem
  · exact hdistinct.1 (List.mem_append_right _ hm)
  · rcases List.mem_append.mp hmem with hbelow | hA
    · exact hdistinct.2.2.2 m hbelow m hm rfl
    · exact h.fresh m (by simp [Forest.tables, hm]) hA

theorem ofRest (h : Joinable L A (.cons n below rest) start) :
    Joinable L (n :: (below.tables ++ A)) rest
      (start.flatMap (L.joinOne n (L.picks below (L.singles n)))) where
  placed := h.placed.2.2
  distinct := by
    have hdistinct := h.distinct
    rw [Forest.tables, List.nodup_cons, List.nodup_append] at hdistinct
    exact hdistinct.2.2.1
  fresh := fun _ => h.rest_disjoint
  within := joined_within h.within fun _ => child_within

end Joinable

/-- The complete picks of a forest are those whose choices are all valid. -/
theorem mem_picks_iff {F : Forest} {A : List Nat} {start : List Pick}
    (h : Joinable L A F start) {t : Pick} :
    t ∈ L.picks F start ∧ L.Complete F.tables t <->
      t.off F.tables ∈ start ∧ forall m, m ∈ F.tables -> L.Valid m t := by
  induction F generalizing A start t with
  | nil =>
      have hoff : t.off [] = t := by
        funext m
        exact Pick.off_not_mem (List.not_mem_nil)
      rw [Forest.tables, hoff]
      constructor
      · rintro ⟨ht, _⟩
        exact ⟨ht, fun m hm => by cases hm⟩
      · rintro ⟨ht, _⟩
        exact ⟨ht, fun m hm => by cases hm⟩
  | cons n below rest ihbelow ihrest =>
      have hbelow : Describes L n below := fun c => ihbelow h.ofBelow
      have hjoined := @mem_joined_iff _ _ _ _ _ h.branch hbelow (t.off rest.tables)
      have hrest := @ihrest _ _ h.ofRest t
      have hkept : forall m, m ∈ n :: below.tables ∨ m ∈ A -> t.off rest.tables m = t m := by
        intro m hm
        refine Pick.off_not_mem ?_
        intro hmrest
        refine h.rest_disjoint hmrest ?_
        simp only [List.mem_cons, List.mem_append] at hm ⊢
        rcases hm with (hm | hm) | hm
        · exact Or.inl hm
        · exact Or.inr (Or.inl hm)
        · exact Or.inr (Or.inr hm)
      have hoff : (t.off rest.tables).off (n :: below.tables) =
          t.off (Forest.cons n below rest).tables := by
        funext m
        simp only [Pick.off, Forest.tables, List.mem_cons, List.mem_append]
        by_cases hn : m = n
        · simp [hn]
        · by_cases hb : m ∈ below.tables
          · simp [hb]
          · simp [hn, hb]
      have hvalid : forall m, m ∈ n :: below.tables ->
          (L.Valid m (t.off rest.tables) <-> L.Valid m t) := by
        intro m hm
        refine valid_congr (hkept m (Or.inl hm)) (hkept _ ?_)
        rcases List.mem_cons.mp hm with rfl | hm
        · exact Or.inr h.branch.parent
        · exact Or.inl (h.branch.parent_mem hm)
      have hcomplete : L.Complete (n :: below.tables) (t.off rest.tables) <->
          L.Complete (n :: below.tables) t := by
        constructor
        · intro hc m hm houter
          rw [<- hkept m (Or.inl hm)]
          exact hc m hm houter
        · intro hc m hm houter
          rw [hkept m (Or.inl hm)]
          exact hc m hm houter
      have hsplit : forall m, m ∈ (Forest.cons n below rest).tables <->
          m ∈ n :: below.tables ∨ m ∈ rest.tables := by
        intro m
        simp only [Forest.tables, List.mem_cons, List.mem_append]
        exact or_assoc.symm
      rw [picks]
      constructor
      · rintro ⟨ht, hc⟩
        have hcrest : L.Complete rest.tables t := fun m hm => hc m ((hsplit m).mpr (Or.inr hm))
        have hcbranch : L.Complete (n :: below.tables) t :=
          fun m hm => hc m ((hsplit m).mpr (Or.inl hm))
        rcases hrest.mp ⟨ht, hcrest⟩ with ⟨hmem, hvalidrest⟩
        rcases hjoined.mp ⟨hmem, hcomplete.mpr hcbranch⟩ with ⟨hstart, hvalidbranch⟩
        rw [hoff] at hstart
        refine ⟨hstart, ?_⟩
        intro m hm
        rcases (hsplit m).mp hm with hm | hm
        · exact (hvalid m hm).mp (hvalidbranch m hm)
        · exact hvalidrest m hm
      · rintro ⟨hstart, hall⟩
        rw [<- hoff] at hstart
        have hbranch := hjoined.mpr
          ⟨hstart, fun m hm => (hvalid m hm).mpr (hall m ((hsplit m).mpr (Or.inl hm)))⟩
        have htree := hrest.mpr ⟨hbranch.1, fun m hm => hall m ((hsplit m).mpr (Or.inr hm))⟩
        exact ⟨htree.1, complete_of_valid hall⟩

/-!
# No pick comes twice
-/

theorem nodup_joinOne {n : Nat} {below : Forest} {A : List Nat} {start : List Pick}
    (h : Branch L n below A start) (hbelow : (L.picks below (L.singles n)).Nodup) {u : Pick}
    (hu : u ∈ start) : (L.joinOne n (L.picks below (L.singles n)) u).Nodup := by
  unfold joinOne
  simp only
  split
  · split
    · simp
    · exact List.nodup_nil
  · refine List.pairwise_map.mpr ?_
    refine List.Pairwise.imp_of_mem ?_ (hbelow.sublist List.filter_sublist)
    intro c d hc hd hne heq
    refine hne ?_
    funext m
    by_cases hm : m ∈ n :: below.tables
    · have hum : u m = none := h.within u hu m (h.fresh m hm)
      rw [<- @Pick.merge_right u c m hum, <- @Pick.merge_right u d m hum, heq]
    · rw [h.child_none (List.mem_filter.mp hc).1 hm, h.child_none (List.mem_filter.mp hd).1 hm]

theorem nodup_singles (n : Nat) : (L.singles n).Nodup := by
  refine List.pairwise_map.mpr ?_
  refine List.nodup_range.imp ?_
  intro a b hne heq
  have hvalue := congrFun heq n
  rw [Pick.single_self, Pick.single_self] at hvalue
  exact hne (Option.some.inj hvalue)

theorem nodup_picks {F : Forest} {A : List Nat} {start : List Pick} (h : Joinable L A F start)
    (hstart : start.Nodup) : (L.picks F start).Nodup := by
  induction F generalizing A start with
  | nil =>
      exact hstart
  | cons n below rest ihbelow ihrest =>
      rw [picks]
      refine ihrest h.ofRest ?_
      refine List.pairwise_flatMap.mpr ⟨?_, ?_⟩
      · intro u hu
        exact nodup_joinOne h.branch (ihbelow h.ofBelow (nodup_singles n)) hu
      · refine List.Pairwise.imp_of_mem ?_ hstart
        intro u v hu hv hne s hs t ht heq
        subst heq
        refine hne ?_
        rw [<- off_of_mem_joinOne h.branch hu hs, off_of_mem_joinOne h.branch hv ht]

/-!
# The order of joining
-/

/-- Whether a pick has a record for every table of an inner join. -/
def complete (L : Layout) (tables : List Nat) (s : Pick) : Bool :=
  tables.all fun m => L.outer m || (s m).isSome

theorem complete_iff {tables : List Nat} {s : Pick} :
    L.complete tables s = true <-> L.Complete tables s := by
  unfold complete Complete
  rw [List.all_eq_true]
  constructor
  · intro h m hm houter
    have hm' := h m hm
    rw [houter, Bool.false_or] at hm'
    exact Option.isSome_iff_exists.mp hm'
  · intro h m hm
    cases houter : L.outer m with
    | true =>
        rfl
    | false =>
        rw [Bool.false_or]
        exact Option.isSome_iff_exists.mpr (h m hm houter)

/-- The complete picks of two forests with the same tables are the same. -/
theorem picks_perm {F G : Forest} {A : List Nat} {start : List Pick} (hF : Joinable L A F start)
    (hG : Joinable L A G start) (htables : F.tables.Perm G.tables) (hstart : start.Nodup) :
    ((L.picks F start).filter (L.complete F.tables)).Perm
      ((L.picks G start).filter (L.complete G.tables)) := by
  refine (List.perm_ext_iff_of_nodup ((nodup_picks hF hstart).sublist List.filter_sublist)
    ((nodup_picks hG hstart).sublist List.filter_sublist)).mpr ?_
  intro t
  have hoff : t.off F.tables = t.off G.tables := by
    funext m
    simp only [Pick.off, htables.mem_iff]
  rw [List.mem_filter, List.mem_filter, complete_iff, complete_iff, mem_picks_iff hF,
    mem_picks_iff hG, hoff]
  simp only [htables.mem_iff]

/-!
# When all picks are complete

An inner join that drops a row drops it from the tables it is joined with so far.  No row is lost
to that, and none stays incomplete, if an outer join brings along only further outer joins.
-/

def Sheltered (L : Layout) : Forest -> Prop
  | .nil => True
  | .cons n below rest =>
      (L.outer n = true -> forall m, m ∈ below.tables -> L.outer m = true) ∧
        Sheltered L below ∧ Sheltered L rest

theorem sheltered_ofList (ns : List Nat) : Sheltered L (.ofList ns) := by
  induction ns with
  | nil =>
      exact trivial
  | cons n rest ih =>
      refine ⟨?_, trivial, ih⟩
      intro _ m hm
      cases hm

theorem outer_of_placed {F : Forest} {A : List Nat} (hplaced : L.Placed A F)
    (hinner : forall m, m ∈ F.tables -> L.outer m = false -> L.outer (L.parent m) = false)
    (hA : forall m, m ∈ A -> L.outer m = true) : forall m, m ∈ F.tables -> L.outer m = true := by
  induction F generalizing A with
  | nil =>
      intro m hm
      cases hm
  | cons n below rest ihbelow ihrest =>
      rcases hplaced with ⟨hparent, hbelow, hrest⟩
      have hn : L.outer n = true := by
        cases hn : L.outer n with
        | true =>
            rfl
        | false =>
            have hinnern := hinner n (by simp [Forest.tables]) hn
            rw [hA _ hparent] at hinnern
            cases hinnern
      have hbelow' : forall m, m ∈ below.tables -> L.outer m = true := by
        refine ihbelow hbelow (fun m hm => hinner m (by simp [Forest.tables, hm])) ?_
        intro m hm
        rw [List.mem_singleton.mp hm, hn]
      have hrest' : forall m, m ∈ rest.tables -> L.outer m = true := by
        refine ihrest hrest (fun m hm => hinner m (by simp [Forest.tables, hm])) ?_
        intro m hm
        rcases List.mem_cons.mp hm with rfl | hm
        · exact hn
        · rcases List.mem_append.mp hm with hm | hm
          · exact hbelow' m hm
          · exact hA m hm
      intro m hm
      simp only [Forest.tables, List.mem_cons, List.mem_append] at hm
      rcases hm with rfl | hm | hm
      · exact hn
      · exact hbelow' m hm
      · exact hrest' m hm

theorem sheltered_of_placed {F : Forest} {A : List Nat} (hplaced : L.Placed A F)
    (hinner : forall m, m ∈ F.tables -> L.outer m = false -> L.outer (L.parent m) = false) :
    Sheltered L F := by
  induction F generalizing A with
  | nil =>
      exact trivial
  | cons n below rest ihbelow ihrest =>
      rcases hplaced with ⟨_, hbelow, hrest⟩
      have hinnerbelow : forall m, m ∈ below.tables -> L.outer m = false ->
          L.outer (L.parent m) = false := fun m hm => hinner m (by simp [Forest.tables, hm])
      refine ⟨?_, ihbelow hbelow hinnerbelow,
        ihrest hrest fun m hm => hinner m (by simp [Forest.tables, hm])⟩
      intro hn
      refine outer_of_placed hbelow hinnerbelow ?_
      intro m hm
      rw [List.mem_singleton.mp hm, hn]

theorem complete_of_sheltered {F : Forest} {A : List Nat} {start : List Pick}
    (h : Joinable L A F start) (hsheltered : Sheltered L F) {t : Pick}
    (ht : t ∈ L.picks F start) : L.Complete F.tables t := by
  induction F generalizing A start t with
  | nil =>
      intro m hm
      cases hm
  | cons n below rest ihbelow ihrest =>
      rcases hsheltered with ⟨hn, hbelow, hrest⟩
      rw [picks] at ht
      rcases exists_start_of_mem_picks ht with ⟨u, hu, hsame⟩
      rcases List.mem_flatMap.mp hu with ⟨s, hs, hu⟩
      have hkept : forall m, m ∈ n :: below.tables -> t m = u m := by
        intro m hm
        refine hsame m ?_
        intro hmrest
        refine h.rest_disjoint hmrest ?_
        rw [<- List.cons_append]
        exact List.mem_append_left _ hm
      have hbranch : L.Complete (n :: below.tables) u := by
        rcases mem_joinOne.mp hu with ⟨c, hc, _, rfl⟩ | ⟨houter, _, rfl⟩
        · intro m hm houter
          rw [Pick.merge_right (h.within s hs m (h.branch.fresh m hm))]
          rcases List.mem_cons.mp hm with rfl | hm
          · rcases exists_root h.branch.root hc with ⟨b, _, hb⟩
            exact ⟨b, hb⟩
          · exact ihbelow h.ofBelow hbelow hc m hm houter
        · intro m hm hinner
          rcases List.mem_cons.mp hm with rfl | hm
          · rw [houter] at hinner
            cases hinner
          · rw [hn houter m hm] at hinner
            cases hinner
      intro m hm houter
      simp only [Forest.tables, List.mem_cons, List.mem_append] at hm
      rcases hm with rfl | hm | hm
      · rw [hkept m (List.mem_cons_self ..)]
        exact hbranch m (List.mem_cons_self ..) houter
      · rw [hkept m (List.mem_cons_of_mem _ hm)]
        exact hbranch m (List.mem_cons_of_mem _ hm) houter
      · exact ihrest h.ofRest hrest ht m hm houter

end Layout

end Join
end RecordSql
