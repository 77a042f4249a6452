/-!
# Named entries in order

A dictionary holds one entry per name, in the order in which the names were first written.  Writing
an existing name changes its entry and leaves the order alone.
-/

namespace RecordSql

structure Dict (α : Type) where
  entries : List (String × α)
  distinct : (entries.map (·.1)).Nodup
deriving DecidableEq

namespace Dict

variable {α : Type}

def empty : Dict α :=
  ⟨[], List.nodup_nil⟩

instance : Inhabited (Dict α) := ⟨empty⟩

def find (name : String) : List (String × α) -> Option α
  | [] => none
  | (key, value) :: rest => if key = name then some value else find name rest

def put (name : String) (value : α) : List (String × α) -> List (String × α)
  | [] => [(name, value)]
  | (key, old) :: rest =>
      if key = name then (key, value) :: rest else (key, old) :: put name value rest

theorem mem_keys_put {name other : String} {value : α} {entries : List (String × α)}
    (h : other ∈ (put name value entries).map (·.1)) :
    other = name ∨ other ∈ entries.map (·.1) := by
  induction entries with
  | nil =>
      simpa [put] using h
  | cons entry rest ih =>
      obtain ⟨key, old⟩ := entry
      by_cases hk : key = name
      · exact .inr (by simpa [put, hk] using h)
      · simp only [put, hk, if_false, List.map_cons, List.mem_cons] at h ⊢
        rcases h with h | h
        · exact .inr (.inl h)
        · rcases ih h with h | h
          · exact .inl h
          · exact .inr (.inr h)

theorem put_distinct {name : String} {value : α} {entries : List (String × α)}
    (h : (entries.map (·.1)).Nodup) : ((put name value entries).map (·.1)).Nodup := by
  induction entries with
  | nil =>
      simp [put]
  | cons entry rest ih =>
      obtain ⟨key, old⟩ := entry
      rw [List.map_cons, List.nodup_cons] at h
      by_cases hk : key = name
      · simpa [put, hk] using h
      · simp only [put, hk, if_false, List.map_cons, List.nodup_cons]
        refine ⟨?_, ih h.2⟩
        intro hmem
        rcases mem_keys_put hmem with hname | hrest
        · exact hk hname
        · exact h.1 hrest

def get? (d : Dict α) (name : String) : Option α :=
  find name d.entries

def contains (d : Dict α) (name : String) : Bool :=
  (d.get? name).isSome

def insert (d : Dict α) (name : String) (value : α) : Dict α :=
  ⟨put name value d.entries, put_distinct d.distinct⟩

/-- The dictionary without an entry of the given name. -/
def erase (d : Dict α) (name : String) : Dict α :=
  ⟨d.entries.filter (·.1 ≠ name), (d.distinct.sublist (List.filter_sublist.map _))⟩

/-- The dictionary with a text in front of every name. -/
def withFront (front : String) (d : Dict α) : Dict α :=
  ⟨d.entries.map fun (name, value) => (front ++ name, value), by
    have hkeys : (d.entries.map fun (name, value) => (front ++ name, value)).map (·.1) =
        (d.entries.map (·.1)).map (front ++ ·) := by
      simp
    rw [hkeys]
    refine List.Pairwise.map _ ?_ d.distinct
    intro a b hne heq
    exact hne ((String.append_right_inj front).mp heq)⟩

/-- The entries written one after the other. -/
def insertAll (d : Dict α) (entries : List (String × α)) : Dict α :=
  entries.foldl (fun acc (name, value) => acc.insert name value) d

def ofList (entries : List (String × α)) : Dict α :=
  empty.insertAll entries

def keys (d : Dict α) : List String :=
  d.entries.map (·.1)

def values (d : Dict α) : List α :=
  d.entries.map (·.2)

/-!
# Reading back
-/

theorem find_put_self (name : String) (value : α) (entries : List (String × α)) :
    find name (put name value entries) = some value := by
  induction entries with
  | nil =>
      simp [put, find]
  | cons entry rest ih =>
      obtain ⟨key, old⟩ := entry
      by_cases h : key = name
      · simp [put, find, h]
      · simp [put, find, h, ih]

theorem find_put_of_ne {name other : String} (h : other ≠ name) (value : α)
    (entries : List (String × α)) : find other (put name value entries) = find other entries := by
  induction entries with
  | nil =>
      simp [put, find, h.symm]
  | cons entry rest ih =>
      obtain ⟨key, old⟩ := entry
      by_cases hk : key = name
      · subst hk
        simp [put, find, h.symm]
      · simp only [put, hk, if_false, find]
        split
        · rfl
        · exact ih

@[simp]
theorem get?_empty (name : String) : (empty : Dict α).get? name = none :=
  rfl

@[simp]
theorem get?_insert_self (d : Dict α) (name : String) (value : α) :
    (d.insert name value).get? name = some value :=
  find_put_self name value d.entries

theorem get?_insert_of_ne {name other : String} (h : other ≠ name) (d : Dict α) (value : α) :
    (d.insert name value).get? other = d.get? other :=
  find_put_of_ne h value d.entries

theorem get?_insert (d : Dict α) (name other : String) (value : α) :
    (d.insert name value).get? other = if other = name then some value else d.get? other := by
  by_cases h : other = name
  · subst h
    simp
  · simp [h, get?_insert_of_ne h]

theorem find_eq_some_iff {entries : List (String × α)} (h : (entries.map (·.1)).Nodup)
    {name : String} {value : α} : find name entries = some value <-> (name, value) ∈ entries := by
  induction entries with
  | nil =>
      simp [find]
  | cons entry rest ih =>
      obtain ⟨key, old⟩ := entry
      rw [List.map_cons, List.nodup_cons] at h
      by_cases hk : key = name
      · subst hk
        have hnot : (key, value) ∉ rest := fun hmem =>
          h.1 (List.mem_map.mpr ⟨(key, value), hmem, rfl⟩)
        simp [find, hnot, eq_comm]
      · have hk' : name ≠ key := fun heq => hk heq.symm
        simp [find, hk, hk', ih h.2]

theorem get?_eq_some_iff (d : Dict α) {name : String} {value : α} :
    d.get? name = some value <-> (name, value) ∈ d.entries :=
  find_eq_some_iff d.distinct

theorem get?_withFront (front : String) (d : Dict α) {key : String} {value : α} :
    (d.withFront front).get? key = some value <->
      exists name, key = front ++ name ∧ d.get? name = some value := by
  rw [get?_eq_some_iff, withFront, List.mem_map]
  constructor
  · rintro ⟨⟨name, old⟩, hmem, heq⟩
    cases heq
    exact ⟨name, rfl, (get?_eq_some_iff d).mpr hmem⟩
  · rintro ⟨name, rfl, hname⟩
    exact ⟨(name, value), (get?_eq_some_iff d).mp hname, rfl⟩

theorem get?_insertAll_of_not_mem {name : String} {entries : List (String × α)}
    (h : name ∉ entries.map (·.1)) (d : Dict α) :
    (d.insertAll entries).get? name = d.get? name := by
  induction entries generalizing d with
  | nil =>
      rfl
  | cons entry rest ih =>
      rw [List.map_cons, List.mem_cons, not_or] at h
      exact (ih h.2 _).trans (get?_insert_of_ne h.1 d entry.2)

theorem get?_insertAll_of_mem {name : String} {value : α} {entries : List (String × α)}
    (hdistinct : (entries.map (·.1)).Nodup) (h : (name, value) ∈ entries) (d : Dict α) :
    (d.insertAll entries).get? name = some value := by
  induction entries generalizing d with
  | nil =>
      cases h
  | cons entry rest ih =>
      rw [List.map_cons, List.nodup_cons] at hdistinct
      rcases List.mem_cons.mp h with heq | hrest
      · cases heq
        exact (get?_insertAll_of_not_mem hdistinct.1 _).trans (get?_insert_self d name value)
      · exact ih hdistinct.2 hrest _

/-- A name that is written once or more, each time with the same value. -/
theorem get?_insertAll_of_all {name : String} {value : α} {entries : List (String × α)}
    (h : name ∈ entries.map (·.1))
    (hall : forall entry, entry ∈ entries -> entry.1 = name -> entry.2 = value) (d : Dict α) :
    (d.insertAll entries).get? name = some value := by
  induction entries generalizing d with
  | nil =>
      cases h
  | cons entry rest ih =>
      by_cases hrest : name ∈ rest.map (·.1)
      · exact ih hrest (fun e he => hall e (List.mem_cons_of_mem _ he)) _
      · rcases List.mem_cons.mp h with hname | hmem
        · have hvalue := hall entry List.mem_cons_self hname.symm
          rw [hname] at hrest ⊢
          rw [<- hvalue]
          exact (get?_insertAll_of_not_mem hrest _).trans (get?_insert_self d entry.1 entry.2)
        · exact absurd hmem hrest

/-- Writing the entries of another dictionary, whose values win. -/
theorem get?_insertAll (d other : Dict α) (name : String) :
    (d.insertAll other.entries).get? name = (other.get? name).or (d.get? name) := by
  cases h : other.get? name with
  | some value =>
      exact get?_insertAll_of_mem other.distinct ((get?_eq_some_iff other).mp h) d
  | none =>
      refine get?_insertAll_of_not_mem ?_ d
      intro hmem
      rcases List.mem_map.mp hmem with ⟨⟨key, value⟩, hentry, rfl⟩
      rw [(get?_eq_some_iff other).mpr hentry] at h
      cases h

end Dict

end RecordSql
