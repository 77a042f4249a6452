import RecordSql.Proofs.TextQuery.Condition

/-!
# Planning a select list of texts

While a query of one table is planned, nothing changes but the attributes and the orders of its
root.  Every select item ends up as a retrieved attribute or as a computed column, and no two
columns of the rows have one name.
-/

namespace RecordSql
namespace TextQuery

open Fetch (Attribute Order)
open Plan (Bound Context Projection reads)
open Sql (Column Scalar SelectItem)

/-- What stays the same while a query of one table is planned. -/
structure Frame where
  table : TableDef
  aliasName : String
  noLock : Bool
  filters : List Fetch.Filter

namespace Frame

def query (f : Frame) (attributes : List Attribute) (orders : List Order) : Fetch.Query :=
  { Fetch.Query.ofTable f.table.name with
    noLock := f.noLock
    root := ⟨f.table.name, false, attributes, f.filters, [], orders⟩ }

def contextIn (f : Frame) (options : Plan.Options) (attributes : List Attribute)
    (orders : List Order) : Context :=
  ⟨options, [⟨f.aliasName, f.table, [], false⟩], f.query attributes orders⟩

abbrev context (f : Frame) (attributes : List Attribute) (orders : List Order) : Context :=
  f.contextIn .standard attributes orders

variable {f : Frame} {options : Plan.Options} {attributes : List Attribute} {orders : List Order}

theorem oneScope : OneScope f.table (f.contextIn options attributes orders) :=
  ⟨f.aliasName, rfl⟩

theorem single : Single f.table (f.context attributes orders) :=
  ⟨oneScope, rfl⟩

end Frame

/-- Attributes with one more, under its own name, unless it is there. -/
def ensured (attributes : List Attribute) (name : String) : List Attribute :=
  if attributes.any fun a => a.name == name && a.isPlain then attributes
  else attributes ++ [.ofName name]

variable {f : Frame} {options : Plan.Options} {attributes : List Attribute} {orders : List Order}

theorem ensure_context (name : String) :
    (f.contextIn options attributes orders).ensure ⟨0, name⟩ =
      f.contextIn options (ensured attributes name) orders := by
  rw [Context.ensure, Frame.oneScope.update, ensured, Fetch.Scope.ensure]
  simp only [Frame.contextIn, Frame.query, Bool.false_or]
  split <;> rfl

theorem alias_context (name aliasName : String) :
    (f.contextIn options attributes orders).update 0 (·.addAttribute (.aliased name aliasName)) =
      f.contextIn options (attributes ++ [.aliased name aliasName]) orders := by
  rw [Frame.oneScope.update]
  rfl

theorem subset_ensured (name : String) : attributes ⊆ ensured attributes name := by
  intro a ha
  unfold ensured
  split
  · exact ha
  · exact List.mem_append_left _ ha

theorem ensureAll_context (columns : List Bound) (hscope : forall b, b ∈ columns -> b.scope = 0) :
    (f.contextIn options attributes orders).ensureAll columns =
      f.contextIn options (columns.foldl (fun found b => ensured found b.name) attributes)
        orders := by
  induction columns generalizing attributes with
  | nil =>
      rfl
  | cons b rest ih =>
      have hb : b = ⟨0, b.name⟩ := by
        rw [<- hscope b List.mem_cons_self]
      rw [Context.ensureAll, List.foldl_cons, List.foldl_cons, hb, ensure_context]
      exact ih fun b' hb' => hscope b' (List.mem_cons_of_mem _ hb')

/-!
# Names of retrieved and computed columns
-/

/-- The name under which an attribute is returned. -/
def outputName (a : Attribute) : String :=
  a.aliasName.getD a.name

/--
Columns under distinct names: attributes under their own names, attributes under given names, and
computed columns under given names.
-/
structure Layout (t : TableDef) (given : List String) (attributes : List Attribute)
    (computed : List String) : Prop where
  shape : forall a, a ∈ attributes ->
    (a = .ofName a.name ∧ exists d, t.attribute? a.name = some d ∧ d.name = a.name) ∨
      exists name, a = .aliased a.name name ∧ name ∈ given
  computedGiven : forall name, name ∈ computed -> name ∈ given
  givenNew : forall name, name ∈ given -> t.attribute? name = none
  distinct : (attributes.map outputName ++ computed).Nodup

variable {t : TableDef} {given computed : List String}

theorem Layout.not_given (h : Layout t given attributes computed) {a : Attribute}
    (ha : a ∈ attributes) {name : String} (hname : (t.attribute? name).isSome = true)
    (houtput : outputName a = name) : a = .ofName name := by
  rcases h.shape a ha with ⟨heq, _⟩ | ⟨other, heq, hother⟩
  · rw [heq] at houtput
    rw [heq, <- houtput]
    rfl
  · rw [heq] at houtput
    have hsame : other = name := houtput
    rw [h.givenNew name (hsame ▸ hother)] at hname
    cases hname

theorem Layout.ensure (h : Layout t given attributes computed) {name : String}
    (hname : exists d, t.attribute? name = some d ∧ d.name = name) :
    Layout t given (ensured attributes name) computed := by
  unfold ensured
  split
  · exact h
  · rename_i hnew
    rcases hname with ⟨d, hd, hdname⟩
    refine ⟨?_, h.computedGiven, h.givenNew, ?_⟩
    · intro a ha
      rcases List.mem_append.mp ha with ha | ha
      · exact h.shape a ha
      · rcases List.mem_singleton.mp ha with rfl
        exact Or.inl ⟨rfl, d, hd, hdname⟩
    · have hfresh : name ∉ attributes.map outputName ++ computed := by
        intro hmem
        rcases List.mem_append.mp hmem with hmem | hmem
        · rcases List.mem_map.mp hmem with ⟨a, ha, houtput⟩
          apply hnew
          rw [List.any_eq_true]
          refine ⟨a, ha, ?_⟩
          rw [h.not_given ha (by rw [hd]; rfl) houtput]
          simp [Attribute.ofName, Attribute.isPlain]
        · have hnone := h.givenNew name (h.computedGiven name hmem)
          rw [hd] at hnone
          cases hnone
      rw [List.map_append, List.append_assoc]
      exact List.perm_middle.nodup_iff.mpr (List.nodup_cons.mpr ⟨hfresh, h.distinct⟩)

theorem Layout.mem_ensured (h : Layout t given attributes computed) (name : String) :
    .ofName name ∈ ensured attributes name := by
  unfold ensured
  split
  · rename_i hold
    rw [List.any_eq_true] at hold
    rcases hold with ⟨a, ha, hplain⟩
    simp only [Bool.and_eq_true, beq_iff_eq] at hplain
    rcases h.shape a ha with ⟨heq, _⟩ | ⟨other, heq, _⟩
    · rw [<- hplain.1, <- heq]
      exact ha
    · rw [heq] at hplain
      cases hplain.2
  · exact List.mem_append_right _ (List.mem_singleton_self _)

theorem Layout.fresh (h : Layout t given attributes computed) {name : String}
    (hnew : name ∉ given) (hnone : t.attribute? name = none) :
    name ∉ attributes.map outputName ++ computed := by
  intro hmem
  rcases List.mem_append.mp hmem with hmem | hmem
  · rcases List.mem_map.mp hmem with ⟨a, ha, houtput⟩
    rcases h.shape a ha with ⟨heq, d, hd, _⟩ | ⟨other, heq, hother⟩
    · rw [heq] at houtput
      have hsame : a.name = name := houtput
      rw [hsame, hnone] at hd
      cases hd
    · rw [heq] at houtput
      have hsame : other = name := houtput
      exact hnew (hsame ▸ hother)
  · exact hnew (h.computedGiven name hmem)

theorem Layout.mem_given (h : Layout t given attributes computed) {name : String}
    (hnone : t.attribute? name = none) : forall g, g ∈ name :: given -> t.attribute? g = none := by
  intro g hg
  rcases List.mem_cons.mp hg with rfl | hg
  · exact hnone
  · exact h.givenNew g hg

theorem Layout.aliased (h : Layout t given attributes computed) (name : String)
    {aliasName : String} (hnew : aliasName ∉ given) (hnone : t.attribute? aliasName = none) :
    Layout t (aliasName :: given) (attributes ++ [.aliased name aliasName]) computed := by
  refine ⟨?_, ?_, h.mem_given hnone, ?_⟩
  · intro a ha
    rcases List.mem_append.mp ha with ha | ha
    · rcases h.shape a ha with hplain | ⟨other, heq, hother⟩
      · exact Or.inl hplain
      · exact Or.inr ⟨other, heq, List.mem_cons_of_mem _ hother⟩
    · rcases List.mem_singleton.mp ha with rfl
      exact Or.inr ⟨aliasName, rfl, List.mem_cons_self⟩
  · intro g hg
    exact List.mem_cons_of_mem _ (h.computedGiven g hg)
  · rw [List.map_append, List.append_assoc]
    exact List.perm_middle.nodup_iff.mpr (List.nodup_cons.mpr ⟨h.fresh hnew hnone, h.distinct⟩)

theorem Layout.compute (h : Layout t given attributes computed) {name : String}
    (hnew : name ∉ given) (hnone : t.attribute? name = none) :
    Layout t (name :: given) attributes (computed ++ [name]) := by
  refine ⟨?_, ?_, h.mem_given hnone, ?_⟩
  · intro a ha
    rcases h.shape a ha with hplain | ⟨other, heq, hother⟩
    · exact Or.inl hplain
    · exact Or.inr ⟨other, heq, List.mem_cons_of_mem _ hother⟩
  · intro g hg
    rcases List.mem_append.mp hg with hg | hg
    · exact List.mem_cons_of_mem _ (h.computedGiven g hg)
    · rcases List.mem_singleton.mp hg with rfl
      exact List.mem_cons_self
  · rw [<- List.append_assoc]
    have hcons := List.nodup_cons.mpr ⟨h.fresh hnew hnone, h.distinct⟩
    exact (List.perm_append_singleton _ _).nodup_iff.mpr hcons

theorem Layout.ensureAll (h : Layout t given attributes computed) {columns : List Bound}
    (hlisted : forall b, b ∈ columns -> Listed t b) :
    Layout t given (columns.foldl (fun found b => ensured found b.name) attributes) computed ∧
      attributes ⊆ columns.foldl (fun found b => ensured found b.name) attributes ∧
      forall b, b ∈ columns ->
        .ofName b.name ∈ columns.foldl (fun found b => ensured found b.name) attributes := by
  induction columns generalizing attributes with
  | nil =>
      exact ⟨h, fun a ha => ha, fun b hb => by cases hb⟩
  | cons b rest ih =>
      have hfirst := h.ensure (hlisted b List.mem_cons_self).2
      rcases ih hfirst fun b' hb' => hlisted b' (List.mem_cons_of_mem _ hb') with
        ⟨hrest, hsubset, hmem⟩
      rw [List.foldl_cons]
      refine ⟨hrest, fun a ha => hsubset (subset_ensured b.name ha), ?_⟩
      intro b' hb'
      rcases List.mem_cons.mp hb' with rfl | hb'
      · exact hsubset (h.mem_ensured _)
      · exact hmem b' hb'

/-!
# Select items
-/

/-- The expressions that are computed, with the names of their columns. -/
def computes : Nat -> List SelectItem -> List (Scalar × String)
  | _, [] => []
  | n, ⟨.column _, _⟩ :: rest => computes n rest
  | n, ⟨e, some name⟩ :: rest => (e, name) :: computes n rest
  | n, ⟨e, none⟩ :: rest => (e, Projection.generatedName (n + 1)) :: computes (n + 1) rest

def computeStep (t : TableDef) (entry : Scalar × String) : Step :=
  .compute (bare t entry.1) entry.2

/-- A column of the rows that shows a select item. -/
def Provides (t : TableDef) (attributes : List Attribute) (entries : List (Scalar × String))
    (output : String) (item : SelectItem) : Prop :=
  (exists a, a ∈ attributes ∧ outputName a = output ∧
    forall r, value t r item.expr = r.get a.name) ∨ (item.expr, output) ∈ entries

/-- The attributes that computed columns read are retrieved under their own names. -/
def Supplies (f : Frame) (attributes : List Attribute) (entries : List (Scalar × String)) : Prop :=
  forall entry, entry ∈ entries -> Binds (f.context [] []) (reads entry.1) ∧
    forall c, c ∈ reads entry.1 -> .ofName (attributeName f.table c) ∈ attributes

/-- A select list planned from a state with the given attributes, steps and columns. -/
structure Planned (f : Frame) (orders : List Order) (attributes : List Attribute)
    (computed : List String) (p : Projection) (n : Nat) (items : List SelectItem)
    (p' : Projection) (attributes' : List Attribute) : Prop where
  ctx : p'.ctx = f.context attributes' orders
  columns : p'.columns = p.columns ++ outputs f.table n items
  steps : p'.steps = p.steps ++ (computes n items).map (computeStep f.table)
  subset : attributes ⊆ attributes'
  layout : exists given, Layout f.table given attributes' (computed ++ (computes n items).map (·.2))
  provides : List.Forall₂ (Provides f.table attributes' (computes n items))
    (outputs f.table n items) items
  supplies : Supplies f attributes' (computes n items)

theorem Provides.mono {attributes' : List Attribute} {entries entries' : List (Scalar × String)}
    {output : String} {item : SelectItem} (h : Provides t attributes entries output item)
    (hattributes : attributes ⊆ attributes') (hentries : entries ⊆ entries') :
    Provides t attributes' entries' output item := by
  rcases h with ⟨a, ha, houtput, hvalue⟩ | hentry
  · exact Or.inl ⟨a, hattributes ha, houtput, hvalue⟩
  · exact Or.inr (hentries hentry)

/-- An item planned in front of the others. -/
theorem Planned.cons {attributes₁ attributes' : List Attribute} {p p₁ p' : Projection} {n n₁ : Nat}
    {item : SelectItem} {rest : List SelectItem} {output : String}
    {entries : List (Scalar × String)}
    (h : Planned f orders attributes₁ (computed ++ entries.map (·.2)) p₁ n₁ rest p' attributes')
    (houtputs : outputs f.table n (item :: rest) = output :: outputs f.table n₁ rest)
    (hcomputes : computes n (item :: rest) = entries ++ computes n₁ rest)
    (hcolumns : p₁.columns = p.columns ++ [output])
    (hsteps : p₁.steps = p.steps ++ entries.map (computeStep f.table))
    (hsubset : attributes ⊆ attributes₁)
    (hprovides : Provides f.table attributes₁ entries output item)
    (hsupplies : Supplies f attributes₁ entries) :
    Planned f orders attributes computed p n (item :: rest) p' attributes' where
  ctx := h.ctx
  columns := by
    rw [h.columns, hcolumns, houtputs, List.append_assoc]
    rfl
  steps := by
    rw [h.steps, hsteps, hcomputes, List.map_append, List.append_assoc]
  subset := fun a ha => h.subset (hsubset ha)
  layout := by
    rcases h.layout with ⟨given, hlayout⟩
    rw [List.append_assoc, <- List.map_append, <- hcomputes] at hlayout
    exact ⟨given, hlayout⟩
  provides := by
    rw [houtputs, hcomputes]
    refine .cons (hprovides.mono h.subset (List.subset_append_left _ _)) ?_
    refine h.provides.imp ?_
    intro o i hi
    exact hi.mono (fun _ ha => ha) (List.subset_append_right _ _)
  supplies := by
    rw [hcomputes]
    intro entry hentry
    rcases List.mem_append.mp hentry with hentry | hentry
    · rcases hsupplies entry hentry with ⟨hbinds, hmem⟩
      exact ⟨hbinds, fun c hc => h.subset (hmem c hc)⟩
    · exact h.supplies entry hentry

theorem supplies_nil : Supplies f attributes [] := by
  intro entry hentry
  cases hentry

theorem listed_of_attribute {c : Column} {a : AttributeDef} (ha : t.attribute? c.name = some a) :
    Listed t ⟨0, attributeName t c⟩ := by
  have hname : attributeName t c = a.name := by
    rw [attributeName, ha]
    rfl
  rw [hname]
  exact ⟨rfl, a, TableDef.attribute?_self ha, rfl⟩

theorem value_column {c : Column} {a : AttributeDef} (ha : t.attribute? c.name = some a)
    (r : Record) : value t r (.column c) = r.get (attributeName t c) := by
  rw [value, attributeName, ha]
  rfl

/-- What planning one item that is a column does. -/
theorem item_column {p p' : Projection} (hp : p.ctx = f.context attributes orders) {c : Column}
    {aliasName : Option String} (h : p.item ⟨.column c, aliasName⟩ = .ok p') :
    (exists a, f.table.attribute? c.name = some a) ∧
      p' = p.retrieve ⟨0, attributeName f.table c⟩ aliasName := by
  simp only [Projection.item, Outcome.bind_eq_ok, hp] at h
  rcases h with ⟨found, hfound, h⟩
  rcases resolve_single Frame.single hfound with ⟨rfl, ha⟩
  cases h
  exact ⟨ha, rfl⟩

/-- What planning one item that is not a column does. -/
theorem item_compute {known : Column -> Prop} {p p' : Projection}
    (hp : p.ctx = f.context attributes orders) {item : SelectItem}
    (hitem : TextScalar known item.expr) (hcolumn : forall c, item.expr ≠ .column c)
    (h : p.item item = .ok p') :
    Binds (f.context attributes orders) (reads item.expr) ∧
      p' = ⟨(f.context attributes orders).ensureAll ((f.context attributes orders).used item.expr),
        p.columns ++ [item.aliasName.getD (Projection.generatedName (p.unnamed + 1))],
        p.steps ++ [.compute (bare f.table item.expr)
          (item.aliasName.getD (Projection.generatedName (p.unnamed + 1)))],
        if item.aliasName.isSome then p.unnamed else p.unnamed + 1⟩ := by
  have hcompute : p.item item = p.compute item := by
    rcases item with ⟨e, aliasName⟩
    cases hitem with
    | column _ =>
        exact absurd rfl (hcolumn _)
    | _ =>
        rfl
  rw [hcompute, Projection.compute, hp, Outcome.bind_eq_ok] at h
  rcases h with ⟨q, hq, h⟩
  rcases qualify_single Frame.single hitem hq with ⟨rfl, hbinds⟩
  cases h
  refine ⟨hbinds, ?_⟩
  cases item.aliasName <;> rfl

theorem computes_cons_column (n : Nat) (c : Column) (aliasName : Option String)
    (rest : List SelectItem) : computes n (⟨.column c, aliasName⟩ :: rest) = computes n rest := by
  rw [computes]

/-- An item that is not a column takes the given name, or else a generated one. -/
theorem cons_of_not_column {e : Scalar} (hcolumn : forall c, e ≠ .column c) (n : Nat)
    (aliasName : Option String) (rest : List SelectItem) :
    let name := aliasName.getD (Projection.generatedName (n + 1))
    let n₁ := if aliasName.isSome then n else n + 1
    outputs t n (⟨e, aliasName⟩ :: rest) = name :: outputs t n₁ rest ∧
      givenNames n (⟨e, aliasName⟩ :: rest) = name :: givenNames n₁ rest ∧
      computes n (⟨e, aliasName⟩ :: rest) = [(e, name)] ++ computes n₁ rest := by
  cases aliasName with
  | some name =>
      refine ⟨?_, ?_, ?_⟩
      · rw [outputs]
        simp
      · rw [givenNames]
        simp
      · rw [computes]
        · rfl
        · exact hcolumn
  | none =>
      refine ⟨?_, ?_, ?_⟩
      · rw [outputs]
        · rfl
        · exact hcolumn
      · rw [givenNames]
        · rfl
        · exact hcolumn
      · rw [computes]
        · rfl
        · exact hcolumn

theorem Planned.cons_retrieved {attributes₁ attributes' : List Attribute} {p p₁ p' : Projection}
    {n : Nat} {c : Column} {aliasName : Option String} {rest : List SelectItem} {output : String}
    (h : Planned f orders attributes₁ computed p₁ n rest p' attributes')
    (houtputs : outputs f.table n (⟨.column c, aliasName⟩ :: rest) =
      output :: outputs f.table n rest)
    (hcolumns : p₁.columns = p.columns ++ [output]) (hsteps : p₁.steps = p.steps)
    (hsubset : attributes ⊆ attributes₁) {a : Attribute} (ha : a ∈ attributes₁)
    (houtput : outputName a = output)
    (hvalue : forall r, value f.table r (.column c) = r.get a.name) :
    Planned f orders attributes computed p n (⟨.column c, aliasName⟩ :: rest) p' attributes' := by
  have hrest : Planned f orders attributes₁
      (computed ++ ([] : List (Scalar × String)).map (·.2)) p₁ n rest p' attributes' := by
    rw [List.map_nil, List.append_nil]
    exact h
  refine .cons hrest houtputs (computes_cons_column n c aliasName rest) hcolumns ?_ hsubset
    (Or.inl ⟨a, ha, houtput, hvalue⟩) supplies_nil
  rw [hsteps, List.map_nil, List.append_nil]

theorem new_of_cons {name : String} {names : List String} (hname : name ∉ names)
    (h : forall g, g ∈ name :: names -> g ∉ given ∧ t.attribute? g = none) :
    forall g, g ∈ names -> g ∉ name :: given ∧ t.attribute? g = none := by
  intro g hg
  rcases h g (List.mem_cons_of_mem _ hg) with ⟨hold, hnone⟩
  refine ⟨?_, hnone⟩
  intro hmem
  rcases List.mem_cons.mp hmem with rfl | hmem
  · exact hname hg
  · exact hold hmem

theorem foldlM_item_planned {known : Column -> Prop} {items : List SelectItem} {p p' : Projection}
    (hp : p.ctx = f.context attributes orders)
    (hlayout : Layout f.table given attributes computed)
    (hitems : forall item, item ∈ items -> TextScalar known item.expr)
    (hdistinct : (givenNames p.unnamed items).Nodup)
    (hnew : forall g, g ∈ givenNames p.unnamed items ->
      g ∉ given ∧ f.table.attribute? g = none)
    (h : items.foldlM Projection.item p = .ok p') :
    exists attributes', Planned f orders attributes computed p p.unnamed items p' attributes' := by
  induction items generalizing p attributes given computed with
  | nil =>
      cases h
      refine ⟨attributes, hp, ?_, ?_, fun _ ha => ha, ⟨given, ?_⟩, .nil, supplies_nil⟩
      · rw [outputs, List.append_nil]
      · rw [computes, List.map_nil, List.append_nil]
      · rw [computes, List.map_nil, List.append_nil]
        exact hlayout
  | cons item rest ih =>
      rw [List.foldlM_cons, Outcome.bind_eq_ok] at h
      rcases h with ⟨p₁, hitem, h⟩
      have hrest := fun i hi => hitems i (List.mem_cons_of_mem _ hi)
      rcases item with ⟨e, aliasName⟩
      by_cases hcolumn : exists c, e = .column c
      · rcases hcolumn with ⟨c, rfl⟩
        rcases item_column hp hitem with ⟨⟨a, ha⟩, rfl⟩
        cases aliasName with
        | none =>
            have hctx : (p.retrieve ⟨0, attributeName f.table c⟩ none).ctx =
                f.context (ensured attributes (attributeName f.table c)) orders := by
              rw [Projection.retrieve, hp, ensure_context]
            have hlisted := (listed_of_attribute ha).2
            rcases ih hctx (hlayout.ensure hlisted) hrest hdistinct hnew h with
              ⟨attributes', hplanned⟩
            have houtputs : outputs f.table p.unnamed (⟨.column c, none⟩ :: rest) =
                attributeName f.table c :: outputs f.table p.unnamed rest := by
              rw [outputs]
            refine ⟨attributes', .cons_retrieved hplanned houtputs ?_ rfl
              (subset_ensured _) (hlayout.mem_ensured _) rfl (value_column ha)⟩
            rw [Projection.retrieve, hp, Frame.single.rowKey]
        | some aliasName =>
            have hctx : (p.retrieve ⟨0, attributeName f.table c⟩ (some aliasName)).ctx =
                f.context (attributes ++ [.aliased (attributeName f.table c) aliasName]) orders := by
              rw [Projection.retrieve, hp, alias_context]
            rw [givenNames, List.nodup_cons] at hdistinct
            rw [givenNames] at hnew
            rcases hnew aliasName List.mem_cons_self with ⟨hfresh, hnone⟩
            have hnew' := new_of_cons hdistinct.1 hnew
            rcases ih hctx (hlayout.aliased _ hfresh hnone) hrest hdistinct.2 hnew' h with
              ⟨attributes', hplanned⟩
            have houtputs : outputs f.table p.unnamed (⟨.column c, some aliasName⟩ :: rest) =
                aliasName :: outputs f.table p.unnamed rest := by
              rw [outputs]
            exact ⟨attributes', .cons_retrieved hplanned houtputs rfl rfl
              (List.subset_append_left _ _) (List.mem_append_right _ (List.mem_singleton_self _)) rfl
              (value_column ha)⟩
      · have hnot : forall c, e ≠ .column c := fun c hc => hcolumn ⟨c, hc⟩
        rcases item_compute hp (hitems _ List.mem_cons_self) hnot hitem with ⟨hbinds, rfl⟩
        rcases @cons_of_not_column f.table e hnot p.unnamed aliasName rest with
          ⟨houtputs, hgiven, hcomputes⟩
        rw [hgiven, List.nodup_cons] at hdistinct
        rw [hgiven] at hnew
        rcases hnew _ List.mem_cons_self with ⟨hfresh, hnone⟩
        have hlisted : forall b, b ∈ (f.context attributes orders).used e -> Listed f.table b :=
          fun b hb => Frame.single.listed_of_mem_used hb
        have hctx := @ensureAll_context f .standard attributes orders _ fun b hb => (hlisted b hb).1
        rcases (hlayout.compute hfresh hnone).ensureAll hlisted with ⟨hlayout', hsubset, hmem⟩
        have hnew' := new_of_cons hdistinct.1 hnew
        rcases ih hctx hlayout' hrest hdistinct.2 hnew' h with ⟨attributes', hplanned⟩
        refine ⟨attributes', .cons hplanned houtputs hcomputes rfl rfl hsubset
          (Or.inr (List.mem_singleton_self _)) ?_⟩
        intro entry hentry
        rcases List.mem_singleton.mp hentry with rfl
        exact ⟨hbinds, fun c hc => hmem _ (mem_use_of_binds Frame.single hbinds hc)⟩

end TextQuery
end RecordSql
