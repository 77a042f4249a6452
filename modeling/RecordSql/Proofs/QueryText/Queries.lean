import RecordSql.Proofs.QueryText.Elements

/-!
# Different queries have different texts

A query is written as a tree of elements, and every part of it is found in the fields and members
of that tree.  Since the text determines the tree, it determines the query.
-/

namespace RecordSql
namespace Fetch

open Element (fieldsText opening)

/-!
# Fields

What differs from the default has a field of its own.
-/

namespace Fields

def option (key : Key) : Option String -> Fields
  | some v => [(key, v)]
  | none => []

def flag (key : Key) (value : Bool) : Fields :=
  option key (if value then some "true" else none)

/-- The field is there. -/
def isSet (fields : Fields) (key : Key) : Bool :=
  (fields.lookup key).isSome

theorem lookup_cons (key other : Key) (value : String) (fields : Fields) :
    ((key, value) :: fields).lookup other =
      if other = key then some value else fields.lookup other := by
  rw [List.lookup_cons]
  by_cases h : other = key
  · rw [if_pos h, beq_iff_eq.mpr h]
  · rw [if_neg h, beq_false_of_ne h]

theorem lookup_option (key other : Key) (value : Option String) :
    (option key value).lookup other = if other = key then value else none := by
  cases value with
  | none =>
      exact (ite_self none).symm
  | some v =>
      exact lookup_cons key other v []

theorem isSome_setting (value : Bool) : (if value then some "true" else none).isSome = value := by
  cases value <;> rfl

theorem setting_inj {a b : Bool}
    (h : (if a then some "true" else none) = if b then some "true" else none) : a = b := by
  rw [<- isSome_setting a, h, isSome_setting]

theorem lookup_flag (key other : Key) (value : Bool) :
    (flag key value).lookup other = if other = key && value then some "true" else none := by
  rw [flag, lookup_option]
  cases value <;> by_cases h : other = key <;> simp [h]

end Fields

theorem fieldsText_cons (key : Key) (value : String) (fields : Fields) :
    fieldsText ((key, value) :: fields) = Xml.attr key.text value ++ fieldsText fields :=
  rfl

theorem fieldsText_append (a b : Fields) :
    fieldsText (a ++ b) = fieldsText a ++ fieldsText b :=
  List.flatMap_append

theorem fieldsText_option (key : Key) (value : Option String) :
    fieldsText (Fields.option key value) = Xml.optional key.text value := by
  cases value with
  | none =>
      rfl
  | some v =>
      exact List.append_nil _

theorem fieldsText_flag (key : Key) (value : Bool) :
    fieldsText (Fields.flag key value) = Xml.flag key.text value := by
  rw [Fields.flag, fieldsText_option]
  cases value <;> rfl

/-!
# Attributes
-/

namespace Attribute

def fields (a : Attribute) : Fields :=
  (.name, a.name) :: (Fields.option .aliasName a.aliasName ++
    (Fields.option .aggregate (a.aggregation.map Aggregation.name) ++
      (Fields.flag .groupBy a.groupBy ++ Fields.flag .distinct a.distinct)))

def element (a : Attribute) : Element :=
  .empty .column a.fields

def ofFields (fields : Fields) : Attribute :=
  ⟨(fields.lookup .name).getD "", fields.lookup .aliasName,
    (fields.lookup .aggregate).bind Aggregation.ofName?, fields.isSet .groupBy, fields.isSet .distinct⟩

theorem ofFields_fields (a : Attribute) : ofFields a.fields = a := by
  rcases a with ⟨name, aliasName, aggregation, groupBy, distinct⟩
  have haggregation : (aggregation.map Aggregation.name).bind Aggregation.ofName? = aggregation := by
    cases aggregation with
    | none =>
        rfl
    | some found =>
        cases found <;> decide
  simp [ofFields, fields, Fields.isSet, Fields.lookup_cons, List.lookup_append,
    Fields.lookup_option, Fields.lookup_flag,
    Fields.isSome_setting, haggregation]

theorem element_inj {a b : Attribute} (h : a.element = b.element) : a = b := by
  rw [<- ofFields_fields a, (Element.empty.inj h).2, ofFields_fields b]

theorem text_element (a : Attribute) : a.element.text = Xml.attributeTag a := by
  have htag : "<attribute".toList = '<' :: Tag.column.name.toList := by
    decide
  unfold Xml.attributeTag
  rw [htag]
  simp only [element, Element.text, opening, fields, fieldsText_cons, fieldsText_append,
    fieldsText_option, fieldsText_flag, List.cons_append, List.append_assoc]
  rfl

end Attribute

/-!
# Conditions
-/

namespace Operator

theorem mem_all (op : Operator) : op ∈ all := by
  cases op with
  | compare c =>
      cases c <;> decide
  | within period which =>
      cases period <;> cases which <;> decide
  | last span =>
      cases span <;> decide
  | next span =>
      cases span <;> decide
  | like negated =>
      cases negated <;> decide
  | isNull negated =>
      cases negated <;> decide
  | oneOf negated =>
      cases negated <;> decide
  | containValues negated =>
      cases negated <;> decide
  | equalUser negated =>
      cases negated <;> decide
  | _ =>
      decide

/-- No two operators have one name. -/
theorem ofName?_name (op : Operator) : ofName? op.name = some op := by
  have hall : forall op, op ∈ all -> ofName? op.name = some op := by
    decide +kernel
  exact hall op (mem_all op)

end Operator

namespace Condition

def fields (c : Condition) : Fields :=
  (.column, c.column) :: (.operator, c.operator.name) ::
    (Fields.option .value c.value ++ Fields.option .valueOf c.valueOf)

def element (c : Condition) : Element :=
  if c.values.isEmpty then .empty .condition c.fields
  else .nested .condition c.fields (c.values.map .value)

def ofFields (fields : Fields) (values : List String) : Condition :=
  ⟨(fields.lookup .column).getD "", ((fields.lookup .operator).bind Operator.ofName?).getD .on,
    fields.lookup .value, fields.lookup .valueOf, values⟩

theorem ofFields_fields (c : Condition) : ofFields c.fields c.values = c := by
  rcases c with ⟨column, operator, value, valueOf, values⟩
  simp [ofFields, fields, Fields.lookup_cons, List.lookup_append, Fields.lookup_option,
    Operator.ofName?_name]

theorem element_inj {c d : Condition} (h : c.element = d.element) : c = d := by
  have hparts : c.fields = d.fields ∧ c.values = d.values := by
    unfold element at h
    split_ifs at h with hc hd hd
    · rw [List.isEmpty_iff] at hc hd
      exact ⟨(Element.empty.inj h).2, hc.trans hd.symm⟩
    · rcases Element.nested.inj h with ⟨_, hfields, hvalues⟩
      exact ⟨hfields, List.map_injective_iff.mpr (fun _ _ => Element.value.inj) hvalues⟩
  rw [<- ofFields_fields c, hparts.1, hparts.2, ofFields_fields d]

theorem text_element (c : Condition) : c.element.text = Xml.condition c := by
  have htag : "<condition".toList = '<' :: Tag.condition.name.toList := by
    decide
  have hclose : "</condition>".toList = Element.closing .condition := by
    decide
  have hopening : opening .condition c.fields = '<' :: (Tag.condition.name.toList ++
      (Xml.attr "attribute" c.column ++ (Xml.attr "operator" c.operator.name ++
        (Xml.optional "value" c.value ++ Xml.optional "valueof" c.valueOf)))) := by
    rw [opening, fields, fieldsText_cons, fieldsText_cons, fieldsText_append, fieldsText_option,
      fieldsText_option]
    rfl
  unfold Xml.condition element
  rw [htag, hclose]
  split
  · simp only [Element.text, hopening, List.cons_append, List.append_assoc]
  · simp only [Element.text, Element.texts_map, hopening, List.cons_append, List.append_assoc]

end Condition

/-!
# Orders
-/

namespace Order

def fields (o : Order) : Fields :=
  Fields.option .column o.column ++
    (Fields.option .aliasName o.aliasName ++ Fields.flag .descending o.descending)

def element (o : Order) : Element :=
  .empty .order o.fields

def ofFields (fields : Fields) : Order :=
  ⟨fields.lookup .column, fields.lookup .aliasName, fields.isSet .descending⟩

theorem ofFields_fields (o : Order) : ofFields o.fields = o := by
  rcases o with ⟨column, aliasName, descending⟩
  simp [ofFields, fields, Fields.isSet, List.lookup_append, Fields.lookup_option,
    Fields.lookup_flag, Fields.isSome_setting]

theorem element_inj {o p : Order} (h : o.element = p.element) : o = p := by
  rw [<- ofFields_fields o, (Element.empty.inj h).2, ofFields_fields p]

theorem text_element (o : Order) : o.element.text = Xml.order o := by
  have htag : "<order".toList = '<' :: Tag.order.name.toList := by
    decide
  unfold Xml.order
  rw [htag]
  simp only [element, Element.text, opening, fields, fieldsText_append, fieldsText_option,
    fieldsText_flag, List.cons_append, List.append_assoc]
  rfl

end Order

/-!
# Filters
-/

namespace Filter

def fields (kind : FilterKind) : Fields :=
  Fields.option .kind (if kind == .any then some "or" else none)

theorem fields_inj {k l : FilterKind} (h : fields k = fields l) : k = l := by
  cases k <;> cases l <;> first | rfl | cases h

mutual

def element : Filter -> Element
  | ⟨kind, items⟩ => .nested .filter (fields kind) (elements items)

def elements : List (Condition ⊕ Filter) -> List Element
  | [] => []
  | .inl c :: rest => c.element :: elements rest
  | .inr f :: rest => f.element :: elements rest

end

theorem condition_ne_element (c : Condition) (f : Filter) : c.element ≠ f.element := by
  intro h
  rcases f with ⟨kind, items⟩
  unfold Condition.element at h
  split at h
  · cases h
  · cases (Element.nested.inj h).1

mutual

theorem element_inj : forall f g : Filter, f.element = g.element -> f = g
  | ⟨k, items⟩, ⟨l, others⟩, h => by
      rcases Element.nested.inj h with ⟨_, hkind, hitems⟩
      rw [fields_inj hkind, elements_inj items others hitems]

theorem elements_inj : forall items others : List (Condition ⊕ Filter),
    elements items = elements others -> items = others
  | [], [], _ => rfl
  | [], .inl _ :: _, h => by cases h
  | [], .inr _ :: _, h => by cases h
  | .inl _ :: _, [], h => by cases h
  | .inr _ :: _, [], h => by cases h
  | .inl c :: items, .inl d :: others, h => by
      rw [Condition.element_inj (List.cons.inj h).1, elements_inj items others (List.cons.inj h).2]
  | .inr f :: items, .inr g :: others, h => by
      rw [element_inj f g (List.cons.inj h).1, elements_inj items others (List.cons.inj h).2]
  | .inl c :: _, .inr f :: _, h => absurd (List.cons.inj h).1 (condition_ne_element c f)
  | .inr f :: _, .inl c :: _, h => absurd (List.cons.inj h).1.symm (condition_ne_element c f)

end

mutual

theorem text_element : forall f : Filter, f.element.text = Xml.filter f
  | ⟨kind, items⟩ => by
      have htag : "<filter".toList = '<' :: Tag.filter.name.toList := by
        decide
      have hclose : "</filter>".toList = Element.closing .filter := by
        decide
      have hfields : fieldsText (fields kind) = if kind == .any then Xml.attr "type" "or" else [] := by
        rw [fields, fieldsText_option]
        cases kind <;> rfl
      unfold Xml.filter
      rw [element, htag, hclose, Element.text, opening, hfields, texts_elements items]
      simp only [List.cons_append, List.append_assoc]

theorem texts_elements : forall items : List (Condition ⊕ Filter),
    Element.texts (elements items) = Xml.filterItems items
  | [] => rfl
  | .inl c :: rest => by
      rw [elements, Element.texts, Xml.filterItems, c.text_element, texts_elements rest]
  | .inr f :: rest => by
      rw [elements, Element.texts, Xml.filterItems, text_element f, texts_elements rest]

end

end Filter

/-!
# Scopes

The members of a scope are sorted by what they say, so each kind of them is found by its tag.
-/

namespace Element

def tag? : Element -> Option Tag
  | empty tag _ => some tag
  | nested tag _ _ => some tag
  | value _ => none

/-- The elements with a tag. -/
def tagged (tag : Tag) (es : List Element) : List Element :=
  es.filter fun e => e.tag? == some tag

theorem tagged_append (tag : Tag) (es fs : List Element) :
    tagged tag (es ++ fs) = tagged tag es ++ tagged tag fs :=
  List.filter_append ..

theorem tagged_alike {tag other : Tag} {es : List Element}
    (h : forall e, e ∈ es -> e.tag? = some tag) : tagged other es = if tag = other then es else [] := by
  by_cases heq : tag = other
  · rw [if_pos heq, tagged, List.filter_eq_self]
    intro e he
    rw [h e he, heq]
    exact beq_self_eq_true _
  · rw [if_neg heq, tagged, List.filter_eq_nil_iff]
    intro e he
    rw [h e he, beq_iff_eq, Option.some.injEq]
    exact heq

end Element

namespace Link

def fields (link : Link) (table : String) : Fields :=
  [(.name, table), (.child, link.child), (.parent, link.parent), (.aliasName, link.aliasName),
    (.linkKind, if link.outer then "outer" else "inner")]

theorem fields_inj {link other : Link} {table name : String}
    (h : link.fields table = other.fields name) : link = other ∧ table = name := by
  rcases link with ⟨child, parent, aliasName, outer⟩
  rcases other with ⟨child', parent', aliasName', outer'⟩
  simp only [fields, List.cons.injEq, Prod.mk.injEq, true_and, and_true] at h
  rcases h with ⟨rfl, rfl, rfl, rfl, houter⟩
  cases outer <;> cases outer' <;> first | exact ⟨rfl, rfl⟩ | simp at houter

end Link

namespace Scope

mutual

/-- What stands in the element of a scope. -/
def members : Scope -> List Element
  | ⟨_, allAttributes, attributes, filters, linked, orders⟩ =>
      (if allAttributes then [.empty .allAttributes []] else []) ++
        (attributes.map Attribute.element ++ (filters.map Filter.element ++
          (linkElements linked ++ orders.map Order.element)))

def linkElements : List (Link × Scope) -> List Element
  | [] => []
  | (link, scope) :: rest =>
      .nested .link (link.fields scope.table) (members scope) :: linkElements rest

end

theorem tag?_linkElements : forall (linked : List (Link × Scope)) (e : Element),
    e ∈ linkElements linked -> e.tag? = some .link
  | (_, _) :: rest, e, h => by
      rw [linkElements] at h
      rcases List.mem_cons.mp h with rfl | h
      · rfl
      · exact tag?_linkElements rest e h

/-- The members of a scope, kind by kind. -/
theorem tagged_members (s : Scope) (tag : Tag) : Element.tagged tag s.members =
    match tag with
    | .allAttributes => if s.allAttributes then [.empty .allAttributes []] else []
    | .column => s.attributes.map Attribute.element
    | .filter => s.filters.map Filter.element
    | .link => linkElements s.links
    | .order => s.orders.map Order.element
    | _ => [] := by
  rcases s with ⟨table, allAttributes, attributes, filters, linked, orders⟩
  have hall : forall e : Element, e ∈ (if allAttributes then [.empty .allAttributes []] else []) ->
      e.tag? = some .allAttributes := by
    intro e he
    split at he
    · rw [List.mem_singleton.mp he]
      rfl
    · cases he
  have hattributes : forall e, e ∈ attributes.map Attribute.element -> e.tag? = some .column := by
    intro e he
    rcases List.mem_map.mp he with ⟨a, _, rfl⟩
    rfl
  have hfilters : forall e, e ∈ filters.map Filter.element -> e.tag? = some .filter := by
    intro e he
    rcases List.mem_map.mp he with ⟨⟨kind, items⟩, _, rfl⟩
    rfl
  have horders : forall e, e ∈ orders.map Order.element -> e.tag? = some .order := by
    intro e he
    rcases List.mem_map.mp he with ⟨o, _, rfl⟩
    rfl
  rw [members]
  simp only [Element.tagged_append, Element.tagged_alike hall, Element.tagged_alike hattributes,
    Element.tagged_alike hfilters, Element.tagged_alike (tag?_linkElements linked),
    Element.tagged_alike horders]
  cases tag <;> simp

mutual

theorem members_inj : forall s t : Scope, s.table = t.table -> s.members = t.members -> s = t
  | ⟨table, allAttributes, attributes, filters, linked, orders⟩,
    ⟨table', allAttributes', attributes', filters', linked', orders'⟩, htable, h => by
      have hkinds : forall tag, Element.tagged tag _ = Element.tagged tag _ :=
        fun tag => congrArg (Element.tagged tag) h
      simp only [tagged_members] at hkinds
      have hall : allAttributes = allAttributes' := by
        have hkind := hkinds .allAttributes
        cases allAttributes <;> cases allAttributes' <;> first | rfl | cases hkind
      have hattributes : attributes = attributes' :=
        List.map_injective_iff.mpr (fun _ _ => Attribute.element_inj) (hkinds .column)
      have hfilters : filters = filters' :=
        List.map_injective_iff.mpr (fun f g => Filter.element_inj f g) (hkinds .filter)
      have hlinked : linked = linked' :=
        linkElements_inj linked linked' (hkinds .link)
      have horders : orders = orders' :=
        List.map_injective_iff.mpr (fun _ _ => Order.element_inj) (hkinds .order)
      rw [show table = table' from htable, hall, hattributes, hfilters, hlinked, horders]

theorem linkElements_inj : forall linked others : List (Link × Scope),
    linkElements linked = linkElements others -> linked = others
  | [], [], _ => rfl
  | [], (_, _) :: _, h => by cases h
  | (_, _) :: _, [], h => by cases h
  | (link, s) :: linked, (other, t) :: others, h => by
      rw [linkElements, linkElements] at h
      rcases List.cons.inj h with ⟨hfirst, hrest⟩
      rcases Element.nested.inj hfirst with ⟨_, hfields, hmembers⟩
      rcases Link.fields_inj hfields with ⟨hlink, htable⟩
      rw [hlink, members_inj s t htable hmembers, linkElements_inj linked others hrest]

end

theorem openLink_eq (link : Link) (table : String) :
    Xml.openLink link table = opening .link (link.fields table) ++ ['>'] := by
  have htag : "<link-entity".toList = '<' :: Tag.link.name.toList := by
    decide
  unfold Xml.openLink
  rw [htag]
  simp only [opening, Link.fields, fieldsText_cons, List.cons_append, List.append_assoc]
  rfl

mutual

theorem texts_members : forall s : Scope, Element.texts s.members = Xml.content s
  | ⟨table, allAttributes, attributes, filters, linked, orders⟩ => by
      have hall : Element.texts (if allAttributes then [.empty .allAttributes []] else []) =
          if allAttributes then "<all-attributes />".toList else [] := by
        cases allAttributes <;> decide
      unfold Xml.content
      rw [members, Element.texts_append, Element.texts_append, Element.texts_append,
        Element.texts_append, hall, Element.texts_map, Element.texts_map, Element.texts_map,
        funext Attribute.text_element, funext Filter.text_element, funext Order.text_element,
        texts_linkElements linked, List.append_assoc, List.append_assoc, List.append_assoc]

theorem texts_linkElements : forall linked : List (Link × Scope),
    Element.texts (linkElements linked) = Xml.links linked
  | [] => rfl
  | (link, s) :: rest => by
      have hclose : "</link-entity>".toList = Element.closing .link := by
        decide
      unfold Xml.links
      rw [linkElements, Element.texts, Element.text, texts_members s, texts_linkElements rest,
        openLink_eq, hclose]
      simp only [List.cons_append, List.nil_append, List.append_assoc]

end

end Scope

/-!
# Queries
-/

namespace Query

def fields (q : Query) : Fields :=
  Fields.option .top (q.top.map Xml.number) ++ (Fields.option .page (q.page.map Xml.number) ++
    (Fields.option .count (q.count.map Xml.number) ++ (Fields.option .cookie q.cookie ++
      (Fields.flag .distinct q.distinct ++ (Fields.flag .aggregate q.aggregate ++
        Fields.flag .noLock q.noLock)))))

def element (q : Query) : Element :=
  .nested .fetch q.fields [.nested .entity [(.name, q.root.table)] q.root.members]

theorem number_inj : Function.Injective Xml.number := by
  intro n m h
  exact Int.ofNat.inj (Number.intText_inj h)

theorem lookup_fields (q : Query) (key : Key) : q.fields.lookup key =
    match key with
    | .top => q.top.map Xml.number
    | .page => q.page.map Xml.number
    | .count => q.count.map Xml.number
    | .cookie => q.cookie
    | .distinct => if q.distinct then some "true" else none
    | .aggregate => if q.aggregate then some "true" else none
    | .noLock => if q.noLock then some "true" else none
    | _ => none := by
  simp only [fields, List.lookup_append, Fields.lookup_option, Fields.lookup_flag]
  cases key <;> simp

theorem element_inj {p q : Query} (h : p.element = q.element) : p = q := by
  rcases Element.nested.inj h with ⟨_, hfields, hmembers⟩
  rcases Element.nested.inj (List.cons.inj hmembers).1 with ⟨_, htable, hroot⟩
  have hvalues : forall key, p.fields.lookup key = q.fields.lookup key :=
    fun key => congrArg (List.lookup key) hfields
  simp only [lookup_fields] at hvalues
  have htop := Option.map_injective number_inj (hvalues .top)
  have hpage := Option.map_injective number_inj (hvalues .page)
  have hcount := Option.map_injective number_inj (hvalues .count)
  have hcookie := hvalues .cookie
  have hdistinct := Fields.setting_inj (hvalues .distinct)
  have haggregate := Fields.setting_inj (hvalues .aggregate)
  have hnoLock := Fields.setting_inj (hvalues .noLock)
  have hname : p.root.table = q.root.table := by
    rw [List.cons.injEq, Prod.mk.injEq] at htable
    exact htable.1.2
  have hscope := Scope.members_inj p.root q.root hname hroot
  rcases p with ⟨top, page, count, cookie, distinct, aggregate, noLock, root⟩
  simp only at htop hpage hcount hcookie hdistinct haggregate hnoLock hscope
  rw [htop, hpage, hcount, hcookie, hdistinct, haggregate, hnoLock, hscope]

theorem text_element (q : Query) : q.element.text = Xml.query q := by
  have hfetch : "<fetch".toList = '<' :: Tag.fetch.name.toList := by
    decide
  have hentity : "<entity".toList = '<' :: Tag.entity.name.toList := by
    decide
  have hclose : "</entity></fetch>".toList = Element.closing .entity ++ Element.closing .fetch := by
    decide
  have hend : ">".toList = ['>'] := by
    decide
  unfold Xml.query
  rw [hfetch, hentity, hclose, hend, <- Scope.texts_members]
  simp only [element, Element.text, Element.texts, opening, fields, fieldsText_cons,
    fieldsText_append, fieldsText_option, fieldsText_flag, List.cons_append, List.append_assoc,
    List.nil_append, List.append_nil]
  rfl

/-- The text of a query determines the query. -/
theorem xml_eq_iff {p q : Query} : p.xml = q.xml <-> p = q := by
  constructor
  · intro h
    have htext := String.ofList_injective h
    rw [<- text_element, <- text_element] at htext
    exact element_inj (Element.text_inj htext)
  · exact congrArg xml

end Query

end Fetch
end RecordSql
