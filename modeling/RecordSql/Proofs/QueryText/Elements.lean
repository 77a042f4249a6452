import RecordSql.Fetch.Xml
import RecordSql.Proofs.DocumentText

/-!
# The text of an element can be read back

The document of a query is a tree of elements with fields.  Names are words, the values of fields
are escaped, and an element without members is closed at once, so a text is that of one tree only.
This is proved in front of any text that follows, by induction on the tree.
-/

namespace RecordSql
namespace Fetch

/-- What an element says.  The values of a condition have elements of another kind. -/
inductive Tag where
  | fetch
  | entity
  | allAttributes
  | column
  | filter
  | condition
  | link
  | order
deriving DecidableEq

namespace Tag

def name : Tag -> String
  | fetch => "fetch"
  | entity => "entity"
  | allAttributes => "all-attributes"
  | column => "attribute"
  | filter => "filter"
  | condition => "condition"
  | link => "link-entity"
  | order => "order"

theorem name_inj {t u : Tag} (h : t.name = u.name) : t = u := by
  cases t <;> cases u <;> first | rfl | exact absurd h (by decide)

end Tag

/-- What a field of an element says. -/
inductive Key where
  | top
  | page
  | count
  | cookie
  | distinct
  | aggregate
  | noLock
  | name
  | aliasName
  | groupBy
  | column
  | operator
  | value
  | valueOf
  | kind
  | descending
  | child
  | parent
  | linkKind
deriving DecidableEq

namespace Key

def text : Key -> String
  | top => "top"
  | page => "page"
  | count => "count"
  | cookie => "paging-cookie"
  | distinct => "distinct"
  | aggregate => "aggregate"
  | noLock => "no-lock"
  | name => "name"
  | aliasName => "alias"
  | groupBy => "groupby"
  | column => "attribute"
  | operator => "operator"
  | value => "value"
  | valueOf => "valueof"
  | kind => "type"
  | descending => "descending"
  | child => "from"
  | parent => "to"
  | linkKind => "link-type"

def all : List Key := [top, page, count, cookie, distinct, aggregate, noLock, name, aliasName,
  groupBy, column, operator, value, valueOf, kind, descending, child, parent, linkKind]

theorem find?_text (k : Key) : all.find? (·.text == k.text) = some k := by
  cases k <;> decide

theorem text_inj {k l : Key} (h : k.text = l.text) : k = l := by
  have hfound := find?_text k
  rw [h, find?_text l] at hfound
  exact (Option.some.inj hfound).symm

end Key

abbrev Fields := List (Key × String)

inductive Element where
  | empty (tag : Tag) (fields : Fields)
  | nested (tag : Tag) (fields : Fields) (members : List Element)
  | value (text : String)

namespace Element

def fieldsText (fields : Fields) : List Char :=
  fields.flatMap fun field => Xml.attr field.1.text field.2

/-- The start of an element, up to the end of its fields. -/
def opening (tag : Tag) (fields : Fields) : List Char :=
  '<' :: (tag.name.toList ++ fieldsText fields)

def closing (tag : Tag) : List Char :=
  '<' :: '/' :: (tag.name.toList ++ ['>'])

mutual

def text : Element -> List Char
  | empty tag fields => opening tag fields ++ " />".toList
  | nested tag fields members => opening tag fields ++ '>' :: (texts members ++ closing tag)
  | value v => Xml.conditionValue v

def texts : List Element -> List Char
  | [] => []
  | e :: rest => e.text ++ texts rest

end

@[simp] theorem texts_append (es fs : List Element) : texts (es ++ fs) = texts es ++ texts fs := by
  induction es with
  | nil =>
      rfl
  | cons e es ih =>
      rw [List.cons_append, texts, texts, ih, List.append_assoc]

theorem texts_map {α : Type} (f : α -> Element) (xs : List α) :
    texts (xs.map f) = xs.flatMap fun x => (f x).text := by
  induction xs with
  | nil =>
      rfl
  | cons x xs ih =>
      rw [List.map_cons, texts, ih, List.flatMap_cons]

/-!
# Names
-/

/-- The characters of names. -/
def isNameChar (c : Char) : Bool :=
  c.isAlpha || c == '-'

theorem isNameChar_tag (tag : Tag) : tag.name.toList.all isNameChar = true := by
  cases tag <;> decide

theorem isNameChar_key (key : Key) : key.text.toList.all isNameChar = true := by
  cases key <;> decide

/-- Names are as long as they can be. -/
theorem name_append_inj {n m : String} (hn : n.toList.all isNameChar = true)
    (hm : m.toList.all isNameChar = true) {r s : List Char} (hr : Text.Stops isNameChar r)
    (hs : Text.Stops isNameChar s) (h : n.toList ++ r = m.toList ++ s) : n = m ∧ r = s := by
  rcases Text.append_inj_of_stops (List.all_eq_true.mp hn) (List.all_eq_true.mp hm) hr hs h with
    ⟨hname, hrest⟩
  exact ⟨String.toList_injective hname, hrest⟩

/-!
# Escaped texts

A text in quotes ends in front of the first quotation mark, and the text of an element in front of
the first tag.
-/

/-- The character that an escaped text starts with, and the rest of the text. -/
def readChar : List Char -> Option (Char × List Char)
  | '&' :: 'a' :: 'm' :: 'p' :: ';' :: rest => some ('&', rest)
  | '&' :: 'l' :: 't' :: ';' :: rest => some ('<', rest)
  | '&' :: 'g' :: 't' :: ';' :: rest => some ('>', rest)
  | '&' :: 'q' :: 'u' :: 'o' :: 't' :: ';' :: rest => some ('"', rest)
  | '&' :: 'a' :: 'p' :: 'o' :: 's' :: ';' :: rest => some ('\'', rest)
  | c :: rest => if c == '"' || c == '<' then none else some (c, rest)
  | [] => none

theorem readChar_plain {c : Char} (hc : c ≠ '&') (rest : List Char) :
    readChar (c :: rest) = if c == '"' || c == '<' then none else some (c, rest) := by
  rw [readChar] <;> (intros; contradiction)

theorem readChar_escapeChar (c : Char) (rest : List Char) :
    readChar (Xml.escapeChar c ++ rest) = some (c, rest) := by
  unfold Xml.escapeChar
  split_ifs with hamp hlt hgt hquot hapos
  · rw [eq_of_beq hamp]
    rfl
  · rw [eq_of_beq hlt]
    rfl
  · rw [eq_of_beq hgt]
    rfl
  · rw [eq_of_beq hquot]
    rfl
  · rw [eq_of_beq hapos]
    rfl
  · rw [List.singleton_append, readChar_plain (fun h => hamp (beq_iff_eq.mpr h)), if_neg]
    rw [Bool.or_eq_true, not_or]
    exact ⟨hquot, hlt⟩

/-- An escaped text and what follows it, which is no part of an escaped text. -/
theorem escape_append_inj {v w : String} {r s : List Char} (hr : readChar r = none)
    (hs : readChar s = none) (h : Xml.escape v ++ r = Xml.escape w ++ s) : v = w ∧ r = s := by
  have hchars : forall a b : List Char,
      a.flatMap Xml.escapeChar ++ r = b.flatMap Xml.escapeChar ++ s -> a = b ∧ r = s := by
    intro a
    induction a with
    | nil =>
        intro b h
        cases b with
        | nil =>
            exact ⟨rfl, h⟩
        | cons d b =>
            rw [List.flatMap_nil, List.nil_append] at h
            rw [h, List.flatMap_cons, List.append_assoc, readChar_escapeChar] at hr
            cases hr
    | cons c a ih =>
        intro b h
        have hread := congrArg readChar h
        cases b with
        | nil =>
            rw [List.flatMap_nil, List.nil_append, List.flatMap_cons, List.append_assoc,
              readChar_escapeChar, hs] at hread
            cases hread
        | cons d b =>
            simp only [List.flatMap_cons, List.append_assoc, readChar_escapeChar,
              Option.some.injEq, Prod.mk.injEq] at hread
            rcases hread with ⟨rfl, hread⟩
            rcases ih b hread with ⟨rfl, hrest⟩
            exact ⟨rfl, hrest⟩
  rcases hchars v.toList w.toList h with ⟨hvalue, hrest⟩
  exact ⟨String.toList_injective hvalue, hrest⟩

/-!
# Fields

A field starts with a blank and the first letter of a name.
-/

/-- The end of the fields: the element is closed, or its members follow. -/
inductive EndsFields : List Char -> Prop where
  | close (rest : List Char) : EndsFields (" />".toList ++ rest)
  | members (rest : List Char) : EndsFields ('>' :: rest)

theorem EndsFields.ne_attr {r : List Char} (h : EndsFields r) (key : Key) (value : String)
    (rest : List Char) : Xml.attr key.text value ++ rest ≠ r := by
  intro heq
  cases h with
  | close r =>
      cases key <;> exact absurd (List.cons.inj (List.cons.inj heq).2).1 (by decide)
  | members r =>
      exact absurd (List.cons.inj heq).1 (by decide)

theorem attr_append_inj {k l : Key} {v w : String} {r s : List Char}
    (h : Xml.attr k.text v ++ r = Xml.attr l.text w ++ s) : k = l ∧ v = w ∧ r = s := by
  simp only [Xml.attr, List.cons_append, List.append_assoc, List.cons.injEq, true_and] at h
  rcases name_append_inj (isNameChar_key k) (isNameChar_key l) (.cons rfl _) (.cons rfl _) h with
    ⟨hkey, hvalue⟩
  simp only [List.cons.injEq, true_and] at hvalue
  rcases escape_append_inj rfl rfl hvalue with ⟨hvalue, hrest⟩
  exact ⟨Key.text_inj hkey, hvalue, (List.cons.inj hrest).2⟩

theorem fieldsText_append_inj {a b : Fields} {r s : List Char} (hr : EndsFields r)
    (hs : EndsFields s) (h : fieldsText a ++ r = fieldsText b ++ s) : a = b ∧ r = s := by
  induction a generalizing b with
  | nil =>
      cases b with
      | nil =>
          exact ⟨rfl, h⟩
      | cons field b =>
          rw [fieldsText, fieldsText, List.flatMap_nil, List.nil_append, List.flatMap_cons,
            List.append_assoc] at h
          exact absurd h.symm (hr.ne_attr _ _ _)
  | cons field a ih =>
      cases b with
      | nil =>
          rw [fieldsText, fieldsText, List.flatMap_nil, List.nil_append, List.flatMap_cons,
            List.append_assoc] at h
          exact absurd h (hs.ne_attr _ _ _)
      | cons other b =>
          rw [fieldsText, fieldsText, List.flatMap_cons, List.flatMap_cons, List.append_assoc,
            List.append_assoc] at h
          rcases attr_append_inj h with ⟨hkey, hvalue, h⟩
          rcases ih h with ⟨rfl, hrest⟩
          exact ⟨congrArg (· :: a) (Prod.ext hkey hvalue), hrest⟩

theorem EndsFields.stops {r : List Char} (h : EndsFields r) (fields : Fields) :
    Text.Stops isNameChar (fieldsText fields ++ r) := by
  cases fields with
  | nil =>
      cases h <;> exact .cons rfl _
  | cons field fields =>
      exact .cons rfl _

theorem opening_append_inj {t u : Tag} {a b : Fields} {r s : List Char} (hr : EndsFields r)
    (hs : EndsFields s) (h : opening t a ++ r = opening u b ++ s) : t = u ∧ a = b ∧ r = s := by
  simp only [opening, List.cons_append, List.append_assoc, List.cons.injEq, true_and] at h
  rcases name_append_inj (isNameChar_tag t) (isNameChar_tag u) (hr.stops a) (hs.stops b) h with
    ⟨htag, h⟩
  rcases fieldsText_append_inj hr hs h with ⟨hfields, hrest⟩
  exact ⟨Tag.name_inj htag, hfields, hrest⟩

/-!
# Elements

The members of an element end in front of its closing tag, which no element starts like.
-/

/-- What follows the last element of a list. -/
inductive EndsMembers : List Char -> Prop where
  | nothing : EndsMembers []
  | close (tag : Tag) (rest : List Char) : EndsMembers (closing tag ++ rest)

theorem exists_head (e : Element) : exists c rest, e.text = '<' :: c :: rest ∧ c ≠ '/' := by
  have hname : forall (tag : Tag) (rest : List Char),
      exists c cs, tag.name.toList ++ rest = c :: cs ∧ c ≠ '/' := by
    intro tag rest
    cases tag <;> exact ⟨_, _, rfl, by decide⟩
  cases e with
  | empty tag fields =>
      rcases hname tag (fieldsText fields ++ " />".toList) with ⟨c, cs, htext, hc⟩
      refine ⟨c, cs, ?_, hc⟩
      rw [text, opening, List.cons_append, List.append_assoc, htext]
  | nested tag fields members =>
      rcases hname tag (fieldsText fields ++ '>' :: (texts members ++ closing tag)) with
        ⟨c, cs, htext, hc⟩
      refine ⟨c, cs, ?_, hc⟩
      rw [text, opening, List.cons_append, List.append_assoc, htext]
  | value v =>
      exact ⟨'v', _, rfl, by decide⟩

theorem EndsMembers.ne_text {r : List Char} (h : EndsMembers r) (e : Element) (rest : List Char) :
    e.text ++ rest ≠ r := by
  intro heq
  rcases exists_head e with ⟨c, cs, htext, hc⟩
  rw [htext] at heq
  cases h with
  | nothing =>
      cases heq
  | close tag r =>
      exact hc (List.cons.inj (List.cons.inj heq).2).1

theorem conditionValue_eq (v : String) : Xml.conditionValue v =
    '<' :: ("value".toList ++ '>' :: (Xml.escape v ++ '<' :: '/' :: ("value".toList ++ ['>']))) := by
  have hopen : "<value>".toList = '<' :: ("value".toList ++ ['>']) := by
    decide
  have hclose : "</value>".toList = '<' :: '/' :: ("value".toList ++ ['>']) := by
    decide
  unfold Xml.conditionValue
  rw [hopen, hclose, List.cons_append, List.cons_append, List.append_assoc, List.append_assoc,
    List.singleton_append]

/-- No element with fields is called as one that holds a value. -/
theorem opening_ne_value {tag : Tag} {fields : Fields} {r s : List Char} (hr : EndsFields r)
    (v : String) : opening tag fields ++ r ≠ Xml.conditionValue v ++ s := by
  intro h
  simp only [conditionValue_eq, opening, List.cons_append, List.append_assoc, List.cons.injEq,
    true_and] at h
  have hname := (name_append_inj (isNameChar_tag tag) (by decide) (hr.stops fields)
    (.cons rfl _) h).1
  cases tag <;> exact absurd hname (by decide)

theorem value_append_inj {v w : String} {r s : List Char}
    (h : Xml.conditionValue v ++ r = Xml.conditionValue w ++ s) : v = w ∧ r = s := by
  simp only [conditionValue_eq, List.cons_append, List.append_assoc, List.cons.injEq, true_and,
    List.append_cancel_left_eq] at h
  rcases escape_append_inj rfl rfl h with ⟨hvalue, hrest⟩
  simp only [List.cons.injEq, true_and, List.append_cancel_left_eq] at hrest
  exact ⟨hvalue, hrest⟩

mutual

/-- An element and what follows it. -/
theorem text_append_inj : forall (e f : Element) {r s : List Char},
    e.text ++ r = f.text ++ s -> e = f ∧ r = s
  | .empty t a, .empty u b, r, s, h => by
      rw [text, text, List.append_assoc, List.append_assoc] at h
      rcases opening_append_inj (.close r) (.close s) h with ⟨rfl, rfl, hrest⟩
      exact ⟨rfl, List.append_cancel_left hrest⟩
  | .empty t a, .nested u b es, r, s, h => by
      rw [text, text, List.append_assoc, List.append_assoc] at h
      have hend := (opening_append_inj (.close r) (.members _) h).2.2
      exact absurd (List.cons.inj hend).1 (by decide)
  | .nested t a es, .empty u b, r, s, h => by
      rw [text, text, List.append_assoc, List.append_assoc] at h
      have hend := (opening_append_inj (.members _) (.close s) h).2.2
      exact absurd (List.cons.inj hend).1 (by decide)
  | .nested t a es, .nested u b fs, r, s, h => by
      simp only [text, List.append_assoc, List.cons_append] at h
      rcases opening_append_inj (.members _) (.members _) h with ⟨rfl, rfl, hmembers⟩
      rcases texts_append_inj es fs (.close t r) (.close t s) (List.cons.inj hmembers).2 with
        ⟨rfl, hrest⟩
      exact ⟨rfl, List.append_cancel_left hrest⟩
  | .value v, .value w, r, s, h => by
      rcases value_append_inj h with ⟨rfl, hrest⟩
      exact ⟨rfl, hrest⟩
  | .empty t a, .value w, r, s, h => by
      rw [text, text, List.append_assoc] at h
      exact absurd h (opening_ne_value (.close r) w)
  | .nested t a es, .value w, r, s, h => by
      rw [text, text, List.append_assoc] at h
      exact absurd h (opening_ne_value (.members _) w)
  | .value v, .empty u b, r, s, h => by
      rw [text, text, List.append_assoc (opening u b)] at h
      exact absurd h.symm (opening_ne_value (.close s) v)
  | .value v, .nested u b fs, r, s, h => by
      rw [text, text, List.append_assoc (opening u b)] at h
      exact absurd h.symm (opening_ne_value (.members _) v)

/-- The members of an element and its end. -/
theorem texts_append_inj : forall (es fs : List Element) {r s : List Char}, EndsMembers r ->
    EndsMembers s -> texts es ++ r = texts fs ++ s -> es = fs ∧ r = s
  | [], [], _, _, _, _, h => ⟨rfl, h⟩
  | [], f :: fs, r, s, hr, _, h => by
      rw [texts, texts, List.nil_append, List.append_assoc] at h
      exact absurd h.symm (hr.ne_text f _)
  | e :: es, [], r, s, _, hs, h => by
      rw [texts, texts, List.nil_append, List.append_assoc] at h
      exact absurd h (hs.ne_text e _)
  | e :: es, f :: fs, r, s, hr, hs, h => by
      rw [texts, texts, List.append_assoc, List.append_assoc] at h
      rcases text_append_inj e f h with ⟨rfl, hnext⟩
      rcases texts_append_inj es fs hr hs hnext with ⟨rfl, hrest⟩
      exact ⟨rfl, hrest⟩

end

theorem text_inj {e f : Element} (h : e.text = f.text) : e = f :=
  (text_append_inj e f (congrArg (· ++ []) h)).1

end Element
end Fetch
end RecordSql
