import RecordSql.Proofs.Canonical.Openings

/-!
# Reading items

That texts can be read in one way only is proved by their length.  An item may hold whole
expressions and conditions: in parentheses, as arguments and in the branches of a choice.  They are
shorter than the item, and if they can be read in one way only, so can the item.
-/

namespace RecordSql
namespace Sql

/-!
# What may follow

The first character behind a blank tells a collation from an operator, an operator from the word
that goes on with a condition, and that from `AND` and `OR`.
-/

/-- The first characters that would go on with an operand: those of a collation. -/
def afterOperand : List Char :=
  ['C']

/-- The first characters that would go on with an expression. -/
def afterScalar : List Char :=
  afterOperand ++ ['+', '-', '*', '/', '%']

/-- The first characters that would go on with a single condition. -/
def afterMember : List Char :=
  afterScalar ++ ['=', '<', '>', 'I', 'N', 'L']

/-- The first characters that would go on with a condition. -/
def afterPredicate : List Char :=
  afterMember ++ ['A', 'O']

namespace Follows

variable {r : List Char}

theorem operand (h : Follows afterScalar r) : Follows afterOperand r :=
  h.mono fun _ => List.mem_append_left _

theorem scalar (h : Follows afterMember r) : Follows afterScalar r :=
  h.mono fun _ => List.mem_append_left _

theorem member (h : Follows afterPredicate r) : Follows afterMember r :=
  h.mono fun _ => List.mem_append_left _

end Follows

/-- Texts below the given length, with what follows, can be read in one way only. -/
structure Unambiguous (n : Nat) : Prop where
  operand : forall {e f : Scalar} {r s : List Char}, (e.operandChars ++ r).length < n ->
    e.IsReadable -> f.IsReadable -> Follows afterOperand r -> Follows afterOperand s ->
    e.operandChars ++ r = f.operandChars ++ s -> e.plain = f.plain ∧ r = s
  scalar : forall {e f : Scalar} {r s : List Char}, (e.text.toList ++ r).length < n ->
    e.IsReadable -> f.IsReadable -> Follows afterScalar r -> Follows afterScalar s ->
    e.text.toList ++ r = f.text.toList ++ s -> e.plain = f.plain ∧ r = s
  predicate : forall {p q : Predicate} {r s : List Char}, (p.text.toList ++ r).length < n ->
    p.IsReadable -> q.IsReadable -> Follows afterPredicate r -> Follows afterPredicate s ->
    p.text.toList ++ r = q.text.toList ++ s -> p.plain = q.plain ∧ r = s

theorem length_lt_of_append {n : Nat} {front back : List Char}
    (h : (front ++ back).length < n) : back.length < n := by
  rw [List.length_append] at h
  omega

/-- What follows a word that is written out. -/
theorem length_lt_of_word {n : Nat} (c : Char) (word : String) {back : List Char}
    (h : (c :: word.toList ++ back).length < n + 1) : back.length < n := by
  rw [List.length_append, List.length_cons] at h
  omega

theorem length_lt_of_cons {n : Nat} {c : Char} {back : List Char}
    (h : (c :: back).length < n + 1) : back.length < n := by
  rw [List.length_cons] at h
  omega

/-!
# Openings of whole expressions
-/

namespace Scalar

theorem readable_terms {e : Scalar} (h : e.IsReadable) :
    e.terms.1.IsReadable ∧ forall t, t ∈ e.terms.2 -> t.2.IsReadable := by
  have hoperand : forall (parent : Arithmetic) (onRight : Bool) {e : Scalar}, e.IsReadable ->
      (e.terms.1.IsReadable ∧ forall t, t ∈ e.terms.2 -> t.2.IsReadable) ->
      (operandTerms parent onRight e).1.IsReadable ∧
        forall t, t ∈ (operandTerms parent onRight e).2 -> t.2.IsReadable := by
    intro parent onRight e he hterms
    rw [operandTerms]
    split
    · exact ⟨he, by simp⟩
    · exact hterms
  induction e using Scalar.terms.induct with
  | case1 l op r ihl ihr =>
      have hleft := hoperand op false h.binary.1 (ihl h.binary.1)
      have hright := hoperand op true h.binary.2 (ihr h.binary.2)
      rw [terms_binary]
      refine ⟨hleft.1, ?_⟩
      rw [List.forall_mem_append, List.forall_mem_cons]
      exact ⟨hleft.2, hright.1, hright.2⟩
  | case2 e hsingle =>
      rw [(terms_single hsingle).1]
      exact ⟨h, by simp⟩

/-- An operator follows on a blank. -/
theorem tailChars_follows {barred : List Char} (others : List (Arithmetic × Scalar))
    {r : List Char} (hsigns : forall op : Arithmetic, forall c, c ∈ op.sign.toList -> c ∉ barred)
    (hr : Follows barred r) : Follows barred (tailChars others ++ r) := by
  cases others with
  | nil =>
      exact hr
  | cons t others =>
      rcases t with ⟨op, e⟩
      have hsign := hsigns op
      rw [tailChars_cons]
      cases op <;> exact .blank (hsign _ (by decide)) _

theorem ofChars_text {e : Scalar} (h : e.IsReadable) {r : List Char} (hr : Follows [] r) :
    Opening.ofChars (e.text.toList ++ r) = e.terms.1.opening := by
  rw [toList_text, List.append_assoc]
  exact ofChars_operand (readable_terms h).1 (tailChars_follows _ (by simp) hr)

theorem opening_literal (l : Literal) :
    l.opening = .text ∨ l.opening = .null ∨ l.opening = .sign ∨ l.opening = .number := by
  unfold Literal.opening
  split
  · exact Or.inl rfl
  · exact Or.inr (Or.inl rfl)
  · split
    · exact Or.inr (Or.inr (Or.inl rfl))
    · exact Or.inr (Or.inr (Or.inr rfl))

/-- An expression opens with something, and with no keyword but those of its own. -/
theorem opening_cases {e : Scalar} (h : e.IsReadable) : e.opening ≠ .none ∧
    forall w : String, '.' ∉ w.toList -> Text.lower w ≠ w -> e.opening ≠ .word w.toList := by
  induction e using Scalar.collated.induct with
  | case1 e collation ih =>
      exact ih h.collate.2.2
  | case2 e hsingle =>
      cases e with
      | literal l =>
          rcases opening_literal l with hl | hl | hl | hl <;> simp [opening, hl]
      | column c =>
          refine ⟨by simp [opening], fun w hpoint hlower heq => ?_⟩
          exact text_ne_of_lower h.shows hpoint hlower (Opening.word.inj heq)
      | collate e collation =>
          exact (hsingle e collation rfl).elim
      | _ =>
          simp [opening]

/-- The text is a keyword of a clause: a name, but not in lower case. -/
def isKeyword (w : String) : Bool :=
  isName w && Text.lower w != w && w != "NULL" && w != "CASE"

/-- No expression starts with the keyword of a clause. -/
theorem text_ne_keyword {w : String} (hw : isKeyword w = true) {e : Scalar} (he : e.IsReadable)
    {r s : List Char} (hr : Follows [] r) (hs : Follows [] s) :
    e.text.toList ++ r ≠ w.toList ++ s := by
  intro heq
  simp only [isKeyword, Bool.and_eq_true, bne_iff_ne] at hw
  rcases hw with ⟨⟨⟨hname, hlower⟩, hnull⟩, hcase⟩
  rcases isName_iff.mp hname with ⟨c, v, hchars, hc, hv⟩
  have hword := Opening.ofChars_word hc (fun d hd => isRun_of_continuesWord (hv d hd)) hs.stops
  rw [Opening.ofWord_of_follows hs, <- List.cons_append, <- hchars,
    if_neg (fun h => hnull (String.toList_injective h)),
    if_neg (fun h => hcase (String.toList_injective h)), <- heq, ofChars_text he hr] at hword
  exact (opening_cases (readable_terms he).1).2 w (not_mem_name hname) hlower hword

end Scalar

/-!
# Items without others inside
-/

theorem literal_inj {l k : Literal} (hl : (Scalar.literal l).IsReadable)
    (hk : (Scalar.literal k).IsReadable) {r s : List Char} (hr : Follows [] r) (hs : Follows [] s)
    (h : l.text.toList ++ r = k.text.toList ++ s) : l = k ∧ r = s := by
  have hopen : l.opening = k.opening := by
    rw [<- Scalar.ofChars_literal hl hr, h, Scalar.ofChars_literal hk hs]
  have hnumber : forall {l k : Literal}, (Scalar.literal l).isNumber = true ->
      l.opening = k.opening -> (Scalar.literal k).wellFormed = true ->
      (Scalar.literal k).isNumber = true := by
    intro l k hl hopen hform
    rw [Scalar.opening_number hl] at hopen
    cases k with
    | int i =>
        rfl
    | float x =>
        rfl
    | bool b =>
        cases hform
    | str t =>
        split at hopen <;> cases hopen
    | null =>
        split at hopen <;> cases hopen
  by_cases hl' : (Scalar.literal l).isNumber = true
  · exact Literal.number_append_inj hl' (hnumber hl' hopen hk.wellFormed) hl.shows hk.shows hr hs h
  · by_cases hk' : (Scalar.literal k).isNumber = true
    · exact absurd (hnumber hk' hopen.symm hl.wellFormed) hl'
    · cases l with
      | str a =>
          cases k with
          | str b =>
              rcases quoted_append_inj hr hs h with ⟨rfl, hrest⟩
              exact ⟨rfl, hrest⟩
          | null =>
              cases hopen
          | bool b =>
              cases hk.wellFormed
          | _ =>
              exact absurd rfl hk'
      | null =>
          cases k with
          | null =>
              exact ⟨rfl, List.append_cancel_left h⟩
          | str b =>
              cases hopen
          | bool b =>
              cases hk.wellFormed
          | _ =>
              exact absurd rfl hk'
      | bool b =>
          cases hl.wellFormed
      | _ =>
          exact absurd rfl hl'

theorem column_inj {c d : Column} (hc : (Scalar.column c).showsItself = true)
    (hd : (Scalar.column d).showsItself = true) {r s : List Char} (hr : Follows [] r)
    (hs : Follows [] s) (h : c.text.toList ++ r = d.text.toList ++ s) :
    c.plain = d.plain ∧ r = s := by
  have hrun : forall {c : Column}, (Scalar.column c).showsItself = true ->
      forall a, a ∈ c.text.toList -> isRun a = true := by
    intro c hc a ha
    rcases Column.text_cons hc with ⟨b, w, htext, hb, hw⟩
    rw [htext] at ha
    rcases List.mem_cons.mp ha with rfl | ha
    · exact isRun_of_continuesWord (continuesWord_of_startsWord hb)
    · exact hw a ha
  rcases Text.append_inj_of_stops (hrun hc) (hrun hd) hr.stops hs.stops h with ⟨htext, hrest⟩
  exact ⟨Column.plain_eq_of_text hc hd (String.toList_injective htext), hrest⟩

theorem starOf_inj {table table' : String} (h : (Scalar.starOf table).showsItself = true)
    (h' : (Scalar.starOf table').showsItself = true) {r s : List Char}
    (heq : (Scalar.starOf table).text.toList ++ r = (Scalar.starOf table').text.toList ++ s) :
    table = table' ∧ r = s := by
  rw [Scalar.toList_text_starOf h, Scalar.toList_text_starOf h', List.append_assoc,
    List.append_assoc] at heq
  rcases Text.append_inj_of_stops
    (fun _ => continuesWord_of_mem_name (lower_of_isLowerName h).1)
    (fun _ => continuesWord_of_mem_name (lower_of_isLowerName h').1)
    (Text.Stops.cons (by decide) _) (Text.Stops.cons (by decide) _) heq with ⟨htable, hrest⟩
  exact ⟨String.toList_injective htable, (List.cons.inj (List.cons.inj hrest).2).2⟩

/-- The operand has neither sign nor collation. -/
def Scalar.isBare : Scalar -> Bool
  | .negate _ => false
  | .collate _ _ => false
  | _ => true

/-- No other item opens like a literal. -/
theorem literal_of_opening {e : Scalar} (hbare : e.isBare = true) {l : Literal}
    (h : e.opening = l.opening) : exists k, e = .literal k := by
  cases e with
  | literal k =>
      exact ⟨k, rfl⟩
  | negate e =>
      cases hbare
  | collate e collation =>
      cases hbare
  | _ =>
      rcases Scalar.opening_literal l with hl | hl | hl | hl <;> rw [hl] at h <;> cases h

/-!
# Lists of arguments
-/

/-- The arguments behind the first as they are written. -/
def moreChars (items : List Scalar) : List Char :=
  items.flatMap fun e => ',' :: ' ' :: e.text.toList

theorem toList_textOfAll (e : Scalar) (rest : List Scalar) :
    (textOfAll (e :: rest)).toList = e.text.toList ++ moreChars rest := by
  induction rest generalizing e with
  | nil =>
      rw [textOfAll]
      simp [moreChars]
  | cons f rest ih =>
      rw [textOfAll, String.toList_append, String.toList_append, ih]
      · simp [moreChars]
      · simp

theorem moreChars_follows (barred : List Char) (items : List Scalar) (r : List Char) :
    Follows barred (moreChars items ++ ')' :: r) := by
  cases items with
  | nil =>
      exact .close _
  | cons e items =>
      exact .comma _

/-!
# Choices
-/

theorem whenChars_follows {α : Type} (text : α -> String) (whens : List (α × Scalar))
    (otherwise : Option Scalar) (r : List Char) :
    Follows afterScalar (Scalar.whenChars text whens ++ (Scalar.endChars otherwise ++ r)) := by
  rcases Scalar.whenChars_blank text whens otherwise r with ⟨c, tail, hblank, rfl | rfl⟩
  · rw [hblank]
    exact .blank (by decide) _
  · rw [hblank]
    exact .blank (by decide) _

theorem plainBranches_eq_map (whens : List (Predicate × Scalar)) :
    plainBranches whens = whens.map (Prod.map Predicate.plain Scalar.plain) := by
  induction whens with
  | nil =>
      rw [plainBranches]
      rfl
  | cons w rest ih =>
      rw [plainBranches, ih]
      rfl

theorem plainPairs_eq_map (whens : List (Scalar × Scalar)) :
    plainPairs whens = whens.map (Prod.map Scalar.plain Scalar.plain) := by
  induction whens with
  | nil =>
      rw [plainPairs]
      rfl
  | cons w rest ih =>
      rw [plainPairs, ih]
      rfl

/-- A choice with an input is told from one without by what follows `CASE`. -/
theorem searched_ne_simple {whens : List (Predicate × Scalar)} {input : Scalar}
    {pairs : List (Scalar × Scalar)} {otherwise otherwise' : Option Scalar}
    (hinput : input.IsReadable) {r s : List Char} (hr : Follows [] r) :
    (Scalar.searchedCase whens otherwise).text.toList ++ r ≠
      (Scalar.simpleCase input pairs otherwise').text.toList ++ s := by
  intro h
  rw [Scalar.toList_text_searchedCase, Scalar.toList_text_simpleCase] at h
  simp only [List.append_assoc] at h
  have hblank := List.append_cancel_left
    (show "CASE".toList ++ _ = "CASE".toList ++ (' ' :: _) from h)
  rcases Scalar.whenChars_blank Scalar.text pairs otherwise' s with ⟨c, rest, hpairs, _⟩
  rw [hpairs] at hblank
  have hword : forall {w : String} {t : List Char}, Scalar.isKeyword w = true -> Follows [] t ->
      ' ' :: (w.toList ++ t) ≠ ' ' :: (input.text.toList ++ ' ' :: c :: rest) := by
    intro w t hw ht heq
    exact Scalar.text_ne_keyword hw hinput (Follows.space _) ht (List.cons.inj heq).2.symm
  cases whens with
  | cons w whens =>
      exact hword (by decide : Scalar.isKeyword "WHEN" = true) (Follows.space _) hblank
  | nil =>
      cases otherwise with
      | none =>
          exact hword (by decide : Scalar.isKeyword "END" = true) hr hblank
      | some e =>
          exact hword (by decide : Scalar.isKeyword "ELSE" = true) (Follows.space _) hblank

/-!
# Reading by the length of the text
-/

section Reading

variable {n : Nat} (ih : Unambiguous n)
include ih

theorem more_inj {items others : List Scalar} {r s : List Char}
    (hlength : (moreChars items ++ ')' :: r).length < n)
    (hitems : forall e, e ∈ items -> e.IsReadable) (hothers : forall e, e ∈ others -> e.IsReadable)
    (h : moreChars items ++ ')' :: r = moreChars others ++ ')' :: s) :
    plainAll items = plainAll others ∧ r = s := by
  induction items generalizing others with
  | nil =>
      cases others with
      | nil =>
          exact ⟨rfl, (List.cons.inj h).2⟩
      | cons f others =>
          cases h
  | cons e items ihmore =>
      cases others with
      | nil =>
          cases h
      | cons f others =>
          rw [List.forall_mem_cons] at hitems hothers
          simp only [moreChars, List.flatMap_cons, List.cons_append, List.cons.injEq, true_and,
            List.append_assoc] at h hlength
          have hshort := length_lt_of_append (show ([',', ' '] ++ _).length < n from hlength)
          rcases ih.scalar hshort hitems.1 hothers.1 (moreChars_follows _ items r)
            (moreChars_follows _ others s) h with ⟨hfirst, hrest⟩
          rcases ihmore (length_lt_of_append hshort) hitems.2 hothers.2 hrest with ⟨hmore, hr⟩
          exact ⟨by rw [plainAll, plainAll, hfirst, hmore], hr⟩

/-- A list of arguments up to its closing parenthesis. -/
theorem arguments_inj {items others : List Scalar} {r s : List Char}
    (hlength : ((textOfAll items).toList ++ ')' :: r).length < n)
    (hitems : forall e, e ∈ items -> e.IsReadable) (hothers : forall e, e ∈ others -> e.IsReadable)
    (h : (textOfAll items).toList ++ ')' :: r = (textOfAll others).toList ++ ')' :: s) :
    plainAll items = plainAll others ∧ r = s := by
  have hempty : forall {e : Scalar} {rest : List Scalar} {r s : List Char}, e.IsReadable ->
      ')' :: r ≠ (textOfAll (e :: rest)).toList ++ ')' :: s := by
    intro e rest r s he heq
    have hopen := Scalar.ofChars_text he (moreChars_follows [] rest s)
    rw [toList_textOfAll, List.append_assoc] at heq
    rw [<- heq] at hopen
    exact (Scalar.opening_cases (Scalar.readable_terms he).1).1 hopen.symm
  cases items with
  | nil =>
      cases others with
      | nil =>
          rw [textOfAll] at h
          exact ⟨rfl, (List.cons.inj h).2⟩
      | cons f others =>
          rw [textOfAll] at h
          exact (hempty (hothers f List.mem_cons_self) h).elim
  | cons e items =>
      cases others with
      | nil =>
          rw [textOfAll] at h
          exact (hempty (hitems e List.mem_cons_self) h.symm).elim
      | cons f others =>
          rw [List.forall_mem_cons] at hitems hothers
          rw [toList_textOfAll, toList_textOfAll, List.append_assoc, List.append_assoc] at h
          rw [toList_textOfAll, List.append_assoc] at hlength
          rcases ih.scalar hlength hitems.1 hothers.1 (moreChars_follows _ items r)
            (moreChars_follows _ others s) h with ⟨hfirst, hrest⟩
          rcases more_inj ih (length_lt_of_append hlength) hitems.2 hothers.2 hrest with
            ⟨hmore, hr⟩
          exact ⟨by rw [plainAll, plainAll, hfirst, hmore], hr⟩

/-- The arguments of a call and whether they are to be different. -/
theorem distinct_inj {distinct distinct' : Bool} {items others : List Scalar} {r s : List Char}
    (hlength : ((if distinct then "DISTINCT ".toList else []) ++
      ((textOfAll items).toList ++ ')' :: r)).length < n)
    (hitems : forall e, e ∈ items -> e.IsReadable) (hothers : forall e, e ∈ others -> e.IsReadable)
    (h : (if distinct then "DISTINCT ".toList else []) ++ ((textOfAll items).toList ++ ')' :: r) =
      (if distinct' then "DISTINCT ".toList else []) ++ ((textOfAll others).toList ++ ')' :: s)) :
    distinct = distinct' ∧ plainAll items = plainAll others ∧ r = s := by
  have hword : forall {items : List Scalar} {r s : List Char},
      (forall e, e ∈ items -> e.IsReadable) ->
      (textOfAll items).toList ++ ')' :: r ≠ "DISTINCT ".toList ++ s := by
    intro items r s hitems heq
    cases items with
    | nil =>
        rw [textOfAll] at heq
        cases heq
    | cons e items =>
        rw [toList_textOfAll, List.append_assoc] at heq
        exact Scalar.text_ne_keyword (by decide : Scalar.isKeyword "DISTINCT" = true)
          (hitems e List.mem_cons_self) (moreChars_follows [] items r) (Follows.space s) heq
  cases distinct with
  | true =>
      cases distinct' with
      | true =>
          exact ⟨rfl, arguments_inj ih (length_lt_of_append hlength) hitems hothers
            (List.append_cancel_left h)⟩
      | false =>
          exact (hword hothers h.symm).elim
  | false =>
      cases distinct' with
      | true =>
          exact (hword hitems h).elim
      | false =>
          exact ⟨rfl, arguments_inj ih hlength hitems hothers h⟩

theorem call_inj {name name' : String} {distinct distinct' : Bool} {args args' : List Scalar}
    (he : (Scalar.call name distinct args).IsReadable)
    (hf : (Scalar.call name' distinct' args').IsReadable) {r s : List Char}
    (hlength : ((Scalar.call name distinct args).text.toList ++ r).length < n + 1)
    (h : (Scalar.call name distinct args).text.toList ++ r =
      (Scalar.call name' distinct' args').text.toList ++ s) :
    (Scalar.call name distinct args).plain = (Scalar.call name' distinct' args').plain ∧
      r = s := by
  rw [Scalar.toList_text_call, Scalar.toList_text_call] at h
  rw [Scalar.toList_text_call] at hlength
  simp only [List.append_assoc, List.cons_append, List.nil_append] at h hlength
  rcases Text.append_inj_of_stops
    (fun _ => continuesWord_of_mem_name (Scalar.isName_call he).1)
    (fun _ => continuesWord_of_mem_name (Scalar.isName_call hf).1)
    (Text.Stops.cons (by decide) _) (Text.Stops.cons (by decide) _) h with ⟨hname, hrest⟩
  rcases distinct_inj ih (length_lt_of_cons (length_lt_of_append hlength)) he.call hf.call
    (List.cons.inj hrest).2 with ⟨hdistinct, hargs, hr⟩
  refine ⟨?_, hr⟩
  rw [Scalar.plain, Scalar.plain, String.toList_injective hname, hdistinct, hargs]

/-- The end of a choice. -/
theorem end_inj {otherwise otherwise' : Option Scalar} {r s : List Char}
    (hlength : (Scalar.endChars otherwise ++ r).length < n)
    (hreadable : forall e, otherwise = some e -> e.IsReadable)
    (hreadable' : forall e, otherwise' = some e -> e.IsReadable)
    (h : Scalar.endChars otherwise ++ r = Scalar.endChars otherwise' ++ s) :
    plainElse otherwise = plainElse otherwise' ∧ r = s := by
  cases otherwise with
  | none =>
      cases otherwise' with
      | none =>
          exact ⟨rfl, List.append_cancel_left h⟩
      | some f =>
          cases h
  | some e =>
      cases otherwise' with
      | none =>
          cases h
      | some f =>
          rw [Scalar.endChars_some, Scalar.endChars_some] at h
          rw [Scalar.endChars_some] at hlength
          rcases ih.scalar (length_lt_of_append hlength) (hreadable e rfl) (hreadable' f rfl)
            (.blank (c := 'E') (by decide) _) (.blank (c := 'E') (by decide) _)
            (List.append_cancel_left h) with ⟨hvalue, hrest⟩
          exact ⟨by rw [plainElse, plainElse, hvalue], List.append_cancel_left hrest⟩

/-- The branches of a choice and its end, whatever is written behind `WHEN`. -/
theorem whens_inj {α : Type} {text : α -> String} {plain : α -> α} {good : α -> Prop}
    (hitem : forall {a b : α} {r s : List Char}, ((text a).toList ++ r).length < n ->
      good a -> good b -> Follows afterPredicate r -> Follows afterPredicate s ->
      (text a).toList ++ r = (text b).toList ++ s -> plain a = plain b ∧ r = s)
    {whens others : List (α × Scalar)} {otherwise otherwise' : Option Scalar} {r s : List Char}
    (hlength : (Scalar.whenChars text whens ++ (Scalar.endChars otherwise ++ r)).length < n)
    (hwhens : forall w, w ∈ whens -> good w.1 ∧ w.2.IsReadable)
    (hothers : forall w, w ∈ others -> good w.1 ∧ w.2.IsReadable)
    (hreadable : forall e, otherwise = some e -> e.IsReadable)
    (hreadable' : forall e, otherwise' = some e -> e.IsReadable)
    (h : Scalar.whenChars text whens ++ (Scalar.endChars otherwise ++ r) =
      Scalar.whenChars text others ++ (Scalar.endChars otherwise' ++ s)) :
    whens.map (Prod.map plain Scalar.plain) = others.map (Prod.map plain Scalar.plain) ∧
      plainElse otherwise = plainElse otherwise' ∧ r = s := by
  have hend : forall {w : α × Scalar} {rest : List (α × Scalar)} {o p : Option Scalar}
      {r s : List Char},
      Scalar.endChars o ++ r ≠ Scalar.whenChars text (w :: rest) ++ (Scalar.endChars p ++ s) := by
    intro w rest o p r s heq
    cases o <;> cases heq
  induction whens generalizing others with
  | nil =>
      cases others with
      | nil =>
          exact ⟨rfl, end_inj ih hlength hreadable hreadable' h⟩
      | cons w others =>
          exact (hend h).elim
  | cons w whens ihwhens =>
      cases others with
      | nil =>
          exact (hend h.symm).elim
      | cons v others =>
          rw [List.forall_mem_cons] at hwhens hothers
          simp only [Scalar.whenChars, List.flatMap_cons, List.append_assoc] at h hlength
          have hwhen := length_lt_of_append hlength
          rcases hitem hwhen hwhens.1.1 hothers.1.1 (.blank (c := 'T') (by decide) _)
            (.blank (c := 'T') (by decide) _) (List.append_cancel_left h) with ⟨hcondition, hthen⟩
          have hvalue := length_lt_of_append (length_lt_of_append hwhen)
          rcases ih.scalar hvalue hwhens.1.2 hothers.1.2 (whenChars_follows text whens otherwise r)
            (whenChars_follows text others otherwise' s) (List.append_cancel_left hthen) with
            ⟨hresult, hrest⟩
          rcases ihwhens (length_lt_of_append hvalue) hwhens.2 hothers.2 hrest with
            ⟨hmore, hotherwise, hr⟩
          refine ⟨?_, hotherwise, hr⟩
          rw [List.map_cons, List.map_cons, hmore, Prod.map, Prod.map, hcondition, hresult]

theorem searchedCase_inj {whens others : List (Predicate × Scalar)}
    {otherwise otherwise' : Option Scalar} {r s : List Char}
    (hlength : ((Scalar.searchedCase whens otherwise).text.toList ++ r).length < n + 1)
    (hreadable : (Scalar.searchedCase whens otherwise).IsReadable)
    (hreadable' : (Scalar.searchedCase others otherwise').IsReadable)
    (h : (Scalar.searchedCase whens otherwise).text.toList ++ r =
      (Scalar.searchedCase others otherwise').text.toList ++ s) :
    (Scalar.searchedCase whens otherwise).plain = (Scalar.searchedCase others otherwise').plain ∧
      r = s := by
  rw [Scalar.toList_text_searchedCase, Scalar.toList_text_searchedCase] at h
  rw [Scalar.toList_text_searchedCase] at hlength
  simp only [List.append_assoc] at h hlength
  have hshort := length_lt_of_word 'C' "ASE" hlength
  rcases whens_inj ih ih.predicate hshort hreadable.searchedCase.1
    hreadable'.searchedCase.1 hreadable.searchedCase.2 hreadable'.searchedCase.2
    (List.append_cancel_left h) with ⟨hwhens, hotherwise, hr⟩
  refine ⟨?_, hr⟩
  rw [Scalar.plain, Scalar.plain, plainBranches_eq_map, plainBranches_eq_map, hwhens, hotherwise]

theorem simpleCase_inj {input input' : Scalar} {whens others : List (Scalar × Scalar)}
    {otherwise otherwise' : Option Scalar} {r s : List Char}
    (hlength : ((Scalar.simpleCase input whens otherwise).text.toList ++ r).length < n + 1)
    (hreadable : (Scalar.simpleCase input whens otherwise).IsReadable)
    (hreadable' : (Scalar.simpleCase input' others otherwise').IsReadable)
    (h : (Scalar.simpleCase input whens otherwise).text.toList ++ r =
      (Scalar.simpleCase input' others otherwise').text.toList ++ s) :
    (Scalar.simpleCase input whens otherwise).plain =
      (Scalar.simpleCase input' others otherwise').plain ∧ r = s := by
  have hscalar : forall {a b : Scalar} {r s : List Char}, (a.text.toList ++ r).length < n ->
      a.IsReadable -> b.IsReadable -> Follows afterPredicate r -> Follows afterPredicate s ->
      a.text.toList ++ r = b.text.toList ++ s -> a.plain = b.plain ∧ r = s :=
    fun hlength ha hb hr hs => ih.scalar hlength ha hb hr.member.scalar hs.member.scalar
  rw [Scalar.toList_text_simpleCase, Scalar.toList_text_simpleCase] at h
  rw [Scalar.toList_text_simpleCase] at hlength
  simp only [List.append_assoc] at h hlength
  have hshort := length_lt_of_word 'C' "ASE " hlength
  rcases ih.scalar hshort hreadable.simpleCase.1 hreadable'.simpleCase.1
    (whenChars_follows _ whens otherwise r) (whenChars_follows _ others otherwise' s)
    (List.append_cancel_left h) with ⟨hinput, hrest⟩
  rcases whens_inj ih hscalar (length_lt_of_append hshort)
    hreadable.simpleCase.2.1 hreadable'.simpleCase.2.1 hreadable.simpleCase.2.2
    hreadable'.simpleCase.2.2 hrest with ⟨hwhens, hotherwise, hr⟩
  refine ⟨?_, hr⟩
  rw [Scalar.plain, Scalar.plain, hinput, plainPairs_eq_map, plainPairs_eq_map, hwhens, hotherwise]

/-- An item in front of whatever ends it. -/
theorem item_inj {e f : Scalar} {r s : List Char}
    (hlength : (e.operandChars ++ r).length < n + 1) (he : e.IsReadable) (hf : f.IsReadable)
    (hbare : e.isBare = true) (hbare' : f.isBare = true) (hr : Follows [] r) (hs : Follows [] s)
    (h : e.operandChars ++ r = f.operandChars ++ s) : e.plain = f.plain ∧ r = s := by
  have hopen : e.opening = f.opening := by
    rw [<- Scalar.ofChars_operand he hr, h, Scalar.ofChars_operand hf hs]
  by_cases hliteral : exists k, f = .literal k
  · rcases hliteral with ⟨k, rfl⟩
    rcases literal_of_opening hbare hopen with ⟨l, rfl⟩
    rcases literal_inj he hf hr hs h with ⟨rfl, hrest⟩
    exact ⟨rfl, hrest⟩
  have hother : forall k, f ≠ .literal k := fun k hk => hliteral ⟨k, hk⟩
  cases e with
  | literal l =>
      exact (hliteral (literal_of_opening hbare' hopen.symm)).elim
  | negate e =>
      cases hbare
  | collate e collation =>
      cases hbare
  | column c =>
      cases f with
      | column d =>
          rcases column_inj he.shows hf.shows hr hs h with ⟨hcolumn, hrest⟩
          exact ⟨by rw [Scalar.plain, Scalar.plain, hcolumn], hrest⟩
      | _ =>
          first | cases hopen | exact (hother _ rfl).elim | cases hbare'
  | call name distinct args =>
      cases f with
      | call name' distinct' args' =>
          exact call_inj ih he hf hlength h
      | _ =>
          first | cases hopen | exact (hother _ rfl).elim | cases hbare'
  | binary l op right =>
      cases f with
      | binary l' op' right' =>
          simp only [Scalar.operandChars, List.cons_append, List.append_assoc, List.nil_append,
            List.cons.injEq, true_and] at h hlength
          rcases ih.scalar (length_lt_of_cons hlength) he hf (.close r) (.close s) h with
            ⟨hplain, hrest⟩
          exact ⟨hplain, (List.cons.inj hrest).2⟩
      | _ =>
          first | cases hopen | exact (hother _ rfl).elim | cases hbare'
  | searchedCase whens otherwise =>
      cases f with
      | searchedCase others otherwise' =>
          exact searchedCase_inj ih hlength he hf h
      | simpleCase input others otherwise' =>
          exact (searched_ne_simple hf.simpleCase.1 hr h).elim
      | _ =>
          first | cases hopen | exact (hother _ rfl).elim | cases hbare'
  | simpleCase input whens otherwise =>
      cases f with
      | simpleCase input' others otherwise' =>
          exact simpleCase_inj ih hlength he hf h
      | searchedCase others otherwise' =>
          exact (searched_ne_simple he.simpleCase.1 hs h.symm).elim
      | _ =>
          first | cases hopen | exact (hother _ rfl).elim | cases hbare'
  | star =>
      cases f with
      | star =>
          exact ⟨rfl, (List.cons.inj h).2⟩
      | _ =>
          first | cases hopen | exact (hother _ rfl).elim | cases hbare'
  | starOf table =>
      cases f with
      | starOf table' =>
          rcases starOf_inj he.shows hf.shows h with ⟨rfl, hrest⟩
          exact ⟨rfl, hrest⟩
      | _ =>
          first | cases hopen | exact (hother _ rfl).elim | cases hbare'

end Reading

end Sql
end RecordSql
