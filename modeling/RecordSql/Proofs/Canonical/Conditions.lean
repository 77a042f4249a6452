import RecordSql.Proofs.Canonical.Expressions

/-!
# Reading conditions

A condition is a row of members joined by one word.  A member is a joined condition in parentheses,
a negation, or a comparison or test, which starts with an expression.  What follows that expression
tells the tests apart, and tells an operand in parentheses from a condition in parentheses.
-/

namespace RecordSql
namespace Sql

/-!
# Rows of members
-/

namespace Predicate

def isJoin : Predicate -> Bool
  | .and _ => true
  | .or _ => true
  | _ => false

/-- The text of a member, a joined condition in parentheses. -/
def memberChars (p : Predicate) : List Char :=
  if p.isJoin then '(' :: (p.text.toList ++ [')']) else p.text.toList

/-- The first member of the row, and every other one with the word in front of it. -/
def row : Predicate -> Predicate × List (String × Predicate)
  | .and (p :: rest) => (p, rest.map fun q => ("AND", q))
  | .or (p :: rest) => (p, rest.map fun q => ("OR", q))
  | p => (p, [])

def rowChars (others : List (String × Predicate)) : List Char :=
  others.flatMap fun t => ' ' :: (t.1.toList ++ ' ' :: t.2.memberChars)

theorem rowChars_cons (word : String) (p : Predicate) (others : List (String × Predicate)) :
    rowChars ((word, p) :: others) =
      ' ' :: (word.toList ++ ' ' :: (p.memberChars ++ rowChars others)) := by
  simp [rowChars]

theorem toList_memberText (p : Predicate) : (memberText p p.text).toList = p.memberChars := by
  cases p with
  | and items =>
      simp [memberText, memberChars, isJoin]
  | or items =>
      simp [memberText, memberChars, isJoin]
  | _ =>
      rfl

theorem toList_textOfMembers (word : String) (p : Predicate) (rest : List Predicate) :
    (textOfMembers word (p :: rest)).toList =
      p.memberChars ++ rowChars (rest.map fun q => (word, q)) := by
  induction rest generalizing p with
  | nil =>
      rw [textOfMembers, toList_memberText]
      simp [rowChars]
  | cons q rest ih =>
      rw [textOfMembers]
      · simp only [String.toList_append, ih, toList_memberText, List.map_cons, rowChars_cons]
        simp
      · simp

theorem plainMembers_eq_map (items : List Predicate) :
    plainMembers items = items.map Predicate.plain := by
  induction items with
  | nil =>
      rw [plainMembers]
      rfl
  | cons p rest ih =>
      rw [plainMembers, ih]
      rfl

/-- The condition with the given row. -/
def ofRow (first : Predicate) (others : List (String × Predicate)) : Predicate :=
  match others with
  | [] => first
  | (word, _) :: _ =>
      if word = "AND" then .and (first :: others.map Prod.snd)
      else .or (first :: others.map Prod.snd)

theorem row_single {p : Predicate} (h : p.isJoin = false) : p.row = (p, []) := by
  cases p with
  | and items =>
      cases h
  | or items =>
      cases h
  | _ =>
      rfl

/-- A joined condition has at least two members and one word between them. -/
theorem exists_members {p : Predicate} (h : p.IsReadable) (hjoin : p.isJoin = true) :
    exists word first second rest, (word = "AND" ∨ word = "OR") ∧
      p.row = (first, (second :: rest).map fun q => (word, q)) ∧
      p.text = textOfMembers word (first :: second :: rest) ∧
      p.plain = ofRow first.plain ((second :: rest).map fun q => (word, q.plain)) ∧
      forall q, q ∈ first :: second :: rest -> q.IsReadable := by
  cases p with
  | and items =>
      rcases IsReadable.members h.wellFormed h.legible with ⟨first, second, rest, rfl, hmembers⟩
      refine ⟨"AND", first, second, rest, Or.inl rfl, rfl, by rw [Predicate.text], ?_, hmembers⟩
      simp [ofRow, Predicate.plain, plainMembers_eq_map, Function.comp_def]
  | or items =>
      rcases IsReadable.members h.wellFormed h.legible with ⟨first, second, rest, rfl, hmembers⟩
      refine ⟨"OR", first, second, rest, Or.inr rfl, rfl, by rw [Predicate.text], ?_, hmembers⟩
      simp [ofRow, Predicate.plain, plainMembers_eq_map, Function.comp_def]
  | _ =>
      cases hjoin

/-- The text of a condition is its row of members. -/
theorem toList_text {p : Predicate} (h : p.IsReadable) :
    p.text.toList = p.row.1.memberChars ++ rowChars p.row.2 := by
  cases hjoin : p.isJoin with
  | true =>
      rcases exists_members h hjoin with ⟨word, first, second, rest, _, hrow, htext, _⟩
      rw [htext, hrow, toList_textOfMembers]
  | false =>
      rw [row_single hjoin, memberChars, hjoin]
      simp [rowChars]

/-- The members of a readable condition are readable. -/
theorem readable_row {p : Predicate} (h : p.IsReadable) :
    p.row.1.IsReadable ∧
      forall t, t ∈ p.row.2 -> (t.1 = "AND" ∨ t.1 = "OR") ∧ t.2.IsReadable := by
  cases hjoin : p.isJoin with
  | true =>
      rcases exists_members h hjoin with ⟨word, first, second, rest, hword, hrow, _, _, hmembers⟩
      rw [List.forall_mem_cons] at hmembers
      rw [hrow]
      refine ⟨hmembers.1, ?_⟩
      intro t ht
      rcases List.mem_map.mp ht with ⟨q, hq, rfl⟩
      exact ⟨hword, hmembers.2 q hq⟩
  | false =>
      rw [row_single hjoin]
      exact ⟨h, by simp⟩

/-- A condition is determined by its row of members. -/
theorem ofRow_plain {p : Predicate} (h : p.IsReadable) :
    ofRow p.row.1.plain (p.row.2.map fun t => (t.1, t.2.plain)) = p.plain := by
  cases hjoin : p.isJoin with
  | true =>
      rcases exists_members h hjoin with ⟨word, first, second, rest, _, hrow, _, hplain, _⟩
      rw [hrow, hplain, List.map_map]
      rfl
  | false =>
      rw [row_single hjoin]
      rfl

/-!
# Tests

A test starts with an expression and goes on with what is asked of it.  A full-text search looks
like a call and has nothing behind it.
-/

/-- The condition starts with an expression. -/
def isTest : Predicate -> Bool
  | .compare _ _ _ => true
  | .isNull _ _ => true
  | .inList _ _ _ => true
  | .like _ _ _ => true
  | .contains _ _ => true
  | _ => false

/-- The expression that a test starts with. -/
def lead : Predicate -> Scalar
  | .compare l _ _ => l
  | .isNull e _ => e
  | .inList e _ _ => e
  | .like e _ _ => e
  | .contains c wanted => .call "CONTAINS" false [.column c, wanted]
  | _ => .star

/-- What a test asks of its expression, as it is written. -/
def askChars : Predicate -> List Char
  | .compare _ op r => ' ' :: (op.sign.toList ++ ' ' :: r.text.toList)
  | .isNull _ negated => ' ' :: 'I' :: 'S' :: ' ' :: ((notText negated).toList ++ "NULL".toList)
  | .inList _ items negated =>
      ' ' :: ((notText negated).toList ++
        'I' :: 'N' :: ' ' :: '(' :: ((textOfAll items).toList ++ [')']))
  | .like _ pattern negated =>
      ' ' :: ((notText negated).toList ++ ("LIKE ".toList ++ pattern.text.toList))
  | _ => []

theorem toList_text_test {p : Predicate} (h : p.isTest = true) :
    p.text.toList = p.lead.text.toList ++ p.askChars := by
  cases p with
  | compare l op r =>
      rw [Predicate.text]
      simp [lead, askChars]
  | isNull e negated =>
      rw [Predicate.text]
      simp [lead, askChars]
  | inList e items negated =>
      rw [Predicate.text]
      simp [lead, askChars]
  | like e pattern negated =>
      rw [Predicate.text]
      simp [lead, askChars]
  | contains c wanted =>
      show _ = (Scalar.call "CONTAINS" false [.column c, wanted]).text.toList ++ []
      rw [Predicate.text, Scalar.toList_text_call, toList_textOfAll, moreChars,
        show Text.upper "CONTAINS" = "CONTAINS" by decide, Scalar.text]
      simp
  | _ =>
      cases h

theorem readable_lead {p : Predicate} (h : p.IsReadable) (htest : p.isTest = true) :
    p.lead.IsReadable := by
  cases p with
  | compare l op r =>
      exact h.compare.1
  | isNull e negated =>
      exact h.isNull
  | inList e items negated =>
      exact h.inList.1
  | like e pattern negated =>
      exact h.like.1
  | contains c wanted =>
      rcases h.contains with ⟨hcolumn, hwanted⟩
      have hname : (isName "CONTAINS" && Text.isAscii "CONTAINS") = true := by decide
      refine ⟨?_, ?_⟩
      · simp [lead, Scalar.wellFormed, wellFormedAll, hwanted.wellFormed]
      · rw [lead, Scalar.IsLegible, Scalar.parts, List.forall_mem_cons, forall_partsOfAll,
          List.forall_mem_cons, List.forall_mem_cons]
        exact ⟨hname, hcolumn.legible, hwanted.legible, by simp⟩
  | _ =>
      cases htest

end Predicate

/-- The tests that ask something of their expression. -/
inductive Ask where
  | compare
  | isNull
  | inList
  | like

/-- What the first characters behind an expression ask of it. -/
def Ask.ofChars? : List Char -> Option Ask
  | ' ' :: 'I' :: 'S' :: _ => some .isNull
  | ' ' :: 'I' :: 'N' :: _ => some .inList
  | ' ' :: 'L' :: _ => some .like
  | ' ' :: 'N' :: 'O' :: 'T' :: ' ' :: 'I' :: _ => some .inList
  | ' ' :: 'N' :: 'O' :: 'T' :: ' ' :: 'L' :: _ => some .like
  | ' ' :: '=' :: _ => some .compare
  | ' ' :: '<' :: _ => some .compare
  | ' ' :: '>' :: _ => some .compare
  | _ => none

def Predicate.ask? : Predicate -> Option Ask
  | .compare _ _ _ => some .compare
  | .isNull _ _ => some .isNull
  | .inList _ _ _ => some .inList
  | .like _ _ _ => some .like
  | _ => none

theorem Ask.ofChars?_askChars {p : Predicate} (h : p.ask? ≠ none) (r : List Char) :
    Ask.ofChars? (p.askChars ++ r) = p.ask? := by
  cases p with
  | compare l op right =>
      cases op <;> rfl
  | isNull e negated =>
      rfl
  | inList e items negated =>
      cases negated <;> rfl
  | like e pattern negated =>
      cases negated <;> rfl
  | _ =>
      exact absurd rfl h

/-- What a test asks begins with a character that goes on with a member. -/
theorem askChars_blank {p : Predicate} (h : p.ask? ≠ none) (r : List Char) :
    exists c rest, p.askChars ++ r = ' ' :: c :: rest ∧ c ∈ afterMember ∧ c ∉ afterScalar := by
  cases p with
  | compare l op right =>
      cases op <;> exact ⟨_, _, rfl, by decide, by decide⟩
  | isNull e negated =>
      exact ⟨_, _, rfl, by decide, by decide⟩
  | inList e items negated =>
      cases negated <;> exact ⟨_, _, rfl, by decide, by decide⟩
  | like e pattern negated =>
      cases negated <;> exact ⟨_, _, rfl, by decide, by decide⟩
  | _ =>
      exact absurd rfl h

theorem askChars_eq_nil {p : Predicate} (h : p.ask? = none) : p.askChars = [] := by
  cases p with
  | compare l op right =>
      cases h
  | isNull e negated =>
      cases h
  | inList e items negated =>
      cases h
  | like e pattern negated =>
      cases h
  | _ =>
      rfl

/-- What a test asks follows its expression. -/
theorem askChars_follows {p : Predicate} {r : List Char} (hr : Follows afterMember r) :
    Follows afterScalar (p.askChars ++ r) := by
  by_cases h : p.ask? = none
  · rw [askChars_eq_nil h]
    exact hr.scalar
  · rcases askChars_blank h r with ⟨c, rest, hblank, _, hc⟩
    rw [hblank]
    exact .blank hc rest

/-- What a test asks cannot follow a member. -/
theorem ask_ne {p : Predicate} (h : p.ask? ≠ none) {r s : List Char}
    (hr : Follows afterMember r) : r ≠ p.askChars ++ s := by
  intro heq
  rcases askChars_blank h s with ⟨c, rest, hblank, hc, _⟩
  rw [heq, hblank] at hr
  exact hr.not_mem_of_blank hc

/-- `NOT` is told from the word behind it by its second letter. -/
theorem not_append_inj {a b : Bool} {x y : List Char} (hx : x[1]? ≠ some 'O')
    (hy : y[1]? ≠ some 'O') (h : (notText a).toList ++ x = (notText b).toList ++ y) :
    a = b ∧ x = y := by
  cases a with
  | true =>
      cases b with
      | true =>
          exact ⟨rfl, List.append_cancel_left h⟩
      | false =>
          rw [show y = "NOT ".toList ++ x from h.symm] at hy
          exact absurd rfl hy
  | false =>
      cases b with
      | true =>
          rw [show x = "NOT ".toList ++ y from h] at hx
          exact absurd rfl hx
      | false =>
          exact ⟨rfl, h⟩

theorem comparison_append_inj {op op' : Comparison} {r s : List Char}
    (h : op.sign.toList ++ ' ' :: r = op'.sign.toList ++ ' ' :: s) : op = op' ∧ r = s := by
  cases op <;> cases op' <;> simp [Comparison.sign] at h ⊢ <;> exact h

theorem isNull_inj {e e' : Scalar} {negated negated' : Bool} {r s : List Char}
    (hlead : e.plain = e'.plain)
    (h : (Predicate.isNull e negated).askChars ++ r =
      (Predicate.isNull e' negated').askChars ++ s) :
    (Predicate.isNull e negated).plain = (Predicate.isNull e' negated').plain ∧ r = s := by
  simp only [Predicate.askChars, List.cons_append, List.append_assoc, List.cons.injEq,
    true_and] at h
  rcases not_append_inj (fun hx => by cases hx) (fun hx => by cases hx) h with ⟨rfl, hnull⟩
  exact ⟨by rw [Predicate.plain, Predicate.plain, hlead], List.append_cancel_left hnull⟩

theorem contains_inj {c c' : Column} {wanted wanted' : Scalar}
    (h : (Predicate.contains c wanted).lead.plain = (Predicate.contains c' wanted').lead.plain) :
    (Predicate.contains c wanted).plain = (Predicate.contains c' wanted').plain := by
  simp only [Predicate.lead, Scalar.plain, plainAll, Scalar.call.injEq, List.cons.injEq,
    Scalar.column.injEq, true_and, and_true] at h
  rw [Predicate.plain, Predicate.plain, h.1, h.2]

/-!
# Members
-/

theorem member_cases {p : Predicate} (h : p.IsReadable) :
    p.isJoin = true ∨ (exists q, p = .not q) ∨ p.isTest = true := by
  cases p with
  | and items =>
      exact Or.inl rfl
  | or items =>
      exact Or.inl rfl
  | not q =>
      exact Or.inr (Or.inl ⟨q, rfl⟩)
  | const t =>
      cases h.wellFormed
  | _ =>
      exact Or.inr (Or.inr rfl)

theorem memberChars_join {p : Predicate} (h : p.isJoin = true) :
    p.memberChars = '(' :: (p.text.toList ++ [')']) := by
  rw [Predicate.memberChars, if_pos h]

theorem memberChars_not (p : Predicate) :
    (Predicate.not p).memberChars = "NOT".toList ++ (' ' :: '(' :: (p.text.toList ++ [')'])) := by
  show (Predicate.not p).text.toList = _
  rw [Predicate.text]
  simp

theorem memberChars_test {p : Predicate} (h : p.isTest = true) :
    p.memberChars = p.lead.text.toList ++ p.askChars := by
  rw [<- Predicate.toList_text_test h]
  cases p with
  | and items =>
      cases h
  | or items =>
      cases h
  | _ =>
      rfl

/-- A word that joins members follows the first of them. -/
theorem rowChars_follows {others : List (String × Predicate)}
    (hwords : forall t, t ∈ others -> t.1 = "AND" ∨ t.1 = "OR") {r : List Char}
    (hr : Follows afterMember r) : Follows afterMember (Predicate.rowChars others ++ r) := by
  cases others with
  | nil =>
      exact hr
  | cons t others =>
      rcases t with ⟨word, q⟩
      rw [Predicate.rowChars_cons]
      rcases hwords _ List.mem_cons_self with hword | hword
      · rw [show word = "AND" from hword]
        exact .blank (c := 'A') (by decide) _
      · rw [show word = "OR" from hword]
        exact .blank (c := 'O') (by decide) _

/-- A word that joins members cannot follow a condition. -/
theorem row_ne {t : String × Predicate} {others : List (String × Predicate)}
    (hword : t.1 = "AND" ∨ t.1 = "OR") {r s : List Char} (hr : Follows afterPredicate r) :
    r ≠ Predicate.rowChars (t :: others) ++ s := by
  intro heq
  rcases t with ⟨word, q⟩
  rw [heq, Predicate.rowChars_cons] at hr
  rcases hword with hword | hword
  · rw [show word = "AND" from hword] at hr
    exact hr.not_mem_of_blank (by decide)
  · rw [show word = "OR" from hword] at hr
    exact hr.not_mem_of_blank (by decide)

theorem word_append_inj {v w : String} (hv : v = "AND" ∨ v = "OR") (hw : w = "AND" ∨ w = "OR")
    {r s : List Char} (h : v.toList ++ r = w.toList ++ s) : v = w ∧ r = s := by
  rcases hv with rfl | rfl <;> rcases hw with rfl | rfl
  · exact ⟨rfl, List.append_cancel_left h⟩
  · cases h
  · cases h
  · exact ⟨rfl, List.append_cancel_left h⟩

/-- The text of a joined condition: its first member, the word behind it, and the others. -/
theorem join_first {p : Predicate} (h : p.IsReadable) (hjoin : p.isJoin = true) :
    exists (q : Predicate) (rest : List Char), q.IsReadable ∧
      p.text.toList = q.memberChars ++ ' ' :: rest ∧
      forall r, Follows afterMember (' ' :: (rest ++ ')' :: r)) := by
  rcases Predicate.exists_members h hjoin with
    ⟨word, first, second, others, hword, _, htext, _, hmembers⟩
  refine ⟨first, word.toList ++ ' ' :: (second.memberChars ++
    Predicate.rowChars (others.map fun q => (word, q))), hmembers first List.mem_cons_self, ?_, ?_⟩
  · rw [htext, Predicate.toList_textOfMembers, List.map_cons, Predicate.rowChars_cons]
  · intro r
    have hwords : forall t, t ∈ (second :: others).map (fun q => (word, q)) ->
        t.1 = "AND" ∨ t.1 = "OR" := by
      intro t ht
      rcases List.mem_map.mp ht with ⟨q, _, rfl⟩
      exact hword
    have hfollows := rowChars_follows hwords (Follows.close r)
    rwa [List.map_cons, Predicate.rowChars_cons] at hfollows

theorem join_ne_not {p q : Predicate} (hjoin : p.isJoin = true) {r s : List Char} :
    p.memberChars ++ r ≠ (Predicate.not q).memberChars ++ s := by
  intro h
  rw [memberChars_join hjoin, memberChars_not] at h
  cases h

theorem not_ne_test {p q : Predicate} (hq : q.IsReadable) (htest : q.isTest = true)
    {r s : List Char} (hs : Follows afterMember s) :
    (Predicate.not p).memberChars ++ r ≠ q.memberChars ++ s := by
  intro h
  rw [memberChars_not, memberChars_test htest, List.append_assoc, List.append_assoc] at h
  exact Scalar.text_ne_keyword (by decide : Scalar.isKeyword "NOT" = true)
    (Predicate.readable_lead hq htest) (askChars_follows hs).any (Follows.space _) h.symm

/-!
# Parentheses

A parenthesis at the start of a member opens a joined condition or an operand.  Inside a joined
condition its first member is followed by a word, inside an operand an expression by the closing
parenthesis.
-/

theorem binary_of_opening {e : Scalar} (h : e.IsReadable) (hopen : e.opening = .enclosed) :
    exists l op r, e = .binary l op r := by
  induction e using Scalar.collated.induct with
  | case1 e collation ih =>
      rcases h.collate with ⟨hitem, _, he⟩
      rcases ih he hopen with ⟨l, op, r, rfl⟩
      cases hitem
  | case2 e hsingle =>
      cases e with
      | binary l op r =>
          exact ⟨l, op, r, rfl⟩
      | literal l =>
          rcases Scalar.opening_literal l with hl | hl | hl | hl <;>
            rw [Scalar.opening, hl] at hopen <;> cases hopen
      | collate f collation =>
          exact (hsingle f collation rfl).elim
      | _ =>
          cases hopen

/-- A parenthesis at the start of an expression encloses an expression. -/
theorem enclosed_scalar {e : Scalar} (he : e.IsReadable) {s cs : List Char} (hs : Follows [] s)
    (h : e.text.toList ++ s = '(' :: cs) :
    exists (f : Scalar) (rest : List Char), f.IsReadable ∧ cs = f.text.toList ++ ')' :: rest := by
  have hfirst := (Scalar.readable_terms he).1
  have hopen : e.terms.1.opening = .enclosed := by
    rw [<- Scalar.ofChars_text he hs, h]
    rfl
  rcases binary_of_opening hfirst hopen with ⟨l, op, r, hbinary⟩
  rw [Scalar.toList_text, hbinary, Scalar.operandChars] at h
  simp only [List.cons_append, List.append_assoc, List.cons.injEq, true_and] at h
  rw [hbinary] at hfirst
  exact ⟨.binary l op r, _, hfirst, h.symm⟩

/-!
# Reading by the length of the text
-/

section Reading

variable {n : Nat} (ih : Unambiguous n)
include ih

theorem compare_inj {l r' l' right : Scalar} {op op' : Comparison} {r s : List Char}
    (hp : (Predicate.compare l op right).IsReadable)
    (hq : (Predicate.compare l' op' r').IsReadable) (hr : Follows afterMember r)
    (hs : Follows afterMember s)
    (hlength : ((Predicate.compare l op right).askChars ++ r).length < n + 1)
    (hlead : l.plain = l'.plain)
    (h : (Predicate.compare l op right).askChars ++ r =
      (Predicate.compare l' op' r').askChars ++ s) :
    (Predicate.compare l op right).plain = (Predicate.compare l' op' r').plain ∧ r = s := by
  simp only [Predicate.askChars, List.cons_append, List.append_assoc, List.cons.injEq,
    true_and] at h hlength
  rcases comparison_append_inj h with ⟨rfl, hright⟩
  have hshort := length_lt_of_append (length_lt_of_cons hlength)
  rcases scalar_inj ih (Nat.lt_succ_of_lt (length_lt_of_append (show ([' '] ++ _).length < n
    from hshort))) hp.compare.2 hq.compare.2 hr.scalar hs.scalar hright
    with ⟨hplain, hrest⟩
  exact ⟨by rw [Predicate.plain, Predicate.plain, hlead, hplain], hrest⟩

theorem inList_inj {e e' : Scalar} {items items' : List Scalar} {negated negated' : Bool}
    {r s : List Char} (hp : (Predicate.inList e items negated).IsReadable)
    (hq : (Predicate.inList e' items' negated').IsReadable)
    (hlength : ((Predicate.inList e items negated).askChars ++ r).length < n + 1)
    (hlead : e.plain = e'.plain)
    (h : (Predicate.inList e items negated).askChars ++ r =
      (Predicate.inList e' items' negated').askChars ++ s) :
    (Predicate.inList e items negated).plain = (Predicate.inList e' items' negated').plain ∧
      r = s := by
  simp only [Predicate.askChars, List.cons_append, List.append_assoc, List.nil_append,
    List.cons.injEq, true_and] at h hlength
  rcases not_append_inj (by simp) (by simp) h with ⟨rfl, hin⟩
  simp only [List.cons.injEq, true_and] at hin
  have hshort : ((textOfAll items).toList ++ ')' :: r).length < n := by
    simp only [List.length_cons, List.length_append] at hlength ⊢
    omega
  rcases arguments_inj ih hshort hp.inList.2 hq.inList.2 hin with ⟨hplain, hrest⟩
  exact ⟨by rw [Predicate.plain, Predicate.plain, hlead, hplain], hrest⟩

theorem like_inj {e e' pattern pattern' : Scalar} {negated negated' : Bool}
    {r s : List Char} (hp : (Predicate.like e pattern negated).IsReadable)
    (hq : (Predicate.like e' pattern' negated').IsReadable) (hr : Follows afterMember r)
    (hs : Follows afterMember s)
    (hlength : ((Predicate.like e pattern negated).askChars ++ r).length < n + 1)
    (hlead : e.plain = e'.plain)
    (h : (Predicate.like e pattern negated).askChars ++ r =
      (Predicate.like e' pattern' negated').askChars ++ s) :
    (Predicate.like e pattern negated).plain = (Predicate.like e' pattern' negated').plain ∧
      r = s := by
  simp only [Predicate.askChars, List.cons_append, List.append_assoc, List.cons.injEq,
    true_and] at h hlength
  rcases not_append_inj (fun hx => by cases hx) (fun hx => by cases hx) h with ⟨rfl, hlike⟩
  have hpattern := List.append_cancel_left hlike
  have hshort := Nat.lt_succ_of_lt (length_lt_of_append (length_lt_of_append
    (length_lt_of_cons hlength)))
  rcases scalar_inj ih hshort hp.like.2 hq.like.2 hr.scalar hs.scalar
    hpattern with ⟨hplain, hrest⟩
  exact ⟨by rw [Predicate.plain, Predicate.plain, hlead, hplain], hrest⟩

/-- What two tests ask of the same expression. -/
theorem ask_inj {p q : Predicate} {r s : List Char} (hp : p.IsReadable) (hq : q.IsReadable)
    (htest : p.isTest = true) (htest' : q.isTest = true) (hr : Follows afterMember r)
    (hs : Follows afterMember s) (hlength : (p.askChars ++ r).length < n + 1)
    (hlead : p.lead.plain = q.lead.plain) (h : p.askChars ++ r = q.askChars ++ s) :
    p.plain = q.plain ∧ r = s := by
  have hask : p.ask? = q.ask? := by
    by_cases hp' : p.ask? = none
    · by_cases hq' : q.ask? = none
      · rw [hp', hq']
      · rw [askChars_eq_nil hp'] at h
        exact (ask_ne hq' hr h).elim
    · by_cases hq' : q.ask? = none
      · rw [askChars_eq_nil hq'] at h
        exact (ask_ne hp' hs h.symm).elim
      · rw [<- Ask.ofChars?_askChars hp' r, h, Ask.ofChars?_askChars hq']
  cases p with
  | compare l op right =>
      cases q with
      | compare l' op' right' =>
          exact compare_inj ih hp hq hr hs hlength hlead h
      | _ =>
          cases hask
  | isNull e negated =>
      cases q with
      | isNull e' negated' =>
          exact isNull_inj hlead h
      | _ =>
          cases hask
  | inList e items negated =>
      cases q with
      | inList e' items' negated' =>
          exact inList_inj ih hp hq hlength hlead h
      | _ =>
          cases hask
  | like e pattern negated =>
      cases q with
      | like e' pattern' negated' =>
          exact like_inj ih hp hq hr hs hlength hlead h
      | _ =>
          cases hask
  | contains c wanted =>
      cases q with
      | contains c' wanted' =>
          exact ⟨contains_inj hlead, h⟩
      | compare l op right =>
          cases hask
      | isNull e negated =>
          cases hask
      | inList e items negated =>
          cases hask
      | like e pattern negated =>
          cases hask
      | _ =>
          cases htest'
  | _ =>
      cases htest

theorem test_inj {p q : Predicate} {r s : List Char} (hp : p.IsReadable) (hq : q.IsReadable)
    (htest : p.isTest = true) (htest' : q.isTest = true) (hr : Follows afterMember r)
    (hs : Follows afterMember s) (hlength : (p.text.toList ++ r).length < n + 1)
    (h : p.text.toList ++ r = q.text.toList ++ s) : p.plain = q.plain ∧ r = s := by
  rw [Predicate.toList_text_test htest, Predicate.toList_text_test htest', List.append_assoc,
    List.append_assoc] at h
  rw [Predicate.toList_text_test htest, List.append_assoc] at hlength
  rcases scalar_inj ih hlength (Predicate.readable_lead hp htest)
    (Predicate.readable_lead hq htest') (askChars_follows hr) (askChars_follows hs) h with
    ⟨hlead, hask⟩
  exact ask_inj ih hp hq htest htest' hr hs (length_lt_of_append hlength) hlead hask

/-- A member with another behind it is no expression in parentheses. -/
theorem member_ne_scalar {q : Predicate} {e : Scalar} {r s : List Char} (hq : q.IsReadable)
    (he : e.IsReadable) (hr : Follows afterMember (' ' :: r))
    (hlength : (q.memberChars ++ ' ' :: r).length < n) :
    q.memberChars ++ ' ' :: r ≠ e.text.toList ++ ')' :: s := by
  intro h
  generalize hsize : (q.memberChars ++ ' ' :: r).length = size at hlength
  induction size using Nat.strongRecOn generalizing q e r s with
  | ind size ihsize =>
      rcases member_cases hq with hjoin | ⟨p, rfl⟩ | htest
      · -- a joined condition: compare its first member with what the parenthesis encloses
        rw [memberChars_join hjoin] at h hsize
        simp only [List.cons_append, List.append_assoc, List.nil_append] at h hsize
        rcases enclosed_scalar he (Follows.close s) h.symm with ⟨f, rest, hf, hinside⟩
        rcases join_first hq hjoin with ⟨first, others, hfirst, htext, hfollows⟩
        rw [htext, List.append_assoc, List.cons_append] at hinside
        rw [htext, List.append_assoc, List.cons_append, List.length_cons] at hsize
        exact ihsize _ (by omega) hfirst hf (hfollows _) hinside rfl (by omega)
      · rw [memberChars_not, List.append_assoc] at h
        exact Scalar.text_ne_keyword (by decide : Scalar.isKeyword "NOT" = true) he
          (Follows.close s) (Follows.space _) h.symm
      · rw [memberChars_test htest, List.append_assoc] at h hsize
        rcases ih.scalar (hsize ▸ hlength) (Predicate.readable_lead hq htest) he
          (askChars_follows hr) (Follows.close s) h with ⟨_, hrest⟩
        by_cases hask : q.ask? = none
        · rw [askChars_eq_nil hask] at hrest
          cases hrest
        · rcases askChars_blank hask (' ' :: r) with ⟨c, rest, hblank, _⟩
          rw [hblank] at hrest
          cases hrest

/-- A joined condition in parentheses is told from an operand in parentheses. -/
theorem join_ne_scalar {p : Predicate} {e : Scalar} {r s : List Char} (hp : p.IsReadable)
    (hjoin : p.isJoin = true) (he : e.IsReadable) (hs : Follows [] s)
    (hlength : (p.memberChars ++ r).length < n + 1) :
    p.memberChars ++ r ≠ e.text.toList ++ s := by
  intro h
  rw [memberChars_join hjoin] at h hlength
  simp only [List.cons_append, List.append_assoc, List.nil_append] at h hlength
  rcases enclosed_scalar he hs h.symm with ⟨f, rest, hf, hinside⟩
  rcases join_first hp hjoin with ⟨first, others, hfirst, htext, hfollows⟩
  rw [htext, List.append_assoc, List.cons_append] at hinside hlength
  exact member_ne_scalar ih hfirst hf (hfollows _) (length_lt_of_cons hlength) hinside

theorem join_ne_test {p q : Predicate} (hp : p.IsReadable) (hjoin : p.isJoin = true)
    (hq : q.IsReadable) (htest : q.isTest = true) {r s : List Char} (hs : Follows afterMember s)
    (hlength : (p.memberChars ++ r).length < n + 1) :
    p.memberChars ++ r ≠ q.memberChars ++ s := by
  rw [memberChars_test htest, List.append_assoc]
  exact join_ne_scalar ih hp hjoin (Predicate.readable_lead hq htest) (askChars_follows hs).any
    hlength

/-- A member in front of a rest that goes on with none. -/
theorem member_inj {p q : Predicate} {r s : List Char}
    (hlength : (p.memberChars ++ r).length < n + 1) (hp : p.IsReadable) (hq : q.IsReadable)
    (hr : Follows afterMember r) (hs : Follows afterMember s)
    (h : p.memberChars ++ r = q.memberChars ++ s) : p.plain = q.plain ∧ r = s := by
  rcases member_cases hp with hjoin | ⟨p', rfl⟩ | htest
  · rcases member_cases hq with hjoin' | ⟨q', rfl⟩ | htest'
    · rw [memberChars_join hjoin, memberChars_join hjoin'] at h
      rw [memberChars_join hjoin] at hlength
      simp only [List.cons_append, List.append_assoc, List.nil_append, List.cons.injEq,
        true_and] at h hlength
      rcases ih.predicate (length_lt_of_cons hlength) hp hq (.close r) (.close s) h with
        ⟨hplain, hrest⟩
      exact ⟨hplain, (List.cons.inj hrest).2⟩
    · exact (join_ne_not hjoin h).elim
    · exact (join_ne_test ih hp hjoin hq htest' hs hlength h).elim
  · rcases member_cases hq with hjoin' | ⟨q', rfl⟩ | htest'
    · exact (join_ne_not hjoin' h.symm).elim
    · rw [memberChars_not, memberChars_not] at h
      rw [memberChars_not] at hlength
      simp only [List.append_assoc, List.cons_append, List.nil_append] at h hlength
      have hinside := (List.cons.inj (List.cons.inj (List.append_cancel_left h)).2).2
      have hshort := length_lt_of_word 'N' "OT (" hlength
      rcases ih.predicate hshort hp.not hq.not (.close r) (.close s) hinside with ⟨hplain, hrest⟩
      exact ⟨by rw [Predicate.plain, Predicate.plain, hplain], (List.cons.inj hrest).2⟩
    · exact (not_ne_test hq htest' hs h).elim
  · rcases member_cases hq with hjoin' | ⟨q', rfl⟩ | htest'
    · exact (join_ne_test ih hq hjoin' hp htest hr (h ▸ hlength) h.symm).elim
    · exact (not_ne_test hp htest hr h.symm).elim
    · rw [memberChars_test htest, memberChars_test htest', <- Predicate.toList_text_test htest,
        <- Predicate.toList_text_test htest'] at h
      rw [memberChars_test htest, <- Predicate.toList_text_test htest] at hlength
      exact test_inj ih hp hq htest htest' hr hs hlength h

theorem row_inj {others others' : List (String × Predicate)} {r s : List Char}
    (hlength : (Predicate.rowChars others ++ r).length < n + 1)
    (hreadable : forall t, t ∈ others -> (t.1 = "AND" ∨ t.1 = "OR") ∧ t.2.IsReadable)
    (hreadable' : forall t, t ∈ others' -> (t.1 = "AND" ∨ t.1 = "OR") ∧ t.2.IsReadable)
    (hr : Follows afterPredicate r) (hs : Follows afterPredicate s)
    (h : Predicate.rowChars others ++ r = Predicate.rowChars others' ++ s) :
    others.map (fun t => (t.1, t.2.plain)) = others'.map (fun t => (t.1, t.2.plain)) ∧ r = s := by
  induction others generalizing others' with
  | nil =>
      cases others' with
      | nil =>
          exact ⟨rfl, h⟩
      | cons t others' =>
          exact (row_ne (hreadable' t List.mem_cons_self).1 hr h).elim
  | cons t others ihmore =>
      cases others' with
      | nil =>
          exact (row_ne (hreadable t List.mem_cons_self).1 hs h.symm).elim
      | cons t' others' =>
          rw [List.forall_mem_cons] at hreadable hreadable'
          rcases t with ⟨word, p⟩
          rcases t' with ⟨word', p'⟩
          rw [Predicate.rowChars_cons, Predicate.rowChars_cons] at h
          rw [Predicate.rowChars_cons] at hlength
          simp only [List.cons_append, List.append_assoc, List.cons.injEq, true_and] at h hlength
          rcases word_append_inj hreadable.1.1 hreadable'.1.1 h with ⟨hword, hmembers⟩
          have hshort := length_lt_of_append (length_lt_of_cons hlength)
          have hmore := length_lt_of_append (show ([' '] ++ _).length < n from hshort)
          rcases member_inj ih (Nat.lt_succ_of_lt hmore) hreadable.1.2 hreadable'.1.2
            (rowChars_follows (fun t ht => (hreadable.2 t ht).1) hr.member)
            (rowChars_follows (fun t ht => (hreadable'.2 t ht).1) hs.member)
            (List.cons.inj hmembers).2 with ⟨hplain, hrest⟩
          rcases ihmore (Nat.lt_succ_of_lt (length_lt_of_append hmore)) hreadable.2 hreadable'.2
            hrest with ⟨hothers, hr'⟩
          refine ⟨?_, hr'⟩
          rw [List.map_cons, List.map_cons, hothers, hplain, show word = word' from hword]

/-- A condition in front of a rest that goes on with none. -/
theorem predicate_inj {p q : Predicate} {r s : List Char}
    (hlength : (p.text.toList ++ r).length < n + 1) (hp : p.IsReadable) (hq : q.IsReadable)
    (hr : Follows afterPredicate r) (hs : Follows afterPredicate s)
    (h : p.text.toList ++ r = q.text.toList ++ s) : p.plain = q.plain ∧ r = s := by
  rcases Predicate.readable_row hp with ⟨hfirst, hothers⟩
  rcases Predicate.readable_row hq with ⟨hfirst', hothers'⟩
  rw [Predicate.toList_text hp, Predicate.toList_text hq, List.append_assoc,
    List.append_assoc] at h
  rw [Predicate.toList_text hp, List.append_assoc] at hlength
  rcases member_inj ih hlength hfirst hfirst'
    (rowChars_follows (fun t ht => (hothers t ht).1) hr.member)
    (rowChars_follows (fun t ht => (hothers' t ht).1) hs.member) h with
    ⟨hplain, hrest⟩
  rcases row_inj ih (length_lt_of_append hlength) hothers hothers' hr hs hrest with ⟨hmore, hr'⟩
  refine ⟨?_, hr'⟩
  rw [<- Predicate.ofRow_plain hp, <- Predicate.ofRow_plain hq, hplain, hmore]

end Reading

/-- Every text can be read in one way only. -/
theorem unambiguous (n : Nat) : Unambiguous n := by
  induction n with
  | zero =>
      exact ⟨fun h => absurd h (Nat.not_lt_zero _), fun h => absurd h (Nat.not_lt_zero _),
        fun h => absurd h (Nat.not_lt_zero _)⟩
  | succ n ih =>
      exact ⟨operand_inj ih, scalar_inj ih, predicate_inj ih⟩

end Sql
end RecordSql
