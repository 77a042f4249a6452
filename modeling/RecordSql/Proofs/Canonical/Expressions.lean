import RecordSql.Proofs.Canonical.Items

/-!
# Reading expressions

An operand is an item with its signs and collations, an expression a row of operands.  Both can be
read in one way only if all shorter texts can.
-/

namespace RecordSql
namespace Sql

/-!
# Operands

An operand is an item with signs in front of it and collations behind it.  Only the minus of a
negative number belongs to the item, and such a number bears no collation.
-/

theorem collationChars_cons (collation : String) (others : List String) :
    Scalar.collationChars (collation :: others) =
      ' ' :: 'C' :: ("OLLATE ".toList ++ (collation.toList ++ Scalar.collationChars others)) := by
  rw [Scalar.collationChars, List.flatMap_cons, List.append_assoc]
  rfl

theorem collationChars_follows (collations : List String) {r : List Char} (hr : Follows [] r) :
    Follows [] (Scalar.collationChars collations ++ r) := by
  cases collations with
  | nil =>
      exact hr
  | cons collation others =>
      exact Follows.space _

theorem collations_inj {collations others : List String}
    (hnames : forall c, c ∈ collations -> isName c = true)
    (hnames' : forall c, c ∈ others -> isName c = true) {r s : List Char}
    (hr : Follows afterOperand r) (hs : Follows afterOperand s)
    (h : Scalar.collationChars collations ++ r = Scalar.collationChars others ++ s) :
    collations = others ∧ r = s := by
  have hend : forall {collation : String} {rest : List String} {r s : List Char},
      Follows afterOperand r -> r ≠ Scalar.collationChars (collation :: rest) ++ s := by
    intro collation rest r s hr heq
    rw [heq, collationChars_cons] at hr
    exact hr.not_mem_of_blank (by decide)
  induction collations generalizing others with
  | nil =>
      cases others with
      | nil =>
          exact ⟨rfl, h⟩
      | cons d others =>
          exact (hend hr h).elim
  | cons c collations ihmore =>
      cases others with
      | nil =>
          exact (hend hs h.symm).elim
      | cons d others =>
          rw [List.forall_mem_cons] at hnames hnames'
          rw [collationChars_cons, collationChars_cons] at h
          simp only [List.cons_append, List.append_assoc, List.cons.injEq, true_and] at h
          rcases Text.append_inj_of_stops
            (fun _ hmem => isRun_of_continuesWord (continuesWord_of_mem_name hnames.1 hmem))
            (fun _ hmem => isRun_of_continuesWord (continuesWord_of_mem_name hnames'.1 hmem))
            (collationChars_follows collations hr.any).stops
            (collationChars_follows others hs.any).stops (List.append_cancel_left h) with
            ⟨hname, hrest⟩
          rcases ihmore hnames.2 hnames'.2 hrest with ⟨rfl, hr'⟩
          exact ⟨by rw [String.toList_injective hname], hr'⟩

theorem readable_collated {e : Scalar} (h : e.IsReadable) :
    e.collated.1.IsReadable ∧ (forall c, c ∈ e.collated.2 -> isName c = true) ∧
      (e.collated.2 = [] ∧ e.collated.1 = e ∨ e.collated.1.isItem = true) ∧
      e.operandChars = e.collated.1.operandChars ++ Scalar.collationChars e.collated.2 := by
  induction e using Scalar.collated.induct with
  | case1 e collation ih =>
      rcases h.collate with ⟨hitem, hname, he⟩
      rcases ih he with ⟨hbase, hnames, hsingle, hchars⟩
      rw [Scalar.operandChars_of_isItem hitem] at hchars
      rw [Scalar.collated]
      refine ⟨hbase, ?_, ?_, ?_⟩
      · intro c hc
        rcases List.mem_append.mp hc with hc | hc
        · exact hnames c hc
        · rw [List.mem_singleton.mp hc]
          exact hname
      · rcases hsingle with ⟨_, hsame⟩ | hsingle
        · refine Or.inr ?_
          show e.collated.1.isItem = true
          rw [hsame]
          exact hitem
        · exact Or.inr hsingle
      · show (Scalar.collate e collation).text.toList = _
        rw [Scalar.text, String.toList_append, String.toList_append, hchars,
          Scalar.collationChars, Scalar.collationChars]
        simp
  | case2 e hsingle =>
      rw [Scalar.collated_single hsingle]
      exact ⟨h, by simp, Or.inl ⟨rfl, rfl⟩, by simp [Scalar.collationChars]⟩

/-- Without its collations, an operand without a sign is an item. -/
theorem isBare_collated {e : Scalar} (h : e.IsReadable) (hsign : forall f, e ≠ .negate f) :
    e.collated.1.isBare = true := by
  induction e using Scalar.collated.induct with
  | case1 e collation ih =>
      rcases h.collate with ⟨hitem, _, he⟩
      refine ih he ?_
      rintro f rfl
      cases hitem
  | case2 e hsingle =>
      rw [Scalar.collated_single hsingle]
      cases e with
      | negate f =>
          exact absurd rfl (hsign f)
      | collate f collation =>
          exact (hsingle f collation rfl).elim
      | _ =>
          rfl

/-- An item that opens like a number is one; its opening shows its sign. -/
theorem number_of_opening {e : Scalar} (h : e.IsReadable) (hbare : e.isBare = true)
    (negative : Bool) (hopen : e.opening = if negative then .sign else .number) :
    e.isNumber = true ∧ exists c w, e.operandChars = Number.signed negative (c :: w) ∧
      c.isDigit = true ∧ forall d, d ∈ c :: w -> isRun d = true := by
  cases e with
  | literal l =>
      have hnumber : (Scalar.literal l).isNumber = true := by
        cases l with
        | str s =>
            cases negative <;> cases hopen
        | null =>
            cases negative <;> cases hopen
        | bool b =>
            cases h.wellFormed
        | _ =>
            rfl
      rcases Literal.toList_text_number hnumber h.shows with ⟨sign, c, w, htext, hc, hw⟩
      have hsign : sign = negative := by
        have hdash : c ≠ '-' := by
          rintro rfl
          exact absurd hc (by decide)
        rw [Scalar.opening, Scalar.opening_number hnumber, htext] at hopen
        cases sign <;> cases negative <;> simp_all [Number.signed]
      refine ⟨hnumber, c, w, hsign ▸ htext, hc, ?_⟩
      rw [List.forall_mem_cons]
      exact ⟨isRun_of_isDigit hc, hw⟩
  | negate e =>
      cases hbare
  | collate e collation =>
      cases hbare
  | _ =>
      cases negative <;> cases hopen

theorem head?_of_isItem {e : Scalar} (hitem : e.isItem = true) (hnumber : e.isNumber = true) :
    e.operandChars.head? ≠ some '-' := by
  cases e with
  | literal l =>
      have hhead : l.text.toList.head? ≠ some '-' := by simpa [Scalar.isItem] using hitem
      exact hhead
  | _ =>
      cases hnumber

/-- A sign in front of an operand is told from the minus of a negative number. -/
theorem sign_ne {e f : Scalar} {r s : List Char} (he : (Scalar.negate e).IsReadable)
    (hf : f.IsReadable) (hsign : forall g, f ≠ .negate g) (hr : Follows afterOperand r)
    (hs : Follows afterOperand s) : '-' :: (e.operandChars ++ r) ≠ f.operandChars ++ s := by
  intro h
  -- the other operand is a negative number, which bears no collation
  have hnumber : exists c w, f.operandChars = '-' :: c :: w ∧ c.isDigit = true ∧
      forall d, d ∈ c :: w -> isRun d = true := by
    rcases readable_collated hf with ⟨hbase, _, hsingle, hchars⟩
    have hopen : f.collated.1.opening = .sign := by
      rw [<- Scalar.ofChars_operand hbase (collationChars_follows _ hs.any), <- List.append_assoc,
        <- hchars, <- h]
      rfl
    rcases number_of_opening hbase (isBare_collated hf hsign) true hopen with
      ⟨hnumber, c, w, htext, hc, hrun⟩
    rcases hsingle with ⟨_, hsame⟩ | hitem
    · exact ⟨c, w, hsame ▸ htext, hc, hrun⟩
    · refine absurd ?_ (head?_of_isItem hitem hnumber)
      rw [htext]
      rfl
  rcases hnumber with ⟨c, w, hchars, hc, hrun⟩
  rw [hchars] at h
  have hrest : e.operandChars ++ r = c :: (w ++ s) := (List.cons.inj h).2
  -- the operand behind the sign starts with a digit, so it is a number with a collation
  have hunsigned : forall g, e ≠ .negate g := by
    rintro g rfl
    have hdash : '-' :: (g.operandChars ++ r) = c :: (w ++ s) := by
      rw [<- hrest]
      show _ = (Scalar.negate g).text.toList ++ r
      rw [Scalar.text, Scalar.toList_negatedText]
      rfl
    rw [<- (List.cons.inj hdash).1] at hc
    exact absurd hc (by decide)
  rcases readable_collated he.negate.2 with ⟨hbase, _, _, hchars'⟩
  rw [hchars', List.append_assoc] at hrest
  have hopen : e.collated.1.opening = .number := by
    rw [<- Scalar.ofChars_operand hbase (collationChars_follows _ hr.any), hrest]
    exact Opening.ofChars_digit hc
  rcases number_of_opening hbase (isBare_collated he.negate.2 hunsigned) false hopen with
    ⟨hnumber, c', w', htext, _, hrun'⟩
  cases hcollations : e.collated.2 with
  | nil =>
      have hsame := Scalar.foldl_collated e
      rw [hcollations, List.foldl_nil] at hsame
      rw [hsame, he.negate.1] at hnumber
      cases hnumber
  | cons collation others =>
      rw [hcollations, htext] at hrest
      rcases Text.append_inj_of_stops hrun' hrun
        (collationChars_follows (collation :: others) hr.any).stops hs.stops hrest with ⟨_, hs'⟩
      rw [<- hs', collationChars_cons] at hs
      exact hs.not_mem_of_blank (by decide)

/-!
# Rows of operands
-/

theorem sign_not_collation (op : Arithmetic) (c : Char) (h : c ∈ op.sign.toList) :
    c ∉ afterOperand := by
  have hsigns : op.sign.toList.all (· ∉ afterOperand) = true := by
    cases op <;> rfl
  exact of_decide_eq_true (List.all_eq_true.mp hsigns c h)

theorem sign_append_inj {op op' : Arithmetic} {r s : List Char}
    (h : op.sign.toList ++ r = op'.sign.toList ++ s) : op = op' ∧ r = s := by
  cases op <;> cases op' <;> simp [Arithmetic.sign] at h ⊢ <;> exact h

/-- An operator cannot follow an expression. -/
theorem tail_ne {op : Arithmetic} {e : Scalar} {others : List (Arithmetic × Scalar)}
    {r s : List Char} (hr : Follows afterScalar r) :
    r ≠ Scalar.tailChars ((op, e) :: others) ++ s := by
  intro heq
  rw [heq, Scalar.tailChars_cons] at hr
  cases op <;> exact hr.not_mem_of_blank (by decide)

/-!
# Reading by the length of the text
-/

section Reading

variable {n : Nat} (ih : Unambiguous n)
include ih

theorem unsigned_inj {e f : Scalar} {r s : List Char}
    (hlength : (e.operandChars ++ r).length < n + 1) (he : e.IsReadable) (hf : f.IsReadable)
    (hsign : forall g, e ≠ .negate g) (hsign' : forall g, f ≠ .negate g)
    (hr : Follows afterOperand r) (hs : Follows afterOperand s)
    (h : e.operandChars ++ r = f.operandChars ++ s) : e.plain = f.plain ∧ r = s := by
  rcases readable_collated he with ⟨hbase, hnames, _, hchars⟩
  rcases readable_collated hf with ⟨hbase', hnames', _, hchars'⟩
  rw [hchars, hchars', List.append_assoc, List.append_assoc] at h
  rw [hchars, List.append_assoc] at hlength
  rcases item_inj ih hlength hbase hbase' (isBare_collated he hsign) (isBare_collated hf hsign')
    (collationChars_follows _ hr.any) (collationChars_follows _ hs.any) h with ⟨hitem, hrest⟩
  rcases collations_inj hnames hnames' hr hs hrest with ⟨hcollations, hr'⟩
  refine ⟨Scalar.collated_inj ?_, hr'⟩
  rw [Scalar.collated_plain, Scalar.collated_plain, hitem, hcollations]

/-- An operand in front of a rest that is no collation. -/
theorem operand_inj {e f : Scalar} {r s : List Char}
    (hlength : (e.operandChars ++ r).length < n + 1) (he : e.IsReadable) (hf : f.IsReadable)
    (hr : Follows afterOperand r) (hs : Follows afterOperand s)
    (h : e.operandChars ++ r = f.operandChars ++ s) : e.plain = f.plain ∧ r = s := by
  have hchars : forall g : Scalar, (Scalar.negate g).operandChars = '-' :: g.operandChars := by
    intro g
    show (Scalar.negate g).text.toList = _
    rw [Scalar.text, Scalar.toList_negatedText]
  by_cases hsign : exists g, e = .negate g
  · rcases hsign with ⟨g, rfl⟩
    by_cases hsign' : exists g', f = .negate g'
    · rcases hsign' with ⟨g', rfl⟩
      rw [hchars, hchars] at h
      rw [hchars] at hlength
      rcases ih.operand (length_lt_of_cons hlength) he.negate.2 hf.negate.2 hr hs
        (List.cons.inj h).2 with ⟨hplain, hrest⟩
      exact ⟨by rw [Scalar.plain, Scalar.plain, hplain], hrest⟩
    · rw [hchars] at h
      exact (sign_ne he hf (fun g' hg => hsign' ⟨g', hg⟩) hr hs h).elim
  · by_cases hsign' : exists g', f = .negate g'
    · rcases hsign' with ⟨g', rfl⟩
      rw [hchars] at h
      exact (sign_ne hf he (fun g hg => hsign ⟨g, hg⟩) hs hr h.symm).elim
    · exact unsigned_inj ih hlength he hf (fun g hg => hsign ⟨g, hg⟩)
        (fun g' hg => hsign' ⟨g', hg⟩) hr hs h

theorem tail_inj {others others' : List (Arithmetic × Scalar)} {r s : List Char}
    (hlength : (Scalar.tailChars others ++ r).length < n + 1)
    (hreadable : forall t, t ∈ others -> t.2.IsReadable)
    (hreadable' : forall t, t ∈ others' -> t.2.IsReadable) (hr : Follows afterScalar r)
    (hs : Follows afterScalar s)
    (h : Scalar.tailChars others ++ r = Scalar.tailChars others' ++ s) :
    others.map (fun t => (t.1, t.2.plain)) = others'.map (fun t => (t.1, t.2.plain)) ∧ r = s := by
  induction others generalizing others' with
  | nil =>
      cases others' with
      | nil =>
          exact ⟨rfl, h⟩
      | cons t others' =>
          exact (tail_ne hr h).elim
  | cons t others ihmore =>
      cases others' with
      | nil =>
          exact (tail_ne hs h.symm).elim
      | cons t' others' =>
          rw [List.forall_mem_cons] at hreadable hreadable'
          rcases t with ⟨op, e⟩
          rcases t' with ⟨op', e'⟩
          rw [Scalar.tailChars_cons, Scalar.tailChars_cons] at h
          rw [Scalar.tailChars_cons] at hlength
          simp only [List.cons_append, List.append_assoc, List.cons.injEq, true_and] at h hlength
          rcases sign_append_inj h with ⟨rfl, hoperands⟩
          have hshort := length_lt_of_append (length_lt_of_cons hlength)
          have hmore := length_lt_of_append (show ([' '] ++ _).length < n from hshort)
          rcases operand_inj ih (Nat.lt_succ_of_lt hmore) hreadable.1 hreadable'.1
            (Scalar.tailChars_follows others sign_not_collation hr.operand)
            (Scalar.tailChars_follows others' sign_not_collation hs.operand)
            (List.cons.inj hoperands).2 with ⟨hplain, hrest⟩
          rcases ihmore (Nat.lt_succ_of_lt (length_lt_of_append hmore)) hreadable.2 hreadable'.2
            hrest with ⟨hothers, hr'⟩
          exact ⟨by rw [List.map_cons, List.map_cons, hothers, hplain], hr'⟩

/-- An expression in front of a rest that goes on with none. -/
theorem scalar_inj {e f : Scalar} {r s : List Char}
    (hlength : (e.text.toList ++ r).length < n + 1) (he : e.IsReadable) (hf : f.IsReadable)
    (hr : Follows afterScalar r) (hs : Follows afterScalar s)
    (h : e.text.toList ++ r = f.text.toList ++ s) : e.plain = f.plain ∧ r = s := by
  rcases Scalar.readable_terms he with ⟨hfirst, hothers⟩
  rcases Scalar.readable_terms hf with ⟨hfirst', hothers'⟩
  rw [Scalar.toList_text, Scalar.toList_text, List.append_assoc, List.append_assoc] at h
  rw [Scalar.toList_text, List.append_assoc] at hlength
  rcases operand_inj ih hlength hfirst hfirst'
    (Scalar.tailChars_follows _ sign_not_collation hr.operand)
    (Scalar.tailChars_follows _ sign_not_collation hs.operand) h with ⟨hplain, hrest⟩
  rcases tail_inj ih (length_lt_of_append hlength) hothers hothers' hr hs hrest with
    ⟨hmore, hr'⟩
  refine ⟨Scalar.terms_inj ?_, hr'⟩
  rw [Scalar.terms_plain, Scalar.terms_plain, Scalar.plainTerms, Scalar.plainTerms, hplain, hmore]

end Reading

end Sql
end RecordSql
