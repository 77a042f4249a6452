import RecordSql.Eval.Aggregate
import RecordSql.Proofs.MixedOrder
import RecordSql.Proofs.Outcome

/-!
# Totals of values

What an aggregate makes of a list of values does not depend on their order.  A count is the number
of values that are there, a sum of whole numbers is their sum, and the least and the greatest value
of one kind are the first ones that no other value comes before.
-/

namespace RecordSql

open Std (OrientedCmp TransCmp)

namespace Value

/-!
# Comparing values of one kind
-/

theorem exists_compare {kind : Kind} {a b : Value} (hkind : kind ≠ .float)
    (ha : a.kind? = some kind) (hb : b.kind? = some kind) :
    exists o, a.compare false b = some o := by
  have hsame : a.kind? = b.kind? := ha.trans hb.symm
  cases a with
  | null =>
      cases ha
  | float x =>
      cases ha
      exact absurd rfl hkind
  | _ =>
      cases b <;> simp [kind?] at hsame
      exact ⟨_, rfl⟩

/-- Among values of one kind, the comparison of a query is an order in each direction. -/
theorem compare_orders {kind : Kind} (hkind : kind ≠ .float) (descending : Bool) :
    exists order : Value -> Value -> Ordering, TransCmp order ∧
      forall a b, OfKind kind a -> OfKind kind b -> a ≠ .null -> b ≠ .null ->
        exists o, a.compare false b = some o ∧ order a b = Sorting.directed descending o := by
  rcases compareForSort_orders false hkind with ⟨order, htrans, horder⟩
  refine ⟨fun a b => Sorting.directed descending (order a b),
    Sorting.transCmp_directed descending order, ?_⟩
  intro a b ha hb hthere hthere'
  rcases exists_compare hkind (kind?_of_there ha hthere) (kind?_of_there hb hthere') with ⟨o, ho⟩
  refine ⟨o, ho, ?_⟩
  have hsort := horder a b ha hb
  rw [compareForSort_of_ne hthere hthere', ho, Option.getD_some] at hsort
  rw [hsort]

end Value

namespace Aggregate

open Value (Kind OfKind numberKey)

/-- The total after one more value. -/
def Total.push (t : Total) (v : Value) : Except EvalError Total :=
  t.update [v]

/-- What the aggregate makes of the values of its argument. -/
def ofValues (f : Aggregate) (values : List Value) : Except EvalError Value :=
  (values.foldlM Total.push f.start).map Total.result

/-!
# Counts
-/

/-- How many of the values are there. -/
def present (values : List Value) : Nat :=
  values.countP fun v => !v.isNull

theorem foldlM_count (n : Int) (values : List Value) :
    values.foldlM Total.push (.count n) = .ok (.count (n + present values)) := by
  induction values generalizing n with
  | nil =>
      exact congrArg (fun n => Except.ok (Total.count n)) (Int.add_zero n).symm
  | cons v rest ih =>
      have hupdate : (Total.count n).push v = .ok (.count (if v.isNull then n else n + 1)) :=
        rfl
      rw [List.foldlM_cons, hupdate, Outcome.ok_bind, ih, present, present, List.countP_cons]
      refine congrArg (fun n => Except.ok (Total.count n)) ?_
      cases v.isNull with
      | true =>
          rfl
      | false =>
          simp only [Bool.false_eq_true, if_false, Bool.not_false, if_true]
          omega

theorem ofValues_count (values : List Value) :
    ofValues .count values = .ok (.int (present values)) := by
  change (values.foldlM Total.push (.count 0)).map Total.result = _
  rw [foldlM_count, Int.zero_add]
  rfl

/-!
# Sums of whole numbers
-/

/-- The value is missing, a whole number, or a truth value, which counts as 0 or 1. -/
def IsWhole (v : Value) : Prop :=
  v = .null ∨ exists n, v.numberKey = some n

def wholes (values : List Value) : List Int :=
  values.filterMap numberKey

/-- The sum of whole numbers; of none at all there is no sum. -/
def wholeSum (values : List Value) : Value :=
  if values.all Value.isNull then .null else .int (wholes values).sum

theorem wholes_append (front back : List Value) : wholes (front ++ back) = wholes front ++ wholes back :=
  List.filterMap_append

/-- A sum that leaves the range of words comes back into it in the end. -/
theorem foldlM_sum {values : List Value} (h : forall v, v ∈ values -> IsWhole v) {whole : Int}
    (hfits : Number.fits whole = true) (seen : Bool) :
    values.foldlM Total.push (.sum whole none seen) =
      .ok (.sum (Number.wrap (whole + (wholes values).sum)) none
        (seen || !values.all Value.isNull)) := by
  induction values generalizing whole seen with
  | nil =>
      rw [wholes, List.filterMap_nil, List.sum_nil, Int.add_zero, Number.wrap_of_fits hfits,
        List.all_nil, Bool.not_true, Bool.or_false]
      rfl
  | cons v rest ih =>
      have hrest : forall v, v ∈ rest -> IsWhole v :=
        fun u hu => h u (List.mem_cons_of_mem v hu)
      rw [List.foldlM_cons]
      rcases h v List.mem_cons_self with rfl | ⟨n, hn⟩
      · have hupdate : (Total.sum whole none seen).push .null = .ok (.sum whole none seen) :=
          rfl
        rw [hupdate, Outcome.ok_bind, ih hrest hfits]
        rfl
      · have hupdate : (Total.sum whole none seen).push v =
            .ok (.sum (Number.wrap (whole + n)) none true) := by
          cases v <;> cases hn <;> rfl
        have hthere : v.isNull = false := by
          cases v <;> cases hn <;> rfl
        rw [hupdate, Outcome.ok_bind, ih hrest (Number.fits_wrap _), Number.wrap_wrap_add, wholes,
          wholes, List.filterMap_cons_some hn, List.sum_cons, Int.add_assoc, List.all_cons, hthere,
          Bool.true_or, Bool.false_and, Bool.not_false, Bool.or_true]

theorem ofValues_sum {values : List Value} (h : forall v, v ∈ values -> IsWhole v)
    (hfits : Number.fits (wholes values).sum = true) :
    ofValues .sum values = .ok (wholeSum values) := by
  change (values.foldlM Total.push (.sum 0 none false)).map Total.result = _
  rw [foldlM_sum h (by decide), Int.zero_add, Number.wrap_of_fits hfits, Bool.false_or, wholeSum]
  cases values.all Value.isNull <;> rfl

/-- No partial sum leaves the range of words if the absolute values do not add up to more. -/
theorem fits_partial_sum {values front : List Value} (hfront : front <+: values)
    (h : ((wholes values).map Int.natAbs).sum < 9223372036854775808) :
    Number.fits (wholes front).sum = true := by
  have hbound : forall numbers : List Int,
      numbers.sum.natAbs ≤ (numbers.map Int.natAbs).sum := by
    intro numbers
    induction numbers with
    | nil =>
        exact Nat.le_refl 0
    | cons n numbers ih =>
        rw [List.sum_cons, List.map_cons, List.sum_cons]
        exact Nat.le_trans (Int.natAbs_add_le n numbers.sum) (Nat.add_le_add_left ih _)
  rcases hfront with ⟨back, rfl⟩
  rw [wholes_append, List.map_append, List.sum_append] at h
  have hsum := hbound (wholes front)
  rw [Number.fits_iff, Number.minWord, Number.maxWord]
  omega

theorem wholeSum_perm {values values' : List Value} (h : values.Perm values') :
    wholeSum values = wholeSum values' := by
  rw [wholeSum, wholeSum, h.all_eq, wholes, wholes, (h.filterMap numberKey).sum_eq]

/-!
# Extremes
-/

/-- The outcome of the comparison by which a new value takes the place of the best one so far. -/
def wanted? : Aggregate -> Option Ordering
  | min => some .lt
  | max => some .gt
  | _ => none

/-- The value is one of the list that no other one comes before, in the wanted direction. -/
structure IsExtreme (wanted : Ordering) (values : List Value) (v : Value) : Prop where
  mem : v ∈ values
  there : v ≠ .null
  bound : forall u, u ∈ values -> u ≠ .null ->
    v.compare false u = some wanted ∨ v.compare false u = some .eq

/-- The value is the first extreme of the list, or missing if all values are. -/
def FirstExtreme (wanted : Ordering) (values : List Value) (v : Value) : Prop :=
  ((forall u, u ∈ values -> u = .null) ∧ v = .null) ∨
    exists before after, values = before ++ v :: after ∧ IsExtreme wanted values v ∧
      forall u, u ∈ before -> ¬ IsExtreme wanted values u

section

variable {kind : Kind} {f : Aggregate} {wanted : Ordering} {values values' front : List Value}
  {v v' : Value}

theorem wanted_cases (hf : f.wanted? = some wanted) :
    (wanted = .lt ∨ wanted = .gt) ∧ f.start = .extreme wanted none := by
  cases f <;> cases hf
  · exact ⟨Or.inl rfl, rfl⟩
  · exact ⟨Or.inr rfl, rfl⟩

/-- The wanted direction as an order: what is wanted is less in it. -/
theorem exists_direction (hkind : kind ≠ .float) (hwanted : wanted = .lt ∨ wanted = .gt) :
    exists order : Value -> Value -> Ordering, TransCmp order ∧
      forall a b, OfKind kind a -> OfKind kind b -> a ≠ .null -> b ≠ .null ->
        (a.compare false b = some wanted <-> order a b = .lt) ∧
        (a.compare false b = some .eq <-> order a b = .eq) := by
  rcases Value.compare_orders hkind (wanted == .gt) with ⟨order, htrans, horder⟩
  refine ⟨order, htrans, ?_⟩
  intro a b ha hb hthere hthere'
  rcases horder a b ha hb hthere hthere' with ⟨o, ho, hdirected⟩
  rw [ho, hdirected]
  rcases hwanted with rfl | rfl
  · cases o <;> decide
  · cases o <;> decide

/-- A last value that is wanted before all others is the first extreme. -/
theorem firstExtreme_last (hv : v ≠ .null) (hself : v.compare false v = some .eq)
    (hbefore : forall u, u ∈ front -> u ≠ .null -> v.compare false u = some wanted)
    (hbehind : forall u, u ∈ front -> u ≠ .null ->
      ¬ (u.compare false v = some wanted ∨ u.compare false v = some .eq)) :
    FirstExtreme wanted (front ++ [v]) v := by
  have hmem : v ∈ front ++ [v] := List.mem_append_right front List.mem_cons_self
  refine Or.inr ⟨front, [], rfl, ⟨hmem, hv, ?_⟩, ?_⟩
  · intro u hu hthere
    rcases List.mem_append.mp hu with hfront | hlast
    · exact Or.inl (hbefore u hfront hthere)
    · rw [List.mem_singleton.mp hlast]
      exact Or.inr hself
  · intro u hu hother
    exact hbehind u hu hother.there (hother.bound v hmem hv)

/-- The first extreme stays it if no last value is wanted before it. -/
theorem FirstExtreme.keep {last : Value} (h : FirstExtreme wanted front v)
    (hnull : v = .null -> last = .null)
    (hlast : v ≠ .null -> last ≠ .null ->
      v.compare false last = some wanted ∨ v.compare false last = some .eq) :
    FirstExtreme wanted (front ++ [last]) v := by
  rcases h with ⟨hall, hmissing⟩ | ⟨before, after, hcut, hextreme, hearlier⟩
  · refine Or.inl ⟨?_, hmissing⟩
    intro u hu
    rcases List.mem_append.mp hu with hfront | hu
    · exact hall u hfront
    · rw [List.mem_singleton.mp hu, hnull hmissing]
  · have hcut' : front ++ [last] = before ++ v :: (after ++ [last]) := by
      rw [hcut, List.append_assoc, List.cons_append]
    refine Or.inr ⟨before, after ++ [last], hcut', ?_, ?_⟩
    · refine ⟨List.mem_append_left _ hextreme.mem, hextreme.there, ?_⟩
      intro u hu hthere
      rcases List.mem_append.mp hu with hfront | hu
      · exact hextreme.bound u hfront hthere
      · rw [List.mem_singleton.mp hu] at hthere ⊢
        exact hlast hextreme.there hthere
    · intro u hu hother
      refine hearlier u hu ⟨?_, hother.there, ?_⟩
      · rw [hcut]
        exact List.mem_append_left _ hu
      · intro w hw
        exact hother.bound w (List.mem_append_left _ hw)

/-- A value that is wanted before an extreme is wanted before all values. -/
theorem IsExtreme.wanted_before {b : Value} (hkind : kind ≠ .float)
    (hwanted : wanted = .lt ∨ wanted = .gt) (hof : forall u, u ∈ front -> OfKind kind u)
    (hofv : OfKind kind v) (hv : v ≠ .null) (hb : IsExtreme wanted front b)
    (hbefore : v.compare false b = some wanted) :
    forall u, u ∈ front -> u ≠ .null -> v.compare false u = some wanted ∧
      ¬ (u.compare false v = some wanted ∨ u.compare false v = some .eq) := by
  rcases exists_direction hkind hwanted with ⟨order, htrans, horder⟩
  intro u hu hthere
  have hofu := hof u hu
  have hofb := hof b hb.mem
  have hforth := horder v u hofv hofu hv hthere
  have hback := horder u v hofu hofv hthere hv
  have hbelow : (order b u).isLE = true := by
    have hbu := horder b u hofb hofu hb.there hthere
    rcases hb.bound u hu hthere with hless | hequal
    · rw [hbu.1.mp hless]
      rfl
    · rw [hbu.2.mp hequal]
      rfl
  have hless : order v u = .lt :=
    TransCmp.lt_of_lt_of_isLE ((horder v b hofv hofb hv hb.there).1.mp hbefore) hbelow
  have hgreater : order u v = .gt := OrientedCmp.gt_iff_lt.mpr hless
  rw [hforth.1, hback.1, hback.2, hgreater]
  exact ⟨hless, by decide⟩

/-- What is not wanted before another value has it behind itself, or is as good. -/
theorem wanted_of_not_wanted {b : Value} (hkind : kind ≠ .float)
    (hwanted : wanted = .lt ∨ wanted = .gt) (hofv : OfKind kind v) (hofb : OfKind kind b)
    (hv : v ≠ .null) (hb : b ≠ .null) (hnot : v.compare false b ≠ some wanted) :
    b.compare false v = some wanted ∨ b.compare false v = some .eq := by
  rcases exists_direction hkind hwanted with ⟨order, htrans, horder⟩
  have hback := horder b v hofb hofv hb hv
  rw [hback.1, hback.2]
  cases hcase : order b v with
  | lt =>
      exact Or.inl rfl
  | eq =>
      exact Or.inr rfl
  | gt =>
      exact absurd ((horder v b hofv hofb hv hb).1.mpr (OrientedCmp.lt_of_gt hcase)) hnot

/-- What a total of an extreme has seen: its best value is the first extreme. -/
structure Seen (wanted : Ordering) (front : List Value) (best : Option Value) : Prop where
  first : FirstExtreme wanted front (best.getD .null)
  there : forall b, best = some b -> b ≠ .null

/-- One more value takes the place of the best one so far, or leaves it there. -/
theorem Seen.push {best : Option Value} (h : Seen wanted front best) (hkind : kind ≠ .float)
    (hwanted : wanted = .lt ∨ wanted = .gt)
    (hof : forall u, u ∈ front ++ [v] -> OfKind kind u) :
    exists next, (Total.extreme wanted best).push v = .ok (.extreme wanted next) ∧
      Seen wanted (front ++ [v]) next := by
  by_cases hv : v = .null
  · refine ⟨best, by rw [hv]; rfl, ?_, h.there⟩
    exact h.first.keep (fun _ => hv) fun _ hthere => absurd hv hthere
  · have hnull : v.isNull = false := by
      cases v <;> first | rfl | exact absurd rfl hv
    have hpush : (Total.extreme wanted best).push v =
        .ok (.extreme wanted (if Total.replaces wanted v best then some v else best)) := by
      change (if v.isNull then _ else _) = _
      rw [hnull]
      rfl
    refine ⟨_, hpush, ?_⟩
    have hoffront : forall u, u ∈ front -> OfKind kind u :=
      fun u hu => hof u (List.mem_append_left [v] hu)
    have hofv : OfKind kind v := hof v (List.mem_append_right front List.mem_cons_self)
    have hself : v.compare false v = some .eq := by
      rcases exists_direction hkind hwanted with ⟨order, htrans, horder⟩
      exact (horder v v hofv hofv hv hv).2.mpr Std.ReflCmp.compare_self
    have htaken : FirstExtreme wanted (front ++ [v]) v -> Seen wanted (front ++ [v]) (some v) := by
      intro hfirst
      refine ⟨hfirst, ?_⟩
      intro b hb
      cases hb
      exact hv
    cases best with
    | none =>
        refine htaken ?_
        rcases h.first with ⟨hall, _⟩ | ⟨_, _, _, hextreme, _⟩
        · exact firstExtreme_last hv hself (fun u hu hthere => absurd (hall u hu) hthere)
            fun u hu hthere => absurd (hall u hu) hthere
        · exact absurd rfl hextreme.there
    | some b =>
        have hb := h.there b rfl
        rcases h.first with ⟨_, hmissing⟩ | ⟨_, _, _, hextreme, _⟩
        · exact absurd hmissing hb
        · by_cases hbefore : v.compare false b = some wanted
          · have hall := hextreme.wanted_before hkind hwanted hoffront hofv hv hbefore
            have hreplaced : Total.replaces wanted v (some b) = true := beq_iff_eq.mpr hbefore
            rw [if_pos hreplaced]
            exact htaken (firstExtreme_last hv hself (fun u hu hthere => (hall u hu hthere).1)
              fun u hu hthere => (hall u hu hthere).2)
          · have hkept : ¬ Total.replaces wanted v (some b) = true :=
              fun hreplaced => hbefore (beq_iff_eq.mp hreplaced)
            rw [if_neg hkept]
            refine ⟨h.first.keep (fun hmissing => absurd hmissing hb) ?_, h.there⟩
            intro _ _
            exact wanted_of_not_wanted hkind hwanted hofv (hoffront b hextreme.mem) hv hb hbefore

/-- The total of an extreme has seen the values before it and those that it is given. -/
theorem Seen.foldlM {best : Option Value} (h : Seen wanted front best) (hkind : kind ≠ .float)
    (hwanted : wanted = .lt ∨ wanted = .gt)
    (hof : forall u, u ∈ front ++ values -> OfKind kind u) :
    exists last, values.foldlM Total.push (.extreme wanted best) = .ok (.extreme wanted last) ∧
      Seen wanted (front ++ values) last := by
  induction values generalizing front best with
  | nil =>
      rw [List.append_nil]
      exact ⟨best, rfl, h⟩
  | cons v rest ih =>
      have hsplit : front ++ v :: rest = (front ++ [v]) ++ rest := by
        rw [List.append_assoc]
        rfl
      rw [hsplit] at hof ⊢
      rcases h.push hkind hwanted fun u hu => hof u (List.mem_append_left rest hu) with
        ⟨next, hnext, hseen⟩
      rw [List.foldlM_cons, hnext, Outcome.ok_bind]
      exact ih hseen hof

theorem ofValues_extreme (hkind : kind ≠ .float) (hf : f.wanted? = some wanted)
    (hof : forall u, u ∈ values -> OfKind kind u) :
    exists v, ofValues f values = .ok v ∧ FirstExtreme wanted values v := by
  rcases wanted_cases hf with ⟨hwanted, hstart⟩
  have hempty : Seen wanted [] none := by
    refine ⟨Or.inl ⟨fun u hu => absurd hu List.not_mem_nil, rfl⟩, ?_⟩
    intro b hb
    cases hb
  rcases hempty.foldlM hkind hwanted hof with ⟨last, hlast, hseen⟩
  refine ⟨last.getD .null, ?_, hseen.first⟩
  rw [ofValues, hstart, hlast]
  rfl

/-- First extremes of the same values in two orders compare as equal. -/
theorem compare_firstExtreme (hkind : kind ≠ .float) (hwanted : wanted = .lt ∨ wanted = .gt)
    (hof : forall u, u ∈ values -> OfKind kind u) (h : values.Perm values')
    (hv : FirstExtreme wanted values v) (hv' : FirstExtreme wanted values' v') :
    (v = .null ∧ v' = .null) ∨ v.compare false v' = some .eq := by
  rcases exists_direction hkind hwanted with ⟨order, htrans, horder⟩
  rcases hv with ⟨hnull, hmissing⟩ | ⟨_, _, _, hextreme, _⟩
  · rcases hv' with ⟨_, hmissing'⟩ | ⟨_, _, _, hextreme', _⟩
    · exact Or.inl ⟨hmissing, hmissing'⟩
    · exact absurd (hnull v' (h.mem_iff.mpr hextreme'.mem)) hextreme'.there
  · rcases hv' with ⟨hnull', _⟩ | ⟨_, _, _, hextreme', _⟩
    · exact absurd (hnull' v (h.mem_iff.mp hextreme.mem)) hextreme.there
    · have hmem := h.mem_iff.mpr hextreme'.mem
      have hforth := horder v v' (hof v hextreme.mem) (hof v' hmem) hextreme.there hextreme'.there
      have hback := horder v' v (hof v' hmem) (hof v hextreme.mem) hextreme'.there hextreme.there
      refine Or.inr ?_
      rcases hextreme.bound v' hmem hextreme'.there with hless | hequal
      · have hgreater := OrientedCmp.gt_iff_lt.mpr (hforth.1.mp hless)
        rcases hextreme'.bound v (h.mem_iff.mp hextreme.mem) hextreme.there with h' | h'
        · rw [hback.1.mp h'] at hgreater
          cases hgreater
        · rw [hback.2.mp h'] at hgreater
          cases hgreater
      · exact hequal

end

/--
Of the same values in two orders, COUNT gives the number of those that are there, SUM of whole
numbers their sum, with every partial sum in the range of words, and MIN and MAX of values of one
kind their first extremes, which compare as equal.
-/
theorem results_of_permuted {values values' : List Value} (h : values.Perm values') :
    (ofValues .count values = .ok (.int (present values)) ∧
      ofValues .count values' = .ok (.int (present values))) ∧
    ((forall v, v ∈ values -> IsWhole v) ->
      ((wholes values).map Int.natAbs).sum < 9223372036854775808 ->
      ofValues .sum values = .ok (wholeSum values) ∧
      ofValues .sum values' = .ok (wholeSum values) ∧
      forall front, front <+: values ∨ front <+: values' ->
        Number.fits (wholes front).sum = true) ∧
    (forall kind, kind ≠ .float -> (forall v, v ∈ values -> OfKind kind v) ->
      forall f wanted, f.wanted? = some wanted -> exists v v',
        ofValues f values = .ok v ∧ ofValues f values' = .ok v' ∧
        FirstExtreme wanted values v ∧ FirstExtreme wanted values' v' ∧
        ((v = .null ∧ v' = .null) ∨ v.compare false v' = some .eq)) := by
  refine ⟨⟨ofValues_count values, ?_⟩, ?_, ?_⟩
  · have hpresent : present values = present values' := h.countP_eq _
    rw [hpresent]
    exact ofValues_count values'
  · intro hwhole hsmall
    have hwhole' : forall v, v ∈ values' -> IsWhole v :=
      fun v hv => hwhole v (h.mem_iff.mpr hv)
    have hsmall' : ((wholes values').map Int.natAbs).sum < 9223372036854775808 := by
      have hsame : ((wholes values).map Int.natAbs).sum = ((wholes values').map Int.natAbs).sum :=
        ((h.filterMap numberKey).map Int.natAbs).sum_eq
      rw [<- hsame]
      exact hsmall
    have hfits := fits_partial_sum (List.prefix_refl values) hsmall
    have hfits' := fits_partial_sum (List.prefix_refl values') hsmall'
    refine ⟨ofValues_sum hwhole hfits, ?_, ?_⟩
    · rw [wholeSum_perm h]
      exact ofValues_sum hwhole' hfits'
    · intro front hfront
      rcases hfront with hfront | hfront
      · exact fits_partial_sum hfront hsmall
      · exact fits_partial_sum hfront hsmall'
  · intro kind hkind hof f wanted hf
    have hof' : forall v, v ∈ values' -> OfKind kind v :=
      fun v hv => hof v (h.mem_iff.mpr hv)
    rcases ofValues_extreme hkind hf hof with ⟨v, hv, hfirst⟩
    rcases ofValues_extreme hkind hf hof' with ⟨v', hv', hfirst'⟩
    exact ⟨v, v', hv, hv', hfirst, hfirst',
      compare_firstExtreme hkind (wanted_cases hf).1 hof h hfirst hfirst'⟩

/-- Two spellings of one word, which are the least of the list. -/
def fruits : List Value :=
  [.str "pear", .null, .str "Apple", .str "APPLE"]

/-- The spelling that stands first is shown, and it compares as equal with the other one. -/
theorem results_fruits :
    fruits.Perm fruits.reverse ∧
    ofValues .count fruits.reverse = .ok (.int 3) ∧
    ofValues .min fruits = .ok (.str "Apple") ∧
    ofValues .min fruits.reverse = .ok (.str "APPLE") ∧
    (Value.str "Apple").compare false (.str "APPLE") = some .eq ∧
    [Value.int 3, .null, .bool true].Perm [.null, .bool true, .int 3] ∧
    ofValues .sum [.null, .bool true, .int 3] = .ok (.int 4) := by
  have hfruits : fruits.Perm fruits.reverse := (List.reverse_perm fruits).symm
  have hnumbers : [Value.int 3, .null, .bool true].Perm [.null, .bool true, .int 3] := by
    decide
  have hof : forall v, v ∈ fruits -> OfKind .text v := by
    intro v hv other hother
    simp only [fruits, List.mem_cons, List.not_mem_nil, or_false] at hv
    rcases hv with rfl | rfl | rfl | rfl <;> cases hother <;> rfl
  have hwhole : forall v, v ∈ [Value.int 3, .null, .bool true] -> IsWhole v := by
    intro v hv
    simp only [List.mem_cons, List.not_mem_nil, or_false] at hv
    rcases hv with rfl | rfl | rfl
    · exact Or.inr ⟨3, rfl⟩
    · exact Or.inl rfl
    · exact Or.inr ⟨1, rfl⟩
  have hresults := results_of_permuted hfruits
  have hleast : ofValues .min fruits = .ok (.str "Apple") := by
    rfl
  have hleast' : ofValues .min fruits.reverse = .ok (.str "APPLE") := by
    rfl
  rcases hresults.2.2 .text (by decide) hof .min .lt rfl with ⟨v, v', hv, hv', _, _, hequal⟩
  rw [hleast] at hv
  rw [hleast'] at hv'
  cases hv
  cases hv'
  refine ⟨hfruits, hresults.1.2, hleast, hleast', hequal.resolve_left ?_, hnumbers, ?_⟩
  · intro hmissing
    cases hmissing.1
  · exact ((results_of_permuted hnumbers).2.1 hwhole (by decide)).2.1

end Aggregate
end RecordSql
