import RecordSql.Sorting

/-!
# Stable sorting

A list is a stable sort of another one when it has the same items, runs in ascending order, and
keeps the order of items that compare as equal.  There is only one such list, so everything about
the sorting of rows can be derived from these three facts.
-/

namespace RecordSql
namespace Sorting

open Std (OrientedCmp TransCmp ReflCmp)

variable {α β : Type}

/-- The items of a list that compare as equal to a given one. -/
def peers (cmp : α -> α -> Ordering) (k : α) (items : List α) : List α :=
  items.filter fun a => cmp k a == .eq

structure StableSort (cmp : α -> α -> Ordering) (items sorted : List α) : Prop where
  perm : sorted.Perm items
  ascending : sorted.Pairwise fun a b => (cmp a b).isLE = true
  keeps : forall k, k ∈ items -> peers cmp k sorted = peers cmp k items

@[simp] theorem peers_nil (cmp : α -> α -> Ordering) (k : α) :
    peers cmp k [] = [] := rfl

theorem peers_cons (cmp : α -> α -> Ordering) (k a : α) (items : List α) :
    peers cmp k (a :: items) =
      if cmp k a = .eq then a :: peers cmp k items else peers cmp k items := by
  simp [peers, List.filter_cons]

@[simp] theorem peers_append (cmp : α -> α -> Ordering) (k : α) (front back : List α) :
    peers cmp k (front ++ back) = peers cmp k front ++ peers cmp k back := by
  simp [peers]

theorem peers_eq_nil {cmp : α -> α -> Ordering} {k : α} {items : List α}
    (h : forall a, a ∈ items -> cmp k a ≠ .eq) : peers cmp k items = [] := by
  rw [peers, List.filter_eq_nil_iff]
  intro a ha heq
  exact h a ha (by simpa using heq)

/-!
# Uniqueness

The first items of two stable sorts are both least, so they compare as equal, and each of them is
the first of its peers.
-/

theorem isLE_of_mem_of_ascending {cmp : α -> α -> Ordering} [TransCmp cmp]
    {a b : α} {rest : List α}
    (hasc : (a :: rest).Pairwise fun x y => (cmp x y).isLE = true)
    (hb : b ∈ a :: rest) : (cmp a b).isLE = true := by
  rcases List.mem_cons.mp hb with rfl | hrest
  · rw [@ReflCmp.compare_self _ cmp _ _]
    rfl
  · exact (List.pairwise_cons.mp hasc).left b hrest

theorem StableSort.unique {cmp : α -> α -> Ordering} [TransCmp cmp]
    {items first second : List α}
    (hfirst : StableSort cmp items first) (hsecond : StableSort cmp items second) :
    first = second := by
  have hkeeps : forall k, k ∈ first -> peers cmp k first = peers cmp k second := by
    intro k hk
    have hk' : k ∈ items := hfirst.perm.mem_iff.mp hk
    rw [hfirst.keeps k hk', hsecond.keeps k hk']
  have hperm : first.Perm second := hfirst.perm.trans hsecond.perm.symm
  have hfirstAsc := hfirst.ascending
  have hsecondAsc := hsecond.ascending
  clear hfirst hsecond
  induction first generalizing second with
  | nil =>
      exact (List.nil_perm.mp hperm).symm
  | cons a rest ih =>
      cases second with
      | nil =>
          exact List.perm_nil.mp hperm
      | cons b others =>
          have hab : (cmp a b).isLE = true :=
            isLE_of_mem_of_ascending hfirstAsc (hperm.mem_iff.mpr List.mem_cons_self)
          have hba : (cmp b a).isLE = true :=
            isLE_of_mem_of_ascending hsecondAsc (hperm.mem_iff.mp List.mem_cons_self)
          have heq : cmp a b = .eq := OrientedCmp.isLE_antisymm hab hba
          have hheads := hkeeps a List.mem_cons_self
          rw [peers_cons, peers_cons, if_pos (@ReflCmp.compare_self _ cmp _ _),
            if_pos heq] at hheads
          injection hheads with hhead _
          subst hhead
          have hrest : rest = others := by
            refine ih ?_ (List.Perm.cons_inv hperm) (List.pairwise_cons.mp hfirstAsc).right
              (List.pairwise_cons.mp hsecondAsc).right
            intro k hk
            have h := hkeeps k (List.mem_cons_of_mem a hk)
            rw [peers_cons, peers_cons] at h
            split at h
            · exact List.tail_eq_of_cons_eq h
            · exact h
          rw [hrest]

/-!
# Derived sorts

Leaving items out, or replacing every item by another one that compares in the same way, turns a
stable sort into a stable sort.  So does sorting a list that was already sorted by a coarser
comparison.
-/

theorem StableSort.filter {cmp : α -> α -> Ordering} {items sorted : List α}
    (h : StableSort cmp items sorted) (p : α -> Bool) :
    StableSort cmp (items.filter p) (sorted.filter p) where
  perm := h.perm.filter p
  ascending := h.ascending.filter p
  keeps := by
    intro k hk
    have hk' : k ∈ items := (List.mem_filter.mp hk).left
    have hpeers := congrArg (List.filter p) (h.keeps k hk')
    simpa [peers, List.filter_filter, Bool.and_comm] using hpeers

theorem StableSort.map {cmp : α -> α -> Ordering} {cmp' : β -> β -> Ordering}
    {items sorted : List α} (h : StableSort cmp items sorted) (f : α -> β)
    (hcmp : forall a b, a ∈ items -> b ∈ items -> cmp' (f a) (f b) = cmp a b) :
    StableSort cmp' (items.map f) (sorted.map f) where
  perm := h.perm.map f
  ascending := by
    rw [List.pairwise_map]
    refine h.ascending.imp_of_mem ?_
    intro a b ha hb hab
    rw [hcmp a b (h.perm.mem_iff.mp ha) (h.perm.mem_iff.mp hb)]
    exact hab
  keeps := by
    intro k hk
    rcases List.mem_map.mp hk with ⟨a, ha, rfl⟩
    have hmap : forall list : List α, (forall b, b ∈ list -> b ∈ items) ->
        peers cmp' (f a) (list.map f) = (peers cmp a list).map f := by
      intro list hlist
      rw [peers, List.filter_map, peers]
      congr 1
      refine List.filter_congr ?_
      intro b hb
      simp [hcmp a b ha (hlist b hb)]
    rw [hmap sorted fun b hb => h.perm.mem_iff.mp hb, hmap items fun b hb => hb, h.keeps a ha]

theorem StableSort.presorted {coarse fine : α -> α -> Ordering} {items middle sorted : List α}
    (hcoarse : StableSort coarse items middle) (hfine : StableSort fine middle sorted)
    (hrefines : forall a b, fine a b = .eq -> coarse a b = .eq) :
    StableSort fine items sorted where
  perm := hfine.perm.trans hcoarse.perm
  ascending := hfine.ascending
  keeps := by
    intro k hk
    rw [hfine.keeps k (hcoarse.perm.mem_iff.mpr hk)]
    have hpeers := congrArg (List.filter fun a => fine k a == .eq) (hcoarse.keeps k hk)
    have hall : forall list : List α,
        (peers coarse k list).filter (fun a => fine k a == .eq) = peers fine k list := by
      intro list
      rw [peers, List.filter_filter, peers]
      refine List.filter_congr ?_
      intro a _
      cases h : fine k a with
      | eq =>
          simp [hrefines k a h]
      | lt =>
          simp
      | gt =>
          simp
    rwa [hall, hall] at hpeers

theorem StableSort.congr {cmp cmp' : α -> α -> Ordering} {items sorted : List α}
    (h : StableSort cmp items sorted)
    (hcmp : forall a b, a ∈ items -> b ∈ items -> cmp' a b = cmp a b) :
    StableSort cmp' items sorted := by
  simpa using h.map id hcmp

/-!
# Insertion

The list under construction runs backwards.  A new item passes over the items that it precedes, and
none of these is one of its peers.
-/

section

variable {cmp : α -> α -> Ordering} [TransCmp cmp]

/-- The test by which a comparison decides whether an item comes before another one. -/
abbrev before (cmp : α -> α -> Ordering) (a b : α) : Bool :=
  cmp a b == .lt

theorem peers_place (k a : α) (items : List α) :
    peers cmp k (place (before cmp) a items) = peers cmp k (a :: items) := by
  induction items with
  | nil =>
      rfl
  | cons b rest ih =>
      simp only [place]
      split
      · rename_i hab
        have hlt : cmp a b = .lt := by simpa using hab
        rw [peers_cons, ih, peers_cons, peers_cons, peers_cons]
        by_cases hka : cmp k a = .eq
        · have hkb : cmp k b = .lt := TransCmp.lt_of_eq_of_lt hka hlt
          simp [hka, hkb]
        · simp [hka]
      · rfl

theorem descending_place {a : α} {items : List α}
    (hdesc : items.Pairwise fun x y => (cmp y x).isLE = true) :
    (place (before cmp) a items).Pairwise fun x y => (cmp y x).isLE = true := by
  induction items with
  | nil =>
      exact List.pairwise_singleton _ a
  | cons b rest ih =>
      rcases List.pairwise_cons.mp hdesc with ⟨hb, hrest⟩
      simp only [place]
      split
      · rename_i hab
        have hlt : cmp a b = .lt := by simpa using hab
        refine List.pairwise_cons.mpr ⟨?_, ih hrest⟩
        intro c hc
        rcases List.mem_cons.mp ((place_perm (before cmp) a rest).mem_iff.mp hc) with rfl | hc'
        · rw [hlt]
          rfl
        · exact hb c hc'
      · rename_i hab
        have hba : (cmp b a).isLE = true := by
          have hnot : cmp a b ≠ .lt := by simpa using hab
          rw [@OrientedCmp.eq_swap _ cmp _ _ _]
          cases h : cmp a b with
          | lt =>
              exact absurd h hnot
          | eq =>
              rfl
          | gt =>
              rfl
        refine List.pairwise_cons.mpr ⟨?_, hdesc⟩
        intro c hc
        rcases List.mem_cons.mp hc with rfl | hc'
        · exact hba
        · exact TransCmp.isLE_trans (hb c hc') hba

theorem descending_foldl_place (items : List α) {placed : List α}
    (hdesc : placed.Pairwise fun x y => (cmp y x).isLE = true) :
    (items.foldl (fun sorted a => place (before cmp) a sorted) placed).Pairwise
      fun x y => (cmp y x).isLE = true := by
  induction items generalizing placed with
  | nil =>
      exact hdesc
  | cons a rest ih =>
      exact ih (descending_place hdesc)

theorem peers_foldl_place (k : α) (items placed : List α) :
    peers cmp k (items.foldl (fun sorted a => place (before cmp) a sorted) placed) =
      (peers cmp k items).reverse ++ peers cmp k placed := by
  induction items generalizing placed with
  | nil =>
      rfl
  | cons a rest ih =>
      rw [List.foldl_cons, ih, peers_place, peers_cons, peers_cons]
      split <;> simp

theorem stableSort_insertion (items : List α) :
    StableSort cmp items (insertion (before cmp) items) where
  perm := insertion_perm (before cmp) items
  ascending := by
    rw [insertion, List.pairwise_reverse]
    exact descending_foldl_place items List.Pairwise.nil
  keeps := by
    intro k _
    have hpeers := @peers_foldl_place _ cmp _ k items []
    rw [peers_nil, List.append_nil] at hpeers
    rw [insertion, peers, List.filter_reverse]
    rw [peers] at hpeers
    rw [hpeers, List.reverse_reverse]

/-!
# Merging

An item of the second list is taken first only if it precedes all that is left of the first list.
-/

/-- The order that a merge follows: the second item does not come before the first one. -/
abbrev notAfter (cmp : α -> α -> Ordering) (a b : α) : Bool :=
  !before cmp b a

theorem notAfter_iff {a b : α} : notAfter cmp a b = true <-> (cmp a b).isLE = true := by
  rw [notAfter, before, @OrientedCmp.eq_swap _ cmp _ b a]
  cases cmp a b <;> simp

theorem notAfter_trans (a b c : α) (hab : notAfter cmp a b = true)
    (hbc : notAfter cmp b c = true) : notAfter cmp a c = true :=
  notAfter_iff.mpr (TransCmp.isLE_trans (notAfter_iff.mp hab) (notAfter_iff.mp hbc))

theorem notAfter_total (a b : α) : (notAfter cmp a b || notAfter cmp b a) = true := by
  rw [Bool.or_eq_true, notAfter_iff, notAfter_iff, @OrientedCmp.eq_swap _ cmp _ b a]
  cases cmp a b <;> simp

theorem peers_merge (k : α) (front back : List α)
    (hfront : front.Pairwise fun a b => (cmp a b).isLE = true) :
    peers cmp k (List.merge front back (notAfter cmp)) =
      peers cmp k front ++ peers cmp k back := by
  induction front generalizing back with
  | nil =>
      simp
  | cons a rest ih =>
      induction back with
      | nil =>
          simp
      | cons b others ihBack =>
          rw [List.cons_merge_cons]
          split
          · rw [peers_cons, ih (b :: others) (List.pairwise_cons.mp hfront).right,
              peers_cons cmp k a rest]
            split <;> rfl
          · rename_i hab
            have hba : cmp b a = .lt := by simpa using hab
            rw [peers_cons, ihBack, peers_cons cmp k b]
            split
            · rename_i hkb
              have hnone : peers cmp k (a :: rest) = [] := by
                refine peers_eq_nil ?_
                intro c hc
                have hlt : cmp b c = .lt :=
                  TransCmp.lt_of_lt_of_isLE hba (isLE_of_mem_of_ascending hfront hc)
                rw [TransCmp.congr_left hkb, hlt]
                decide
              simp [hnone]
            · rfl

theorem stableSort_merge {items front back : List α} {n : Nat}
    (hfront : StableSort cmp (items.take n) front)
    (hback : StableSort cmp (items.drop n) back) :
    StableSort cmp items (List.merge front back (notAfter cmp)) where
  perm := by
    have hjoined := hfront.perm.append hback.perm
    rw [List.take_append_drop] at hjoined
    exact (List.merge_perm_append _).trans hjoined
  ascending := by
    have hmerged := List.pairwise_merge notAfter_trans notAfter_total
      front back (hfront.ascending.imp notAfter_iff.mpr)
      (hback.ascending.imp notAfter_iff.mpr)
    exact hmerged.imp notAfter_iff.mp
  keeps := by
    intro k _
    have hkeeps : forall {part sorted : List α}, StableSort cmp part sorted ->
        peers cmp k sorted = peers cmp k part := by
      intro part sorted h
      by_cases hpeer : exists a, a ∈ part ∧ cmp k a = .eq
      · rcases hpeer with ⟨a, ha, hka⟩
        have hsame : forall list, peers cmp k list = peers cmp a list := by
          intro list
          refine List.filter_congr ?_
          intro b _
          rw [TransCmp.congr_left hka]
        rw [hsame, hsame, h.keeps a ha]
      · have hnone : forall a, a ∈ part -> cmp k a ≠ .eq := by
          intro a ha hka
          exact hpeer ⟨a, ha, hka⟩
        rw [peers_eq_nil hnone,
          peers_eq_nil fun a ha => hnone a (h.perm.mem_iff.mp ha)]
    rw [peers_merge k front back hfront.ascending, hkeeps hfront, hkeeps hback,
      <- peers_append, List.take_append_drop]

/-!
# The sorts

The sort of the library and the one of the standard library are both stable, hence the same.
-/

theorem stableSort_stable (items : List α) :
    StableSort cmp items (stable (before cmp) items) := by
  fun_induction stable (before cmp) items with
  | case1 items _ =>
      exact stableSort_insertion items
  | case2 items _ half ihFront ihBack =>
      exact stableSort_merge ihFront ihBack

theorem stableSort_mergeSort (items : List α) :
    StableSort cmp items (items.mergeSort (notAfter cmp)) where
  perm := List.mergeSort_perm items (notAfter cmp)
  ascending := by
    have hsorted : (items.mergeSort (notAfter cmp)).Pairwise fun a b => notAfter cmp a b = true :=
      List.pairwise_mergeSort notAfter_trans notAfter_total items
    exact hsorted.imp notAfter_iff.mp
  keeps := by
    intro k _
    have hties : (peers cmp k items).Pairwise fun a b => notAfter cmp a b = true := by
      refine List.pairwise_of_forall_mem_list ?_
      intro a ha b hb
      have hka : cmp k a = .eq := by simpa [peers] using (List.mem_filter.mp ha).right
      have hkb : cmp k b = .eq := by simpa [peers] using (List.mem_filter.mp hb).right
      rw [notAfter_iff, <- TransCmp.congr_left hka, hkb]
      rfl
    have hsublist : (peers cmp k items).Sublist (items.mergeSort (notAfter cmp)) :=
      List.sublist_mergeSort notAfter_trans notAfter_total hties List.filter_sublist
    have hpeers : (peers cmp k items).Sublist (peers cmp k (items.mergeSort (notAfter cmp))) := by
      have h := hsublist.filter fun a => cmp k a == .eq
      simpa [peers, List.filter_filter] using h
    have hlength : (peers cmp k (items.mergeSort (notAfter cmp))).length =
        (peers cmp k items).length :=
      ((List.mergeSort_perm items (notAfter cmp)).filter _).length_eq
    exact (hpeers.eq_of_length hlength.symm).symm

end

/-!
# Images

Sorting the images of items is the same as sorting the items, if they compare as their images do.
-/

theorem place_map {p : α -> α -> Bool} {q : β -> β -> Bool} {f : α -> β} {a : α} {items : List α}
    (h : forall b, b ∈ items -> q (f a) (f b) = p a b) :
    place q (f a) (items.map f) = (place p a items).map f := by
  induction items with
  | nil =>
      rfl
  | cons b rest ih =>
      rw [List.map_cons, place, place, h b List.mem_cons_self,
        ih fun c hc => h c (List.mem_cons_of_mem b hc)]
      split <;> rfl

theorem foldl_place_map {p : α -> α -> Bool} {q : β -> β -> Bool} {f : α -> β}
    {items placed : List α}
    (h : forall a b, a ∈ items -> b ∈ items ++ placed -> q (f a) (f b) = p a b) :
    (items.map f).foldl (fun sorted a => place q a sorted) (placed.map f) =
      (items.foldl (fun sorted a => place p a sorted) placed).map f := by
  induction items generalizing placed with
  | nil =>
      rfl
  | cons a rest ih =>
      have hplace : place q (f a) (placed.map f) = (place p a placed).map f := by
        refine place_map ?_
        intro b hb
        exact h a b List.mem_cons_self (by simp [hb])
      rw [List.map_cons, List.foldl_cons, List.foldl_cons, hplace]
      refine ih ?_
      intro b c hb hc
      refine h b c (List.mem_cons_of_mem a hb) ?_
      rcases List.mem_append.mp hc with hc' | hc'
      · simp [hc']
      · rcases List.mem_cons.mp ((place_perm p a placed).mem_iff.mp hc') with rfl | hc''
        · simp
        · simp [hc'']

theorem stable_map {p : α -> α -> Bool} {q : β -> β -> Bool} {f : α -> β} {items : List α}
    (h : forall a b, a ∈ items -> b ∈ items -> q (f a) (f b) = p a b) :
    stable q (items.map f) = (stable p items).map f := by
  fun_induction stable p items with
  | case1 items hshort =>
      have hmap := @foldl_place_map _ _ p q f items [] fun a b ha hb => h a b ha (by simpa using hb)
      rw [List.map_nil] at hmap
      rw [stable, if_pos (by rw [List.length_map]; exact hshort), insertion, insertion, hmap,
        List.map_reverse]
  | case2 items hlong half ihFront ihBack =>
      have hfront := ihFront fun a b ha hb =>
        h a b (List.mem_of_mem_take ha) (List.mem_of_mem_take hb)
      have hback := ihBack fun a b ha hb =>
        h a b (List.mem_of_mem_drop ha) (List.mem_of_mem_drop hb)
      rw [stable.eq_1 q, if_neg (by rw [List.length_map]; exact hlong), List.length_map]
      change List.merge (stable q ((items.map f).take half)) (stable q ((items.map f).drop half)) _ =
        _
      rw [<- List.map_take, <- List.map_drop, hfront, hback]
      refine (List.map_merge ?_).symm
      intro a ha b hb
      have ha' : a ∈ items := List.mem_of_mem_take ((stable_perm p _).mem_iff.mp ha)
      have hb' : b ∈ items := List.mem_of_mem_drop ((stable_perm p _).mem_iff.mp hb)
      rw [h b a hb' ha']

theorem stable_congr {p q : α -> α -> Bool} {items : List α}
    (h : forall a b, a ∈ items -> b ∈ items -> p a b = q a b) :
    stable p items = stable q items := by
  have hmap := @stable_map _ _ q p id items h
  rwa [List.map_id, List.map_id] at hmap

/-!
# Partial orders of comparison

A comparison need only be an order on the items of the list.
-/

/-- The comparison is an order when it is applied to items of the list. -/
def OrdersAmong (cmp : α -> α -> Ordering) (items : List α) : Prop :=
  exists order : α -> α -> Ordering, TransCmp order ∧
    forall a b, a ∈ items -> b ∈ items -> cmp a b = order a b

theorem stableSort_of_ordersAmong {cmp : α -> α -> Ordering} {items : List α}
    (h : OrdersAmong cmp items) : StableSort cmp items (stable (before cmp) items) := by
  rcases h with ⟨order, htrans, hcmp⟩
  rw [stable_congr (q := before order) fun a b ha hb => by rw [before, hcmp a b ha hb]]
  exact (stableSort_stable items).congr hcmp

/-!
# Orders with several keys
-/

theorem transCmp_directed (descending : Bool) (cmp : α -> α -> Ordering) [TransCmp cmp] :
    TransCmp fun a b => directed descending (cmp a b) := by
  cases descending with
  | false =>
      exact inferInstanceAs (TransCmp cmp)
  | true =>
      have hswap : (fun a b => directed true (cmp a b)) = fun a b => cmp b a := by
        funext a b
        exact OrientedCmp.eq_swap.symm
      rw [hswap]
      exact TransCmp.opposite

theorem transCmp_on (cmp : β -> β -> Ordering) [TransCmp cmp] (f : α -> β) :
    TransCmp fun a b => cmp (f a) (f b) where
  eq_swap := OrientedCmp.eq_swap
  isLE_trans := TransCmp.isLE_trans

theorem lexicographic_cons (o : Ordering) (rest : List Ordering) :
    lexicographic (o :: rest) = o.then (lexicographic rest) := by
  cases o <;> rfl

theorem OrdersAmong.nil (items : List α) : OrdersAmong (fun _ _ => .eq) items :=
  ⟨compareOn fun _ => 0, inferInstance, fun _ _ _ _ => rfl⟩

/-- An order with a further key in front is an order. -/
theorem OrdersAmong.cons {cmp cmp' : α -> α -> Ordering} {items : List α}
    (h : OrdersAmong cmp items) (h' : OrdersAmong cmp' items) (descending : Bool) :
    OrdersAmong (fun a b => (directed descending (cmp a b)).then (cmp' a b)) items := by
  rcases h with ⟨order, htrans, hcmp⟩
  rcases h' with ⟨order', htrans', hcmp'⟩
  have hdirected := transCmp_directed descending order
  refine ⟨compareLex (fun a b => directed descending (order a b)) order', inferInstance, ?_⟩
  intro a b ha hb
  change (directed descending (cmp a b)).then (cmp' a b) = _
  rw [hcmp a b ha hb, hcmp' a b ha hb]
  rfl

end Sorting
end RecordSql
