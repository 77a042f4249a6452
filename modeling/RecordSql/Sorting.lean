/-!
# Stable sorting

Items of which neither precedes the other keep their order.  A short list is sorted by insertion:
its items are taken one after the other and moved forward past every item that they precede.  A long
list is halved, and the sorted halves are merged.
-/

namespace RecordSql
namespace Sorting

variable {α : Type}

/-- Puts an item into a list that runs backwards, in front of the items it does not precede. -/
def place (precedes : α -> α -> Bool) (a : α) : List α -> List α
  | [] => [a]
  | b :: rest => if precedes a b then b :: place precedes a rest else a :: b :: rest

def insertion (precedes : α -> α -> Bool) (items : List α) : List α :=
  (items.foldl (fun sorted a => place precedes a sorted) []).reverse

/-- The length up to which a list is sorted by insertion. -/
def shortLength : Nat := 20

def stable (precedes : α -> α -> Bool) (items : List α) : List α :=
  if items.length ≤ shortLength then insertion precedes items
  else
    let half := items.length / 2
    List.merge (stable precedes (items.take half)) (stable precedes (items.drop half))
      fun a b => !precedes b a
termination_by items.length
decreasing_by
  all_goals
    simp only [shortLength, List.length_take, List.length_drop] at *
    omega

/-- The first comparison that tells two items apart. -/
def lexicographic : List Ordering -> Ordering
  | [] => .eq
  | o :: rest => if o == .eq then lexicographic rest else o

/-- The order of two items, turned around for a descending key. -/
def directed (descending : Bool) (o : Ordering) : Ordering :=
  if descending then o.swap else o

theorem place_perm (precedes : α -> α -> Bool) (a : α) (items : List α) :
    (place precedes a items).Perm (a :: items) := by
  induction items with
  | nil =>
      exact List.Perm.refl _
  | cons b rest ih =>
      simp only [place]
      split
      · exact (ih.cons b).trans (List.Perm.swap a b rest)
      · exact List.Perm.refl _

theorem insertion_perm (precedes : α -> α -> Bool) (items : List α) :
    (insertion precedes items).Perm items := by
  have folded : forall (rest sorted : List α),
      (rest.foldl (fun sorted a => place precedes a sorted) sorted).Perm (rest ++ sorted) := by
    intro rest
    induction rest with
    | nil =>
        intro sorted
        exact List.Perm.refl _
    | cons a rest ih =>
        intro sorted
        have placed := (place_perm precedes a sorted).append_left rest
        exact (ih (place precedes a sorted)).trans (placed.trans List.perm_middle)
  have all := folded items []
  rw [List.append_nil] at all
  exact (List.reverse_perm _).trans all

theorem stable_perm (precedes : α -> α -> Bool) (items : List α) :
    (stable precedes items).Perm items := by
  fun_induction stable precedes items with
  | case1 items short =>
      exact insertion_perm precedes items
  | case2 items long half ihFront ihBack =>
      have joined := ihFront.append ihBack
      rw [List.take_append_drop] at joined
      exact (List.merge_perm_append _).trans joined

end Sorting
end RecordSql
