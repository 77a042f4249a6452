import Mathlib.Data.List.Forall2
import Mathlib.Data.List.Perm.Basic

/-!
# Outcomes

A computation made of two succeeds exactly when both of them do.  Two computations agree if both of
them fail, or both succeed with related results; which failure it is does not matter.
-/

namespace RecordSql
namespace Outcome

variable {ε α β : Type}

@[simp]
theorem ok_bind (a : α) (f : α -> Except ε β) : (Except.ok a >>= f) = f a :=
  rfl

@[simp]
theorem error_bind (e : ε) (f : α -> Except ε β) : (Except.error e >>= f) = .error e :=
  rfl

@[simp]
theorem pure_eq (a : α) : (pure a : Except ε α) = .ok a :=
  rfl

theorem map_bind {γ : Type} (x : Except ε α) (f : α -> Except ε β) (g : β -> γ) :
    (x >>= f).map g = x >>= fun a => (f a).map g := by
  cases x <;> rfl

theorem bind_eq_ok {x : Except ε α} {f : α -> Except ε β} {b : β} :
    (x >>= f) = .ok b <-> exists a, x = .ok a ∧ f a = .ok b := by
  constructor
  · intro h
    cases x with
    | error e =>
        cases h
    | ok a =>
        exact ⟨a, rfl, h⟩
  · rintro ⟨a, rfl, h⟩
    exact h

/-- A list is computed item by item. -/
theorem mapM_eq_ok {f : α -> Except ε β} {l : List α} {m : List β} :
    l.mapM f = .ok m <-> List.Forall₂ (fun a b => f a = .ok b) l m := by
  constructor
  · intro h
    induction l generalizing m with
    | nil =>
        cases h
        exact .nil
    | cons a rest ih =>
        simp only [List.mapM_cons, bind_eq_ok] at h
        rcases h with ⟨b, hb, bs, hbs, h⟩
        cases h
        exact .cons hb (ih hbs)
  · intro h
    induction h with
    | nil =>
        rfl
    | cons hfirst _ ih =>
        rw [List.mapM_cons, hfirst, ok_bind, ih]
        rfl

theorem exists_of_forall₂ {r : α -> β -> Prop} {l : List α} {m : List β} (h : List.Forall₂ r l m)
    {b : β} (hb : b ∈ m) : exists a, a ∈ l ∧ r a b := by
  induction h with
  | nil =>
      cases hb
  | cons hfirst _ ih =>
      rcases List.mem_cons.mp hb with rfl | hb
      · exact ⟨_, List.mem_cons_self, hfirst⟩
      · rcases ih hb with ⟨a, ha, hr⟩
        exact ⟨a, List.mem_cons_of_mem _ ha, hr⟩

theorem forall₂_and_mem {α β : Type} {r : α -> β -> Prop} {l : List α} {m : List β}
    (h : List.Forall₂ r l m) : List.Forall₂ (fun a b => r a b ∧ b ∈ m) l m := by
  induction h with
  | nil =>
      exact .nil
  | cons hfirst _ ih =>
      refine .cons ⟨hfirst, List.mem_cons_self⟩ (ih.imp ?_)
      exact fun _ _ hrest => ⟨hrest.1, List.mem_cons_of_mem _ hrest.2⟩

/-- What is computed of all items can be computed of some of them. -/
theorem mapM_subset {f : α -> Except ε β} {l l' : List α} {m : List β} (hsubset : l' ⊆ l)
    (h : l.mapM f = .ok m) : exists m', l'.mapM f = .ok m' ∧ m' ⊆ m := by
  have hitem : forall a, a ∈ l -> exists b, b ∈ m ∧ f a = .ok b := by
    intro a ha
    exact exists_of_forall₂ (List.Forall₂.flip (mapM_eq_ok.mp h)) ha
  induction l' with
  | nil =>
      exact ⟨[], rfl, List.nil_subset m⟩
  | cons a rest ih =>
      rcases hitem a (hsubset List.mem_cons_self) with ⟨b, hb, hab⟩
      rcases ih fun a ha => hsubset (List.mem_cons_of_mem _ ha) with ⟨bs, hbs, hrest⟩
      refine ⟨b :: bs, ?_, List.cons_subset.mpr ⟨hb, hrest⟩⟩
      rw [List.mapM_cons, hab, ok_bind, hbs]
      rfl

/-!
# Computations with a state
-/

variable {σ : Type}

theorem run_bind_eq_ok {x : EStateM ε σ α} {f : α -> EStateM ε σ β} {w w' : σ} {b : β} :
    (x >>= f).run w = .ok b w' <->
      exists a w1, x.run w = .ok a w1 ∧ (f a).run w1 = .ok b w' := by
  change EStateM.bind x f w = _ <-> exists a w1, x w = _ ∧ f a w1 = _
  unfold EStateM.bind
  constructor
  · intro h
    cases hx : x w with
    | error e w1 =>
        rw [hx] at h
        cases h
    | ok a w1 =>
        rw [hx] at h
        exact ⟨a, w1, rfl, h⟩
  · rintro ⟨a, w1, hx, h⟩
    rw [hx]
    exact h

theorem bind_apply_of_ok {x : EStateM ε σ α} {f : α -> EStateM ε σ β} {w w' : σ} {a : α}
    (h : x w = .ok a w') : (x >>= f) w = f a w' := by
  change EStateM.bind x f w = _
  rw [EStateM.bind, h]

theorem bind_apply_of_error {x : EStateM ε σ α} {f : α -> EStateM ε σ β} {w w' : σ} {e : ε}
    (h : x w = .error e w') : (x >>= f) w = .error e w' := by
  change EStateM.bind x f w = _
  rw [EStateM.bind, h]

theorem run_liftExcept_eq_ok {x : Except ε α} {w w' : σ} {a : α} :
    (liftExcept x : EStateM ε σ α).run w = .ok a w' <-> x = .ok a ∧ w' = w := by
  cases x with
  | error e =>
      constructor
      · intro h
        cases h
      · rintro ⟨h, _⟩
        cases h
  | ok b =>
      constructor
      · intro h
        cases h
        exact ⟨rfl, rfl⟩
      · rintro ⟨h, rfl⟩
        cases h
        rfl

/-!
# Agreement
-/

variable {ε' ε'' γ δ : Type}

def Agree (r : α -> β -> Prop) : Except ε α -> Except ε' β -> Prop
  | .ok a, .ok b => r a b
  | .error _, .error _ => True
  | _, _ => False

variable {r : α -> β -> Prop} {x : Except ε α} {y : Except ε' β}

theorem Agree.mono {s : α -> β -> Prop} (h : Agree r x y) (hrs : forall a b, r a b -> s a b) :
    Agree s x y := by
  cases x with
  | error e =>
      cases y with
      | error e' => trivial
      | ok b => exact h
  | ok a =>
      cases y with
      | error e' => exact h
      | ok b => exact hrs a b h

theorem Agree.bind {s : γ -> δ -> Prop} {f : α -> Except ε γ} {g : β -> Except ε' δ}
    (h : Agree r x y) (hfg : forall a b, r a b -> Agree s (f a) (g b)) :
    Agree s (x >>= f) (y >>= g) := by
  cases x with
  | error e =>
      cases y with
      | error e' => trivial
      | ok b => exact absurd h id
  | ok a =>
      cases y with
      | error e' => exact absurd h id
      | ok b => exact hfg a b h

/-- What cannot fail may follow one side. -/
theorem Agree.map_left {s : γ -> β -> Prop} {f : α -> γ} (h : Agree r x y)
    (hf : forall a b, r a b -> s (f a) b) : Agree s (x >>= fun a => .ok (f a)) y := by
  cases x with
  | error e =>
      cases y with
      | error e' => trivial
      | ok b => exact h
  | ok a =>
      cases y with
      | error e' => exact h
      | ok b => exact hf a b h

/-- If one side fails, so does the other. -/
theorem Agree.error_right {e : ε} (h : Agree r (.error e) y) : exists e', y = .error e' := by
  cases y with
  | error e' =>
      exact ⟨e', rfl⟩
  | ok b =>
      cases h

theorem Agree.ok_right {a : α} (h : Agree r (.ok a : Except ε α) y) :
    exists b, y = .ok b ∧ r a b := by
  cases y with
  | error e' =>
      cases h
  | ok b =>
      exact ⟨b, rfl, h⟩

theorem Agree.symm (h : Agree r x y) : Agree (fun b a => r a b) y x := by
  cases x <;> cases y <;> exact h

theorem Agree.trans {s : β -> γ -> Prop} {z : Except ε'' γ} (h : Agree r x y) (h' : Agree s y z) :
    Agree (fun a c => exists b, r a b ∧ s b c) x z := by
  cases x with
  | error e =>
      cases y with
      | error e' => cases z <;> exact h'
      | ok b => exact absurd h id
  | ok a =>
      cases y with
      | error e' => exact absurd h id
      | ok b =>
          cases z with
          | error e'' => exact h'
          | ok c => exact ⟨b, h, h'⟩

theorem agree_refl (x : Except ε α) : Agree Eq x x := by
  cases x with
  | error e => trivial
  | ok a => rfl

/-!
# Agreement on lists
-/

theorem agree_mapM {f : α -> Except ε γ} {g : β -> Except ε' δ} {s : γ -> δ -> Prop} {l : List α}
    {m : List β} (h : List.Forall₂ (fun a b => Agree s (f a) (g b)) l m) :
    Agree (List.Forall₂ s) (l.mapM f) (m.mapM g) := by
  induction h with
  | nil =>
      exact .nil
  | cons hfirst _ ih =>
      rw [List.mapM_cons, List.mapM_cons]
      refine hfirst.bind ?_
      intro c d hcd
      refine ih.bind ?_
      intro cs ds hrest
      exact .cons hcd hrest

theorem agree_mapM_perm {f : α -> Except ε γ} {l m : List α} (h : l.Perm m) :
    Agree List.Perm (l.mapM f) (m.mapM f) := by
  induction h with
  | nil =>
      exact .nil
  | cons a _ ih =>
      rw [List.mapM_cons, List.mapM_cons]
      refine (agree_refl (f a)).bind ?_
      rintro c _ rfl
      refine ih.bind ?_
      intro cs ds hrest
      exact hrest.cons c
  | swap a b l =>
      simp only [List.mapM_cons]
      cases f a <;> cases f b <;> cases l.mapM f <;> first | trivial | exact List.Perm.swap _ _ _
  | trans _ _ ih ih' =>
      refine (ih.trans ih').mono ?_
      rintro cs es ⟨ds, hcd, hde⟩
      exact hcd.trans hde

/-- Items in any order, if the computation depends on their views only. -/
theorem agree_mapM_views {f : α -> Except ε β} {view : α -> γ} {shown : β -> δ}
    (hf : forall a b, view a = view b -> Agree (fun c d => shown c = shown d) (f a) (f b))
    {l m : List α} (h : (l.map view).Perm (m.map view)) :
    Agree (fun c d => (c.map shown).Perm (d.map shown)) (l.mapM f) (m.mapM f) := by
  have hmiddle : exists middle : List α, l.map view = middle.map view ∧ middle.Perm m := by
    have hcomp := congrFun (congrFun (List.eq_map_comp_perm view) (l.map view)) m
    exact hcomp.mpr h
  rcases hmiddle with ⟨middle, hviews, hperm⟩
  have hsame : List.Forall₂ (fun a b => view a = view b) l middle := by
    rw [<- List.forall₂_eq_eq_eq, List.forall₂_map_left_iff, List.forall₂_map_right_iff] at hviews
    exact hviews
  have hfirst := agree_mapM (hsame.imp hf)
  refine (hfirst.trans (agree_mapM_perm hperm)).mono ?_
  rintro cs ds ⟨es, hes, hds⟩
  have hmap : cs.map shown = es.map shown := by
    rw [<- List.forall₂_eq_eq_eq, List.forall₂_map_left_iff, List.forall₂_map_right_iff]
    exact hes
  rw [hmap]
  exact hds.map shown

end Outcome
end RecordSql
