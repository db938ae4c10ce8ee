import Mathlib.Algebra.Order.BigOperators.Group.Finset
import Xv6.Lib.Lock
import Xv6.Lib.Run

/-!
Shared objects with a reference count and a lock each, against what their users are doing: a user
refers to at most one object, with or without its lock.
-/

namespace Xv6.Lib.Refs

open Xv6.Lib.Lock Xv6.Lib.Run
open Function (update update_of_ne update_self update_eq_self apply_update)

variable {U B : Type*} [DecidableEq B]

/-- The object a user refers to, and whether it has the lock. -/
abbrev Place (B : Type*) := Option (B × Bool)

/-- The user refers to the object. -/
def Place.at (x : Place B) (b : B) : Bool := decide (x.map Prod.fst = some b)

/-- The user has the lock of the object. -/
def Place.owns (b : B) (x : Place B) : Bool := decide (x = some (b, true))

/-- The counts are those of the users, and a lock is held by the user whose place has it. -/
structure Users [Fintype U] (ref : B → ℕ) (lock : B → Option U) (place : U → Place B) : Prop where
  refs : ∀ b, (ref b : ℤ) = ∑ u, if (place u).at b then 1 else 0
  owner : ∀ b, Owner (lock b) fun u => (place u).owns b

variable [Fintype U] {ref : B → ℕ} {lock : B → Option U} {place : U → Place B} {u v : U} {b : B} {x : Bool}

/-- An object somebody refers to has a positive count. -/
lemma Users.pos (h : Users ref lock place) (hu : place u = some (b, x)) : 0 < ref b := by
  have hle := Finset.single_le_sum (fun v _ => by split_ifs <;> decide) (Finset.mem_univ u)
    (f := fun u => if (place u).at b then (1 : ℤ) else 0)
  have hat : (place u).at b = true := by simp [Place.at, hu]
  rw [if_pos hat, ← h.refs b] at hle
  exact Int.natCast_pos.mp (lt_of_lt_of_le Int.one_pos hle)

/-- Nobody refers to an object whose count is zero. -/
lemma Users.absent (h : Users ref lock place) (hb : ref b = 0) : place u ≠ some (b, x) :=
  fun hu => absurd hb (h.pos hu).ne'

/-- Somebody refers to an object whose count is not zero. -/
lemma Users.present (h : Users ref lock place) (hb : ref b ≠ 0) : ∃ u x, place u = some (b, x) := by
  by_contra! hno
  have hsum : ∑ u, (if (place u).at b then (1 : ℤ) else 0) = 0 := by
    refine Finset.sum_eq_zero fun u _ => if_neg ?_
    rw [Place.at, decide_eq_true_iff, Option.map_eq_some_iff]
    rintro ⟨⟨b', x⟩, hu, rfl⟩
    exact hno u x hu
  exact hb (Int.natCast_eq_zero.mp ((h.refs b).trans hsum))

lemma Users.unique (h : Users ref lock place) (hu : place u = some (b, true))
    (hv : place v = some (b, true)) : u = v :=
  (h.owner b).unique (decide_eq_true hu) (decide_eq_true hv)

variable [DecidableEq U]

lemma sum_place (place : U → Place B) (u : U) (y : Place B) (b : B) :
    (∑ v, if (update place u y v).at b then (1 : ℤ) else 0) =
      (∑ v, if (place v).at b then 1 else 0) - (if (place u).at b then 1 else 0) +
        if y.at b then 1 else 0 :=
  sum_update (fun x : Place B => if x.at b then (1 : ℤ) else 0) place u y

omit [Fintype U] in
lemma owns_update (place : U → Place B) (u : U) (y : Place B) (b : B) :
    (fun v => (update place u y v).owns b) = update (fun v => (place v).owns b) u (y.owns b) :=
  funext fun v => apply_update (fun _ x => Place.owns b x) place u y v

/-- One user moves, and one object changes with it. -/
lemma Users.set {y : Place B} {n : ℕ} {o : Option U} (h : Users ref lock place)
    (hother : ∀ b', b' ≠ b → y.at b' = (place u).at b' ∧ y.owns b' = (place u).owns b')
    (href : (n : ℤ) = ref b - (if (place u).at b then 1 else 0) + if y.at b then 1 else 0)
    (howner : Owner o (update (fun v => (place v).owns b) u (y.owns b))) :
    Users (update ref b n) (update lock b o) (update place u y) := by
  refine ⟨fun b' => ?_, fun b' => ?_⟩ <;> by_cases hb : b' = b
  · subst hb
    rw [sum_place, update_self, href, h.refs]
  · rw [sum_place, update_of_ne hb, (hother b' hb).1, h.refs, Int.sub_add_cancel]
  · subst hb
    rw [owns_update, update_self]
    exact howner
  · rw [owns_update, update_of_ne hb, (hother b' hb).2, update_eq_self]
    exact h.owner b'

lemma at_some {b b' : B} : Place.at (some (b, x)) b' = decide (b = b') := by simp [Place.at]

lemma at_none {b' : B} : Place.at (none : Place B) b' = false := rfl

lemma owns_some {b b' : B} : Place.owns b' (some (b, x)) = (decide (b = b') && x) := by
  simp [Place.owns, Bool.decide_and]

lemma owns_none {b' : B} : Place.owns b' (none : Place B) = false := rfl

/-- A new reference. -/
lemma Users.enter (h : Users ref lock place) (hu : place u = none) (b : B) :
    Users (update ref b (ref b + 1)) lock (update place u (some (b, false))) := by
  rw [← update_eq_self b lock]
  refine h.set (fun b' hb => ?_) ?_ ((h.owner b).keep ?_)
  · simp [hu, at_some, at_none, owns_some, owns_none, Ne.symm hb]
  · simp [hu, at_some, at_none]
  · simp [hu, owns_some, owns_none]

/-- The lock is free, and a user takes it. -/
lemma Users.take (h : Users ref lock place) (hu : place u = some (b, false)) (hl : lock b = none) :
    Users ref (update lock b (some u)) (update place u (some (b, true))) := by
  rw [← update_eq_self b ref]
  refine h.set (fun b' hb => ?_) ?_ ((h.owner b).take hl ?_)
  · simp [hu, at_some, owns_some, Ne.symm hb]
  · simp [hu, at_some]
  · simp [owns_some]

lemma Users.give (h : Users ref lock place) (hu : place u = some (b, true)) :
    Users ref (update lock b none) (update place u (some (b, false))) := by
  rw [← update_eq_self b ref]
  refine h.set (fun b' hb => ?_) ?_ ((h.owner b).give (by simp [hu, owns_some]) ?_)
  · simp [hu, at_some, owns_some, Ne.symm hb]
  · simp [hu, at_some]
  · simp [owns_some]

/-- A reference is dropped. -/
lemma Users.leave (h : Users ref lock place) (hu : place u = some (b, false)) :
    Users (update ref b (ref b - 1)) lock (update place u none) := by
  rw [← update_eq_self b lock]
  refine h.set (fun b' hb => ?_) ?_ ((h.owner b).keep ?_)
  · simp [hu, at_some, at_none, owns_some, owns_none, Ne.symm hb]
  · have := h.pos hu
    simp only [hu, at_some, at_none, decide_true, if_true, Bool.false_eq_true, if_false]
    omega
  · simp [hu, owns_some, owns_none]

/-! ### Records -/

section Records

variable {X C : Type*} {r : X → ℕ} {l : X → Option U} {q : C → Place B} {f f' : B → X} {g g' : U → C} {y : X} {c : C}

/-- The count and the lock are fields of the objects, and where a user is says its place: one of
each changes. -/
lemma Users.update (hf : f' = update f b y) (hg : g' = update g u c)
    (h : Users (update (fun b => r (f b)) b (r y)) (update (fun b => l (f b)) b (l y))
      (update (fun u => q (g u)) u (q c))) : Users (fun b => r (f' b))
        (fun b => l (f' b)) fun u => q (g' u) := by
  rw [hf, hg]
  have hr := apply_update (fun _ x => r x) f b y
  have hl := apply_update (fun _ x => l x) f b y
  have hq := apply_update (fun _ x => q x) g u c
  simpa only [hr, hl, hq] using h

/-- They change in other respects. -/
lemma Users.stay (h : Users (fun b => r (f b)) (fun b => l (f b)) fun u => q (g u))
    (hf : f' = Function.update f b y) (hg : g' = Function.update g u c) (hr : r y = r (f b))
    (hl : l y = l (f b)) (hq : q c = q (g u)) :
    Users (fun b => r (f' b)) (fun b => l (f' b)) fun u => q (g' u) := by
  refine .update hf hg ?_
  rw [hr, hl, hq, update_eq_self, update_eq_self, update_eq_self]
  exact h

omit [DecidableEq U] [Fintype U] in
/-- A field that stays the same at one object does so at all. -/
lemma field_update {K : Type*} {k : X → K} (hk : k y = k (f b)) (b' : B) :
    k (update f b y b') = k (f b') := by
  by_cases he : b' = b
  · subst he
    rw [update_self, hk]
  · rw [update_of_ne he]

end Records

end Xv6.Lib.Refs
