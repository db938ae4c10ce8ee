import Mathlib.Logic.Function.Basic
import Mathlib.Tactic.Common

/-!
Who holds a lock: the field that names the holder, against where each thread is in its code.
-/

namespace Xv6.Lib.Lock

variable {P : Type*} {h : Option P} {own : P → Bool} {p q : P}

/-- The holder is the one thread whose place in the code has the lock. -/
def Owner (h : Option P) (own : P → Bool) : Prop := ∀ p, h = some p ↔ own p = true

lemma Owner.unique (ho : Owner h own) (hp : own p = true) (hq : own q = true) : p = q :=
  Option.some.inj (((ho p).mpr hp).symm.trans ((ho q).mpr hq))

lemma Owner.free (ho : Owner none own) (p : P) : own p = false := by
  rw [← Bool.not_eq_true]
  exact fun hp => nomatch (ho p).mpr hp

variable [DecidableEq P] {b : Bool}

lemma Owner.take (ho : Owner h own) (hfree : h = none) (hb : b = true) :
    Owner (some p) (Function.update own p b) := by
  intro q
  have hq := (hfree ▸ ho).free q
  grind [Function.update_apply]

lemma Owner.give (ho : Owner h own) (hp : own p = true) (hb : b = false) :
    Owner none (Function.update own p b) := by
  intro q
  grind [Function.update_apply, ho.unique (p := q) (q := p)]

/-- A thread moves and has the lock as before. -/
lemma Owner.keep (ho : Owner h own) (hb : b = own p) : Owner h (Function.update own p b) := by
  rwa [hb, Function.update_eq_self]

end Xv6.Lib.Lock
