import Mathlib.Tactic.Common

/-!
Programs with a state that may stop: what holds when a program returns, and what it may stop
with. A program satisfies `wp m Q E s` if from `s` it returns with `Q` or stops with `E`.
-/

namespace Xv6.Lib.Wp

variable {σ ε α β : Type}

def wp (m : StateT σ (Except ε) α) (Q : α → σ → Prop) (E : ε → Prop) (s : σ) : Prop :=
  match m s with
  | .ok (a, s') => Q a s'
  | .error e => E e

section Rules

variable {m : StateT σ (Except ε) α} {f : α → StateT σ (Except ε) β} {Q Q' : α → σ → Prop}
  {E E' : ε → Prop} {s : σ}

variable {a : α} {s' : σ} {e : ε}

lemma wp_pure (h : Q a s) : wp (pure a) Q E s := h

lemma wp_bind {Q : β → σ → Prop} (h : wp m (fun a s' => wp (f a) Q E s') E s) :
    wp (m >>= f) Q E s := by
  change match (m s >>= fun p => f p.1 p.2) with
    | .ok (a, s') => Q a s'
    | .error e => E e
  unfold wp at h
  rcases hm : m s with e | ⟨a, s'⟩
  · rw [hm] at h
    exact h
  · rw [hm] at h
    exact h

/-- A program that returns goes on with what it returns. -/
lemma run_bind (h : m s = .ok (a, s')) : (m >>= f) s = f a s' := by
  change (m s >>= fun p => f p.1 p.2) = f a s'
  rw [h]
  rfl

lemma run_bind_error (h : m s = .error e) : (m >>= f) s = .error e := by
  change (m s >>= fun p => f p.1 p.2) = .error e
  rw [h]
  rfl

lemma wp_get {Q : σ → σ → Prop} (h : Q s s) : wp (get : StateT σ (Except ε) σ) Q E s := h

lemma wp_set {Q : PUnit → σ → Prop} (h : Q ⟨⟩ s') :
    wp (set s' : StateT σ (Except ε) PUnit) Q E s := h

lemma wp_modify {g : σ → σ} {Q : PUnit → σ → Prop} (h : Q ⟨⟩ (g s)) :
    wp (modify g : StateT σ (Except ε) PUnit) Q E s := h

lemma wp_throw (h : E e) : wp (throw e : StateT σ (Except ε) α) Q E s := h

lemma wp_mono (h : wp m Q E s) (hQ : ∀ a s', Q a s' → Q' a s') (hE : ∀ e, E e → E' e) :
    wp m Q' E' s := by
  unfold wp at h ⊢
  rcases hm : m s with e | ⟨a, s'⟩
  · rw [hm] at h
    exact hE e h
  · rw [hm] at h
    exact hQ a s' h

lemma wp_ite {p : Prop} [Decidable p] {m' : StateT σ (Except ε) α} (h : p → wp m Q E s)
    (h' : ¬ p → wp m' Q E s) : wp (if p then m else m') Q E s := by
  split_ifs with hp
  · exact h hp
  · exact h' hp

lemma wp_and (h : wp m Q E s) (h' : wp m Q' E' s) :
    wp m (fun a s' => Q a s' ∧ Q' a s') (fun e => E e ∧ E' e) s := by
  unfold wp at h h' ⊢
  rcases hm : m s with e | ⟨a, s'⟩
  · rw [hm] at h h'
    exact ⟨h, h'⟩
  · rw [hm] at h h'
    exact ⟨h, h'⟩

lemma wp_any : wp m (fun _ _ => True) (fun _ => True) s := by
  unfold wp
  split
  · trivial
  · trivial

lemma wp_of_ok (hm : m s = .ok (a, s')) (h : Q a s') : wp m Q E s := by
  unfold wp
  rwa [hm]

/-- What a program that returns has left. -/
lemma wp_ok (h : wp m Q E s) (hm : m s = .ok (a, s')) : Q a s' := by
  unfold wp at h
  rwa [hm] at h

lemma wp_error (h : wp m Q E s) (hm : m s = .error e) : E e := by
  unfold wp at h
  rwa [hm] at h

/-- A program that stops with nothing returns. -/
lemma wp_total (h : wp m Q (fun _ => False) s) : ∃ a s', m s = .ok (a, s') ∧ Q a s' := by
  unfold wp at h
  rcases hm : m s with e | ⟨a, s'⟩
  · rw [hm] at h
    exact h.elim
  · rw [hm] at h
    exact ⟨a, s', rfl, h⟩

end Rules

/-! ### Programs without a state -/

section Except

variable {x : Except ε α} {b : β}

lemma bind_ok {f : α → Except ε β} (h : (x >>= f) = .ok b) : ∃ a, x = .ok a ∧ f a = .ok b := by
  cases x with
  | error e => cases h
  | ok a => exact ⟨a, rfl, h⟩

lemma map_ok {f : α → β} (h : x.map f = .ok b) : ∃ a, x = .ok a ∧ f a = b := by
  cases x with
  | error e => cases h
  | ok a => exact ⟨a, rfl, Except.ok.inj h⟩

lemma ok_of_toOption {a : α} (h : x.toOption = some a) : x = .ok a := by
  cases x with
  | error e => cases h
  | ok b => exact congrArg Except.ok (Option.some.inj h)

end Except

end Xv6.Lib.Wp
