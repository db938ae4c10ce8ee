import Mathlib.Algebra.Order.BigOperators.Group.Finset
import Xv6.Lib.Own
import Xv6.Lib.Run

/-!
Threads that run programs over one pool of resources, interleaved step by step. A thread that is
done with a program may call another. If every program is fine by the rules for one program
alone, then in every state of every run no resource is in two places.
-/

namespace Xv6.Lib.Threads

open Xv6.Lib.Own Xv6.Lib.Run
open Function (update update_of_ne update_self)

variable {T C G L R E K : Type} [DecidableEq T]

structure Machine (T G L R E : Type) where
  free : List R
  shared : G
  loc : T → L
  prog : T → Prog G L R E Unit
  halted : Option E

/-- A thread calls a program, takes its next step, or is refused a resource. -/
inductive Move (C : Type)
  | call (c : C)
  | run
  | refuse

/-- Thread `t` goes on with `p` and memory `l`. -/
def Machine.goto (m : Machine T G L R E) (t : T) (p : Prog G L R E Unit) (l : L) :
    Machine T G L R E :=
  { m with prog := update m.prog t p, loc := update m.loc t l }

/-- `body` is what a call runs, `may` when it can be made. Nothing happens after a halt. -/
def next (body : T → C → Prog G L R E Unit) (may : T → L → C → Bool) (m : Machine T G L R E) (t : T)
    (a : Move C) : Option (Machine T G L R E) :=
  if m.halted.isSome then none else
  match a, m.prog t with
  | .call c, .ret _ => if may t (m.loc t) c then some (m.goto t (body t c) (m.loc t)) else none
  | .refuse, .alloc k => some (m.goto t (k none) (m.loc t))
  | .run, .alloc k =>
    match m.free with
    | r :: rest => some { m.goto t (k (some r)) (m.loc t) with free := rest }
    | [] => none
  | .run, .free r u k => some { m.goto t k (u (m.loc t)) with free := r :: m.free }
  | .run, .loc u k => some (m.goto t (k (m.loc t)) (u (m.loc t)))
  | .run, .act g u k =>
    if g m.shared (m.loc t) then
      some { m.goto t (k m.shared (m.loc t)) (u m.shared (m.loc t)).2 with
        shared := (u m.shared (m.loc t)).1 }
    else none
  | .run, .halt e => some { m with halted := some e }
  | _, _ => none

def Step (body : T → C → Prog G L R E Unit) (may : T → L → C → Bool)
    (m : Machine T G L R E) (a : T × Move C) (m' : Machine T G L R E) : Prop :=
  next body may m a.1 a.2 = some m'

variable [Fintype T]

/-- The resources in all places. -/
def Machine.all (S : Spec G L R E K) (m : Machine T G L R E) (o : T → Multiset R) : Multiset R :=
  m.free + S.shared m.shared + ∑ t, (S.own (m.loc t) + o t)

/-- Every thread is fine with what it holds, `J` holds of the memory of a thread between two
calls, and no resource is in two places. -/
structure Sound (S : Spec G L R E K) (J : T → L → Prop) (m : Machine T G L R E)
    (o : T → Multiset R) : Prop where
  inv : S.inv m.shared (∑ t, S.tok (m.loc t))
  wp : ∀ t, wp S (m.prog t) (fun _ l _ => J t l) (m.loc t) (o t)
  nodup : (m.all S o).Nodup
  valid : ∀ r ∈ m.all S o, S.valid r
  halts : ∀ e, m.halted = some e → S.halts e

section Sound

variable {S : Spec G L R E K} {J : T → L → Prop} {m : Machine T G L R E} {o : T → Multiset R}

omit [DecidableEq T] in
lemma le_all (t : T) : S.shared m.shared + (S.own (m.loc t) + o t) ≤ m.all S o := by
  rw [Machine.all, add_assoc]
  refine le_trans (add_le_add_right ?_ _) (Multiset.le_add_left _ _)
  exact Finset.single_le_sum (f := fun t => S.own (m.loc t) + o t) (fun _ _ => Multiset.zero_le _)
    (Finset.mem_univ t)

omit [DecidableEq T] in
lemma Sound.ctx (h : Sound S J m o) (t : T) : S.Ctx (m.loc t) (o t) where
  nodup := Multiset.nodup_of_le ((Multiset.le_add_left _ _).trans (le_all t)) h.nodup
  valid r hr := h.valid r (Multiset.mem_of_le ((Multiset.le_add_left _ _).trans (le_all t)) hr)

variable {r : R} {M : Type*} {body : T → C → Prog G L R E Unit} {may : T → L → C → Bool}
  {m' : Machine T G L R E}

omit [DecidableEq T] in
/-- A resource of the pool is nowhere else. -/
lemma Sound.free_fresh (h : Sound S J m o) (hr : r ∈ m.free) :
    S.valid r ∧ ∀ t, r ∉ S.own (m.loc t) + o t := by
  have hm : r ∈ (m.free : Multiset R) := hr
  refine ⟨h.valid r (Multiset.mem_of_le ?_ hm), fun t hin => ?_⟩
  · rw [Machine.all, add_assoc]
    exact Multiset.le_add_right _ _
  · have hn := h.nodup
    rw [Machine.all, add_assoc] at hn
    refine Multiset.disjoint_left.mp (Multiset.nodup_add.mp hn).2.2 hm ?_
    refine Multiset.mem_add.mpr (Or.inr (Multiset.mem_sum.mpr ⟨t, Finset.mem_univ t, hin⟩))

omit [DecidableEq T] in
/-- Nor is a resource that the shared state has. -/
lemma Sound.shared_fresh (h : Sound S J m o) (hr : r ∈ S.shared m.shared) :
    r ∉ m.free ∧ ∀ t, r ∉ S.own (m.loc t) + o t := by
  refine ⟨fun hin => ?_, fun t hin => ?_⟩
  · have hn := Multiset.nodup_of_le (Multiset.le_add_right _ _) h.nodup
    exact Multiset.disjoint_left.mp (Multiset.nodup_add.mp hn).2.2 (Multiset.mem_coe.mpr hin) hr
  · have hn := Multiset.nodup_of_le (le_all t) h.nodup
    exact Multiset.disjoint_left.mp (Multiset.nodup_add.mp hn).2.2 hr hin

omit [DecidableEq T] in
/-- What a thread is about to give back is its own. -/
lemma Sound.owned (h : Sound S J m o) {t : T} {u : L → L} {k : Prog G L R E Unit}
    (hp : m.prog t = .free r u k) : r ∈ S.own (m.loc t) + o t := by
  have hwp := h.wp t
  rw [hp] at hwp
  obtain ⟨-, o', he, -⟩ := hwp (h.ctx t)
  rw [← he]
  simp

lemma sum_split [AddCommMonoid M] (f : T → M) (t : T) :
    ∑ q, f q = f t + ∑ q ∈ Finset.univ.erase t, f q :=
  (Finset.add_sum_erase _ _ (Finset.mem_univ t)).symm

/-- Changing one value changes a sum by what it counts for. -/
lemma sum_update_add {V : Type*} [AddCommMonoid M] (f : T → V → M) (g : T → V) (t : T) (v : V) :
    ∑ q, f q (update g t v q) + f t (g t) = ∑ q, f q (g q) + f t v := by
  have hrest : ∑ q ∈ Finset.univ.erase t, f q (update g t v q) =
      ∑ q ∈ Finset.univ.erase t, f q (g q) :=
    Finset.sum_congr rfl fun q hq => by rw [update_of_ne (Finset.ne_of_mem_erase hq)]
  rw [sum_split _ t, sum_split (fun q => f q (g q)) t, hrest, update_self]
  abel

/-- One thread takes a step. -/
lemma Sound.step (h : Sound S J m o) (t : T) {free : List R} {s : G} {p : Prog G L R E Unit} {l : L}
    {o' : Multiset R} (hp : Own.wp S p (fun _ l _ => J t l) l o')
    (hinv : ∀ F, S.inv m.shared (F + S.tok (m.loc t)) → S.inv s (F + S.tok l))
    (he : (free + S.shared s + (S.own l + o') : Multiset R) =
      m.free + S.shared m.shared + (S.own (m.loc t) + o t)) :
    Sound S J { m.goto t p l with free := free, shared := s } (update o t o') := by
  have hloc : ∀ q ∈ Finset.univ.erase t, update m.loc t l q = m.loc q := fun q hq =>
    update_of_ne (Finset.ne_of_mem_erase hq) _ _
  have ho : ∀ q ∈ Finset.univ.erase t, update o t o' q = o q := fun q hq =>
    update_of_ne (Finset.ne_of_mem_erase hq) _ _
  have hall : Machine.all S { m.goto t p l with free := free, shared := s }
      (update o t o') = m.all S o := by
    unfold Machine.all
    dsimp only [Machine.goto]
    rw [sum_split _ t, sum_split (fun q => S.own (m.loc q) + o q) t, update_self,
      update_self, ← add_assoc, he, add_assoc]
    congr 2
    exact Finset.sum_congr rfl fun q hq => by rw [hloc q hq, ho q hq]
  refine ⟨?_, fun q => ?_, hall ▸ h.nodup, hall ▸ h.valid, h.halts⟩
  · have hsum : ∑ q ∈ Finset.univ.erase t, S.tok (update m.loc t l q) =
        ∑ q ∈ Finset.univ.erase t, S.tok (m.loc q) :=
      Finset.sum_congr rfl fun q hq => by rw [hloc q hq]
    change S.inv s (∑ q, S.tok (update m.loc t l q))
    rw [sum_split _ t, update_self, hsum, add_comm]
    refine hinv _ ?_
    rw [add_comm, ← sum_split (fun q => S.tok (m.loc q)) t]
    exact h.inv
  · dsimp only [Machine.goto]
    by_cases hq : q = t
    · subst hq
      simpa using hp
    · simpa [update_of_ne hq] using h.wp q

/-- **Every step keeps the threads sound**, if every call is fine by itself. -/
theorem Sound.next
    (hbody : ∀ t c l o, J t l → may t l c → Own.wp S (body t c) (fun _ l _ => J t l) l o)
    (h : Sound S J m o) {a : T × Move C} (hst : Step body may m a m') : ∃ o', Sound S J m' o' := by
  obtain ⟨t, a⟩ := a
  have hwp := h.wp t
  have hc := h.ctx t
  change Threads.next body may m t a = some m' at hst
  unfold Threads.next at hst
  split_ifs at hst with hh
  generalize hp : m.prog t = p at hst hwp
  split at hst
  · -- a call
    split_ifs at hst with hmay
    cases hst
    exact ⟨_, h.step t (hbody _ _ _ _ (hwp hc) hmay) (fun _ hi => hi) rfl⟩
  · -- refused
    cases hst
    exact ⟨_, h.step t (hwp hc).1 (fun _ hi => hi) rfl⟩
  · -- a resource is taken
    split at hst
    · rename_i r rest hfree
      cases hst
      obtain ⟨hv, hfresh⟩ := h.free_fresh (r := r) (by simp [hfree])
      refine ⟨_, h.step t ((hwp hc).2 r hv (hfresh t)) (fun _ hi => hi) ?_⟩
      rw [hfree, ← Multiset.cons_coe, Multiset.cons_add, Multiset.cons_add, Multiset.add_cons,
        Multiset.add_cons]
      rfl
    · exact absurd hst (by simp)
  · -- a resource is given back
    cases hst
    obtain ⟨ht, o', he, hk⟩ := hwp hc
    refine ⟨_, h.step t hk (fun F hi => by rwa [ht]) ?_⟩
    rw [← he, ← Multiset.cons_coe, Multiset.cons_add, Multiset.cons_add, Multiset.add_cons,
      Multiset.add_cons]
    rfl
  · -- a step on the memory
    cases hst
    obtain ⟨ht, o', he, hk⟩ := hwp hc
    exact ⟨_, h.step t hk (fun F hi => by rwa [ht]) (by rw [he])⟩
  · -- an action on the shared state
    split_ifs at hst with hg
    cases hst
    have hn := Multiset.nodup_of_le (le_all t) h.nodup
    have hact := hwp hc m.shared
    have hfix := hact (∑ q ∈ Finset.univ.erase t, S.tok (m.loc q))
      (by rw [add_comm, ← sum_split (fun q => S.tok (m.loc q)) t]; exact h.inv) hn
    obtain ⟨-, o', he, hk⟩ := hfix.2 hg
    refine ⟨_, h.step t hk (fun F hi => ((hact F hi hn).2 hg).1) ?_⟩
    rw [add_assoc, add_assoc, ← add_assoc (S.shared m.shared), ← add_assoc (S.shared _), he]
    rfl
  · -- a halt
    cases hst
    refine ⟨o, h.inv, fun q => h.wp q, h.nodup, h.valid, fun e he => ?_⟩
    cases he
    exact hwp hc
  · exact absurd hst (by simp)

/-- **In every state of every run the threads are sound.** -/
theorem Sound.reach
    (hbody : ∀ t c l o, J t l → may t l c → Own.wp S (body t c) (fun _ l _ => J t l) l o)
    (h : Sound S J m o) (hr : Reach (Step body may) m m') :
    ∃ o', Sound S J m' o' :=
  hr.inv (P := fun m => ∃ o, Sound S J m o) ⟨o, h⟩ fun _ _ _ ⟨_, h⟩ hst => h.next hbody hst

end Sound


/-! ### What programs do to the shared state -/

section Acts

variable {α β : Type} {L' : Type}

/-- The program goes on by giving `r` back. -/
def frees (r : R) (p : Prog G L R E α) : Prop := ∃ u k, p = .free r u k

/-- Every action changes the shared state as `D` says: `D s s' o` that it may lead from `s` to
`s'`, if it gives back `o` next. -/
def Acts (D : G → G → Option R → Prop) : Prog G L R E α → Prop
  | .ret _ => True
  | .halt _ => True
  | .alloc k => ∀ r, Acts D (k r)
  | .free _ _ k => Acts D k
  | .loc _ k => ∀ l, Acts D (k l)
  | .act g u k => ∀ s l, g s l →
      (∃ o, D s (u s l).1 o ∧ ∀ r ∈ o, frees r (k s l)) ∧ Acts D (k s l)

variable {D : G → G → Option R → Prop} {p : Prog G L R E α}

lemma acts_bind {f : α → Prog G L R E β} (hp : Acts D p) (hf : ∀ a, Acts D (f a)) :
    Acts D (p >>= f) := by
  change Acts D (p.bind f)
  induction p with
  | ret a => exact hf a
  | halt e => trivial
  | alloc k ih => exact fun r => ih r (hp r)
  | free r u k ih => exact ih hp
  | loc u k ih => exact fun l => ih l (hp l)
  | act g u k ih =>
    intro s l hg
    obtain ⟨⟨o, ho, hfree⟩, hk⟩ := hp s l hg
    refine ⟨⟨o, ho, fun r hr => ?_⟩, ih s l hk⟩
    obtain ⟨v, q, hq⟩ := hfree r hr
    exact ⟨v, q.bind f, congrArg (Prog.bind · f) hq⟩

lemma acts_zoom {view : L' → L} {put : L → L' → L'} (hp : Acts D p) : Acts D (p.zoom view put) := by
  induction p with
  | ret a => trivial
  | halt e => trivial
  | alloc k ih => exact fun r => ih r (hp r)
  | free r u k ih => exact ih hp
  | loc u k ih => exact fun x => ih (view x) (hp (view x))
  | act g u k ih =>
    intro s x hg
    obtain ⟨⟨o, ho, hfree⟩, hk⟩ := hp s (view x) hg
    refine ⟨⟨o, ho, fun r hr => ?_⟩, ih s (view x) hk⟩
    obtain ⟨v, q, hq⟩ := hfree r hr
    exact ⟨_, q.zoom view put, congrArg (Prog.zoom view put) hq⟩

lemma acts_pure (a : α) : Acts D (pure a : Prog G L R E α) := trivial

lemma acts_get : Acts D (Prog.get : Prog G L R E L) := fun _ => trivial

lemma acts_modify (u : L → L) : Acts D (Prog.modify u : Prog G L R E Unit) := fun _ => trivial

lemma acts_new : Acts D (Prog.new : Prog G L R E (Option R)) := fun _ => trivial

lemma acts_ite {c : Prop} [Decidable c] {q : Prog G L R E α} (hp : Acts D p) (hq : Acts D q) :
    Acts D (if c then p else q) := by
  split_ifs
  · exact hp
  · exact hq

omit [Fintype T] in
/-- One step of the machine: the programs keep to `D`, and so does the step. -/
lemma acts_step {body : T → C → Prog G L R E Unit} {may : T → L → C → Bool}
    (hbody : ∀ t c, Acts D (body t c)) {m m' : Machine T G L R E} (h : ∀ t, Acts D (m.prog t))
    {a : T × Move C} (hst : Step body may m a m') :
    (∀ t, Acts D (m'.prog t)) ∧ (m'.shared = m.shared ∨
      ∃ o, D m.shared m'.shared o ∧ ∀ r ∈ o, frees r (m'.prog a.1)) := by
  obtain ⟨t, a⟩ := a
  have ht := h t
  have hgoto {p : Prog G L R E Unit} (hp : Acts D p) (q : T) :
      Acts D (update m.prog t p q) := by
    by_cases hq : q = t
    · rw [hq, update_self]
      exact hp
    · rw [update_of_ne hq]
      exact h q
  change Threads.next body may m t a = some m' at hst
  unfold Threads.next at hst
  split_ifs at hst with hh
  generalize hp : m.prog t = p at hst ht
  split at hst
  · split_ifs at hst with hmay
    cases hst
    exact ⟨hgoto (hbody _ _), Or.inl rfl⟩
  · cases hst
    exact ⟨hgoto (ht none), Or.inl rfl⟩
  · split at hst
    · rename_i r rest _
      cases hst
      exact ⟨hgoto (ht (some r)), Or.inl rfl⟩
    · exact absurd hst (by simp)
  · cases hst
    exact ⟨hgoto ht, Or.inl rfl⟩
  · cases hst
    exact ⟨hgoto (ht _), Or.inl rfl⟩
  · -- an action on the shared state
    split_ifs at hst with hg
    cases hst
    obtain ⟨⟨o, ho, hfree⟩, hk⟩ := ht _ _ hg
    refine ⟨hgoto hk, Or.inr ⟨o, ho, fun r hr => ?_⟩⟩
    dsimp only [Machine.goto]
    rw [update_self]
    exact hfree r hr
  · cases hst
    exact ⟨h, Or.inl rfl⟩
  · exact absurd hst (by simp)

end Acts
end Xv6.Lib.Threads
