import Mathlib.Algebra.Order.Group.Multiset
import Mathlib.Tactic.Common

/-!
Programs that share an allocator. A program works on memory of its own, takes resources from
a common pool, gives them back, and now and then acts on a state it shares with others. The
rules below reason about one program alone: it owns a multiset of resources, partly recorded in
its memory and partly held loose, and only what it owns can it give back. Its memory also holds
tokens, which the shared state counts.
-/

namespace Xv6.Lib.Own

/-- `G` is the shared state, `L` the memory of the program, `R` the resources, `E` the ways to
halt. A resource is given back together with a change of the memory that recorded it. -/
inductive Prog (G L R E α : Type) : Type
  | ret (a : α)
  | halt (e : E)
  | alloc (k : Option R → Prog G L R E α)
  | free (r : R) (u : L → L) (k : Prog G L R E α)
  | loc (u : L → L) (k : L → Prog G L R E α)
  | act (guard : G → L → Bool) (u : G → L → G × L) (k : G → L → Prog G L R E α)

variable {G L L' R E K α β : Type}

namespace Prog

def bind : Prog G L R E α → (α → Prog G L R E β) → Prog G L R E β
  | .ret a, f => f a
  | .halt e, _ => .halt e
  | .alloc k, f => .alloc fun r => (k r).bind f
  | .free r u k, f => .free r u (k.bind f)
  | .loc u k, f => .loc u fun l => (k l).bind f
  | .act g u k, f => .act g u fun s l => (k s l).bind f

instance : Monad (Prog G L R E) where
  pure := .ret
  bind := .bind

def get : Prog G L R E L := .loc id .ret

def modify (u : L → L) : Prog G L R E Unit := .loc u fun _ => .ret ()

def new : Prog G L R E (Option R) := .alloc .ret

/-- A program on a part of the memory. -/
def zoom (view : L' → L) (put : L → L' → L') : Prog G L R E α → Prog G L' R E α
  | .ret a => .ret a
  | .halt e => .halt e
  | .alloc k => .alloc fun r => (k r).zoom view put
  | .free r u k => .free r (fun x => put (u (view x)) x) (k.zoom view put)
  | .loc u k => .loc (fun x => put (u (view x)) x) fun x => (k (view x)).zoom view put
  | .act g u k => .act (fun s x => g s (view x))
      (fun s x => ((u s (view x)).1, put (u s (view x)).2 x))
      fun s x => (k s (view x)).zoom view put

/-- A program on a part of the shared state. -/
def onFst {H : Type} : Prog G L R E α → Prog (G × H) L R E α
  | .ret a => .ret a
  | .halt e => .halt e
  | .alloc k => .alloc fun r => (k r).onFst
  | .free r u k => .free r u k.onFst
  | .loc u k => .loc u fun l => (k l).onFst
  | .act g u k => .act (fun s l => g s.1 l) (fun s l => (((u s.1 l).1, s.2), (u s.1 l).2))
      fun s l => (k s.1 l).onFst

end Prog

theorem Prog.bind_assoc {γ : Type} (p : Prog G L R E α) (f : α → Prog G L R E β)
    (g : β → Prog G L R E γ) : p >>= f >>= g = p >>= fun a => f a >>= g := by
  change (p.bind f).bind g = p.bind fun a => (f a).bind g
  induction p with
  | ret a => rfl
  | halt e => rfl
  | alloc k ih => simp only [Prog.bind, ih]
  | free r u k ih => simp only [Prog.bind, ih]
  | loc u k ih => simp only [Prog.bind, ih]
  | act g u k ih => simp only [Prog.bind, ih]

theorem Prog.pure_bind (a : α) (f : α → Prog G L R E β) : pure a >>= f = f a := rfl

theorem Prog.halt_bind (e : E) (f : α → Prog G L R E β) : Prog.halt e >>= f = .halt e := rfl

/-! ### Running a program alone -/

structure Heap (R : Type) where
  free : List R
  calls : ℕ

/-- The pool may refuse, following the pattern `fails`, and must when it is empty. -/
def Heap.alloc (fails : ℕ → Bool) (h : Heap R) : Option R × Heap R :=
  match fails h.calls, h.free with
  | false, r :: rest => (some r, ⟨rest, h.calls + 1⟩)
  | _, _ => (none, { h with calls := h.calls + 1 })

inductive Outcome (E α : Type)
  | done (a : α)
  | halted (e : E)
  | blocked
  deriving DecidableEq

/-- The outcome and what is left behind. -/
structure Result (G L R E α : Type) where
  out : Outcome E α
  heap : Heap R
  shared : G
  loc : L

def run (fails : ℕ → Bool) : Prog G L R E α → Heap R → G → L → Result G L R E α
  | .ret a, h, s, l => ⟨.done a, h, s, l⟩
  | .halt e, h, s, l => ⟨.halted e, h, s, l⟩
  | .alloc k, h, s, l => run fails (k (h.alloc fails).1) (h.alloc fails).2 s l
  | .free r u k, h, s, l => run fails k { h with free := r :: h.free } s (u l)
  | .loc u k, h, s, l => run fails (k l) h s (u l)
  | .act g u k, h, s, l =>
    if g s l then run fails (k s l) h (u s l).1 (u s l).2 else ⟨.blocked, h, s, l⟩

/-! ### Reasoning about it -/

/-- What counts as owned by a memory and by the shared state, which tokens a memory holds, what
the shared state satisfies between two actions given all tokens that are held, which resources
exist, which halts are allowed, and whether an action may have to wait. -/
structure Spec (G L R E K : Type) where
  own : L → Multiset R
  tok : L → Multiset K
  shared : G → Multiset R
  inv : G → Multiset K → Prop
  valid : R → Prop
  halts : E → Prop
  waits : Prop

/-- What a program may assume of its memory and the resources it holds loose. -/
structure Spec.Ctx (S : Spec G L R E K) (l : L) (o : Multiset R) : Prop where
  nodup : (S.own l + o).Nodup
  valid : ∀ r ∈ S.own l + o, S.valid r

/-- From memory `l` and the loose resources `o` the program gives back only what it owns, and
ends in `Q`. -/
def wp (S : Spec G L R E K) :
    Prog G L R E α → (α → L → Multiset R → Prop) → L → Multiset R → Prop
  | .ret a, Q, l, o => S.Ctx l o → Q a l o
  | .halt e, _, l, o => S.Ctx l o → S.halts e
  | .alloc k, Q, l, o => S.Ctx l o → wp S (k none) Q l o ∧
      ∀ r, S.valid r → r ∉ S.own l + o → wp S (k (some r)) Q l (r ::ₘ o)
  | .free r u k, Q, l, o => S.Ctx l o → S.tok (u l) = S.tok l ∧
      ∃ o', S.own (u l) + r ::ₘ o' = S.own l + o ∧ wp S k Q (u l) o'
  | .loc u k, Q, l, o => S.Ctx l o → S.tok (u l) = S.tok l ∧
      ∃ o', S.own (u l) + o' = S.own l + o ∧ wp S (k l) Q (u l) o'
  -- whatever tokens `F` the others hold
  | .act g u k, Q, l, o => S.Ctx l o → ∀ s F, S.inv s (F + S.tok l) →
      (S.shared s + (S.own l + o)).Nodup → (g s l ∨ S.waits) ∧
      (g s l → S.inv (u s l).1 (F + S.tok (u s l).2) ∧
        ∃ o', S.shared (u s l).1 + S.own (u s l).2 + o' = S.shared s + S.own l + o ∧
          wp S (k s l) Q (u s l).2 o')

section Rules

variable {S : Spec G L R E K} {l : L} {o : Multiset R} {p : Prog G L R E α}
  {Q Q' : α → L → Multiset R → Prop}

/-- The context may be assumed before anything is shown. -/
lemma wp_ctx (h : S.Ctx l o → wp S p Q l o) : wp S p Q l o := by
  cases p <;> exact fun hc => h hc hc

lemma wp_mono (hQ : ∀ a l o, S.Ctx l o → Q a l o → Q' a l o) (h : wp S p Q l o) :
    wp S p Q' l o := by
  induction p generalizing l o with
  | ret a => exact fun hc => hQ a l o hc (h hc)
  | halt e => exact h
  | alloc k ih =>
    intro hc
    obtain ⟨h0, h1⟩ := h hc
    exact ⟨ih none h0, fun r hv hr => ih (some r) (h1 r hv hr)⟩
  | free r u k ih =>
    intro hc
    obtain ⟨ht, o', he, hk⟩ := h hc
    exact ⟨ht, o', he, ih hk⟩
  | loc u k ih =>
    intro hc
    obtain ⟨ht, o', he, hk⟩ := h hc
    exact ⟨ht, o', he, ih l hk⟩
  | act g u k ih =>
    intro hc s F hs hn
    refine ⟨(h hc s F hs hn).1, fun hg => ?_⟩
    obtain ⟨hi, o', he, hk⟩ := (h hc s F hs hn).2 hg
    exact ⟨hi, o', he, ih s l hk⟩

/-- Sequencing. -/
theorem wp_bind {f : α → Prog G L R E β} {P : β → L → Multiset R → Prop}
    (h : wp S p (fun a l o => wp S (f a) P l o) l o) : wp S (p >>= f) P l o := by
  change wp S (p.bind f) P l o
  induction p generalizing l o with
  | ret a => exact wp_ctx h
  | halt e => exact h
  | alloc k ih =>
    intro hc
    obtain ⟨h0, h1⟩ := h hc
    exact ⟨ih none h0, fun r hv hr => ih (some r) (h1 r hv hr)⟩
  | free r u k ih =>
    intro hc
    obtain ⟨ht, o', he, hk⟩ := h hc
    exact ⟨ht, o', he, ih hk⟩
  | loc u k ih =>
    intro hc
    obtain ⟨ht, o', he, hk⟩ := h hc
    exact ⟨ht, o', he, ih l hk⟩
  | act g u k ih =>
    intro hc s F hs hn
    refine ⟨(h hc s F hs hn).1, fun hg => ?_⟩
    obtain ⟨hi, o', he, hk⟩ := (h hc s F hs hn).2 hg
    exact ⟨hi, o', he, ih s l hk⟩

lemma wp_pure {a : α} (h : S.Ctx l o → Q a l o) : wp S (pure a) Q l o := h

lemma wp_ite {c : Prop} [Decidable c] {q : Prog G L R E α} (hp : c → wp S p Q l o)
    (hq : ¬ c → wp S q Q l o) : wp S (if c then p else q) Q l o := by
  split_ifs with h
  · exact hp h
  · exact hq h

lemma wp_get {P : L → L → Multiset R → Prop} (h : S.Ctx l o → P l l o) :
    wp S (Prog.get : Prog G L R E L) P l o :=
  fun _ => ⟨rfl, o, rfl, h⟩

lemma wp_modify {u : L → L} {P : Unit → L → Multiset R → Prop} (o' : Multiset R)
    (ht : S.tok (u l) = S.tok l) (he : S.own (u l) + o' = S.own l + o)
    (h : S.Ctx (u l) o' → P () (u l) o') : wp S (Prog.modify u : Prog G L R E Unit) P l o :=
  fun _ => ⟨ht, o', he, h⟩

lemma wp_act {g : G → L → Bool} {u : G → L → G × L} {k : G → L → Prog G L R E α}
    (hw : S.waits) (h : ∀ s F, S.inv s (F + S.tok l) → (S.shared s + (S.own l + o)).Nodup → g s l →
      S.inv (u s l).1 (F + S.tok (u s l).2) ∧
      ∃ o', S.shared (u s l).1 + S.own (u s l).2 + o' = S.shared s + S.own l + o ∧
        wp S (k s l) Q (u s l).2 o') : wp S (.act g u k) Q l o :=
  fun _ s F hs hn => ⟨Or.inr hw, h s F hs hn⟩

lemma wp_new {P : Option R → L → Multiset R → Prop} (h0 : S.Ctx l o → P none l o)
    (h1 : ∀ r, S.valid r → r ∉ S.own l + o → S.Ctx l (r ::ₘ o) → P (some r) l (r ::ₘ o)) :
    wp S (Prog.new : Prog G L R E (Option R)) P l o :=
  fun _ => ⟨h0, h1⟩

/-- What a program sees that works on a part of the memory, while the rest holds the tokens `m`. -/
def Spec.part (S : Spec G L' R E K) (own : L → Multiset R) (m : Multiset K) : Spec G L R E K where
  own := own
  tok _ := 0
  shared := S.shared
  inv s F := S.inv s (F + m)
  valid := S.valid
  halts := S.halts
  waits := S.waits

/-- Zooming: the part of the memory seen through `view` holds the resources of the smaller
program and no tokens, the rest is not touched. -/
theorem wp_zoom {S : Spec G L' R E K} {own : L → Multiset R} {view : L' → L} {put : L → L' → L'}
    {x : L'} {P : α → L' → Multiset R → Prop} (rest : L' → Multiset R)
    (hview : ∀ l x, view (put l x) = l) (hput : ∀ l l' x, put l' (put l x) = put l' x)
    (hrest : ∀ l x, rest (put l x) = rest x) (hself : ∀ x, put (view x) x = x)
    (hown : ∀ x, S.own x = own (view x) + rest x) (htok : ∀ l x, S.tok (put l x) = S.tok x)
    (h : wp (S.part own (S.tok x)) p (fun a l o => P a (put l x) o) (view x) o) :
    wp S (p.zoom view put) P x o := by
  have hctx {x : L'} {o : Multiset R} {m : Multiset K} (hc : S.Ctx x o) :
      (S.part own m).Ctx (view x) o := by
    have hle : own (view x) + o ≤ S.own x + o := by
      rw [hown, add_right_comm]
      exact Multiset.le_add_right _ _
    exact ⟨Multiset.nodup_of_le hle hc.nodup, fun r hr => hc.valid r (Multiset.mem_of_le hle hr)⟩
  have hcons {x : L'} {l : L} {m n : Multiset R} (he : own l + m = own (view x) + n) :
      S.own (put l x) + m = S.own x + n := by
    rw [hown, hown, hview, hrest, add_right_comm, he, add_right_comm]
  -- the tokens of the rest stay the same while `x` changes
  generalize hm : S.tok x = m at h
  induction p generalizing x o with
  | ret a =>
    intro hc
    have hP : P a (put (view x) x) o := h (hctx hc)
    rwa [hself] at hP
  | halt e => exact fun hc => h (hctx hc)
  | alloc k ih =>
    intro hc
    obtain ⟨h0, h1⟩ := h (hctx hc)
    refine ⟨ih none hm h0, fun r hv hr => ih (some r) hm (h1 r hv fun hin => hr ?_)⟩
    rw [hown, add_right_comm]
    exact Multiset.mem_add.mpr (Or.inl hin)
  | free r u k ih =>
    intro hc
    obtain ⟨-, o', he, hk⟩ := h (hctx hc)
    refine ⟨htok _ _, o', hcons he, ih ((htok _ _).trans hm) ?_⟩
    simpa only [hview, hput] using hk
  | loc u k ih =>
    intro hc
    obtain ⟨-, o', he, hk⟩ := h (hctx hc)
    refine ⟨htok _ _, o', hcons he, ih (view x) ((htok _ _).trans hm) ?_⟩
    simpa only [hview, hput] using hk
  | act g u k ih =>
    intro hc s F hs hn
    have hs' : S.inv s (F + 0 + m) := by rwa [add_zero, ← hm]
    have hn' : (S.shared s + (own (view x) + o)).Nodup := by
      refine Multiset.nodup_of_le ?_ hn
      rw [hown, add_right_comm]
      exact Multiset.add_le_add_left (Multiset.le_add_right _ _)
    refine ⟨(h (hctx hc) s F hs' hn').1, fun hg => ?_⟩
    obtain ⟨hi, o', he, hk⟩ := (h (hctx hc) s F hs' hn').2 hg
    have hi' : S.inv (u s (view x)).1 (F + 0 + m) := hi
    rw [add_zero] at hi'
    refine ⟨by rwa [htok, hm], o', ?_, ih s (view x) ((htok _ _).trans hm) ?_⟩
    · have he' : S.shared (u s (view x)).1 + own (u s (view x)).2 + o' =
          S.shared s + own (view x) + o := he
      rw [hown, hown, hview, hrest]
      calc S.shared (u s (view x)).1 + (own (u s (view x)).2 + rest x) + o'
          = S.shared (u s (view x)).1 + own (u s (view x)).2 + o' + rest x := by
            rw [← add_assoc, add_right_comm]
        _ = S.shared s + own (view x) + o + rest x := by rw [he']
        _ = S.shared s + (own (view x) + rest x) + o := by
            rw [add_right_comm, add_assoc (S.shared s)]
    · simpa only [hview, hput] using hk

end Rules

/-! ### A run alone does what the rules say -/

/-- No resource is in two places, and the shared state agrees with the tokens held here and, as
`F`, elsewhere. -/
structure Spec.Safe (S : Spec G L R E K) (F : Multiset K) (free : List R) (s : G) (l : L)
    (o : Multiset R) : Prop where
  inv : S.inv s (F + S.tok l)
  nodup : (free + S.shared s + (S.own l + o)).Nodup
  valid : ∀ r ∈ free + S.shared s + (S.own l + o), S.valid r

section Run

variable {S : Spec G L R E K} {F : Multiset K} {l : L} {o : Multiset R} {free : List R} {s : G}

lemma Spec.Safe.ctx (h : S.Safe F free s l o) : S.Ctx l o where
  nodup := Multiset.nodup_of_le (Multiset.le_add_left _ _) h.nodup
  valid r hr := h.valid r (Multiset.mem_add.mpr (Or.inr hr))

lemma Spec.Safe.nodup_shared (h : S.Safe F free s l o) : (S.shared s + (S.own l + o)).Nodup := by
  refine Multiset.nodup_of_le ?_ h.nodup
  rw [add_assoc]
  exact Multiset.le_add_left _ _

/-- A step that moves resources about. -/
lemma Spec.Safe.of_eq (h : S.Safe F free s l o) {free' : List R} {s' : G} {l' : L}
    {o' : Multiset R} (hinv : S.inv s' (F + S.tok l'))
    (he : (free' + S.shared s' + (S.own l' + o') : Multiset R) =
      free + S.shared s + (S.own l + o)) : S.Safe F free' s' l' o' where
  inv := hinv
  nodup := by rw [he]; exact h.nodup
  valid := by rw [he]; exact h.valid

/-- A resource of the pool is not owned. -/
lemma Spec.Safe.fresh {r : R} (h : S.Safe F free s l o) (hr : r ∈ free) :
    S.valid r ∧ r ∉ S.own l + o := by
  have hm : r ∈ free + S.shared s := Multiset.mem_add.mpr (Or.inl (Multiset.mem_coe.mpr hr))
  exact ⟨h.valid r (Multiset.mem_add.mpr (Or.inl hm)),
    fun hin => Multiset.disjoint_left.mp (Multiset.nodup_add.mp h.nodup).2.2 hm hin⟩

/-- The result of a run meets a postcondition. -/
def Ends (S : Spec G L R E K) (F : Multiset K) (Q : α → L → Multiset R → Prop)
    (r : Result G L R E α) : Prop :=
  match r.out with
  | .done a => ∃ o, Q a r.loc o ∧ S.Safe F r.heap.free r.shared r.loc o
  | .halted e => S.halts e
  | .blocked => S.waits

lemma Heap.alloc_cases (fails : ℕ → Bool) (h : Heap R) :
    (h.alloc fails).1 = none ∧ (h.alloc fails).2.free = h.free ∨
      ∃ r rest, h.free = r :: rest ∧ (h.alloc fails).1 = some r ∧
        (h.alloc fails).2.free = rest := by
  unfold Heap.alloc
  rcases hf : h.free with _ | ⟨r, rest⟩ <;> cases hb : fails h.calls
  · exact Or.inl ⟨rfl, rfl⟩
  · exact Or.inl ⟨rfl, rfl⟩
  · exact Or.inr ⟨r, rest, rfl, rfl, rfl⟩
  · exact Or.inl ⟨rfl, rfl⟩

/-- The result of a run that started with the resources `T`: it still has them. -/
def EndsWith (S : Spec G L R E K) (F : Multiset K) (T : Multiset R)
    (Q : α → L → Multiset R → Prop) (r : Result G L R E α) : Prop :=
  match r.out with
  | .done a => ∃ o, Q a r.loc o ∧ S.Safe F r.heap.free r.shared r.loc o ∧
      (r.heap.free + S.shared r.shared + (S.own r.loc + o) : Multiset R) = T
  | .halted e => S.halts e
  | .blocked => S.waits

variable {p : Prog G L R E α} {h : Heap R} {view : L' → L} {H : Type}

/-- **A program run alone ends as its rules say**, and no resource is lost. -/
theorem run_keeps (fails : ℕ → Bool) {Q : α → L → Multiset R → Prop} (hp : wp S p Q l o)
    (hs : S.Safe F h.free s l o) {T : Multiset R}
    (hT : (h.free + S.shared s + (S.own l + o) : Multiset R) = T) :
    EndsWith S F T Q (run fails p h s l) := by
  induction p generalizing h s l o with
  | ret a => exact ⟨o, hp hs.ctx, hs, hT⟩
  | halt e => exact hp hs.ctx
  | alloc k ih =>
    obtain ⟨h0, h1⟩ := hp hs.ctx
    rcases h.alloc_cases fails with ⟨hr, hfree⟩ | ⟨r, rest, hfree, hr, hrest⟩
    · rw [run, hr]
      exact ih none h0 (by rwa [hfree]) (by rwa [hfree])
    · rw [run, hr]
      obtain ⟨hv, hnotin⟩ := hs.fresh (r := r) (by simp [hfree])
      have he : ((h.alloc fails).2.free + S.shared s + (S.own l + r ::ₘ o) : Multiset R) =
          h.free + S.shared s + (S.own l + o) := by
        rw [hrest, hfree, ← Multiset.cons_coe, Multiset.cons_add, Multiset.cons_add,
          Multiset.add_cons, Multiset.add_cons]
      exact ih (some r) (h1 r hv hnotin) (hs.of_eq hs.inv he) (he.trans hT)
  | free r u k ih =>
    obtain ⟨ht, o', he, hk⟩ := hp hs.ctx
    have he' : ((r :: h.free : List R) + S.shared s + (S.own (u l) + o') : Multiset R) =
        h.free + S.shared s + (S.own l + o) := by
      rw [← he, ← Multiset.cons_coe, Multiset.cons_add, Multiset.cons_add, Multiset.add_cons,
        Multiset.add_cons]
    exact ih hk (hs.of_eq (ht ▸ hs.inv) he') (he'.trans hT)
  | loc u k ih =>
    obtain ⟨ht, o', he, hk⟩ := hp hs.ctx
    exact ih l hk (hs.of_eq (ht ▸ hs.inv) (by rw [he])) (by rw [he, hT])
  | act g u k ih =>
    have hact := hp hs.ctx s F hs.inv hs.nodup_shared
    rw [run]
    split_ifs with hg
    · obtain ⟨hi, o', he, hk⟩ := hact.2 hg
      have he' : (h.free + S.shared (u s l).1 + (S.own (u s l).2 + o') : Multiset R) =
          h.free + S.shared s + (S.own l + o) := by
        rw [add_assoc, add_assoc, ← add_assoc (S.shared s), ← add_assoc (S.shared _), he]
      exact ih s l hk (hs.of_eq hi he') (he'.trans hT)
    · exact hact.1.resolve_left hg

theorem run_sound (fails : ℕ → Bool) {Q : α → L → Multiset R → Prop} (hp : wp S p Q l o)
    (hs : S.Safe F h.free s l o) :
    Ends S F Q (run fails p h s l) := by
  have he := run_keeps fails hp hs rfl
  unfold EndsWith at he
  unfold Ends
  rcases hout : (run fails p h s l).out with a | e | -
  · rw [hout] at he
    obtain ⟨o', hq, hs', -⟩ := he
    exact ⟨o', hq, hs'⟩
  · rwa [hout] at he
  · rwa [hout] at he

/-- Running one program after another. -/
theorem run_bind (fails : ℕ → Bool) (p : Prog G L R E α) (f : α → Prog G L R E β) (h : Heap R)
    (s : G) (l : L) : run fails (p >>= f) h s l =
      match run fails p h s l with
      | ⟨.done a, h', s', l'⟩ => run fails (f a) h' s' l'
      | ⟨.halted e, h', s', l'⟩ => ⟨.halted e, h', s', l'⟩
      | ⟨.blocked, h', s', l'⟩ => ⟨.blocked, h', s', l'⟩ := by
  change run fails (p.bind f) h s l = _
  induction p generalizing h s l with
  | ret a => rfl
  | halt e => rfl
  | alloc k ih => exact ih _ _ _ _
  | free r u k ih => exact ih _ _ _
  | loc u k ih => exact ih _ _ _ _
  | act g u k ih =>
    rw [Prog.bind, run, run]
    split_ifs
    · exact ih _ _ _ _ _
    · rfl

section Bind

variable {fails : ℕ → Bool} {p : Prog G L R E α} {f : α → Prog G L R E β} {h h' : Heap R} {s' : G}
  {l' : L}

lemma run_bind_done {a : α} (hp : run fails p h s l = ⟨.done a, h', s', l'⟩) :
    run fails (p >>= f) h s l = run fails (f a) h' s' l' := by rw [run_bind, hp]

lemma run_bind_halted {e : E} (hp : run fails p h s l = ⟨.halted e, h', s', l'⟩) :
    run fails (p >>= f) h s l = ⟨.halted e, h', s', l'⟩ := by rw [run_bind, hp]

lemma run_bind_blocked (hp : run fails p h s l = ⟨.blocked, h', s', l'⟩) :
    run fails (p >>= f) h s l = ⟨.blocked, h', s', l'⟩ := by rw [run_bind, hp]

lemma run_get_bind {f : L → Prog G L R E β} :
    run fails (Prog.get >>= f) h s l = run fails (f l) h s l := rfl

/-- A run that is done has run the first program and then the second. -/
lemma done_of_bind {b : β} (hb : (run fails (p >>= f) h s l).out = .done b) :
    ∃ a h' s' l', run fails p h s l = ⟨.done a, h', s', l'⟩ ∧
      (run fails (f a) h' s' l').out = .done b := by
  rcases hp : run fails p h s l with ⟨a | e | -, h', s', l'⟩
  · rw [run_bind_done hp] at hb
    exact ⟨a, h', s', l', rfl, hb⟩
  · rw [run_bind_halted hp] at hb
    cases hb
  · rw [run_bind_blocked hp] at hb
    cases hb

end Bind

variable {put : L → L' → L'} {G' : Type} {shares : G' → G}

/-- A program on a part of the memory leaves the rest alone. -/
theorem run_zoom (fails : ℕ → Bool) (hview : ∀ l x, view (put l x) = l)
    (hput : ∀ l l' x, put l' (put l x) = put l' x) (hself : ∀ x, put (view x) x = x)
    (p : Prog G L R E α) (h : Heap R) (s : G) (x : L') :
    run fails (p.zoom view put) h s x =
      ⟨(run fails p h s (view x)).out, (run fails p h s (view x)).heap,
        (run fails p h s (view x)).shared, put (run fails p h s (view x)).loc x⟩ := by
  induction p generalizing h s x with
  | ret a => simp [Prog.zoom, run, hself]
  | halt e => simp [Prog.zoom, run, hself]
  | alloc k ih => exact ih _ _ _ _
  | free r u k ih =>
    rw [Prog.zoom, run, ih]
    simp [run, hview, hput]
  | loc u k ih =>
    rw [Prog.zoom, run, ih]
    simp [run, hview, hput]
  | act g u k ih =>
    rw [Prog.zoom, run]
    by_cases hg : g s (view x)
    · rw [if_pos hg, ih]
      simp [run, hg, hview, hput]
    · rw [if_neg hg]
      simp [run, hg, hself]

/-- A program on a part of the shared state leaves the rest of it alone. -/
theorem run_onFst (fails : ℕ → Bool) (p : Prog G L R E α) (h : Heap R) (s : G × H) (l : L) :
    run fails p.onFst h s l =
      ⟨(run fails p h s.1 l).out, (run fails p h s.1 l).heap, ((run fails p h s.1 l).shared, s.2),
        (run fails p h s.1 l).loc⟩ := by
  induction p generalizing h s l with
  | ret a => rfl
  | halt e => rfl
  | alloc k ih => exact ih _ _ _ _
  | free r u k ih => exact ih _ _ _
  | loc u k ih => exact ih _ _ _ _
  | act g u k ih =>
    rw [Prog.onFst, run, run]
    split_ifs with hg
    · exact ih _ _ _ _ _
    · rfl

lemma run_onFst_eq {fails : ℕ → Bool} {h' : Heap R} {s' : G} {l' : L} {r : Outcome E α} (x : H)
    (hp : run fails p h s l = ⟨r, h', s', l'⟩) :
    run fails p.onFst h (s, x) l = ⟨r, h', (s', x), l'⟩ := by rw [run_onFst, hp]

/-- `q` does what `p` does, on a state of which `p` sees a part. -/
def Hides {G' : Type} (shares : G' → G) (view : L' → L) (q : Prog G' L' R E α)
    (p : Prog G L R E α) : Prop :=
  ∀ fails h s l, run fails p h (shares s) (view l) =
    ⟨(run fails q h s l).out, (run fails q h s l).heap, shares (run fails q h s l).shared,
      view (run fails q h s l).loc⟩

lemma hides_pure (a : α) :
    Hides shares view (pure a : Prog G' L' R E α) (pure a) := fun _ _ _ _ => rfl

lemma hides_onFst (p : Prog G L R E α) :
    Hides Prod.fst id (p.onFst : Prog (G × H) L R E α) p := fun fails h s l => by
  rw [run_onFst]
  rfl

lemma hides_get : Hides Prod.fst id (Prog.get : Prog (G × H) L R E L) Prog.get :=
  fun _ _ _ _ => rfl

lemma hides_zoom (hview : ∀ l x, view (put l x) = l) (hput : ∀ l l' x, put l' (put l x) = put l' x)
    (hself : ∀ x, put (view x) x = x) (p : Prog G L R E α) :
    Hides id view (p.zoom view put) p := fun fails h s l => by
  rw [run_zoom fails hview hput hself, hview]
  rfl

lemma hides_bind {q : Prog G' L' R E α} {f : α → Prog G' L' R E β} {g : α → Prog G L R E β}
    (hp : Hides shares view q p) (hf : ∀ a, Hides shares view (f a) (g a)) :
    Hides shares view (q >>= f) (p >>= g) := fun fails h s l => by
  have hq := hp fails h s l
  rw [run_bind, run_bind, hq]
  rcases run fails q h s l with ⟨a | e | -, h', s', l'⟩
  · exact hf a fails h' s' l'
  · rfl
  · rfl

end Run

end Xv6.Lib.Own
