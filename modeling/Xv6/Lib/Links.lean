import Mathlib.Data.List.Induction
import Mathlib.Data.List.Nodup
import Mathlib.Tactic.Common

/-!
Singly linked lists that end with a null pointer: the pointers against the list of nodes they go
through, a walk to the end, and a node put there.
-/

namespace Xv6.Lib.Links

variable {α : Type*}

structure Chain (α : Type*) where
  head : Option α
  next : α → Option α

/-- From the pointer `p` the links go through the nodes of the list. -/
def IsList (next : α → Option α) : Option α → List α → Prop
  | p, [] => p = none
  | p, a :: l => p = some a ∧ IsList next (next a) l

/-- The pointer at a place: the head, or the link of a node. -/
def Chain.get (L : Chain α) : Option α → Option α
  | none => L.head
  | some a => L.next a

def Chain.set [DecidableEq α] (L : Chain α) (pp p : Option α) : Chain α :=
  match pp with
  | none => { L with head := p }
  | some a => { L with next := Function.update L.next a p }

variable {L : Chain α} {next next' : α → Option α} {p : Option α} {l l₁ l₂ : List α} {a b : α}

/-- A list depends on the links of its own nodes only. -/
lemma IsList.congr (h : IsList next p l) (hnext : ∀ x ∈ l, next' x = next x) :
    IsList next' p l := by
  induction l generalizing p with
  | nil => exact h
  | cons a l ih =>
    refine ⟨h.1, ?_⟩
    rw [hnext a List.mem_cons_self]
    exact ih h.2 fun x hx => hnext x (List.mem_cons_of_mem a hx)

lemma IsList.unique (h₁ : IsList next p l₁) (h₂ : IsList next p l₂) : l₁ = l₂ := by
  induction l₁ generalizing p l₂ with
  | nil =>
    cases l₂ with
    | nil => rfl
    | cons b l₂ => cases h₂.1.symm.trans h₁
  | cons a l₁ ih =>
    cases l₂ with
    | nil => cases h₁.1.symm.trans h₂
    | cons b l₂ =>
      cases h₁.1.symm.trans h₂.1
      rw [ih h₁.2 h₂.2]

/-- Behind the node where a walk has come to is the rest of the list. -/
lemma IsList.get (h : IsList L.next L.head (l₁ ++ l₂)) : IsList L.next (L.get l₁.getLast?) l₂ := by
  induction l₁ using List.reverseRecOn generalizing l₂ with
  | nil => exact h
  | append_singleton l a ih =>
    rw [List.append_assoc] at h
    rw [List.getLast?_append]
    exact (ih h).2

/-- A list that ends has no node twice. -/
lemma IsList.nodup (h : IsList next p l) : l.Nodup := by
  induction l generalizing p with
  | nil => exact List.nodup_nil
  | cons a l ih =>
    refine List.nodup_cons.mpr ⟨fun ha => ?_, ih h.2⟩
    obtain ⟨l₁, l₂, rfl⟩ := List.append_of_mem ha
    -- the same node begins a shorter list
    have hrest : IsList next p (a :: l₂) := ⟨h.1, (IsList.get (L := ⟨next a, next⟩) h.2).2⟩
    have hlen := congrArg List.length (h.unique hrest)
    simp at hlen
    omega

lemma IsList.snoc [DecidableEq α] (h : IsList next p (l ++ [a])) (ha : a ∉ l) (hb : b ≠ a)
    (hnil : next b = none) : IsList (Function.update next a (some b)) p (l ++ [a] ++ [b]) := by
  induction l generalizing p with
  | nil =>
    refine ⟨h.1, Function.update_self .., ?_⟩
    rw [Function.update_of_ne hb]
    exact hnil
  | cons x l ih =>
    refine ⟨h.1, ?_⟩
    rw [Function.update_of_ne fun hx : x = a => ha (hx ▸ List.mem_cons_self)]
    exact ih h.2 fun hm => ha (List.mem_cons_of_mem x hm)

/-- A node that is not in the list is put at its end. -/
lemma IsList.concat [DecidableEq α] (h : IsList L.next L.head l) (hb : b ∉ l)
    (hnil : L.next b = none) :
    IsList (L.set l.getLast? (some b)).next (L.set l.getLast? (some b)).head (l ++ [b]) := by
  induction l using List.reverseRecOn with
  | nil => exact ⟨rfl, hnil⟩
  | append_singleton l a _ =>
    rw [List.getLast?_append]
    refine h.snoc ?_ ?_ hnil
    · intro ha
      exact (List.nodup_append.mp h.nodup).2.2 a ha a (List.mem_singleton_self a) rfl
    · intro hba
      exact hb (List.mem_append_right l (List.mem_singleton.mpr hba))

end Xv6.Lib.Links
