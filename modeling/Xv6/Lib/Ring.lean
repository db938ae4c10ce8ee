import Mathlib.Data.List.Nodup
import Mathlib.Logic.Function.Iterate
import Mathlib.Tactic.Common

/-!
Circular doubly linked lists with a head node: the links against the list of nodes they go
through, and what the usual pointer surgery does to that list.
-/

namespace Xv6.Lib.Ring

open Function (update update_apply)

variable {α : Type*}

structure Links (α : Type*) where
  next : α → α
  prev : α → α

/-- From `a` the links go through the nodes of the list to `c`, and back. -/
def Path (L : Links α) : α → List α → α → Prop
  | a, [], c => L.next a = c ∧ L.prev c = a
  | a, b :: l, c => (L.next a = b ∧ L.prev b = a) ∧ Path L b l c

/-- The links go round through `h` and the nodes of the list, each once. -/
structure Circle (L : Links α) (h : α) (l : List α) : Prop where
  path : Path L h l h
  nodup : (h :: l).Nodup

variable {L L' : Links α} {a b c h : α} {l l₁ l₂ : List α}

lemma path_append : Path L a (l₁ ++ b :: l₂) c ↔ Path L a l₁ b ∧ Path L b l₂ c := by
  induction l₁ generalizing a with
  | nil => rfl
  | cons x l₁ ih => simp only [List.cons_append, Path, ih, and_assoc]

/-- A path depends on the links of its own nodes only. -/
lemma Path.congr (hp : Path L a l c) (hnext : ∀ x ∈ a :: l, L'.next x = L.next x)
    (hprev : ∀ x ∈ c :: l, L'.prev x = L.prev x) : Path L' a l c := by
  induction l generalizing a with
  | nil => exact ⟨(hnext a (by simp)).trans hp.1, (hprev c (by simp)).trans hp.2⟩
  | cons b l ih =>
    obtain ⟨⟨hab, hba⟩, hrest⟩ := hp
    refine ⟨⟨(hnext a (by simp)).trans hab, (hprev b (by simp)).trans hba⟩, ?_⟩
    refine ih hrest (fun x hx => hnext x (List.mem_cons_of_mem a hx)) fun x hx => hprev x ?_
    rcases List.mem_cons.mp hx with rfl | hx
    · exact List.mem_cons_self
    · exact List.mem_cons_of_mem c (List.mem_cons_of_mem b hx)

lemma Path.next_mem (hp : Path L a l c) : L.next a ∈ c :: l := by
  cases l with
  | nil => simp [hp.1]
  | cons b l => simp [hp.1.1]

lemma Path.prev_mem (hp : Path L a l c) : L.prev c ∈ a :: l := by
  induction l generalizing a with
  | nil => simp [hp.2]
  | cons b l ih => exact List.mem_cons_of_mem a (ih hp.2)

variable {x : α} {p : α → Bool} {n : ℕ}

lemma Path.prev_next (hp : Path L a l c) (hx : x ∈ a :: l) : L.prev (L.next x) = x := by
  induction l generalizing a with
  | nil =>
    obtain rfl := List.mem_singleton.mp hx
    rw [hp.1, hp.2]
  | cons b l ih =>
    rcases List.mem_cons.mp hx with rfl | hx
    · rw [hp.1.1, hp.1.2]
    · exact ih hp.2 hx

/-! ### Walking -/

/-- The same nodes, the other way round. -/
def Links.flip (L : Links α) : Links α := ⟨L.prev, L.next⟩

lemma Path.flip (hp : Path L a l c) : Path L.flip c l.reverse a := by
  induction l generalizing a with
  | nil => exact hp.symm
  | cons b l ih =>
    rw [List.reverse_cons]
    exact path_append.mpr ⟨ih hp.2, hp.1.symm⟩

lemma Circle.flip (hr : Circle L h l) : Circle L.flip h l.reverse where
  path := hr.path.flip
  nodup := by simpa using hr.nodup

lemma Circle.inverse (hr : Circle L h l) (hx : x ∈ h :: l) :
    L.prev (L.next x) = x ∧ L.next (L.prev x) = x := by
  refine ⟨hr.path.prev_next hx, hr.flip.path.prev_next ?_⟩
  simpa using hx

/-- The nodes come in the order of the list. -/
lemma Path.iterate (hp : Path L a l c) {i : ℕ} (hi : i < l.length) :
    L.next^[i + 1] a = l.get ⟨i, hi⟩ := by
  induction l generalizing a i with
  | nil => cases hi
  | cons b l ih =>
    rw [Function.iterate_succ_apply, hp.1.1]
    cases i with
    | zero => rfl
    | succ i => exact ih hp.2 (Nat.lt_of_succ_lt_succ hi)

lemma Path.iterate_end (hp : Path L a l c) : L.next^[l.length + 1] a = c := by
  induction l generalizing a with
  | nil => exact hp.1
  | cons b l ih =>
    rw [Function.iterate_succ_apply, hp.1.1]
    exact ih hp.2

variable [DecidableEq α]

/-- A loop that follows the links until it is back at `h` or a node passes the test. -/
def scan (step : α → α) (h : α) (p : α → Bool) : ℕ → α → Option α
  | 0, _ => none
  | n + 1, x => if x = h then none else if p x then some x else scan step h p n (step x)

lemma scan_some {step : α → α} (hs : scan step h p n x = some b) : p b = true := by
  induction n generalizing x with
  | zero => cases hs
  | succ n ih =>
    rw [scan] at hs
    split_ifs at hs with hx hp
    · cases hs
      exact hp
    · exact ih hs

lemma Path.scan (hp : Path L a l h) (hl : h ∉ l) (hn : l.length < n) :
    scan L.next h p n (L.next a) = l.find? p := by
  induction l generalizing a n with
  | nil =>
    obtain ⟨n, rfl⟩ := Nat.exists_eq_succ_of_ne_zero (Nat.ne_zero_of_lt hn)
    rw [hp.1, Ring.scan, if_pos rfl, List.find?_nil]
  | cons b l ih =>
    obtain ⟨n, rfl⟩ := Nat.exists_eq_succ_of_ne_zero (Nat.ne_zero_of_lt hn)
    obtain ⟨hb, hl⟩ := not_or.mp (mt List.mem_cons.mpr hl)
    rw [hp.1.1, Ring.scan, if_neg (Ne.symm hb), List.find?_cons]
    cases p b with
    | true => rfl
    | false => exact ih hp.2 hl (Nat.lt_of_succ_lt_succ hn)

lemma Circle.scan_next (hr : Circle L h l) (hn : l.length < n) :
    Ring.scan L.next h p n (L.next h) = l.find? p :=
  hr.path.scan (List.nodup_cons.mp hr.nodup).1 hn

/-! ### Surgery -/

def Links.setNext (L : Links α) (a b : α) : Links α := { L with next := update L.next a b }
def Links.setPrev (L : Links α) (a b : α) : Links α := { L with prev := update L.prev a b }

/-- Take a node out. -/
def unlink (L : Links α) (b : α) : Links α :=
  let L := L.setPrev (L.next b) (L.prev b)
  L.setNext (L.prev b) (L.next b)

/-- Put a node right behind `h`. -/
def push (L : Links α) (h b : α) : Links α :=
  let L := L.setNext b (L.next h)
  let L := L.setPrev b h
  let L := L.setPrev (L.next h) b
  L.setNext h b

lemma unlink_next (hb : L.next b ≠ b) (x : α) :
    (unlink L b).next x = if x = L.prev b then L.next b else L.next x := by
  simp [unlink, Links.setNext, Links.setPrev, update_apply, hb.symm]

lemma unlink_prev (x : α) : (unlink L b).prev x = if x = L.next b then L.prev b else L.prev x := by
  simp [unlink, Links.setNext, Links.setPrev, update_apply]

lemma push_next (hb : b ≠ h) (x : α) :
    (push L h b).next x = if x = h then b else if x = b then L.next h else L.next x := by
  simp [push, Links.setNext, Links.setPrev, update_apply, hb.symm]

lemma push_prev (hb : b ≠ h) (x : α) :
    (push L h b).prev x = if x = L.next h then b else if x = b then h else L.prev x := by
  simp [push, Links.setNext, Links.setPrev, update_apply, hb.symm]

lemma Path.unlink (h₁ : Path L a l₁ b) (h₂ : Path L b l₂ c) (ha : a ∉ l₁ ++ b :: l₂)
    (hnd : (l₁ ++ b :: l₂).Nodup) (hc : c ∉ l₁ ++ b :: l₂) : Path (unlink L b) a (l₁ ++ l₂) c := by
  induction l₁ generalizing a with
  | nil =>
    obtain ⟨hab, hba⟩ := h₁
    have hb := (List.nodup_cons.mp hnd).1
    cases l₂ with
    | nil =>
      have hbb : L.next b ≠ b := fun he => hc (by simp [← h₂.1, he])
      exact ⟨by simp [unlink_next hbb, hba, h₂.1], by simp [unlink_prev, hba, h₂.1]⟩
    | cons y l₂ =>
      obtain ⟨⟨hby, -⟩, hrest⟩ := h₂
      have hbb : L.next b ≠ b := fun he => hb (by simp [← hby, he])
      refine ⟨⟨by simp [unlink_next hbb, hba, hby], by simp [unlink_prev, hba, hby]⟩,
        hrest.congr ?_ ?_⟩
      · intro x hx
        rw [unlink_next hbb, if_neg]
        rintro rfl
        exact ha (List.mem_cons_of_mem b (hba ▸ hx))
      · intro x hx
        rw [unlink_prev, if_neg]
        rintro rfl
        rcases List.mem_cons.mp (hby ▸ hx) with rfl | hy
        · exact hc (by simp)
        · exact (List.nodup_cons.mp (List.nodup_cons.mp hnd).2).1 hy
  | cons x l₁ ih =>
    obtain ⟨⟨hax, hxa⟩, hrest⟩ := h₁
    obtain ⟨hx, hnd⟩ := List.nodup_cons.mp hnd
    have hbb : L.next b ≠ b := by
      intro he
      rcases List.mem_cons.mp h₂.next_mem with hbc | hbl
      · exact hc (by simp [← hbc, he])
      · rw [he] at hbl
        exact (List.nodup_cons.mp (List.nodup_append.mp hnd).2.1).1 hbl
    refine ⟨⟨?_, ?_⟩, ih hrest hx hnd fun h => hc (List.mem_cons_of_mem x h)⟩
    · rw [unlink_next hbb, if_neg, hax]
      rintro rfl
      rcases List.mem_cons.mp hrest.prev_mem with he | hl
      · exact ha (by simp [he])
      · exact ha (List.mem_cons_of_mem x (List.mem_append_left _ hl))
    · rw [unlink_prev, if_neg, hxa]
      rintro rfl
      rcases List.mem_cons.mp h₂.next_mem with he | hl
      · exact hc (by simp [he])
      · exact hx (List.mem_append_right _ (List.mem_cons_of_mem b hl))

lemma Circle.unlink (hr : Circle L h (l₁ ++ b :: l₂)) : Circle (unlink L b) h (l₁ ++ l₂) := by
  obtain ⟨h₁, h₂⟩ := path_append.mp hr.path
  obtain ⟨hh, hnd⟩ := List.nodup_cons.mp hr.nodup
  refine ⟨h₁.unlink h₂ hh hnd hh, List.nodup_cons.mpr ⟨?_, ?_⟩⟩
  · exact fun hm =>
      hh (List.mem_append.mpr ((List.mem_append.mp hm).imp_right (List.mem_cons_of_mem b)))
  · exact (List.perm_middle.nodup_iff.mp hnd).of_cons

lemma Circle.push (hr : Circle L h l) (hb : b ∉ h :: l) : Circle (push L h b) h (b :: l) := by
  obtain ⟨hbh, hbl⟩ := not_or.mp (mt List.mem_cons.mpr hb)
  obtain ⟨hh, hnd⟩ := List.nodup_cons.mp hr.nodup
  refine ⟨?_, List.nodup_cons.mpr ⟨?_, List.nodup_cons.mpr ⟨hbl, hnd⟩⟩⟩
  · have hp := hr.path
    cases l with
    | nil =>
      obtain ⟨hhh, -⟩ := hp
      exact ⟨⟨by simp [push_next hbh], by simp [push_prev hbh, hhh, hbh]⟩,
        by simp [push_next hbh, hbh, hhh], by simp [push_prev hbh, hhh]⟩
    | cons y l =>
      obtain ⟨⟨hy, -⟩, hrest⟩ := hp
      have hby : b ≠ y := fun he => hbl (by simp [he])
      refine ⟨⟨by simp [push_next hbh], by simp [push_prev hbh, hy, hby]⟩,
        ⟨by simp [push_next hbh, hbh, hy], by simp [push_prev hbh, hy]⟩, hrest.congr ?_ ?_⟩
      · intro x hx
        rw [push_next hbh, if_neg, if_neg]
        · rintro rfl
          exact hbl hx
        · rintro rfl
          exact hh hx
      · intro x hx
        rw [push_prev hbh, hy, if_neg, if_neg]
        · rintro rfl
          rcases List.mem_cons.mp hx with he | hl
          · exact hbh he
          · exact hbl (List.mem_cons_of_mem y hl)
        · rintro rfl
          rcases List.mem_cons.mp hx with he | hl
          · exact hh (by simp [he])
          · exact (List.nodup_cons.mp hnd).1 hl
  · rw [List.mem_cons, not_or]
    exact ⟨fun he => hbh he.symm, hh⟩

end Xv6.Lib.Ring
