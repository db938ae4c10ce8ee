import Mathlib.Algebra.BigOperators.Group.Finset.Piecewise
import Mathlib.Algebra.Order.BigOperators.Group.Finset
import Mathlib.Tactic.Ring

/-!
A tree of nodes that name each other, kept up to date by counting names.

A node of the tree has entries that name its children, and one that names its parent. What is named
need not be a node: a leaf may have any number of names. The number of names of a node or leaf, in
all nodes, is its in-degree.
-/

namespace Xv6.Lib.Forest

variable {ι : Type*} [DecidableEq ι]

/-- `kids y x` is the number of entries of `y` that name `x`, without the one for the parent. -/
structure Graph (ι : Type*) where
  node : Finset ι
  up : ι → ι
  kids : ι → ι → ℕ

def Graph.indeg (G : Graph ι) (i : ι) : ℕ := ∑ y ∈ G.node, (G.kids y i + if G.up y = i then 1 else 0)

/-- Every node has one name, in its parent, and the parents lead to the root `r`, which is its
own. -/
structure Tree (G : Graph ι) (r : ι) : Prop where
  root : r ∈ G.node
  rootUp : G.up r = r
  rootKids : ∀ y ∈ G.node, G.kids y r = 0
  parent : ∀ x ∈ G.node, x ≠ r →
    G.up x ∈ G.node ∧ ∀ y ∈ G.node, G.kids y x = if y = G.up x then 1 else 0
  depth : ∃ depth : ι → ℕ, ∀ x ∈ G.node, x ≠ r → depth (G.up x) < depth x

/-- `G'` is `G` with an entry of `y` for the leaf `x`. -/
structure Entered (G G' : Graph ι) (y x : ι) : Prop where
  node : G'.node = G.node
  up : ∀ z ∈ G.node, G'.up z = G.up z
  kids : ∀ z ∈ G.node, ∀ i, G'.kids z i = G.kids z i + if z = y ∧ i = x then 1 else 0

/-- `G'` is `G` with a new node `x` in `y`, which has no entries yet. -/
structure Grown (G G' : Graph ι) (y x : ι) : Prop where
  node : G'.node = insert x G.node
  fresh : x ∉ G.node
  up : ∀ z ∈ G.node, G'.up z = G.up z
  upNew : G'.up x = y
  kids : ∀ z ∈ G.node, ∀ i, G'.kids z i = G.kids z i + if z = y ∧ i = x then 1 else 0
  kidsNew : ∀ i, G'.kids x i = 0

variable {G G' : Graph ι} {r x y i : ι}

lemma Graph.kids_eq_zero (h : G.indeg i = 0) (hy : y ∈ G.node) : G.kids y i = 0 ∧ G.up y ≠ i := by
  have h0 := Finset.sum_eq_zero_iff.mp h y hy
  constructor
  · omega
  · intro he
    simp [he] at h0

lemma Graph.exists_of_indeg_pos (h : 0 < G.indeg i) :
    ∃ y ∈ G.node, 0 < G.kids y i ∨ G.up y = i := by
  by_contra hn
  push Not at hn
  have : G.indeg i = 0 := Finset.sum_eq_zero fun y hy => by
    obtain ⟨h1, h2⟩ := hn y hy
    rw [if_neg h2]
    omega
  omega

lemma sum_entry {s : Finset ι} (hy : y ∈ s) :
    ∑ z ∈ s, (if z = y ∧ i = x then 1 else 0) = if i = x then 1 else 0 := by
  by_cases hi : i = x
  · simp [hi, hy]
  · simp [hi]

lemma Entered.indeg (h : Entered G G' y x) (hy : y ∈ G.node) :
    G'.indeg i = G.indeg i + if i = x then 1 else 0 := by
  have hsum : ∀ z ∈ G.node, G'.kids z i + (if G'.up z = i then 1 else 0) =
      (G.kids z i + if G.up z = i then 1 else 0) + if z = y ∧ i = x then 1 else 0 := by
    intro z hz
    rw [h.kids z hz, h.up z hz]
    ring
  unfold Graph.indeg
  rw [h.node, Finset.sum_congr rfl hsum, Finset.sum_add_distrib, sum_entry hy]

/-- Only the entries of nodes for nodes matter. -/
lemma Tree.congr (ht : Tree G r) (hnode : G'.node = G.node) (hup : ∀ z ∈ G.node, G'.up z = G.up z)
    (hkids : ∀ z ∈ G.node, ∀ w ∈ G.node, G'.kids z w = G.kids z w) : Tree G' r := by
  obtain ⟨depth, hd⟩ := ht.depth
  refine ⟨hnode ▸ ht.root, by rw [hup r ht.root, ht.rootUp], fun z hz => ?_, fun w hw hne => ?_,
    depth, fun w hw hne => ?_⟩
  · rw [hnode] at hz
    rw [hkids z hz r ht.root, ht.rootKids z hz]
  · rw [hnode] at hw
    obtain ⟨hp, hk⟩ := ht.parent w hw hne
    rw [hup w hw, hnode]
    exact ⟨hp, fun z hz => by rw [hkids z hz w hw, hk z hz]⟩
  · rw [hnode] at hw
    rw [hup w hw]
    exact hd w hw hne

/-- A leaf is no node, so its entries are none of the names the tree counts. -/
lemma Entered.kids_node (h : Entered G G' y x) (hx : x ∉ G.node) {z w : ι} (hz : z ∈ G.node)
    (hw : w ∈ G.node) : G'.kids z w = G.kids z w := by
  have hne : w ≠ x := fun he => hx (he ▸ hw)
  rw [h.kids z hz w, if_neg fun hc => hne hc.2, Nat.add_zero]

lemma Entered.tree (h : Entered G G' y x) (ht : Tree G r) (hx : x ∉ G.node) : Tree G' r :=
  ht.congr h.node h.up fun _ hz _ hw => h.kids_node hx hz hw

/-- An entry for a leaf is taken away again. -/
lemma Entered.tree_back (h : Entered G G' y x) (ht : Tree G' r) (hx : x ∉ G.node) : Tree G r := by
  refine ht.congr h.node.symm (fun z hz => ?_) fun z hz w hw => ?_
  · rw [h.up z (h.node ▸ hz)]
  · rw [h.kids_node hx (h.node ▸ hz) (h.node ▸ hw)]

lemma Grown.indeg (h : Grown G G' y x) (hy : y ∈ G.node) :
    G'.indeg i = G.indeg i + (if i = x then 1 else 0) + if i = y then 1 else 0 := by
  have hsum : ∀ z ∈ G.node, G'.kids z i + (if G'.up z = i then 1 else 0) =
      (G.kids z i + if G.up z = i then 1 else 0) + if z = y ∧ i = x then 1 else 0 := by
    intro z hz
    rw [h.kids z hz, h.up z hz]
    ring
  unfold Graph.indeg
  rw [h.node, Finset.sum_insert h.fresh, Finset.sum_congr rfl hsum, Finset.sum_add_distrib,
    sum_entry hy,
    h.upNew, h.kidsNew]
  rw [if_congr (eq_comm (a := y) (b := i)) rfl rfl]
  ring

lemma Grown.tree (h : Grown G G' y x) (ht : Tree G r) (hy : y ∈ G.node) (hx : G.indeg x = 0) :
    Tree G' r := by
  have hxr : x ≠ r := fun he => h.fresh (he ▸ ht.root)
  have hxy : x ≠ y := fun he => h.fresh (he ▸ hy)
  obtain ⟨depth, hd⟩ := ht.depth
  -- what was a node before keeps its names
  have hkids {z w : ι} (hz : z ∈ G.node) (hw : w ≠ x) : G'.kids z w = G.kids z w := by
    rw [h.kids z hz w, if_neg fun hc => hw hc.2, Nat.add_zero]
  have hold {z : ι} (hz : z ∈ G.node) : z ≠ x := fun he => h.fresh (he ▸ hz)
  rw [show G' = ⟨G'.node, G'.up, G'.kids⟩ from rfl, h.node]
  refine ⟨Finset.mem_insert_of_mem ht.root, by rw [h.up r ht.root, ht.rootUp], fun z hz => ?_,
    fun w hw hne => ?_, Function.update depth x (depth y + 1), fun w hw hne => ?_⟩
  · rcases Finset.mem_insert.mp hz with rfl | hz
    · exact h.kidsNew r
    · exact (hkids hz hxr.symm).trans (ht.rootKids z hz)
  · rcases Finset.mem_insert.mp hw with rfl | hw
    · refine ⟨h.upNew ▸ Finset.mem_insert_of_mem hy, fun z hz => ?_⟩
      rw [h.upNew]
      rcases Finset.mem_insert.mp hz with rfl | hz
      · rw [if_neg hxy]
        exact h.kidsNew z
      · change G'.kids z w = _
        rw [h.kids z hz, (G.kids_eq_zero hx hz).1, Nat.zero_add]
        simp
    · obtain ⟨hp, hk⟩ := ht.parent w hw hne
      rw [h.up w hw]
      refine ⟨Finset.mem_insert_of_mem hp, fun z hz => ?_⟩
      rcases Finset.mem_insert.mp hz with rfl | hz
      · rw [if_neg (hold hp).symm]
        exact h.kidsNew w
      · exact (hkids hz (hold hw)).trans (hk z hz)
  · rcases Finset.mem_insert.mp hw with rfl | hw
    · rw [h.upNew, Function.update_self, Function.update_of_ne hxy.symm]
      exact Nat.lt_succ_self _
    · have hp := (ht.parent w hw hne).1
      rw [h.up w hw, Function.update_of_ne (hold hw), Function.update_of_ne (hold hp)]
      exact hd w hw hne

/-- A node without entries is taken away again: no other node has it as its parent. -/
lemma Grown.tree_back (h : Grown G G' y x) (ht : Tree G' r) (hxr : x ≠ r) : Tree G r := by
  have hin {z : ι} (hz : z ∈ G.node) : z ∈ G'.node := h.node ▸ Finset.mem_insert_of_mem hz
  have hold {z : ι} (hz : z ∈ G.node) : z ≠ x := fun he => h.fresh (he ▸ hz)
  have hmem {z : ι} (hz : z ∈ G'.node) (hne : z ≠ x) : z ∈ G.node := by
    rw [h.node] at hz
    exact (Finset.mem_insert.mp hz).resolve_left hne
  have hx : x ∈ G'.node := h.node ▸ Finset.mem_insert_self x _
  have hkids {z w : ι} (hz : z ∈ G.node) (hw : w ≠ x) : G.kids z w = G'.kids z w := by
    rw [h.kids z hz w, if_neg fun hc => hw hc.2, Nat.add_zero]
  have hroot := hmem ht.root hxr.symm
  obtain ⟨depth, hd⟩ := ht.depth
  refine ⟨hroot, by rw [← h.up r hroot, ht.rootUp], fun z hz => ?_, fun w hw hne => ?_,
    depth, fun w hw hne => ?_⟩
  · rw [hkids hz hxr.symm, ht.rootKids z (hin hz)]
  · obtain ⟨hp, hk⟩ := ht.parent w (hin hw) hne
    have hup : G'.up w ≠ x := by
      intro he
      have h1 := hk x hx
      rw [he, if_pos rfl, h.kidsNew] at h1
      cases h1
    rw [← h.up w hw]
    exact ⟨hmem hp hup, fun z hz => by rw [hkids hz (hold hw), hk z (hin hz)]⟩
  · rw [← h.up w hw]
    exact hd w (hin hw) hne

/-- What the entries lead to from the root. -/
inductive Reached (G : Graph ι) (r : ι) : ι → Prop
  | root : Reached G r r
  | entry {y x : ι} (hy : Reached G r y) (hn : y ∈ G.node) (hk : 0 < G.kids y x) : Reached G r x

lemma Tree.reached (ht : Tree G r) {x : ι} (hx : x ∈ G.node) : Reached G r x := by
  obtain ⟨depth, hd⟩ := ht.depth
  induction hn : depth x using Nat.strong_induction_on generalizing x with
  | h n ih =>
    by_cases hr : x = r
    · exact hr ▸ .root
    · obtain ⟨hp, hk⟩ := ht.parent x hx hr
      have hpos : 0 < G.kids (G.up x) x := by
        rw [hk _ hp, if_pos rfl]
        exact Nat.one_pos
      exact .entry (ih (depth (G.up x)) (hn ▸ hd x hx hr) hp rfl) hp hpos

lemma Tree.reached_of_indeg (ht : Tree G r) (hi : 0 < G.indeg i) : Reached G r i := by
  obtain ⟨y, hy, hk | hu⟩ := Graph.exists_of_indeg_pos hi
  · exact .entry (ht.reached hy) hy hk
  · by_cases hr : y = r
    · rw [← hu, hr, ht.rootUp]
      exact .root
    · exact hu ▸ ht.reached (ht.parent y hy hr).1

/-- A node that names nothing has one name. -/
lemma Tree.indeg_of_empty (ht : Tree G r) (hx : x ∈ G.node) (hxr : x ≠ r)
    (hempty : ∀ z, G.kids x z = 0) : G.indeg x = 1 := by
  obtain ⟨hp, hk⟩ := ht.parent x hx hxr
  have hsum : ∀ z ∈ G.node, G.kids z x + (if G.up z = x then 1 else 0) = if z =
    G.up x then 1 else 0 := by
    intro z hz
    have hne : G.up z ≠ x := by
      intro he
      by_cases hzr : z = r
      · rw [hzr, ht.rootUp] at he
        exact hxr he.symm
      · have h1 := (ht.parent z hz hzr).2 x hx
        rw [hempty, if_pos he.symm] at h1
        cases h1
    rw [hk z hz, if_neg hne, Nat.add_zero]
  unfold Graph.indeg
  rw [Finset.sum_congr rfl hsum]
  simp [hp]

/-- A node is named by its parent, and by each of its children. -/
lemma Tree.two_le_indeg (ht : Tree G r) (hx : x ∈ G.node) (hxr : x ≠ r) : 2 ≤ G.indeg (G.up x) := by
  set y := G.up x with hy
  have hyn := (ht.parent x hx hxr).1
  have hpos : ∀ z ∈ G.node, 0 ≤ G.kids z y + if G.up z = y then 1 else 0 := fun _ _ => Nat.zero_le _
  -- the node in which `y` has its name, or the root
  obtain ⟨p, hp, hname⟩ : ∃ p ∈ G.node, 1 ≤ G.kids p y ∨ p = r ∧ G.up p = y := by
    by_cases hr : y = r
    · exact ⟨r, ht.root, Or.inr ⟨rfl, by rw [ht.rootUp, hr]⟩⟩
    · obtain ⟨hup, hk⟩ := ht.parent y hyn hr
      exact ⟨G.up y, hup, Or.inl (by rw [hk _ hup, if_pos rfl])⟩
  by_cases hpx : p = x
  · have h1 : 1 ≤ G.kids x y := by
      rw [hpx] at hname
      exact hname.resolve_right fun hc => hxr hc.1
    have h2 := Finset.single_le_sum hpos hx
    rw [if_pos hy.symm] at h2
    unfold Graph.indeg
    omega
  · have h2 := Finset.add_le_sum hpos hp hx hpx
    rw [if_pos hy.symm] at h2
    unfold Graph.indeg
    rcases hname with h1 | ⟨-, h1⟩
    · omega
    · rw [if_pos h1] at h2
      omega

end Xv6.Lib.Forest
