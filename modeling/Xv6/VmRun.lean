import Xv6.ExecImage

/-!
A program of `vm.c` that runs alone: no page is lost, and memory changes only in pages that were
its own or on the free list when it started.
-/

namespace Xv6.PageTable

open Xv6.Lib.Own

variable {G α : Type}

/-- The memory of the pages that are not `mine`. -/
def foreign (mine : ℕ → Prop) (mem : ℕ → Page) : {pa // ¬ mine pa} → Page := fun pa => mem pa

/-- The tokens are the memory that the program must leave alone, which is all but that of the pages
it may own. -/
def soloSpec (kend : ℕ) (mine : ℕ → Prop) (halts : Panic → Prop) (s : G) (mem : ℕ → Page) :
    Spec G Vm ℕ Panic ({pa // ¬ mine pa} → Page) where
  own l := pages l.dir
  tok l := {foreign mine l.mem}
  shared _ := 0
  inv s' M := s' = s ∧ M = {foreign mine mem}
  valid pa := validPage kend pa ∧ mine pa
  halts := halts
  waits := False

variable {kend : ℕ} {halts : Panic → Prop} {s : G} {mem : ℕ → Page} {h : Heap ℕ} {p : VmProg G α}
  {Q : α → Vm → Multiset ℕ → Prop}

lemma vmSpec_soloSpec (hk : 0 < kend) {mine : ℕ → Prop} :
    VmSpec kend (soloSpec kend mine halts s mem) := by
  refine ⟨fun _ => rfl, fun l l' hm => ?_, fun l o pa c hc hpa => ?_, fun _ => And.left, hk⟩
  · change {foreign mine l'.mem} = ({foreign mine l.mem} : Multiset _)
    rw [hm]
  · have hmine := (hc.valid pa hpa).2
    change {foreign mine (l.setMem pa c).mem} = ({foreign mine l.mem} : Multiset _)
    refine congrArg _ (funext fun q => ?_)
    have hne : (q : ℕ) ≠ pa := fun e => q.2 (e ▸ hmine)
    exact Function.update_of_ne hne _ _

/-- The pages of the address space and the free ones are distinct pages of the allocator. -/
structure Alone (kend : ℕ) (free : List ℕ) (l : Vm) : Prop where
  nodup : (free + pages l.dir : Multiset ℕ).Nodup
  valid : ∀ pa ∈ (free + pages l.dir : Multiset ℕ), validPage kend pa

/-- No address space yet, with the memory of the machine. -/
def blank (mem : ℕ → Page) : Vm := ⟨Dir.null, mem⟩

lemma pages_blank (mem : ℕ → Page) : pages (blank mem).dir = 0 := pages_null

lemma alone_blank {free : List ℕ} (hn : free.Nodup) (hv : ∀ pa ∈ free, validPage kend pa)
    (mem : ℕ → Page) : Alone kend free (blank mem) := by
  refine ⟨?_, ?_⟩
  · rw [pages_blank, add_zero]
    exact Multiset.coe_nodup.mpr hn
  · rw [pages_blank, add_zero]
    exact hv

/-- How a run ends that meets `Q`, with the pages `T` in hand and memory changed only in pages that
are `mine`. -/
def AloneEnds (halts : Panic → Prop) (mine : ℕ → Prop) (T : Multiset ℕ) (s : G) (mem : ℕ → Page)
    (Q : α → Vm → Multiset ℕ → Prop) (r : Result G Vm ℕ Panic α) : Prop :=
  match r.out with
  | .done a => ∃ o, Q a r.loc o ∧ r.shared = s ∧
      (r.heap.free + (pages r.loc.dir + o) : Multiset ℕ) = T ∧
      ∀ pa, ¬ mine pa → r.loc.mem pa = mem pa
  | .halted e => halts e
  | .blocked => False

/-- **A program run alone** ends as its rules say, with all pages accounted for and no memory
changed but that of pages it may own. -/
theorem Alone.run {l : Vm} (ha : Alone kend h.free l) (fails : ℕ → Bool) {mine : ℕ → Prop}
    (hmine : ∀ pa ∈ (h.free + pages l.dir : Multiset ℕ), mine pa)
    (hp : wp (soloSpec kend mine halts s l.mem) p Q l 0) :
    AloneEnds halts mine (h.free + pages l.dir) s l.mem Q (Lib.Own.run fails p h s l) := by
  have hall : (h.free + 0 + (pages l.dir + 0) : Multiset ℕ) = h.free + pages l.dir := by
    rw [add_zero, add_zero]
  have hs : (soloSpec kend mine halts s l.mem).Safe 0 h.free s l 0 := by
    refine ⟨⟨rfl, zero_add _⟩, ?_, fun pa hpa => ?_⟩
    · change (h.free + 0 + (pages l.dir + 0) : Multiset ℕ).Nodup
      rw [hall]
      exact ha.nodup
    · have hpa' : pa ∈ (h.free + pages l.dir : Multiset ℕ) := hall ▸ hpa
      exact ⟨ha.valid pa hpa', hmine pa hpa'⟩
  have he := run_keeps fails hp hs hall
  unfold EndsWith at he
  unfold AloneEnds
  rcases hout : (Lib.Own.run fails p h s l).out with a | e | -
  · rw [hout] at he
    obtain ⟨o, hq, hs', hT⟩ := he
    obtain ⟨hshared, htok⟩ := hs'.inv
    rw [zero_add] at htok
    refine ⟨o, hq, hshared, ?_, fun pa hpa => ?_⟩
    · rw [← hT, show (soloSpec kend mine halts s l.mem).shared _ = 0 from rfl, add_zero]
      rfl
    · exact congrFun (Multiset.singleton_inj.mp htok) ⟨pa, hpa⟩
  · rwa [hout] at he
  · rwa [hout] at he

lemma blind_soloSpec :
    Blind (soloSpec kend (fun _ => True) halts s mem) := fun l l' => by
  change {foreign _ l'.mem} = ({foreign _ l.mem} : Multiset _)
  exact congrArg _ (funext fun q => absurd trivial q.2)

/-- A program that does not halt ends with all pages accounted for. -/
theorem Alone.run_done {l : Vm} (ha : Alone kend h.free l) (fails : ℕ → Bool)
    (hp : wp (soloSpec kend (fun _ => True) (fun _ => False) s l.mem) p Q l 0) :
    ∃ a h' l' o, Lib.Own.run fails p h s l = ⟨.done a, h', s, l'⟩ ∧ Q a l' o ∧
      (h'.free + (pages l'.dir + o) : Multiset ℕ) = h.free + pages l.dir := by
  have hends := ha.run fails (fun _ _ => trivial) hp
  unfold AloneEnds at hends
  rcases hr : Lib.Own.run fails p h s l with ⟨a | e | -, h', s', l'⟩
  · rw [hr] at hends
    obtain ⟨o, hq, hs, hall, -⟩ := hends
    exact ⟨a, h', l', o, by rw [← hs], hq, hall⟩
  · rw [hr] at hends
    exact hends.elim
  · rw [hr] at hends
    exact hends.elim

/-- A program that makes an address space takes its pages from the free list. -/
theorem run_blank (hn : h.free.Nodup) (hv : ∀ pa ∈ h.free, validPage kend pa) (fails : ℕ → Bool)
    (hp : wp (soloSpec kend (· ∈ h.free) halts s mem) p Q (blank mem) 0) :
    AloneEnds halts (· ∈ h.free) h.free s mem Q (run fails p h s (blank mem)) := by
  have hmine : ∀ pa ∈ (h.free + pages (blank mem).dir : Multiset ℕ), pa ∈ h.free := by
    rw [pages_blank, add_zero]
    exact fun pa => Multiset.mem_coe.mp
  have hends := (alone_blank hn hv mem).run fails hmine hp
  rwa [pages_blank, add_zero] at hends

end Xv6.PageTable
