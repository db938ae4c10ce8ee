import Xv6.Block
import Xv6.FsLinks

/-!
What a system call takes it gives back: buffers, locks and references of inodes, and its place in
the log. What the disk holds does not matter for this, so the calls are looked at over any disk
whose functions return with the buffers they were called with; the blocks are such a disk.
-/

namespace Xv6.Fs

open Xv6.Lib.Wp

/-! ### Buffers -/

/-- Called with the buffers `h` locked, the function returns with `h'`, if it does. -/
def Holding {α : Type} (m : DiskM Blk α) (h h' : List ℕ) : Prop :=
  ∀ s, s.held = h → wp m (fun _ s' => s'.held = h') (fun _ => True) s

section Holding

attribute [local grind =] Blk.setUsed Blk.setDinode Blk.setBlock Blk.setAddr Blk.setSize

variable {α β : Type} {m m' : DiskM Blk α} {f : α → DiskM Blk β} {h h₁ h₂ : List ℕ} {b : ℕ}

lemma holding_bind (hm : Holding m h h₁) (hf : ∀ a, Holding (f a) h₁ h₂) : Holding (m >>= f) h h₂ :=
  fun s hs => wp_bind (wp_mono (hm s hs) (fun a s' hs' => hf a s' hs') fun _ => id)

@[local grind ←] lemma holding_pure (a : α) : Holding (pure a) h h := fun _ hs => wp_pure hs

@[local grind ←] lemma holding_get : Holding get h h := fun _ hs => wp_get hs

@[local grind ←]
lemma holding_modify {g : Blk → Blk} (hg : ∀ s, (g s).held = s.held) : Holding (modify g) h h :=
  fun s hs => wp_modify ((hg s).trans hs)

@[local grind ←]
lemma holding_throw (e : Stop) : Holding (throw e : DiskM Blk α) h h₁ := fun _ _ => wp_throw trivial

lemma holding_ite {p : Prop} [Decidable p] (ht : Holding m h h₁) (hf : Holding m' h h₁) :
    Holding (if p then m else m') h h₁ :=
  fun s hs => wp_ite (fun _ => ht s hs) fun _ => hf s hs

/-- A program that returns with the buffers it was called with. -/
@[local grind ←] lemma holding_then (hm : Holding m h h) (hf : ∀ a, Holding (f a) h h₁) :
    Holding (m >>= f) h h₁ := holding_bind hm hf

/-- Between `bread` and `brelse` there is one buffer more. -/
@[local grind ←]
lemma holding_bread {f : Unit → DiskM Blk β} (hf : Holding (f ()) (b :: h) h₁) :
    Holding (bread b >>= f) h h₁ := by
  have hb : Holding (bread b) h (b :: h) := by
    intro s hs
    unfold bread
    refine wp_bind (wp_get (wp_ite (fun _ => wp_throw trivial) fun _ => wp_set ?_))
    exact congrArg (b :: ·) hs
  exact holding_bind hb fun _ => hf

@[local grind ←] lemma holding_brelse : Holding (brelse b) (b :: h) h := by
  intro s hs
  refine wp_modify ?_
  change s.held.erase b = h
  rw [hs, List.erase_cons_head]

@[local grind ←] lemma holding_brelse_bind {f : Unit → DiskM Blk β} (hf : Holding (f ()) h h₁) :
    Holding (brelse b >>= f) (b :: h) h₁ := holding_bind holding_brelse fun _ => hf

@[local grind ←] lemma holding_logWrite : Holding (logWrite b) h h := holding_modify fun _ => rfl

@[local grind ←] lemma holding_readsb : Holding readsb h h := by grind [readsb]

@[local grind ←] lemma holding_bzero : Holding (bzero b) h h := by grind [bzero]

@[local grind ←] lemma holding_ballocFrom (sb : Super) (b : ℕ) : Holding (ballocFrom sb b) h h := by
  fun_induction ballocFrom sb b with
  | case1 b hb ih =>
    refine holding_bread (holding_then holding_get fun s => ?_)
    grind
  | case2 b hb => exact holding_throw _

@[local grind ←] lemma holding_balloc : Holding balloc h h := by grind [balloc]

@[local grind ←] lemma holding_bfree : Holding (bfree b) h h := 
  holding_then holding_readsb fun _ => holding_then holding_get fun _ => by grind

@[local grind ←] lemma holding_iupdate {i : ℕ} : Holding (iupdate i) h h := by grind [iupdate]

variable {ip : ℕ}

variable {k addr : ℕ}

@[local grind ←]
lemma holding_bmapAddr : Holding (bmapAddr ip k) h h := by grind [bmapAddr]

@[local grind ←]
lemma holding_bmapEntry : Holding (bmapEntry addr k) h h := by grind [bmapEntry]

@[local grind ←] lemma holding_bmap {bn : ℕ} : Holding (bmap ip bn) h h := by grind [bmap]

@[local grind ←]
lemma holding_freeAddrs (ks : List ℕ) : Holding (freeAddrs ip ks) h h := by
  induction ks with grind [freeAddrs, freeAddr]

@[local grind ←]
lemma holding_freeEntries (ks : List ℕ) : Holding (freeEntries addr ks) h h := by
  induction ks with grind [freeEntries, freeEntry]

@[local grind ←] lemma holding_freeIndirect : Holding (freeIndirect ip) h h := by
  refine holding_then holding_get fun s => holding_ite (holding_pure _) (holding_bread ?_)
  exact holding_then (holding_freeEntries _) fun _ => by grind

@[local grind ←] lemma holding_itrunc : Holding (itrunc ip) h h := by grind [itrunc]

@[local grind ←] lemma holding_ifree : Holding (ifree ip) h h := by grind [ifree]

@[local grind ←]
lemma holding_iallocFrom {type : InodeType} (is : List ℕ) : Holding (iallocFrom type is) h h := by
  induction is with grind [iallocFrom]

@[local grind ←] lemma holding_readBytes (ip off n : ℕ) : Holding (readBytes ip off n) h h := by
  fun_induction readBytes ip off n with grind

@[local grind ←]
lemma holding_readi (ip off n : ℕ) : Holding (readi ip off n) h h := by grind [readi]

@[local grind ←]
lemma holding_writeBytes (ip off : ℕ) (src : List UInt8) : Holding (writeBytes ip off src) h h := by
  fun_induction writeBytes ip off src with grind

@[local grind ←]
lemma holding_writei (ip off : ℕ) (src : List UInt8) : Holding (Blk.writei ip off src) h h := by
  grind [Blk.writei]

@[local grind ←] lemma holding_readEnt (dp k : ℕ) (p : Panic) : Holding (readEnt dp k p) h h := by
  grind [readEnt]

@[local grind ←] lemma holding_searchFrom (dp : ℕ) (name : Name) (ks : List ℕ) :
    Holding (searchFrom dp name ks) h h := by
  induction ks with grind [searchFrom]

@[local grind ←]
lemma holding_slotFrom (dp n : ℕ) (ks : List ℕ) : Holding (slotFrom dp n ks) h h := by
  induction ks with grind [slotFrom]

@[local grind ←]
lemma holding_emptyFrom (dp : ℕ) (ks : List ℕ) : Holding (emptyFrom dp ks) h h := by
  induction ks with grind [emptyFrom]

@[local grind ←]
lemma holding_writeEnt (dp k : ℕ) (bytes : List UInt8) : Holding (writeEnt dp k bytes) h h := by
  grind [writeEnt]
end Holding

/-! ### Calls over any disk -/

/-- The functions on the disk return to the states `quiet` from which they are called. -/
structure Neutral (D : Type) [Files D] (quiet : D → Prop) : Prop where
  load : ∀ i d, quiet d → wp (Files.load i) (fun _ d' => quiet d') (fun _ => True) d
  iupdate : ∀ i f d, quiet d → wp (Files.iupdate i f) (fun _ d' => quiet d') (fun _ => True) d
  search : ∀ i n d, quiet d → wp (Files.search i n) (fun _ d' => quiet d') (fun _ => True) d
  enter : ∀ i e d, quiet d → wp (Files.enter i e) (fun _ d' => quiet d') (fun _ => True) d
  clear : ∀ i k d, quiet d → wp (Files.clear i k) (fun _ d' => quiet d') (fun _ => True) d
  isdirempty : ∀ i d, quiet d → wp (Files.isdirempty i) (fun _ d' => quiet d') (fun _ => True) d
  itrunc : ∀ i d, quiet d → wp (Files.itrunc i) (fun _ d' => quiet d') (fun _ => True) d
  ialloc : ∀ t d, quiet d → wp (Files.ialloc t) (fun _ d' => quiet d') (fun _ => True) d
  readi : ∀ i off n d, quiet d → wp (Files.readi i off n) (fun _ d' => quiet d') (fun _ => True) d

/-- The functions on blocks leave the buffers that are locked as they were. -/
lemma neutral_blk (h : List ℕ) : Neutral Blk fun s => s.held = h where
  load _ := holding_then holding_get fun _ => holding_bread holding_brelse
  iupdate _ _ := holding_then (holding_modify fun _ => rfl) fun _ => holding_iupdate
  search _ _ := holding_then holding_get fun _ => holding_searchFrom _ _ _
  enter _ _ := holding_then holding_get fun _ => holding_then (holding_slotFrom _ _ _) fun _ =>
    holding_writeEnt _ _ _
  clear _ _ := holding_writeEnt _ _ _
  isdirempty _ := holding_then holding_get fun _ => holding_emptyFrom _ _
  itrunc _ := holding_ifree
  ialloc _ := holding_then holding_get fun _ => holding_iallocFrom _
  readi _ _ _ := holding_then (holding_readi _ _ _) fun _ => holding_pure _

/-- The references `xs` and the locks `L` of a call, besides the references `base`. -/
structure Holds (base : ℕ → ℕ) (xs : Multiset ℕ) (L : Set ℕ) (c : Cache) : Prop where
  ref : ∀ i, c.ref i = base i + xs.count i
  locked : ∀ i, c.locked i = true ↔ i ∈ L

/-- A state in the middle of a call. -/
structure At {P D : Type} (quiet : D → Prop) (pr : Procs P) (base : ℕ → ℕ) (xs : Multiset ℕ) (L : Set ℕ)
    (s : St P D) : Prop where
  disk : quiet s.disk
  procs : s.procs = pr
  cache : Holds base xs L s.cache

section Calls

variable {P D α β : Type} {quiet : D → Prop} {base : ℕ → ℕ}

/-- How a call stops does not matter here. -/
def AnyStop (_ : Stop) : Prop := True

/-- What a call has in its hands: the processes as it leaves them, its references and its locks. -/
structure Load (P : Type) where
  procs : Procs P
  refs : Multiset ℕ
  locks : Set ℕ

/-- From the states in which a call has the load `l` it returns with one that satisfies `Q`, if the
functions on the disk are neutral. -/
def Runs [Files D] (quiet : D → Prop) (base : ℕ → ℕ) (m : FsM P D α) (Q : α → Load P → Prop)
    (l : Load P) : Prop :=
  Neutral D quiet → ∀ s, At quiet l.procs base l.refs l.locks s →
    wp m (fun a s' => ∃ l', At quiet l'.procs base l'.refs l'.locks s' ∧ Q a l') AnyStop s

variable [Files D] {m m' : FsM P D α} {f : α → FsM P D β} {Q : α → Load P → Prop} {l : Load P}
  {pr : Procs P} {xs : Multiset ℕ} {L : Set ℕ} {s : St P D} {i : ℕ}

namespace Runs

lemma pure {a : α} (h : Q a l) : Runs quiet base (pure a) Q l :=
  fun _ _ hs => wp_pure ⟨l, hs, h⟩

lemma bind {Q : β → Load P → Prop}
    (h : Runs quiet base m (fun a l => Runs quiet base (f a) Q l) l) :
    Runs quiet base (m >>= f) Q l :=
  fun hN s hs => wp_bind (wp_mono (h hN s hs) (fun _ s' ⟨_, hs', hf⟩ => hf hN s' hs') fun _ => id)

lemma ite {p : Prop} [Decidable p] (h : Runs quiet base m Q l) (h' : Runs quiet base m' Q l) :
    Runs quiet base (if p then m else m') Q l :=
  fun hN s hs => wp_ite (fun _ => h hN s hs) fun _ => h' hN s hs

lemma throw (e : Stop) : Runs quiet base (throw e) Q l := fun _ _ _ => wp_throw trivial

lemma get {Q : St P D → Load P → Prop} (h : ∀ s : St P D, s.procs = l.procs → Q s l) :
    Runs quiet base get Q l := fun _ s hs => wp_get ⟨l, hs, h s hs.procs⟩

lemma setProcs {g : Procs P → Procs P} {Q : Unit → Load P → Prop} (h : Q () ⟨g pr, xs, L⟩) :
    Runs quiet base (setProcs g) Q ⟨pr, xs, L⟩ :=
  fun _ _ hs => wp_modify ⟨⟨g pr, xs, L⟩, ⟨hs.disk, congrArg g hs.procs, hs.cache⟩, h⟩

lemma setCache {g : Cache → Cache} {xs' : Multiset ℕ} {L' : Set ℕ} {Q : Unit → Load P → Prop}
    (hg : ∀ c, Holds base xs L c → Holds base xs' L' (g c)) (h : Q () ⟨pr, xs', L'⟩) :
    Runs quiet base (setCache g) Q ⟨pr, xs, L⟩ :=
  fun _ _ hs => wp_modify ⟨⟨pr, xs', L'⟩, ⟨hs.disk, hs.procs, hg _ hs.cache⟩, h⟩

lemma onDisk {x : DiskM D α}
    (hx : Neutral D quiet → ∀ d, quiet d → wp x (fun _ d' => quiet d') (fun _ => True) d)
    (h : ∀ a, Q a l) : Runs quiet base (onDisk x) Q l :=
  fun hN _ hs => wp_onDisk (wp_mono (hx hN _ hs.disk)
    (fun a _ hd => ⟨l, ⟨hd, hs.procs, hs.cache⟩, h a⟩) fun _ _ => trivial)

lemma inode {Q : Info → Load P → Prop} (h : ∀ x, Q x l) :
    Runs quiet base (inode i) Q l := fun _ _ hs => ⟨l, hs, h _⟩

end Runs

variable {c : Cache}

lemma holds_ref {c' : Cache} {n : ℕ} {ys : Multiset ℕ} (h : Holds base xs L c)
    (hn : n = base i + ys.count i) (hys : ∀ j ≠ i, ys.count j = xs.count j)
    (href : c'.ref = Function.update c.ref i n) (hl : c'.locked = c.locked) :
    Holds base ys L c' := by
  refine ⟨fun j => ?_, hl ▸ h.locked⟩
  by_cases hj : j = i
  · simp [href, hj, hn]
  · simp [href, hj, hys, h.ref]

lemma Holds.more (h : Holds base xs L c) : Holds base (i ::ₘ xs) L (c.setRef i (c.ref i + 1)) :=
  holds_ref h (by rw [h.ref, Multiset.count_cons_self]; omega)
    (fun _ hj => Multiset.count_cons_of_ne hj _) rfl rfl

lemma Holds.lock (h : Holds base xs L c) : Holds base xs (insert i L) (c.setLocked i true) := by
  refine ⟨h.ref, fun j => ?_⟩
  by_cases hj : j = i
  · simp [Cache.setLocked, hj]
  · simp [Cache.setLocked, hj, h.locked]

lemma Holds.unlock (hi : i ∉ L) (h : Holds base xs (insert i L) c) :
    Holds base xs L (c.setLocked i false) := by
  refine ⟨h.ref, fun j => ?_⟩
  by_cases hj : j = i
  · simp [Cache.setLocked, hj, hi]
  · simp [Cache.setLocked, hj, h.locked]

namespace Runs

variable {Q : Unit → Load P → Prop}

lemma iget (h : Q () ⟨pr, i ::ₘ xs, L⟩) : Runs quiet base (iget i) Q ⟨pr, xs, L⟩ := by
  refine .bind (.get fun s _ => .ite (.throw _) (.setCache (fun c hc => ?_) h))
  unfold Cache.hold
  split_ifs with hpos
  · exact hc.more
  · have hi := hc.ref i
    exact holds_ref hc (n := 1) (i := i) (by rw [Multiset.count_cons_self]; omega)
      (fun _ hj => Multiset.count_cons_of_ne hj _) rfl rfl

lemma idup (h : Q () ⟨pr, i ::ₘ xs, L⟩) : Runs quiet base (idup i) Q ⟨pr, xs, L⟩ :=
  .setCache (fun _ hc => hc.more) h

/-- A lock that is taken is not the caller's before. -/
lemma acquiresleep (h : i ∉ L → Q () ⟨pr, xs, insert i L⟩) :
    Runs quiet base (acquiresleep i) Q ⟨pr, xs, L⟩ := by
  intro _ s hs
  refine wp_bind (wp_get (wp_ite (fun _ => wp_throw trivial) fun hl => wp_modify ⟨_, ?_, h ?_⟩))
  · exact ⟨hs.disk, hs.procs, hs.cache.lock⟩
  · exact fun hi => hl ((hs.cache.locked i).mpr hi)

lemma releasesleep (hi : i ∉ L) (h : Q () ⟨pr, xs, L⟩) :
    Runs quiet base (releasesleep i) Q ⟨pr, xs, insert i L⟩ :=
  .setCache (fun _ hc => hc.unlock hi) h

lemma setValid {v : Bool} (h : Q () ⟨pr, xs, L⟩) :
    Runs quiet base (Fs.setCache fun c => c.setValid i v) Q ⟨pr, xs, L⟩ :=
  .setCache (fun _ hc => ⟨hc.ref, hc.locked⟩) h

lemma ilock (h : i ∉ L → Q () ⟨pr, xs, insert i L⟩) : Runs quiet base (ilock i) Q ⟨pr, xs, L⟩ := by
  refine .bind (.get fun s _ => .ite (.throw _) (.bind (.acquiresleep fun hi => ?_)))
  refine .ite (.pure (h hi)) (.bind (.onDisk (fun hN => hN.load i) fun _ => .bind (.setValid ?_)))
  exact .bind (.inode fun x => .ite (.throw _) (.pure (h hi)))

lemma iunlock (hi : i ∉ L) (h : Q () ⟨pr, xs, L⟩) :
    Runs quiet base (iunlock i) Q ⟨pr, xs, insert i L⟩ :=
  .bind (.get fun _ _ => .ite (.throw _) (.releasesleep hi h))

lemma drop (h : Q () ⟨pr, xs, L⟩) :
    Runs quiet base (Fs.setCache fun c => c.drop i) Q ⟨pr, i ::ₘ xs, L⟩ := by
  refine .setCache (fun c hc => ?_) h
  have hi := hc.ref i
  rw [Multiset.count_cons_self] at hi
  exact holds_ref hc (i := i) (n := c.ref i - 1) (by omega)
    (fun _ hj => (Multiset.count_cons_of_ne hj _).symm) rfl rfl

lemma iput (h : Q () ⟨pr, xs, L⟩) : Runs quiet base (iput i) Q ⟨pr, i ::ₘ xs, L⟩ := by
  refine .bind (.acquiresleep fun hi => .bind (.get fun s _ => .bind (.inode fun x => ?_)))
  have hend : Runs quiet base (do Fs.releasesleep i; Fs.setCache fun c => c.drop i) Q
      ⟨pr, i ::ₘ xs, insert i L⟩ := .bind (.releasesleep hi (.drop h))
  exact .ite (.bind (.onDisk (fun hN => hN.itrunc i) fun _ => .bind (.setValid hend))) hend

lemma iunlockput (hi : i ∉ L) (h : Q () ⟨pr, xs, L⟩) :
    Runs quiet base (iunlockput i) Q ⟨pr, i ::ₘ xs, insert i L⟩ :=
  .bind (.iunlock hi (.iput h))

variable {type : InodeType} {dp : ℕ} {path : List UInt8}

lemma ialloc {Q : ℕ → Load P → Prop} (h : ∀ i, Q i ⟨pr, i ::ₘ xs, L⟩) :
    Runs quiet base (ialloc type) Q ⟨pr, xs, L⟩ :=
  .bind (.onDisk (fun hN => hN.ialloc type) fun i => .bind (.iget (.pure (h i))))

variable {name : Name} {parent : Bool} {major minor : ℤ} {reads : List (ℕ × ℕ)}

lemma dirlookup {Q : Option (ℕ × ℕ) → Load P → Prop} (hnone : Q none ⟨pr, xs, L⟩)
    (hsome : ∀ i off, Q (some (i, off)) ⟨pr, i ::ₘ xs, L⟩) :
    Runs quiet base (dirlookup dp name) Q ⟨pr, xs, L⟩ := by
  refine .bind (.inode fun x => .ite (.throw _) (.bind (.onDisk (fun hN => hN.search dp name) ?_)))
  rintro (_ | ⟨i, off⟩)
  · exact .pure hnone
  · exact .bind (.iget (.pure (hsome i off)))

lemma dirlink {inum : ℕ} {Q : ℤ → Load P → Prop} (h : ∀ r, Q r ⟨pr, xs, L⟩) :
    Runs quiet base (dirlink dp name inum) Q ⟨pr, xs, L⟩ := by
  refine .bind (.dirlookup ?_ fun i off => .bind (.iput (.pure (h (-1)))))
  exact .bind (.onDisk (fun hN => hN.enter dp _) fun r => .ite (.pure (h 0)) (.throw _))

/-- The loop of `namex` gives up the inode it holds, or returns with another one. -/
lemma namexFrom {Q : Option (ℕ × Name) → Load P → Prop} (hnone : Q none ⟨pr, xs, L⟩)
    (hsome : ∀ j name, Q (some (j, name)) ⟨pr, j ::ₘ xs, L⟩) :
    Runs quiet base (namexFrom parent i path) Q ⟨pr, i ::ₘ xs, L⟩ := by
  induction hn : path.length using Nat.strong_induction_on generalizing path i with
  | h n ih =>
  rw [Fs.namexFrom]
  split
  · exact .ite (.bind (.iput (.pure hnone))) (.pure (hsome i []))
  · next name rest hs =>
    refine .bind (.ilock fun hi => .bind (.inode fun x => ?_))
    have hfail : Runs quiet base (do Fs.iunlockput i; Pure.pure none) Q
        ⟨pr, i ::ₘ xs, insert i L⟩ := .bind (.iunlockput hi (.pure hnone))
    refine .ite hfail (.ite (.bind (.iunlock hi (.pure (hsome i name)))) ?_)
    refine .bind (.dirlookup hfail fun j off => ?_)
    rw [Multiset.cons_swap]
    exact .bind (.iunlockput hi (ih rest.length (hn ▸ skipelem_length hs) rfl))

lemma namex {me : P} {Q : Option (ℕ × Name) → Load P → Prop} (hnone : Q none ⟨pr, xs, L⟩)
    (hsome : ∀ j name, Q (some (j, name)) ⟨pr, j ::ₘ xs, L⟩) :
    Runs quiet base (namex me path parent) Q ⟨pr, xs, L⟩ :=
  .ite (.bind (.iget (.namexFrom hnone hsome)))
    (.bind (.get fun _ _ => .bind (.idup (.namexFrom hnone hsome))))

lemma namei {me : P} {Q : Option ℕ → Load P → Prop} (hnone : Q none ⟨pr, xs, L⟩)
    (hsome : ∀ j, Q (some j) ⟨pr, j ::ₘ xs, L⟩) :
    Runs quiet base (namei me path) Q ⟨pr, xs, L⟩ :=
  .bind (.namex (.pure hnone) fun j _ => .pure (hsome j))

lemma addLink {n : ℤ} (h : Q () l) : Runs quiet base (addLink i n) Q l :=
  .onDisk (fun hN => hN.iupdate _ _) fun _ => h

lemma endOp {a : α} {Q : α → Load P → Prop} (h : Q a ⟨pr.endOp, xs, L⟩) :
    Runs quiet base (do endOp; Pure.pure a) Q ⟨pr, xs, L⟩ := .bind (.setProcs (.pure h))

variable {Q : ℤ → Load P → Prop} {me : P} {path : List UInt8}

/-- The end of a call that holds one inode, locked. -/
lemma close {r : ℤ} (hi : i ∉ L) (h : Q r ⟨pr.endOp, xs, L⟩) :
    Runs quiet base (do Fs.iunlockput i; Fs.endOp; Pure.pure r) Q
      ⟨pr, i ::ₘ xs, insert i L⟩ := .bind (.iunlockput hi (.endOp h))

lemma linkBad (h : Q (-1) ⟨pr.endOp, xs, L⟩) : Runs quiet base (linkBad i) Q ⟨pr, i ::ₘ xs, L⟩ :=
  .bind (.ilock fun hi => .bind (.addLink (.close hi h)))

lemma linkOp {old new : List UInt8} (h : ∀ r, Q r ⟨pr.endOp, xs, L⟩) :
    Runs quiet base (linkOp me old new) Q ⟨pr, xs, L⟩ := by
  refine .bind (.namei (.endOp (h (-1))) fun ip => .bind (.ilock fun hip => .bind (.inode fun x => ?_)))
  refine .ite (.close hip (h (-1))) (.bind (.addLink (.bind (.iunlock hip ?_))))
  refine .bind (.namex (.linkBad (h (-1))) fun dp name => .bind (.ilock fun hdp => ?_))
  refine .bind (.dirlink fun r => .ite (.bind (.iunlockput hdp (.linkBad (h (-1))))) ?_)
  exact .bind (.iunlockput hdp (.bind (.iput (.endOp (h 0)))))

lemma hasEntries {x : Info} {Q : Bool → Load P → Prop} (h : ∀ r, Q r l) :
    Runs quiet base (hasEntries i x) Q l :=
  .ite (.bind (.onDisk (fun hN => hN.isdirempty i) fun _ => .pure (h _))) (.pure (h _))

/-- Of two inodes that are locked the one that was first is released first. -/
lemma swap (hdp : dp ∉ L) (hi : i ∉ insert dp L) {Q : α → Load P → Prop}
    (h : dp ∉ insert i L → i ∉ L → Runs quiet base m Q
      ⟨pr, dp ::ₘ i ::ₘ xs, insert dp (insert i L)⟩) :
    Runs quiet base m Q ⟨pr, i ::ₘ dp ::ₘ xs, insert i (insert dp L)⟩ := by
  rw [Multiset.cons_swap, Set.insert_comm]
  rw [Set.mem_insert_iff, not_or] at hi
  exact h (fun hm => (Set.mem_insert_iff.mp hm).elim (fun he => hi.1 he.symm) hdp) hi.2

lemma unlinkOp (h : ∀ r, Q r ⟨pr.endOp, xs, L⟩) :
    Runs quiet base (unlinkOp me path) Q ⟨pr, xs, L⟩ := by
  refine .bind (.namex (.endOp (h (-1))) fun dp name => .bind (.ilock fun hdp => ?_))
  have hbad : Runs quiet base (unlinkBad dp) Q ⟨pr, dp ::ₘ xs, insert dp L⟩ :=
    .close hdp (h (-1))
  refine .ite hbad (.bind (.dirlookup hbad fun ip off => .bind (.ilock fun hip => ?_)))
  refine .bind (.inode fun x => .ite (.throw _) (.bind (.hasEntries fun r =>
    .ite (.bind (.iunlockput hip hbad)) ?_)))
  have hend : Runs quiet base (do Fs.iunlockput dp; Fs.addLink ip (-1); Fs.iunlockput ip; Fs.endOp
                                  Pure.pure 0) Q
      ⟨pr, ip ::ₘ dp ::ₘ xs, insert ip (insert dp L)⟩ :=
    .swap hdp hip fun hdp hip => .bind (.iunlockput hdp (.bind (.addLink (.close hip (h 0)))))
  refine .bind (.onDisk (fun hN => hN.clear dp off) fun r => .ite ?_ (.throw _))
  exact .ite (.bind (.addLink hend)) hend

lemma createDots {ip : ℕ} {Q : Unit → Load P → Prop} (h : Q () ⟨pr, xs, L⟩) :
    Runs quiet base (createDots ip dp) Q ⟨pr, xs, L⟩ :=
  .bind (.addLink (.bind (.dirlink fun _ => .ite (.throw _)
    (.bind (.dirlink fun _ => .ite (.throw _) (.pure h))))))

lemma create {Q : Option ℕ → Load P → Prop} (hnone : Q none ⟨pr, xs, L⟩)
    (hsome : ∀ ip, ip ∉ L → Q (some ip) ⟨pr, ip ::ₘ xs, insert ip L⟩) :
    Runs quiet base (create me path type major minor) Q ⟨pr, xs, L⟩ := by
  refine .bind (.namex (.pure hnone) fun dp name => .bind (.ilock fun hdp => .bind
    (.dirlookup ?_ fun ip off => ?_)))
  · refine .bind (.ialloc fun ip => .bind (.ilock fun hip => ?_))
    have hend : Runs quiet base (do
          if (← Fs.dirlink dp name ip) < 0 then stop .createDirlink
          else
            Fs.iunlockput dp
            Pure.pure (some ip)) Q
        ⟨pr, ip ::ₘ dp ::ₘ xs, insert ip (insert dp L)⟩ :=
      .swap hdp hip fun hdp hip => .bind (.dirlink fun _ => .ite (.throw _)
        (.bind (.iunlockput hdp (.pure (hsome ip hip)))))
    refine .bind (.onDisk (fun hN => hN.iupdate _ _) fun _ => ?_)
    exact .ite (.bind (.createDots hend)) hend
  · rw [Multiset.cons_swap]
    refine .bind (.iunlockput hdp (.bind (.ilock fun hip => .bind (.inode fun x => ?_))))
    exact .ite (.pure (hsome ip hip)) (.bind (.iunlockput hip (.pure hnone)))

lemma makeOp (h : ∀ r, Q r ⟨pr.endOp, xs, L⟩) :
    Runs quiet base (makeOp me path type major minor) Q ⟨pr, xs, L⟩ :=
  .bind (.create (.endOp (h (-1))) fun _ hip => .close hip (h 0))

lemma execReads {Q : Unit → Load P → Prop} (hi : i ∉ L) (h : Q () ⟨pr, xs, insert i L⟩) :
    Runs quiet base (execReads i reads) Q ⟨pr, xs, insert i L⟩ := by
  induction reads with
  | nil => exact .pure h
  | cons r reads ih =>
    refine .bind (.inode fun x => .ite (.ite ?_ ih) ?_)
    · exact .bind (.iunlock hi (.bind (.ilock fun _ => ih)))
    · exact .bind (.onDisk (fun hN => hN.readi _ _ _) fun _ => ih)

lemma execOp {loads : Bool} (h : ∀ r, Q r ⟨pr.endOp, xs, L⟩) :
    Runs quiet base (execOp me path reads loads) Q ⟨pr, xs, L⟩ :=
  .bind (.namei (.endOp (h (-1))) fun _ => .bind (.ilock fun hi =>
    .bind (.execReads hi (.close hi (h _)))))

variable [DecidableEq P]

/-- A file that is opened keeps the reference. -/
lemma openInode (hi : i ∉ L) (hfail : Q (-1) ⟨pr.endOp, xs, L⟩)
    (hok : ∀ fd : Fin NOFILE, pr.ofile me fd = none →
      Q fd ⟨pr.endOp.setFd me fd (some i) (pr.nfile - 1), i ::ₘ xs, L⟩) :
    Runs quiet base (openInode me i) Q ⟨pr, i ::ₘ xs, insert i L⟩ := by
  refine .bind (.get fun s hs => ?_)
  dsimp only at hs ⊢
  rw [hs]
  rcases hfd : freeFd (pr.ofile me) with _ | fd
  · exact .close hi hfail
  · exact .ite (.close hi hfail) (.bind (.iunlock hi (.bind (.setProcs (.bind (.setProcs
      (.pure (hok fd (freeFd_some hfd)))))))))

lemma openOp {omode : ℕ} (hfail : Q (-1) ⟨pr.endOp, xs, L⟩)
    (hok : ∀ (i : ℕ) (fd : Fin NOFILE), pr.ofile me fd = none →
      Q fd ⟨pr.endOp.setFd me fd (some i) (pr.nfile - 1), i ::ₘ xs, L⟩) :
    Runs quiet base (openOp me path omode) Q ⟨pr, xs, L⟩ :=
  .ite (.bind (.create (.endOp hfail) fun i hi => .openInode hi hfail (hok i)))
    (.bind (.namei (.endOp hfail) fun i => .bind (.ilock fun hi => .bind (.inode fun _ =>
      .ite (.close hi hfail) (.openInode hi hfail (hok i))))))

/-- The old working directory is given up for the new one. -/
lemma chdirOp (hfail : Q (-1) ⟨pr.endOp, pr.cwd me ::ₘ xs, L⟩)
    (hok : ∀ i, Q 0 ⟨pr.endOp.setCwd me i, i ::ₘ xs, L⟩) :
    Runs quiet base (chdirOp me path) Q ⟨pr, pr.cwd me ::ₘ xs, L⟩ := by
  refine .bind (.namei (.endOp hfail) fun i => .bind (.ilock fun hi => .bind (.inode fun x =>
    .ite (.close hi hfail) (.bind (.iunlock hi (.bind (.get fun s hs => ?_)))))))
  rw [hs, Multiset.cons_swap]
  exact .bind (.iput (.bind (.setProcs (.bind (.setProcs (.pure (hok i)))))))

lemma sysClose {fd : Fin NOFILE} (hnone : pr.ofile me fd = none → Q (-1) ⟨pr, xs, L⟩)
    (hsome : ∀ i, pr.ofile me fd = some i → ∃ ys, xs = i ::ₘ ys ∧
      Q 0 ⟨pr.setFd me fd none (pr.nfile + 1), ys, L⟩) :
    Runs quiet base (sysClose me fd) Q ⟨pr, xs, L⟩ := by
  refine .bind (.get fun s hs => ?_)
  rw [hs]
  rcases hfd : pr.ofile me fd with _ | i
  · exact .pure (hnone hfd)
  · obtain ⟨ys, rfl, hQ⟩ := hsome i hfd
    exact .bind (.setProcs (.bind (.setProcs (.bind (.iput (.endOp hQ))))))

end Runs

/-- Locks and the log are as they were, and references changed as long-term holders did. -/
structure Balanced [Fintype P] (quiet : D → Prop) (s s' : St P D) : Prop where
  disk : quiet s'.disk
  outstanding : s'.procs.outstanding = s.procs.outstanding
  locked : s'.cache.locked = s.cache.locked
  ref : ∀ i, s'.cache.ref i + holders s.procs i = s.cache.ref i + holders s'.procs i

variable [Fintype P]

/-- The references `gone` of holders are taken over by the call, and those of the load left by
it. -/
def Settled (s : St P D) (gone : Multiset ℕ) (l : Load P) : Prop :=
  l.procs.outstanding = s.procs.outstanding ∧ l.locks = {i | s.cache.locked i = true} ∧
    ∀ j, holders l.procs j + gone.count j = holders s.procs j + l.refs.count j

lemma Runs.balanced {m : FsM P D ℤ} {gone : Multiset ℕ} (hN : Neutral D quiet) (hq : quiet s.disk)
    (href : ∀ i, s.cache.ref i = base i + gone.count i)
    (h : Runs quiet base m (fun _ => Settled s gone)
      ⟨s.procs, gone, {i | s.cache.locked i = true}⟩) :
    wp m (fun _ s' => Balanced quiet s s') AnyStop s := by
  refine wp_mono (h hN s ⟨hq, rfl, href, fun _ => Iff.rfl⟩) ?_ fun _ => id
  rintro _ s' ⟨⟨pr, xs, L⟩, hs', hout, rfl, hold⟩
  refine ⟨hs'.disk, hs'.procs ▸ hout, funext fun i => Bool.eq_iff_iff.mpr (hs'.cache.locked i),
    fun j => ?_⟩
  have hj := hold j
  rw [hs'.procs, hs'.cache.ref, href]
  dsimp only at hj ⊢
  omega

omit [Files D] [Fintype P] in
lemma ref_one (hi : 0 < s.cache.ref i) (j : ℕ) :
    s.cache.ref j = subRef s.cache.ref i j + (i ::ₘ (0 : Multiset ℕ)).count j := by
  by_cases hj : j = i
  · subst hj
    simp only [subRef, Function.update_self, Multiset.count_cons_self, Multiset.count_zero]
    omega
  · simp [subRef, hj]

variable [DecidableEq P]

lemma wp_call_balanced {me : P} (hN : Neutral D quiet) (c : Call) (hq : quiet s.disk)
    (hcwd : 0 < s.cache.ref (s.procs.cwd me))
    (hfd : ∀ fd i, s.procs.ofile me fd = some i → 0 < s.cache.ref i) :
    wp (call me c) (fun _ s' => Balanced quiet s s') AnyStop s := by
  have hsame (gone : Multiset ℕ) :
      Settled s gone ⟨s.procs, gone, {i | s.cache.locked i = true}⟩ := ⟨rfl, rfl, fun _ => rfl⟩
  have hnone (i : ℕ) : s.cache.ref i = s.cache.ref i + (0 : Multiset ℕ).count i :=
    (Nat.add_zero _).symm
  have h0 {m : FsM P D ℤ} := Runs.balanced (m := m) hN hq hnone
  cases c with
  | openFile path omode =>
    refine h0 (.bind (.setProcs (.openOp (hsame 0) fun i fd hnone => ⟨rfl, rfl, fun j => ?_⟩)))
    have hj := holders_setFd s.procs me fd (some i) (s.procs.nfile - 1) j
    rw [show s.procs.ofile me fd = none from hnone, if_neg nofun, Nat.add_zero] at hj
    refine hj.trans (congrArg _ ?_)
    rw [Multiset.count_cons, Multiset.count_zero]
    simp [eq_comm]
  | mkdir path => exact h0 (.bind (.setProcs (.makeOp fun _ => hsame 0)))
  | mknod path major minor => exact h0 (.bind (.setProcs (.makeOp fun _ => hsame 0)))
  | link old new => exact h0 (.bind (.setProcs (.linkOp fun _ => hsame 0)))
  | unlink path => exact h0 (.bind (.setProcs (.unlinkOp fun _ => hsame 0)))
  | chdir path =>
    refine Runs.balanced hN hq (ref_one hcwd) (.bind (.setProcs (.chdirOp (hsame _) fun i =>
      ⟨rfl, rfl, fun j => ?_⟩)))
    have hj := holders_setCwd s.procs me i j
    change holders (s.procs.setCwd me i) j + _ = _
    rw [Multiset.count_cons, Multiset.count_cons, Multiset.count_zero]
    simpa [eq_comm] using hj
  | close fd =>
    rcases hf : s.procs.ofile me fd with _ | i
    · exact h0 (.sysClose (fun _ => hsame 0) fun i hi => absurd (hf.symm.trans hi) nofun)
    · refine Runs.balanced hN hq (ref_one (hfd fd i hf)) (.sysClose (fun hn =>
        absurd (hf.symm.trans hn) nofun) fun j hj => ?_)
      obtain rfl : i = j := Option.some.inj (hf.symm.trans hj)
      refine ⟨0, rfl, rfl, rfl, fun k => ?_⟩
      have hk := holders_setFd s.procs me fd none (s.procs.nfile + 1) k
      rw [Multiset.count_cons, Multiset.count_zero]
      simpa [hf, eq_comm] using hk
  | exec path reads loads => exact h0 (.bind (.setProcs (.execOp fun _ => hsame 0)))

end Calls

/-- Whatever its arguments and however it returns, a call leaves the log, the locks of inodes and
those of buffers as it found them, and the references of the inodes grow by the number of open files
and working directories that are new. -/
theorem call_balanced {P : Type} [Fintype P] [DecidableEq P] (me : P) (c : Call) (s s' : St P Blk) (r : ℤ)
    (hcwd : 0 < s.cache.ref (s.procs.cwd me))
    (hfd : ∀ fd i, s.procs.ofile me fd = some i → 0 < s.cache.ref i) (h : call me c s = .ok (r, s')) :
    s'.procs.outstanding = s.procs.outstanding ∧ s'.cache.locked = s.cache.locked ∧
      s'.disk.held = s.disk.held ∧
      ∀ inums : Finset ℕ, ∑ i ∈ inums, s'.cache.ref i + ∑ i ∈ inums, holders s.procs i =
        ∑ i ∈ inums, s.cache.ref i + ∑ i ∈ inums, holders s'.procs i := by
  have hb := wp_ok (wp_call_balanced (neutral_blk s.disk.held) c rfl hcwd hfd) h
  refine ⟨hb.outstanding, hb.locked, hb.disk, fun inums => ?_⟩
  rw [← Finset.sum_add_distrib, ← Finset.sum_add_distrib]
  exact Finset.sum_congr rfl fun i _ => hb.ref i

/-- A process in the root directory, whose inode is in the cache. -/
def atRoot : St Unit Blk where
  disk := {
    sb := ⟨1000, 200, 32, 58⟩
    used := fun b => b < 59
    dinode := fun _ => ⟨.dir, 0, 0, 1, 0, fun _ => 0⟩
    block := fun _ _ => 0
    held := [] }
  procs := ⟨fun _ => ROOTINO, fun _ _ => none, NFILE, 0⟩
  cache := ⟨fun i => if i = ROOTINO then 1 else 0, fun i => i == ROOTINO, fun _ => false, NINODE - 1⟩

/-- `open("/", 0)` returns with one reference more, held by the open file. -/
theorem open_root_balanced : ∃ s', call () (.openFile [slash] O_RDONLY) atRoot = .ok (0, s') ∧
    s'.procs.outstanding = 0 ∧ (∀ i, s'.cache.locked i = false) ∧ s'.disk.held = [] ∧
      s'.cache.ref ROOTINO + holders atRoot.procs ROOTINO = 1 + holders s'.procs ROOTINO := by
  have hrun : ((call () (.openFile [slash] O_RDONLY) atRoot).toOption.map Prod.fst) = some 0 := by
    decide +kernel
  obtain ⟨⟨r, s'⟩, h, hr⟩ := Option.map_eq_some_iff.mp hrun
  obtain rfl : r = 0 := hr
  have hok : call () (.openFile [slash] O_RDONLY) atRoot = .ok (0, s') := by
    cases hc : call () (.openFile [slash] O_RDONLY) atRoot with
    | error e =>
      rw [hc] at h
      cases h
    | ok x =>
      rw [hc] at h
      cases h
      rfl
  obtain ⟨hout, hlocked, hheld, href⟩ := call_balanced () _ atRoot s' 0 (by decide) nofun hok
  refine ⟨s', hok, hout, congrFun hlocked, hheld, ?_⟩
  have hroot := href {ROOTINO}
  simp only [Finset.sum_singleton] at hroot
  exact hroot

end Xv6.Fs
