import Xv6.IcacheWork

/-!
Coherence of the inode cache: what every user may rely on in every reachable state.
-/

namespace Xv6.Icache

open Xv6.Fs (Dinode InodeType BSIZE NDIRECT NINODE)
open Xv6.Lib.Run Xv6.Lib.Refs
open Function (update update_of_ne update_self update_eq_self)

variable {U : Type*} [DecidableEq U]

/-! ### What a step can do -/

inductive Eff (s : St U) (u : U) : Act U → St U → Prop
  | panic (a : Act U) (e : Panic) : Eff s u a { s with panic := some e }
  | hit (dev inum : ℕ) (e : SlotId) (hpc : s.pc u = .idle) (href : 0 < (s.slot e).ref)
      (hkey : (s.slot e).key = (dev, inum)) :
      Eff s u (.iget dev inum) ((s.setSlot e { s.slot e with ref := (s.slot e).ref + 1 }).setPc u (.ref e))
  | recycle (dev inum : ℕ) (e : SlotId) (hpc : s.pc u = .idle)
      (hno : ∀ e, 0 < (s.slot e).ref → (s.slot e).key ≠ (dev, inum)) (href : (s.slot e).ref = 0) :
      Eff s u (.iget dev inum)
        ((s.setSlot e { s.slot e with key := (dev, inum), ref := 1, valid := false }).setPc u (.ref e))
  | idup (v : U) (e : SlotId) (hpc : s.pc u = .idle) (hv : (s.pc v).slot = some e) :
      Eff s u (.idup v) ((s.setSlot e { s.slot e with ref := (s.slot e).ref + 1 }).setPc u (.ref e))
  | ilock (e : SlotId) (hpc : s.pc u = .ref e) (hlock : (s.slot e).lock = none) :
      Eff s u .acquiresleep ((s.setSlot e { s.slot e with lock := some u }).setPc u (.load e))
  | cached (e : SlotId) (hpc : s.pc u = .load e) (hv : (s.slot e).valid = true) :
      Eff s u .load (s.setPc u (.locked e))
  | read (e : SlotId) (hpc : s.pc u = .load e) (htype : (s.disk (s.slot e).key).type ≠ .free) :
      Eff s u .load ((s.setSlot e { s.slot e with valid := true, copy := s.disk (s.slot e).key }).setPc u (.locked e))
  | call (op : Op) (e : SlotId) (hpc : s.pc u = .locked e) :
      Eff s u (.call op) (s.setPc u (.work e (op.work (s.slot e).copy)))
  | piece (e : SlotId) (pc : List Piece → Pc) (p : Piece) (todo front : List Piece) (v : View)
      (hwork : pc = .work e ∨ pc = .free e) (hpc : s.pc u = pc (p :: todo))
      (hp : p.exec (s.view e) = .ok (v, front)) : Eff s u .piece ((s.setView e v).setPc u (pc (front ++ todo)))
  | ret (e : SlotId) (hpc : s.pc u = .work e []) : Eff s u .ret (s.setPc u (.locked e))
  | iunlock (e : SlotId) (hpc : s.pc u = .locked e) :
      Eff s u .iunlock ((s.setSlot e { s.slot e with lock := none }).setPc u (.ref e))
  | iput (e : SlotId) (hpc : s.pc u = .ref e) (hlock : (s.slot e).lock = none) :
      Eff s u .iput ((s.setSlot e { s.slot e with lock := some u }).setPc u (.put e))
  | check (e : SlotId) (hpc : s.pc u = .put e) :
      Eff s u .check (s.setPc u (.free e (if unlinked (s.slot e) then ifree else [])))
  | release (e : SlotId) (hpc : s.pc u = .free e []) :
      Eff s u .releasesleep ((s.setSlot e { s.slot e with lock := none }).setPc u (.drop e))
  | drop (e : SlotId) (hpc : s.pc u = .drop e) :
      Eff s u .drop ((s.setSlot e { s.slot e with ref := (s.slot e).ref - 1 }).setPc u .idle)
  | ialloc (dev inum : ℕ) (type : InodeType) (hfree : (s.disk (dev, inum)).type = .free) :
      Eff s u (.ialloc dev inum type) { s with disk := update s.disk (dev, inum) (.new type) }

variable {s t : St U} {u : U} {a : Act U}

lemma iget_eff {dev inum : ℕ} (hpc : s.pc u = .idle) :
    Eff s u (.iget dev inum)
      (s.orPanic ((iget s (dev, inum)).map fun (e, t) => t.setPc u (.ref e))) := by
  unfold iget
  cases hf : (List.finRange NINODE).find? fun e => (s.slot e).ref > 0 ∧
    (s.slot e).key = (dev, inum) with
  | some e =>
    have he : 0 < (s.slot e).ref ∧ (s.slot e).key = (dev, inum) := by simpa using List.find?_some hf
    exact .hit dev inum e hpc he.1 he.2
  | none =>
    have hno (e : SlotId) (href : 0 < (s.slot e).ref) : (s.slot e).key ≠ (dev, inum) := by
      have := List.find?_eq_none.mp hf e (List.mem_finRange e)
      simpa [href] using this
    cases hg : (List.finRange NINODE).find? fun e => (s.slot e).ref = 0 with
    | some e => exact .recycle dev inum e hpc hno (by simpa using List.find?_some hg)
    | none => exact .panic _ .igetNoInodes

lemma load_eff {e : SlotId} (hpc : s.pc u = .load e) :
    Eff s u .load (s.orPanic ((load s e).map fun t => t.setPc u (.locked e))) := by
  unfold load
  split_ifs with hv htype
  · exact .cached e hpc hv
  · exact .panic _ .noType
  · exact .read e hpc htype

lemma workStep_eff {e : SlotId} {pc : List Piece → Pc} {p : Piece} {todo : List Piece}
    (hwork : pc = .work e ∨ pc = .free e) (hpc : s.pc u = pc (p :: todo)) :
    Eff s u .piece (workStep s u e p pc todo) := by
  unfold workStep
  cases hp : p.exec (s.view e) with
  | error e => exact .panic _ e
  | ok r => exact .piece e pc p todo r.2 r.1 hwork hpc hp

lemma next_eff (h : Step s (u, a) t) : Eff s u a t := by
  change next s u a = some t at h
  unfold next at h
  split_ifs at h
  split at h
  case h_2 v hpc =>
    obtain ⟨e, he, rfl⟩ := Option.map_eq_some_iff.mp h
    exact .idup v e hpc he
  case h_3 e hpc =>
    split_ifs at h with hl
    cases h
    exact .ilock e hpc hl
  case h_9 e hpc =>
    split_ifs at h with hl
    cases h
    exact .iput e hpc hl
  case h_14 dev inum type =>
    split_ifs at h with hfree
    cases h
    exact .ialloc dev inum type hfree
  case h_15 => cases h
  all_goals cases h
  case h_1 hpc => exact iget_eff hpc
  case h_4 hpc => exact load_eff hpc
  case h_5 hpc => exact .call _ _ hpc
  case h_6 hpc => exact workStep_eff (.inl rfl) hpc
  case h_7 hpc => exact .ret _ hpc
  case h_8 hpc => exact .iunlock _ hpc
  case h_10 hpc => exact .check _ hpc
  case h_11 hpc => exact workStep_eff (.inr rfl) hpc
  case h_12 hpc => exact .release _ hpc
  case h_13 hpc => exact .drop _ hpc

/-! ### The invariant -/

/-- The slot a user refers to, and whether it has the sleep lock. -/
def Pc.place : Pc → Place SlotId
  | .idle => none
  | .ref e | .drop e => some (e, false)
  | .load e | .locked e | .work e _ | .put e | .free e _ => some (e, true)

/-- What the holder of a sleep lock relies on. -/
def Pc.Sound : Pc → Bool → Dinode → Dinode → Prop
  | .load _ | .put _ => Settled
  | .locked _ => Written
  | .work _ todo => Flushes Written todo
  | .free _ todo => Flushes Settled todo
  | _ => fun _ _ _ => True

variable [Fintype U]

structure Inv (s : St U) : Prop where
  users : Users (fun e => (s.slot e).ref) (fun e => (s.slot e).lock) fun u => (s.pc u).place
  unique : ∀ e e', 0 < (s.slot e).ref → 0 < (s.slot e').ref → (s.slot e).key = (s.slot e').key → e = e'
  used : s.space.used 0 = true
  noHole : ∀ k, (s.disk k).type ≠ .free → NoHole (s.disk k)
  settled : ∀ e, 0 < (s.slot e).ref → (s.slot e).lock = none →
    Settled (s.slot e).valid (s.slot e).copy (s.disk (s.slot e).key)
  sound : ∀ u e, (s.pc u).place = some (e, true) →
    (s.pc u).Sound (s.slot e).valid (s.slot e).copy (s.disk (s.slot e).key)

variable {e : SlotId} {x : Slot U} {pc : Pc}

/-- The references and locks after one user has moved and one slot has changed. -/
lemma users_set (hslot : t.slot = update s.slot e x) (hpc : t.pc = update s.pc u pc)
    (h : Users (update (fun e => (s.slot e).ref) e x.ref)
      (update (fun e => (s.slot e).lock) e x.lock) (update (fun u => (s.pc u).place) u pc.place)) :
    Users (fun e => (t.slot e).ref) (fun e => (t.slot e).lock) fun u => (t.pc u).place :=
  Users.update (r := Slot.ref) (l := Slot.lock) (q := Pc.place) hslot hpc h

omit [DecidableEq U] in
lemma Inv.lock_iff (h : Inv s) {v : U} : (s.slot e).lock = some v ↔
    (s.pc v).place = some (e, true) :=
  (h.users.owner e v).trans decide_eq_true_iff

/-- One user moves, and the slot it refers to changes, with the inode in the buffers. -/
lemma Inv.set (h : Inv s) (hslot : t.slot = update s.slot e x) (hpc : t.pc = update s.pc u pc)
    (husers : Users (fun e => (t.slot e).ref) (fun e => (t.slot e).lock) fun u => (t.pc u).place)
    (hplace : ∀ e' y, pc.place = some (e', y) → e' = e)
    (hkeys : ∀ e', e' ≠ e → 0 < (s.slot e').ref → (s.slot e').key ≠ x.key)
    (hdisk : ∀ k, k ≠ x.key → t.disk k = s.disk k) (hused : t.space.used 0 = true)
    (hhole : (t.disk x.key).type ≠ .free → NoHole (t.disk x.key))
    (hsettled : 0 < x.ref → x.lock = none → Settled x.valid x.copy (t.disk x.key))
    (hown : x.lock = some u → pc.Sound x.valid x.copy (t.disk x.key))
    (hother : ∀ v, v ≠ u → x.lock = some v →
      (s.pc v).Sound x.valid x.copy (t.disk x.key)) : Inv t := by
  have hx : t.slot e = x := by rw [hslot, update_self]
  have hne {e' : SlotId} (he : e' ≠ e) : t.slot e' = s.slot e' := by
    rw [hslot, update_of_ne he]
  refine ⟨husers, fun e₁ e₂ h₁ h₂ hk => ?_, hused, fun k => ?_, fun e' href hlock =>
    ?_, fun v e' hv => ?_⟩
  · have := h.unique e₁ e₂
    by_cases he₁ : e₁ = e <;> by_cases he₂ : e₂ = e <;> grind
  · have := h.noHole k
    by_cases hk : k = x.key <;> grind
  · have := h.settled e'
    by_cases he : e' = e <;> grind
  · have hlock : (t.slot e').lock = some v := (husers.owner e' v).mpr (decide_eq_true hv)
    rw [hpc] at hv ⊢
    have hsound := h.sound v e'
    have hpos (hs : (s.pc v).place = some (e', true)) := h.users.pos hs
    by_cases hvu : v = u
    · grind
    · rw [update_of_ne hvu] at hv ⊢
      by_cases he : e' = e
      · grind
      · rw [hne he, hdisk _ (hkeys e' he (hpos hv))]
        exact hsound hv

lemma users_stay (h : Inv s) (hslot : t.slot = update s.slot e x)
    (hpc : t.pc = update s.pc u pc) (hr : x.ref = (s.slot e).ref)
    (hl : x.lock = (s.slot e).lock) (hp : pc.place = (s.pc u).place) :
    Users (fun e => (t.slot e).ref) (fun e => (t.slot e).lock) fun u => (t.pc u).place :=
  Users.stay (r := Slot.ref) (l := Slot.lock) (q := Pc.place) h.users hslot hpc hr hl hp

variable {e' : SlotId} {disk : ℕ × ℕ → Dinode} {space : Space}

omit [DecidableEq U] in
/-- Slots with references hold different inodes. -/
lemma Inv.keys (h : Inv s) (href : 0 < (s.slot e).ref) (he : e' ≠ e) (href' : 0 < (s.slot e').ref) :
    (s.slot e').key ≠ (s.slot e).key := fun hk => he (h.unique e' e href' href hk)

/-- Only the count and the lock of the slot change. -/
lemma Inv.move {n : ℕ} {o : Option U} (h : Inv s)
    (hslot : t.slot = update s.slot e { s.slot e with ref := n, lock := o })
    (hpc : t.pc = update s.pc u pc) (hdisk : t.disk = s.disk) (hspace : t.space = s.space)
    (husers : Users (fun e => (t.slot e).ref) (fun e => (t.slot e).lock) fun u => (t.pc u).place)
    (hplace : ∀ e' y, pc.place = some (e', y) → e' = e) (href : 0 < (s.slot e).ref)
    (hsettled : 0 < n → o = none → Settled (s.slot e).valid (s.slot e).copy (s.disk (s.slot e).key))
    (hown : o = some u → pc.Sound (s.slot e).valid (s.slot e).copy (s.disk (s.slot e).key))
    (hother : ∀ v, v ≠ u → o = some v → (s.slot e).lock = some v) : Inv t := by
  refine h.set hslot hpc husers hplace (fun e' => h.keys href) (fun k _ => by rw [hdisk])
    (hspace ▸ h.used)
    (hdisk ▸ h.noHole _) (hdisk ▸ hsettled) (hdisk ▸ hown) fun v hv ho => ?_
  rw [hdisk]
  exact h.sound v e (h.lock_iff.mp (hother v hv ho))

omit [DecidableEq U] [Fintype U] in
lemma Pc.place_of_slot (h : pc.slot = some e) : ∃ y, pc.place = some (e, y) := by
  cases pc with
  | idle => cases h
  | _ =>
    cases h
    exact ⟨_, rfl⟩

/-- A piece of work on the inode. -/
lemma Inv.piece {V : View} (h : Inv s) (hpc : (s.pc u).place = some (e, true))
    (hplace : pc.place = some (e, true))
    (hsafe : V.space.used 0 = true ∧ (V.disk.type ≠ .free → NoHole V.disk))
    (hsound : pc.Sound V.valid V.copy V.disk) : Inv ((s.setView e V).setPc u pc) := by
  have hlock := h.lock_iff.mpr hpc
  have hdisk : (s.setView e V).disk (s.slot e).key = V.disk := update_self ..
  refine h.set rfl rfl (users_stay h rfl rfl rfl rfl (hplace.trans hpc.symm)) (fun e' y he => ?_)
    (fun e' => h.keys (h.users.pos hpc)) (fun k hk => update_of_ne hk _ _) hsafe.1
      (hdisk.symm ▸ hsafe.2)
    (fun _ hno => absurd (hlock.symm.trans hno) nofun) (fun _ => hdisk.symm ▸ hsound)
    fun v hv ho => absurd (Option.some.inj (ho.symm.trans hlock)) hv
  rw [hplace] at he
  exact (Prod.mk.inj (Option.some.inj he)).1.symm

omit [DecidableEq U] [Fintype U] in
/-- `ialloc` writes an inode that is free in the buffers. -/
lemma Pc.Sound.other {v : Bool} {x d d' : Dinode} (h : pc.Sound v x d) (hd : d.type = .free) :
    pc.Sound v x d' := by
  have hsettled (h : Settled v x d) : Settled v x d' := fun hv => absurd hd (h hv).2
  have hwritten (h : Written v x d) : Written v x d' := absurd hd h.2.2
  cases pc with
  | load | put => exact hsettled h
  | locked => exact hwritten h
  | work e todo => exact Flushes.other h hd hwritten
  | free e todo => exact Flushes.other h hd hsettled
  | idle | ref | drop => trivial

omit [DecidableEq U] in
lemma Inv.ialloc {k : ℕ × ℕ} (h : Inv s) (hfree : (s.disk k).type = .free) (type : InodeType) :
    Inv { s with disk := update s.disk k (.new type) } where
  users := h.users
  unique := h.unique
  used := h.used
  noHole k' := by
    by_cases hk : k' = k
    · subst hk
      simpa using fun _ => noHole_empty rfl
    · simpa [update_of_ne hk] using h.noHole k'
  settled e href hlock := by
    have hset := h.settled e href hlock
    by_cases hk : (s.slot e).key = k
    · subst hk
      exact fun hv => absurd hfree (hset hv).2
    · simpa [update_of_ne hk] using hset
  sound u e hu := by
    have hsound := h.sound u e hu
    by_cases hk : (s.slot e).key = k
    · subst hk
      exact hsound.other hfree
    · simpa [update_of_ne hk] using hsound

lemma Eff.inv (h : Eff s u a t) (hs : Inv s) : Inv t := by
  have hplace {pc : Pc} (hpc : s.pc u = pc) : (s.pc u).place = pc.place := congrArg Pc.place hpc
  have hsame {e e' : SlotId} {y y' : Bool} (h : some (e, y) = some (e', y')) : e' = e :=
    (Prod.mk.inj (Option.some.inj h)).1.symm
  -- what the user relies on if it has the lock
  have hsound {pc : Pc} {e : SlotId} (hpc : s.pc u = pc) (hp : pc.place = some (e, true)) :
      pc.Sound (s.slot e).valid (s.slot e).copy (s.disk (s.slot e).key) := by
    have := hs.sound u e (by rw [hpc, hp])
    rwa [hpc] at this
  have hlocked {pc : Pc} {e : SlotId} (hpc : s.pc u = pc) (hp : pc.place = some (e, true)) :
      (s.slot e).lock = some u := hs.lock_iff.mpr (by rw [hpc, hp])
  have hpos {pc : Pc} {e : SlotId} {y : Bool} (hpc : s.pc u = pc) (hp : pc.place = some (e, y)) :
      0 < (s.slot e).ref := by
    have hu : (s.pc u).place = some (e, y) := by rw [hpc, hp]
    exact hs.users.pos hu
  -- the user goes on with the lock
  have hgo {pc pc' : Pc} {e : SlotId} (hpc : s.pc u = pc) (hp : pc.place = some (e, true))
      (hp' : pc'.place = some (e, true))
      (hsd : pc'.Sound (s.slot e).valid (s.slot e).copy (s.disk (s.slot e).key)) :
      Inv (s.setPc u pc') := by
    have hself := (update_eq_self e s.slot).symm
    refine hs.move hself rfl rfl rfl
      (users_stay hs hself rfl rfl rfl (hp'.trans (hp.symm.trans (hplace hpc).symm)))
      (fun e' y he => hsame (hp'.symm.trans he)) (hpos hpc hp) (fun _ => hs.settled e (hpos hpc hp))
      (fun _ => hsd) fun _ _ => id
  -- there is one more reference
  have henter {e : SlotId} (hpc : s.pc u = .idle) (href : 0 < (s.slot e).ref) :
      Inv ((s.setSlot e { s.slot e with ref := (s.slot e).ref + 1 }).setPc u (.ref e)) :=
    hs.move rfl rfl rfl rfl
      (users_set rfl rfl (by simpa [Pc.place] using hs.users.enter (hplace hpc) e))
      (fun e' y => hsame) href (fun _ => hs.settled e href) (fun _ => trivial) fun _ _ => id
  cases h with
  | panic => exact ⟨hs.users, hs.unique, hs.used, hs.noHole, hs.settled, hs.sound⟩
  | hit dev inum e hpc href => exact henter hpc href
  | idup v e hpc hv =>
    obtain ⟨y, hy⟩ := Pc.place_of_slot hv
    exact henter hpc (hs.users.pos hy)
  | recycle dev inum e hpc hno href =>
    refine hs.set rfl rfl
      (users_set rfl rfl (by simpa [Pc.place, href] using hs.users.enter (hplace hpc) e))
      (fun e' y => hsame) (fun e' _ => hno e') (fun _ _ => rfl) hs.used (hs.noHole _)
        (fun _ _ => by simp [Settled]) (fun _ => trivial)
      fun v _ hv => ?_
    exact absurd (hs.lock_iff.mp hv) (hs.users.absent href)
  | ilock e hpc hlock | iput e hpc hlock =>
    exact hs.move rfl rfl rfl rfl
      (users_set rfl rfl (by simpa [Pc.place] using hs.users.take (hplace hpc) hlock))
      (fun e' y => hsame) (hpos hpc rfl) (fun _ => by simp)
        (fun _ => hs.settled e (hpos hpc rfl) hlock)
      fun v hv ho => absurd (Option.some.inj ho).symm hv
  | cached e hpc hv => exact hgo hpc rfl rfl ((hsound hpc rfl).written hv)
  | ret e hpc => exact hgo hpc rfl rfl (hsound hpc rfl).post_of_nil
  | call op e hpc =>
    obtain ⟨hv, hx, hd⟩ := hsound hpc rfl
    refine hgo hpc rfl rfl ?_
    change Flushes Written (op.work (s.slot e).copy) _ _ _
    rw [hv, hx]
    exact op.flushes hd (hs.noHole _ hd)
  | check e hpc =>
    refine hgo hpc rfl rfl ?_
    change Flushes Settled (if _ then _ else _) _ _ _
    have hset : Settled _ _ _ := hsound hpc rfl
    split_ifs with hun
    · obtain ⟨hv, -⟩ := of_decide_eq_true hun
      obtain ⟨hx, hd⟩ := hset hv
      rw [hv, hx]
      exact ifree_flushes hd (hs.noHole _ hd)
    · exact .done hset
  | read e hpc htype =>
    exact hs.set rfl rfl (users_stay hs rfl rfl rfl rfl (hplace hpc).symm) (fun e' y => hsame)
      (fun e' => hs.keys (hpos hpc rfl)) (fun _ _ => rfl) hs.used (hs.noHole _)
        (fun _ _ _ => ⟨rfl, htype⟩)
      (fun _ => ⟨rfl, rfl, htype⟩) fun v hv ho =>
        absurd (Option.some.inj (ho.symm.trans (hlocked hpc rfl))) hv
  | iunlock e hpc =>
    exact hs.move rfl rfl rfl rfl
      (users_set rfl rfl (by simpa [Pc.place] using hs.users.give (hplace hpc)))
      (fun e' y => hsame) (hpos hpc rfl) (fun _ _ => (hsound hpc rfl).settled) (by simp) (by simp)
  | release e hpc =>
    exact hs.move rfl rfl rfl rfl
      (users_set rfl rfl (by simpa [Pc.place] using hs.users.give (hplace hpc)))
      (fun e' y => hsame) (hpos hpc rfl) (fun _ _ => (hsound hpc rfl).post_of_nil) (by simp)
      (by simp)
  | drop e hpc =>
    exact hs.move rfl rfl rfl rfl
      (users_set rfl rfl (by simpa [Pc.place] using hs.users.leave (hplace hpc)))
      (by simp [Pc.place]) (hpos hpc rfl) (fun _ => hs.settled e (hpos hpc rfl)) (fun _ => trivial) fun _ _ => id
  | piece e pc p todo front V hwork hpc hp =>
    rcases hwork with rfl | rfl <;>
      obtain ⟨hsafe, hrest⟩ :=
        Flushes.next (V := s.view e) (hsound hpc rfl) hs.used (hs.noHole _) hp <;>
      exact hs.piece (hplace hpc) rfl hsafe hrest
  | ialloc dev inum type hfree => exact hs.ialloc hfree type

omit [DecidableEq U] in
lemma inv_init (hused : space.used 0 = true)
    (hdisk : ∀ k, (disk k).type ≠ .free → NoHole (disk k)) : Inv (iinit disk space : St U) where
  users := ⟨fun _ => (Finset.sum_eq_zero fun _ _ => rfl).symm, fun _ _ => ⟨nofun, nofun⟩⟩
  unique := nofun
  used := hused
  noHole := hdisk
  settled := nofun
  sound := nofun

lemma reach_inv (hused : space.used 0 = true) (hdisk : ∀ k, (disk k).type ≠ .free → NoHole (disk k))
    (h : Reach Step (iinit disk space) s) : Inv s :=
  h.inv (inv_init hused hdisk) fun _ _ _ hs hst => (next_eff hst).inv hs

omit [Fintype U] in
/-- Only `iget` gives a slot to another inode, and only one without references. -/
lemma Eff.free_of_key (h : Eff s u a t) (hk : (t.slot e').key ≠ (s.slot e').key) :
    (s.slot e').ref = 0 := by
  cases h with
  | panic | cached | call | ret | check | ialloc => exact absurd rfl hk
  | recycle dev inum e hpc hno href =>
    by_cases he : e' = e
    · subst he
      exact href
    · exact absurd (congrArg Slot.key (update_of_ne he _ _)) hk
  | hit dev inum e | idup v e | ilock e | read e | piece e | iunlock e | iput e | release e | drop e =>
    exact (hk (field_update (k := Slot.key) (by rfl) e')).elim

/-- Inode `2` is a file of the given size, without blocks. -/
def oneFile (size : ℕ) (k : ℕ × ℕ) : Dinode :=
  if k = (1, 2) then ⟨.file, 0, 0, 1, size, fun _ => 0⟩ else .new .free

def smallSpace : Space := ⟨fun b => decide (b = 0), 10, fun _ _ => 0⟩

/-- A user writes one byte at the start of the file and unlocks it. -/
def writeByte : List (Unit × Act Unit) :=
  [.iget 1 2, .acquiresleep, .load, .call (.writei 0 1), .piece, .piece, .piece, .ret, .iunlock].map fun a => ((), a)

end Xv6.Icache
