import Xv6.FsSpec

/-!
Whether a call can sleep on a lock of its own. All locks of inodes are free when it starts, so the
only inodes it can find locked are those it has locked itself: the directory `dp` in which `link`
looks up the new name, and the one in which `unlink` looks up the old.
-/

namespace Xv6.Fs

open Xv6.Lib.Wp

/-- A file system at rest: no lock is taken, what processes hold is in the cache, and an inode
without links is held by one of them, who has read it. -/
structure Quiet {P : Type} (s : St P Disk) : Prop where
  unlocked : ∀ i, s.cache.locked i = false
  cwd : ∀ p, 0 < s.cache.ref (s.procs.cwd p)
  ofile : ∀ p fd i, s.procs.ofile p fd = some i → 0 < s.cache.ref i
  live : ∀ i, 0 < s.cache.ref i → s.cache.valid i = true → (s.disk.inode i).type ≠ .free
  read : ∀ i, 0 < s.cache.ref i → (s.disk.inode i).nlink = 0 → s.cache.valid i = true
  held : ∀ i, (s.disk.inode i).type ≠ .free → (s.disk.inode i).nlink = 0 → 0 < s.cache.ref i
  short : ∀ i, 0 ≤ (s.disk.inode i).nlink ∧ (s.disk.inode i).nlink < 2 ^ 15

section

variable {P : Type} {s : St P Disk}

lemma Quiet.busy (h : Quiet s) :
    Busy s.disk s.cache.ref (Unlinked s.disk) 0 ∅ s.cache.room s.cache where
  ref i := by simp
  locked i := by simp [h.unlocked i]
  lockedRef i hi := absurd hi (Finset.notMem_empty i)
  lockedValid i hi := absurd hi (Finset.notMem_empty i)
  keepValid := h.read
  validLive := h.live
  room := rfl

lemma Quiet.kept (h : Quiet s) : Kept s.disk s.cache.ref := ⟨h.short, h.held⟩

/-- The inodes of a new file system have one link. -/
lemma mkfs_nlink {files : List Copied} {space ninodes i : ℕ} :
    ((mkfs files space ninodes).inode i).nlink =
      if ((mkfs files space ninodes).inode i).type = .free then 0 else 1 := by
  unfold mkfs
  by_cases h0 : i = ROOTINO
  · simp [h0]
  · simp only [if_neg h0]
    rcases (if i < 2 then none else files[i - 2]?) with _ | f
    · rfl
    · rfl

lemma quiet_fresh [Fintype P] [Nonempty P] (files : List Copied) (space ninodes : ℕ) :
    Quiet (fresh (P := P) (mkfs files space ninodes)).st := by
  have hroot {i : ℕ} (hi : 0 < (fresh (P := P) (mkfs files space ninodes)).st.cache.ref i) :
      i = ROOTINO := by
    by_contra hne
    simp [fresh, hne] at hi
  have hcard : 0 < (fresh (P := P) (mkfs files space ninodes)).st.cache.ref ROOTINO := by
    simp [fresh, Fintype.card_pos]
  refine ⟨fun _ => rfl, fun _ => hcard, nofun, nofun, fun i hi hl => ?_, fun i hty hl =>
    ?_, fun i => ?_⟩
  · rw [hroot hi] at hl
    cases hl
  · change ((mkfs files space ninodes).inode i).type ≠ .free at hty
    change ((mkfs files space ninodes).inode i).nlink = 0 at hl
    rw [mkfs_nlink, if_neg hty] at hl
    cases hl
  · have hl : ((fresh (P := P) (mkfs files space ninodes)).st.disk.inode i).nlink = _ := mkfs_nlink
    rw [hl]
    split_ifs <;> decide

/-- A call takes a lock that it holds if and only if it looks up, in a directory that it has locked,
a name of that directory. -/
theorem call_self_deadlock_iff [DecidableEq P] (h : Quiet s) (me : P) (c : Call) :
    call me c s ≠ .error .deadlock ↔ ¬ SelfLock s.disk s.cache.ref s.cache.room s.procs me c := by
  have hwp := wp_call c h.busy (h.cwd me) (h.ofile me) h.kept
  rcases hr : call me c s with e | ⟨a, s'⟩
  · have he := (wp_error hwp hr).deadlock
    rw [← he]
    simp
  · have hok := (wp_ok hwp hr).1
    simp [hok]

end

/-- How a call stopped. -/
def ending {α : Type} : Except Stop α → Option Stop
  | .ok _ => none
  | .error e => some e

lemma ending_eq_some {α : Type} {r : Except Stop α} {e : Stop} : ending r = some e ↔
    r = .error e := by
  cases r <;> simp [ending]

/-- A new file system with the file `f`. -/
def oneFile : St Unit Disk := (fresh (mkfs [⟨[102], 1⟩] 900 200)).st

/-- `link("f", ".")` sleeps for ever. -/
theorem link_dot_deadlocks : call () (.link [102] dot) oneFile = .error .deadlock :=
  ending_eq_some.mp (by decide +kernel)

lemma quiet_oneFile : Quiet oneFile := quiet_fresh _ _ _

/-- `link("f", "g")` does not, in the same state. -/
theorem link_name_no_deadlock : Quiet oneFile ∧ call () (.link [102] [103]) oneFile ≠ .error .deadlock := by
  refine ⟨quiet_oneFile, (call_self_deadlock_iff quiet_oneFile () _).mpr ?_⟩
  rintro ⟨ip, dp, name, off, -, -, -, hp, hf, -⟩
  have hp' : resolveParent oneFile.disk oneFile.procs () [103] = some (1, [103]) := by
    decide +kernel
  have hf' : find [103] (oneFile.disk.inode 1).ents = none := by decide +kernel
  rw [hp'] at hp
  cases hp
  rw [hf'] at hf
  cases hf

end Xv6.Fs
