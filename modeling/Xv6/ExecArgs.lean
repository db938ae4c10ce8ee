import Xv6.ExecCall
import Xv6.SyscallArgs

/-!
How `exec` passes the arguments. The kernel pushes the strings and a block of words through the page
tables; the new program reads them from `esp` on. Whatever the lengths of the strings, once `exec`
has returned `0` the two agree.
-/

namespace Xv6.Kernel

open Xv6.Lib.Own Xv6.PageTable Xv6.ProcTable Xv6.Syscall

/-! ### What the program reads -/

/-- The memory of the process, from its own side. -/
def Task.user (t : Task) : Syscall.Proc := ⟨t.sz, t.esp, byte t.vm⟩

/-- The second parameter of `main`. -/
def argvOf (p : Syscall.Proc) : ℕ := p.word (p.esp + 8)

/-- The pointer `argv[i]`. -/
def argvAt (p : Syscall.Proc) (i : ℕ) : ℕ := p.word (argvOf p + 4 * i)

/-- The bytes `[addr, addr + n)` are in the top page. -/
def OnStack (p : Syscall.Proc) (addr n : ℕ) : Prop := p.sz - PGSIZE ≤ addr ∧ addr + n ≤ p.sz

/-- `main` is called with `argv`. -/
structure Args (p : Syscall.Proc) (argv : List (List UInt8)) : Prop where
  frame : OnStack p p.esp 12
  ret : p.word p.esp = 0xffffffff
  argc : p.word (p.esp + 4) = argv.length
  array : OnStack p (argvOf p) (4 * (argv.length + 1))
  null : argvAt p argv.length = 0
  strs : ∀ i arg, argv[i]? = some arg → OnStack p (argvAt p i) (arg.length + 1) ∧
    (List.range (arg.length + 1)).map (fun k => p.mem (argvAt p i + k)) = arg ++ [0]

section Words

variable {p : Syscall.Proc} {ws : List ℕ} {a i j w : ℕ}

lemma getElem?_flatMap_bytes (h : ws[i]? = some w) (hj : j < 4) :
    (ws.flatMap bytes)[4 * i + j]? = some (UInt8.ofNat (w / 256 ^ j)) := by
  induction ws generalizing i with
  | nil => cases h
  | cons v ws ih =>
    have hlen : (bytes v).length = 4 := rfl
    rw [List.flatMap_cons]
    cases i with
    | zero =>
      obtain rfl : v = w := Option.some.inj h
      rw [List.getElem?_append_left (by omega), Nat.mul_zero, Nat.zero_add, bytes]
      simp [hj]
    | succ i =>
      rw [List.getElem?_append_right (by omega), hlen,
        show 4 * (i + 1) + j - 4 = 4 * i + j by omega]
      exact ih h

/-- The bytes of a word are read as the word. -/
lemma word_bytes (hw : w < 2 ^ 32) (ha : a + 4 ≤ 2 ^ 32)
    (h : ∀ j < 4, p.mem (a + j) = UInt8.ofNat (w / 256 ^ j)) : p.word a = w := by
  have haddr : wordAddrs a = [a, a + 1, a + 2, a + 3] := by
    have hmod (j : ℕ) (hj : j < 4) : (a + j) % 2 ^ 32 = a + j := Nat.mod_eq_of_lt (by omega)
    change [(a + 0) % 2 ^ 32, (a + 1) % 2 ^ 32, (a + 2) % 2 ^ 32, (a + 3) % 2 ^ 32] = _
    rw [hmod 0 (by decide), hmod 1 (by decide), hmod 2 (by decide), hmod 3 (by decide), add_zero]
  have h0 := h 0 (by decide)
  rw [add_zero] at h0
  rw [Syscall.Proc.word, haddr]
  simp only [List.foldr_cons, List.foldr_nil, h0, h 1 (by decide), h 2 (by decide),
    h 3 (by decide), UInt8.toNat_ofNat']
  omega

/-- A block of words in memory. -/
lemma word_block (h : ∀ k < ws.length * 4, some (p.mem (a + k)) = (ws.flatMap bytes)[k]?)
    (ha : a + ws.length * 4 ≤ 2 ^ 32) (hi : ws[i]? = some w) (hw : w < 2 ^ 32) :
    p.word (a + 4 * i) = w := by
  have hlt : i < ws.length := (List.getElem?_eq_some_iff.mp hi).1
  refine word_bytes hw (by omega) fun j hj => ?_
  have hk := h (4 * i + j) (by omega)
  rw [getElem?_flatMap_bytes hi hj, Option.some.injEq, ← add_assoc] at hk
  exact hk

end Words

/-! ### What `exec` has written -/

section Call

variable {kend : ℕ} {kmap : List Kmap} {fails : ℕ → Bool} {h : Heap ℕ} {s : Shared} {x : Named}
  {argv : List (List UInt8)}

/-- The block and the strings, read back. -/
lemma args_of_passed {us : List ℕ} {t : Task} (hsz : t.sz < KERNBASE) (htwo : 2 * PGSIZE ≤ t.sz)
    (hp : Passed argv us (t.sz - 2 * PGSIZE) t.esp t.vm) : Args t.user argv := by
  have hsz' : t.sz < 2147483648 := hsz
  have htwo' : 8192 ≤ t.sz := htwo
  obtain ⟨hlow, hhigh, hblock, hstrs⟩ := hp
  have hup : t.sz - 2 * PGSIZE = t.sz - 8192 := rfl
  have htop : t.sz - PGSIZE = t.sz - 4096 := rfl
  rw [hup] at hlow hhigh hstrs
  have hargc : us.length = argv.length := hstrs.length_eq.symm
  set ws := [0xffffffff, argv.length, t.esp + 12] ++ us ++ [0] with hws
  have hlen : ws.length = 4 + argv.length := by
    rw [hws]
    simp only [List.length_append, List.length_cons, List.length_nil, hargc]
    omega
  have hword {i w : ℕ} (hi : ws[i]? = some w) (hw : w < 2 ^ 32) :
      t.user.word (t.esp + 4 * i) = w := by
    refine word_block (fun k hk => ?_) (by omega) hi hw
    rw [← hblock, peek, List.getElem?_map, List.getElem?_range (by omega)]
    rfl
  have hargv : argvOf t.user = t.esp + 12 := hword (i := 2) rfl (by omega)
  have hat {i w : ℕ} (hi : (us ++ [0])[i]? = some w) (hw : w < 2 ^ 32) : argvAt t.user i = w := by
    rw [argvAt, hargv, add_assoc, show 12 + 4 * i = 4 * (i + 3) by omega]
    refine hword ?_ hw
    rw [hws, List.append_assoc, List.getElem?_append_right (by simp)]
    exact hi
  refine ⟨⟨?_, ?_⟩, hword (i := 0) rfl (by decide), hword (i := 1) rfl (by omega), ⟨?_, ?_⟩, ?_,
    fun i arg hi => ?_⟩
  · change t.sz - PGSIZE ≤ t.esp
    omega
  · change t.esp + 12 ≤ t.sz
    omega
  · change t.sz - PGSIZE ≤ _
    omega
  · change _ ≤ t.sz
    omega
  · refine hat ?_ (by decide)
    rw [← hargc]
    simp
  · obtain ⟨hlt, rfl⟩ := List.getElem?_eq_some_iff.mp hi
    have hlt' : i < us.length := by omega
    obtain ⟨hin, hpeek⟩ := hstrs.get hlt hlt'
    simp only [List.get_eq_getElem] at hin hpeek
    have hptr : argvAt t.user i = us[i] := by
      refine hat ?_ (by omega)
      rw [List.getElem?_append_left hlt', List.getElem?_eq_getElem hlt']
    rw [hptr]
    refine ⟨⟨?_, ?_⟩, hpeek⟩
    · change t.sz - PGSIZE ≤ us[i]
      omega
    · change _ ≤ t.sz
      omega

/-- What `exec` has built when it goes on to the commit. -/
lemma image_of_run (hk : 0 < kend) (hkmap : ∀ k ∈ kmap, k.high) {v v' : Vm} {zero : Option ℕ}
    {ip : Readi} {c : Committed} {h' : Heap ℕ} {s' : Shared} (halone : Alone kend h.free v)
    (hv : pages v.dir = 0) (hrun : run fails (execImage kend kmap zero ip argv) h s v =
      ⟨.done (some c), h', s', v'⟩) : PageTable.Image ip argv c v' := by
  have hS : VmSpec kend (soloSpec kend (fun _ => True) (fun _ => True) s v.mem) :=
    vmSpec_soloSpec hk
  have hexec : wp (soloSpec kend (fun _ => True) (fun _ => True) s v.mem)
      (execImage kend kmap zero ip argv)
      (fun c v' _ => ∀ c', c = some c' → PageTable.Image ip argv c' v') v 0 := by
    refine wp_execImage hS hkmap (.inl trivial) (.inl trivial) (.inl blind_soloSpec) hv
      (fun c v' himage _ c' hc => ?_) fun _ _ _ => nofun
    rwa [← Option.some.inj hc]
  have hends := halone.run fails (fun _ _ => trivial) hexec
  rw [hrun] at hends
  obtain ⟨o, hq, -⟩ := hends
  exact hq c rfl

/-- **`exec` passes the arguments**: whenever it returns `0`, the program finds at `esp` the fake
return address, `argc` and `argv`, with copies of the strings, all in the top page of its memory,
and nothing has been written to the page below. -/
theorem exec_passes_args (hk : 0 < kend) (hkmap : ∀ k ∈ kmap, k.high) {me : Slot}
    (hx : Alive False me x.task) (hc : Consistent kend h.free s x.task) (path : List UInt8)
    (ip : Option Readi) (argv : List (List UInt8)) {r : Result Shared Named ℕ Panic Bool}
    (hr : run fails (execNamed kend kmap path ip argv) h s x = r) (hret : r.out = .done true) :
    Args r.loc.task.user argv ∧ ∀ va, r.loc.task.sz - 2 * PGSIZE ≤ va →
      va < r.loc.task.sz - PGSIZE → byte r.loc.task.vm va = 0 := by
  rcases ip with _ | ip
  · subst hr
    cases hret
  have hget : run fails (onTask Prog.get) h s x = ⟨.done x.task, h, s, x⟩ := run_onTask rfl
  have halone : Alone kend h.free x.task.tmp := by
    refine hc.alone ?_
    rw [hx.clean.tmp, add_zero, add_assoc]
    exact Multiset.le_add_right _ _
  unfold execNamed at hr
  dsimp only at hr
  rw [run_bind_done hget] at hr
  obtain ⟨c, h₁, s₁, x₁, hrun, -⟩ := done_of_bind (hr ▸ hret)
  rw [run_bind_done hrun] at hr
  rcases hi : run fails (execImage kend kmap (zeroWord x.task.vm) ip argv) h s x.task.tmp with
    ⟨out, h₂, s₂, v⟩
  obtain ⟨rfl, rfl, rfl, rfl⟩ := Result.mk.inj (hrun.symm.trans (run_onTask (run_onTmp hi)))
  rcases c with _ | c
  · subst hr
    cases hret
  have himage := image_of_run hk hkmap halone hx.clean.tmp hi
  -- what is left only changes the old directory
  rcases hf : run fails (freevm kend) h₁ s₁ x.task.vm with ⟨out, h₃, s₃, v'⟩
  let y : Named := ⟨{ x.task with
    vm := v, tmp := x.task.vm, sz := c.sz, eip := c.entry, esp := c.sp },
    safestrcpy (lastName path path) 16⟩
  have hlast : run fails (onTask (onTmp (freevm kend))) h₁ s₁ y =
      ⟨out, h₃, s₃, { y with task := { y.task with tmp := v' } }⟩ := run_onTask (run_onTmp hf)
  change run fails (onTask (onTmp (freevm kend)) >>= fun _ => pure true) h₁ s₁ y = r at hr
  obtain ⟨_, _, _, _, hdone, -⟩ := done_of_bind (hr ▸ hret)
  obtain ⟨rfl, -⟩ := Result.mk.inj (hdone.symm.trans hlast)
  rw [run_bind_done hlast] at hr
  subst hr
  obtain ⟨us, hpassed⟩ := himage.passed
  have htwo : 2 * PGSIZE ≤ c.sz := by
    rw [himage.sz]
    exact Nat.le_add_left _ _
  exact ⟨args_of_passed himage.filling.2.1 htwo hpassed, himage.zero⟩

/-- `sh -c` in a program of four bytes. -/
theorem exec_passes_args_tiny :
    ∃ r, run (fun _ => false) (execNamed 0x100000 [] [47, 97] (some (readFile tinyFile))
      [[115, 104], [45, 99]]) ⟨tinyFree, 0⟩ Shared.empty ⟨bare, []⟩ = r ∧ r.out = .done true ∧
      r.loc.task.esp = 12256 ∧ Args r.loc.task.user [[115, 104], [45, 99]] := by
  have hout : (run (fun _ => false) (execNamed 0x100000 [] [47, 97] (some (readFile tinyFile))
      [[115, 104], [45, 99]]) ⟨tinyFree, 0⟩ Shared.empty ⟨bare, []⟩).out = .done true := by
    decide +kernel
  have hesp : (run (fun _ => false) (execNamed 0x100000 [] [47, 97] (some (readFile tinyFile))
      [[115, 104], [45, 99]]) ⟨tinyFree, 0⟩ Shared.empty ⟨bare, []⟩).loc.task.esp = 12256 := by
    decide +kernel
  have hargs := exec_passes_args (by decide) (by simp) bare_alive bare_consistent [47, 97]
    (some (readFile tinyFile)) [[115, 104], [45, 99]] rfl hout
  exact ⟨_, rfl, hout, hesp, hargs.1⟩

end Call

end Xv6.Kernel
