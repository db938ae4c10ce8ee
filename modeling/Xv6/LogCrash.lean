import Xv6.LogDisk

/-!
Crash atomicity of the log.

Three kinds of disk are met between two writes of `commit` and of `recover_from_log`: the
header is empty and the home blocks are the old ones; the header lists the transaction and
the log holds its contents, whatever the home blocks hold; the header is empty again and
the home blocks are the new ones. Every write leads from one kind to the same or the next,
and recovery never leads back from the second kind to the first.
-/

namespace Xv6.LogCrash

open Xv6.Lib Xv6.LogDisk
open Function (update update_of_ne update_self)

variable (L : Log)

/-- The machine after a boot: nothing is cached. -/
def boot (d : Disk) : Machine := ⟨d, fun _ => none, [], []⟩

/-- The disk when power fails after `k` of the writes of `commit`. -/
def commitCrash (s : Machine) (k : ℕ) : Disk :=
  Store.apply s.disk ((commit L { s with writes := [] }).writes.take k)

/-- The disk when power fails after `k` of the writes of a recovery. -/
def recoverCrash (d : Disk) (k : ℕ) : Disk :=
  Store.apply d ((recoverFromLog L (boot d)).writes.take k)

/-- The disk after a recovery that is not interrupted. -/
def recover (d : Disk) : Disk := (recoverFromLog L (boot d)).disk

/-- A transaction ready to commit: the log on disk is empty, the blocks of `log.lh` have
their home outside the log area, fit the log and the array, and are pinned in the cache,
where no other block is dirty. -/
structure Pending (s : Machine) : Prop where
  coherent : Coherent s
  empty : word (s.disk L.start) 0 = 0
  outside : ∀ b ∈ s.lh, ¬ InLog L b
  fits : s.lh.length < L.size
  array : s.lh.length ≤ LOGSIZE
  pinned : ∀ b ∈ s.lh, ∃ buf, s.cache b = some buf ∧ buf.dirty = true
  clean : ∀ b buf, s.cache b = some buf → b ∉ s.lh → buf.dirty = false

lemma Pending.view_eq {s : Machine} (h : Pending L s) {b : ℕ} (hb : b ∉ s.lh) :
    view s b = s.disk b := by
  unfold view
  rcases hc : s.cache b with _ | buf
  · rfl
  · simpa using h.coherent b buf hc (h.clean b buf hc hb)

variable {s : Machine}

/-- The transaction has not happened. -/
structure Old (s : Machine) (d : Disk) : Prop where
  head : word (d L.start) 0 = 0
  home : ∀ b, ¬ InLog L b → d b = s.disk b

/-- The log holds the whole transaction. -/
structure Logged (s : Machine) (d : Disk) : Prop where
  head : headBlocks (d L.start) = s.lh
  log : ∀ i (hi : i < s.lh.length), d (L.start + i + 1) = view s s.lh[i]
  rest : ∀ b, ¬ InLog L b → b ∉ s.lh → d b = s.disk b

/-- The transaction has been installed and the log cleared. -/
structure Done (s : Machine) (d : Disk) : Prop where
  head : word (d L.start) 0 = 0
  home : ∀ b, ¬ InLog L b → b ∈ s.lh → d b = view s b
  rest : ∀ b, ¬ InLog L b → b ∉ s.lh → d b = s.disk b

/-! ### The two copying loops on the disk -/

lemma apply_logWrites (v e : Disk) (tail : ℕ) (bs : List ℕ) (i : ℕ) (hi : i < bs.length) :
    Store.apply e (logWrites L v tail bs) (L.start + (tail + i) + 1) = v bs[i] := by
  induction bs generalizing e tail i with
  | nil => simp at hi
  | cons b bs ih =>
    rw [logWrites, Store.apply_cons]
    rcases i with _ | i
    · rw [Store.apply_of_not_mem fun w hw => ?_]
      · simp
      · have := (mem_logWrites L hw).1
        omega
    · have := ih (update e (L.start + tail + 1) (v b)) (tail + 1) i (by simpa using hi)
      rw [show tail + (i + 1) = tail + 1 + i by omega]
      simpa using this

/-- Installing writes to each listed block what the log holds for it, however often the
block is listed. -/
lemma apply_installWrites (v e d : Disk) (tail : ℕ) (bs : List ℕ)
    (hlog : ∀ i (hi : i < bs.length), d (L.start + (tail + i) + 1) = v bs[i]) (b : ℕ) :
    Store.apply e (installWrites L d tail bs) b = if b ∈ bs then v b else e b := by
  induction bs generalizing e tail with
  | nil => simp [installWrites]
  | cons c bs ih =>
    have h0 : d (L.start + tail + 1) = v c := hlog 0 (by simp)
    rw [installWrites, Store.apply_cons, h0, ih _ (tail + 1) fun i hi => ?_]
    · by_cases hb : b ∈ bs
      · simp [hb]
      · by_cases hbc : b = c
        · subst hbc; simp [hb]
        · simp [hb, hbc]
    · have := hlog (i + 1) (by simpa using hi)
      rw [show tail + 1 + i = tail + (i + 1) by omega]
      simpa using this

/-! ### The writes of a recovery -/

lemma coherent_boot (d : Disk) : Coherent (boot d) := by
  intro b buf h
  simp [boot] at h

/-- A recovery installs what the header lists, then clears the header. -/
lemma wrote_recover (d : Disk) (hout : ∀ b ∈ headBlocks (d L.start), ¬ InLog L b)
    (hfit : (headBlocks (d L.start)).length < L.size) :
    ∃ h0, (recoverFromLog L (boot d)).writes =
        installWrites L d 0 (headBlocks (d L.start)) ++ [(L.start, putHead [] h0)] ∧
      (recoverFromLog L (boot d)).disk = Store.apply d (recoverFromLog L (boot d)).writes ∧
      h0 = Store.apply d (installWrites L d 0 (headBlocks (d L.start))) L.start := by
  have hb := wrote_bread L (coherent_boot d) L.start
  -- the header has been read
  have h1 : Wrote { boot d with lh := headBlocks (d L.start) } [] (readHead L (boot d)) := by
    have h := (hb.setLh (headBlocks (d L.start))).trans (wrote_brelse _ L.start)
    have he : (bread L (boot d) L.start).1 = d L.start := bread_data L (boot d) L.start
    simpa only [readHead, he, List.append_nil] using h
  have hlh : (readHead L (boot d)).lh = headBlocks (d L.start) := h1.lh
  have hc : Coherent (readHead L (boot d)) := h1.coherent (coherent_boot d)
  -- the transaction has been installed
  have h2 : Wrote (readHead L (boot d)) (installWrites L d 0 (headBlocks (d L.start)))
      (installTrans L (readHead L (boot d))) := by
    have h := wrote_installFrom L hc 0 (readHead L (boot d)).lh (by rw [hlh]; exact hout)
      (by rw [hlh]; omega)
    have hv : view (readHead L (boot d)) = d := by rw [h1.view]; rfl
    rw [hv, hlh] at h
    rw [installTrans, hlh]
    exact h
  have h3 := (h2.setLh []).trans
    (wrote_writeHead L (s := { installTrans L (readHead L (boot d)) with lh := [] })
      (h2.coherent hc))
  have hview : view { installTrans L (readHead L (boot d)) with lh := [] } =
      Store.apply d (installWrites L d 0 (headBlocks (d L.start))) := by
    rw [(h2.setLh []).view]
    show Store.apply (view (readHead L (boot d))) _ = _
    rw [h1.view]; rfl
  have hw1 : (readHead L (boot d)).writes = [] := by rw [h1.writes]; rfl
  have hd1 : (readHead L (boot d)).disk = d := by rw [h1.disk]; rfl
  refine ⟨_, ?_, ?_, rfl⟩
  · have := h3.writes
    rw [hview] at this
    simpa [recoverFromLog, hw1] using this
  · have hw := h3.writes
    have hd := h3.disk
    simp only [hw1, hd1, List.nil_append] at hw hd
    show (writeHead L { installTrans L (readHead L (boot d)) with lh := [] }).disk =
      Store.apply d (writeHead L { installTrans L (readHead L (boot d)) with lh := [] }).writes
    rw [hd, hw]

lemma recover_eq_apply (d : Disk) (hout : ∀ b ∈ headBlocks (d L.start), ¬ InLog L b)
    (hfit : (headBlocks (d L.start)).length < L.size) :
    recover L d = Store.apply d (recoverFromLog L (boot d)).writes := by
  obtain ⟨_, _, h, _⟩ := wrote_recover L d hout hfit
  exact h

variable {d : Disk}

/-- On an empty log a recovery writes the header it found. -/
lemma recover_writes_of_empty (h : word (d L.start) 0 = 0) (hsize : 0 < L.size) :
    (recoverFromLog L (boot d)).writes = [(L.start, d L.start)] := by
  have hb := headBlocks_of_empty h
  obtain ⟨h0, hw, -, h0eq⟩ := wrote_recover L d (by simp [hb]) (by simpa [hb] using hsize)
  rw [hb] at hw h0eq
  simp only [installWrites, Store.apply_nil, List.nil_append] at hw h0eq
  rw [hw, h0eq, putHead_nil_of_empty h]

lemma recoverCrash_of_empty (h : word (d L.start) 0 = 0) (hsize : 0 < L.size) (k : ℕ) :
    recoverCrash L d k = d := by
  unfold recoverCrash
  rw [recover_writes_of_empty L h hsize]
  rcases k with _ | k <;> simp

lemma recover_of_empty (h : word (d L.start) 0 = 0) (hsize : 0 < L.size) : recover L d = d := by
  have hb := headBlocks_of_empty h
  rw [recover_eq_apply L d (by simp [hb]) (by simpa [hb] using hsize),
    recover_writes_of_empty L h hsize]
  simp

/-! ### Recovery of a logged transaction -/

lemma not_mem_of_inLog (hp : Pending L s) {b : ℕ} (hb : InLog L b) : b ∉ s.lh :=
  fun h => hp.outside b h hb

lemma start_inLog (hp : Pending L s) : InLog L L.start := by
  have := hp.fits
  exact ⟨le_rfl, by omega⟩

/-- While the log is being installed it stays logged. -/
lemma logged_install (hp : Pending L s) (hd : Logged L s d) (d' : Disk) :
    Store.Always (Logged L s) d (installWrites L d' 0 s.lh) := by
  refine Store.Always.of_step hd fun e w hw he => ?_
  have hmem := mem_installWrites L hw
  have hkeep : ∀ b, b ∉ s.lh → update e w.1 w.2 b = e b := by
    intro b hb
    refine update_of_ne ?_ _ _
    rintro rfl
    exact hb hmem
  have hfit := hp.fits
  refine ⟨?_, fun i hi => ?_, fun b hb hbl => ?_⟩
  · rw [hkeep _ (not_mem_of_inLog L hp (start_inLog L hp)), he.head]
  · rw [hkeep _ (not_mem_of_inLog L hp ⟨by omega, by omega⟩), he.log i hi]
  · rw [hkeep b hbl, he.rest b hb hbl]

/-- Clearing the header of a disk whose home blocks are the new ones. -/
lemma done_clear {h0 : Block} (hhome : ∀ b, ¬ InLog L b → b ∈ s.lh → d b = view s b)
    (hrest : ∀ b, ¬ InLog L b → b ∉ s.lh → d b = s.disk b) (hsize : 0 < L.size) :
    Done L s (update d L.start (putHead [] h0)) := by
  have hne : ∀ b, ¬ InLog L b → b ≠ L.start := by
    rintro b hb rfl
    exact hb ⟨le_rfl, by omega⟩
  refine ⟨by simp [word_putHead_nil], fun b hb hl => ?_, fun b hb hl => ?_⟩
  · rw [update_of_ne (hne b hb), hhome b hb hl]
  · rw [update_of_ne (hne b hb), hrest b hb hl]

/-- Installing a logged transaction and clearing the header: logged until the last write,
done after it. -/
lemma install_then_clear (hp : Pending L s) (hd : Logged L s d) (h0 : Block) :
    Store.Always (fun e => Logged L s e ∨ Done L s e) d
        (installWrites L d 0 s.lh ++ [(L.start, putHead [] h0)]) ∧
      Done L s (Store.apply d (installWrites L d 0 s.lh ++ [(L.start, putHead [] h0)])) := by
  have hi := logged_install L hp hd d
  have hfit := hp.fits
  have hval := apply_installWrites L (view s) d d 0 s.lh fun i hi => by
    rw [Nat.zero_add]; exact hd.log i hi
  have hdone : Done L s (update (Store.apply d (installWrites L d 0 s.lh)) L.start
      (putHead [] h0)) := by
    refine done_clear L (fun b _ hl => ?_) (fun b hb hl => ?_) (by omega)
    · rw [hval b, if_pos hl]
    · rw [hval b, if_neg hl, hd.rest b hb hl]
  refine ⟨Store.Always.append (hi.mono fun e he => Or.inl he) ?_, ?_⟩
  · rw [Store.always_cons]
    exact ⟨Or.inl hi.last, Store.always_nil.mpr (Or.inr hdone)⟩
  · rw [Store.apply_append]
    exact hdone

lemma recover_logged (hp : Pending L s) (hd : Logged L s d) :
    (∀ k, Logged L s (recoverCrash L d k) ∨ Done L s (recoverCrash L d k)) ∧
      Done L s (recover L d) := by
  have hout : ∀ b ∈ headBlocks (d L.start), ¬ InLog L b := by rw [hd.head]; exact hp.outside
  have hfit : (headBlocks (d L.start)).length < L.size := by rw [hd.head]; exact hp.fits
  obtain ⟨h0, hw, hrec, -⟩ := wrote_recover L d hout hfit
  rw [hd.head] at hw
  obtain ⟨halways, hlast⟩ := install_then_clear L hp hd h0
  refine ⟨fun k => ?_, ?_⟩
  · unfold recoverCrash
    rw [hw]
    exact halways k
  · show Done L s (recoverFromLog L (boot d)).disk
    rw [hrec, hw]
    exact hlast

/-- **Interrupted recoveries** keep a disk on its side of the commit point. -/
lemma recoverCrash_fold (hp : Pending L s) (js : List ℕ) :
    (Old L s d → Old L s (js.foldl (recoverCrash L) d)) ∧ (Logged L s d ∨ Done L s d →
        Logged L s (js.foldl (recoverCrash L) d) ∨ Done L s (js.foldl (recoverCrash L) d)) := by
  have hsize : 0 < L.size := by have := hp.fits; omega
  induction js generalizing d with
  | nil => exact ⟨id, id⟩
  | cons k js ih =>
    refine ⟨fun h => ?_, ?_⟩
    · rw [List.foldl_cons, recoverCrash_of_empty L h.head hsize]
      exact ih.1 h
    · rintro (h | h)
      · exact ih.2 ((recover_logged L hp h).1 k)
      · rw [List.foldl_cons, recoverCrash_of_empty L h.head hsize]
        exact ih.2 (Or.inr h)

/-! ### The commit -/

/-- The four phases of `commit` as one list of writes. -/
lemma commit_writes (hp : Pending L s) (hn : 0 < s.lh.length) :
    ∃ h0, (commit L { s with writes := [] }).writes =
      logWrites L (view s) 0 s.lh ++ [(L.start, putHead s.lh (s.disk L.start))] ++
        (installWrites L (Store.apply s.disk (logWrites L (view s) 0 s.lh ++
          [(L.start, putHead s.lh (s.disk L.start))])) 0 s.lh ++ [(L.start, putHead [] h0)]) := by
  have hfit := hp.fits
  set s0 : Machine := { s with writes := [] } with hs0
  have hc0 : Coherent s0 := hp.coherent
  have h1 : Wrote s0 (logWrites L (view s) 0 s.lh) (writeLog L s0) :=
    wrote_writeLogFrom L hc0 0 s.lh hp.outside (by omega)
  have hst : view (writeLog L s0) L.start = s.disk L.start := by
    rw [h1.view, Store.apply_of_not_mem fun w hw => ?_]
    · exact hp.view_eq L (not_mem_of_inLog L hp (start_inLog L hp))
    · have := (mem_logWrites L hw).1
      omega
  have h2 := h1.trans (wrote_writeHead L (h1.coherent hc0))
  rw [hst, h1.lh] at h2
  have h3 : Wrote (writeHead L (writeLog L s0)) _ (installTrans L (writeHead L (writeLog L s0))) :=
    wrote_installFrom L (h2.coherent hc0) 0 _ (by rw [h2.lh]; exact hp.outside)
      (by rw [h2.lh]; show 0 + s.lh.length < L.size; omega)
  -- installing reads only log blocks, and those are the same in the cache and on the disk
  have hiw : installWrites L (view (writeHead L (writeLog L s0))) 0
      (writeHead L (writeLog L s0)).lh =
      installWrites L (Store.apply s.disk (logWrites L (view s) 0 s.lh ++
          [(L.start, putHead s.lh (s.disk L.start))])) 0 s.lh := by
    rw [h2.lh]
    refine installWrites_congr L fun i _ hi => ?_
    rw [h2.view, Store.apply_append, Store.apply_append]
    have hne : L.start + i + 1 ≠ L.start := by omega
    simp only [Store.apply_cons, Store.apply_nil, update_of_ne hne]
    have hi' : i < s.lh.length := by simpa [hs0] using hi
    have e1 := apply_logWrites L (view s) (view s0) 0 s.lh i hi'
    have e2 := apply_logWrites L (view s) s.disk 0 s.lh i hi'
    rw [Nat.zero_add] at e1 e2
    rw [e2]; exact e1
  have h4 := (h3.setLh []).trans (wrote_writeHead L
    (s := { installTrans L (writeHead L (writeLog L s0)) with lh := [] })
    (h3.coherent (h2.coherent hc0)))
  refine ⟨view { installTrans L (writeHead L (writeLog L s0)) with lh := [] } L.start, ?_⟩
  have he : commit L s0 =
      writeHead L { installTrans L (writeHead L (writeLog L s0)) with lh := [] } := by
    simp only [commit, show s0.lh = s.lh from rfl, gt_iff_lt, hn, if_true]
  rw [he, h4.writes]
  show (writeHead L (writeLog L s0)).writes ++ _ = _
  rw [h2.writes, hiw]
  simp [hs0]

/-- Once the header is on the disk the transaction is logged. -/
lemma logged_head (hp : Pending L s) :
    Logged L s (Store.apply s.disk (logWrites L (view s) 0 s.lh ++
      [(L.start, putHead s.lh (s.disk L.start))])) := by
  have hfit := hp.fits
  rw [Store.apply_append, Store.apply_cons, Store.apply_nil]
  refine ⟨?_, fun i hi => ?_, fun b hb _ => ?_⟩
  · rw [update_self, headBlocks_putHead _ _ hp.array]
  · have hne : L.start + i + 1 ≠ L.start := by omega
    rw [update_of_ne hne]
    have := apply_logWrites L (view s) s.disk 0 s.lh i hi
    rwa [Nat.zero_add] at this
  · have hne : b ≠ L.start := by
      rintro rfl
      exact hb (start_inLog L hp)
    rw [update_of_ne hne, Store.apply_of_not_mem fun w hw => ?_]
    have hw' := mem_logWrites L hw
    rintro rfl
    exact hb ⟨by omega, by omega⟩

/-- While the log blocks are being written the transaction has not happened. -/
lemma old_logWrites (hp : Pending L s) :
    Store.Always (Old L s) s.disk (logWrites L (view s) 0 s.lh) := by
  have hfit := hp.fits
  refine Store.Always.of_step ⟨hp.empty, fun _ _ => rfl⟩ fun e w hw he => ?_
  have hw' := mem_logWrites L hw
  refine ⟨?_, fun b hb => ?_⟩
  · rw [update_of_ne (by omega), he.head]
  · have hne : b ≠ w.1 := by
      rintro rfl
      exact hb ⟨by omega, by omega⟩
    rw [update_of_ne hne, he.home b hb]

/-- **The disk at every crash point of `commit`** is of one of the three kinds. -/
lemma commitCrash_cases (hp : Pending L s) (k : ℕ) :
    Old L s (commitCrash L s k) ∨ Logged L s (commitCrash L s k) ∨
      Done L s (commitCrash L s k) := by
  rcases Nat.eq_zero_or_pos s.lh.length with hn | hn
  · have he : commitCrash L s k = s.disk := by
      simp [commitCrash, commit, hn]
    rw [he]
    exact Or.inl ⟨hp.empty, fun _ _ => rfl⟩
  · obtain ⟨h0, hw⟩ := commit_writes L hp hn
    unfold commitCrash
    rw [hw]
    have hA : Store.Always (fun e => Old L s e ∨ Logged L s e ∨ Done L s e) s.disk
        (logWrites L (view s) 0 s.lh ++ [(L.start, putHead s.lh (s.disk L.start))]) := by
      refine Store.Always.append ((old_logWrites L hp).mono fun e he => Or.inl he) ?_
      rw [Store.always_cons]
      refine ⟨Or.inl (old_logWrites L hp).last, Store.always_nil.mpr (Or.inr (Or.inl ?_))⟩
      have := logged_head L hp
      rwa [Store.apply_append] at this
    have hB := (install_then_clear L hp (logged_head L hp) h0).1
    exact (hA.append (hB.mono fun e he => Or.inr he)) k

/-- One modified block, number 40, pinned over a disk of zeros. -/
def oneBlock : Machine where
  disk := fun _ _ => 0
  cache := fun b => if b = 40 then some ⟨fun _ => 7, true, 0⟩ else none
  lh := [40]
  writes := []

end Xv6.LogCrash
