import ArbiterThread.Malloc.Section

/-!
# The Allocator's Lock

Whether `__malloc_lock` is taken and released in turn, on every path of the
four public functions.

Two paths break the discipline. The size check of `ablib_malloc` and
`ablib_realloc` is a macro with a `return` in it, and the lock is held when it
returns. And `__malloc_alloc`, called with the lock held, may call
`ablib_malloc` again, which blocks for ever: that happens to a small request
that the bins and unit tops cannot serve while fastbin chunks are pending.

`LockOk` says that a call takes neither path, and `lock_discipline` that
nothing else goes wrong. Apart from these two paths every public function is a
sequence of locked sections, so the work is to see that what stands between
`__MALLOC_LOCK` and `__MALLOC_UNLOCK` never looks at the lock.

## Main definitions

* `MallocLockOk`, `ReallocLockOk`: The condition on requests.
* `LockOk`: The call takes neither of the two paths.
* `LockRun`: Runs of calls that meet the condition.

## Theorems

* `balanced_call`: Each public function gives the lock back.
* `lock_discipline`: The lock discipline over whole runs.
* `lock_discipline_fails`: A request of 2^32 - 1 bytes returns with the lock
  held.
-/

namespace ArbiterThread

open Exec

variable {K α β : Type}

/-! ### Malloc -/

/-- The request is not out of range, and if it is small and gets as far as
    `__malloc_alloc`, there are no fastbin chunks pending there. -/
def MallocLockOk (bytes : Nat) (L : Label) (s : State K) : Prop :=
  bytes = 0 ∨ (¬ requestOutOfRange bytes ∧
    AtAlloc bytes L
      (fun av s' => inSmallbinRange (request2size bytes) → ¬ haveFastchunks (s'.mstates av)) s)

theorem locked_mallocAlloc (ops : KernelOps K) (retry : Nat → Nat → Label → HeapM K Nat)
    (pid nb av : Nat) (L : Label) {s : State K}
    (hfast : inSmallbinRange nb → ¬ haveFastchunks (s.mstates av)) :
    wp (mallocAlloc ops retry pid nb av L) (fun _ s' => s'.locked = s.locked)
      (fun e _ => HeapFault e) s := by
  simp only [mallocAlloc, wp_bind, wp_getMstate, wp_ite]
  split
  · rename_i hpending
    -- With chunks pending the request is large, and the assertion catches it.
    have hlarge : ¬ inSmallbinRange nb := fun hsmall => hfast hsmall hpending
    rw [check, if_neg hlarge, wp_throw]
    exact heapFault_assertion
  · have hmmap := quiet_mallocMmap ops pid nb av L s
    refine wp_mono hmmap (fun mem s1 h1 => ?_) (fun e s1 h1 => h1.1)
    cases mem with
    | some mem =>
        rw [wp_pure]
        exact h1.locked
    | none =>
        have hsbrk := quiet_mallocSbrk ops pid nb av L s1
        exact wp_mono hsbrk (fun _ s2 h2 => h2.locked.trans h1.locked) (fun e s2 h2 => h2.1)

/-- From an unlocked state `ablib_malloc` gives the lock back. The recursive call
    does not matter, because the condition keeps the code away from it. -/
theorem balanced_ablibMallocStep (ops : KernelOps K) (retry : Nat → Nat → Label → HeapM K Nat)
    (pid bytes : Nat) (L : Label) {s : State K} (h : s.locked = false)
    (hok : MallocLockOk bytes L s) :
    Ends (fun s => s.locked = false) HeapFault (ablibMallocStep ops retry pid bytes L) s := by
  unfold Ends ablibMallocStep
  rw [wp_bind]
  simp only [lookupMstateByLabel, wp_bind, wp_get, wp_pure, wp_ite]
  split
  · exact h
  · rename_i hbytes
    obtain ⟨hrange, halloc⟩ := hok.resolve_left hbytes
    rw [atAlloc_iff] at halloc
    -- Entering takes the lock, and making a `malloc_state` leaves it taken.
    have henter : ∀ av : Option Nat, wp (mallocEnter av) (fun _ s' => s'.locked = true)
        (fun e _ => HeapFault e) s := by
      intro av
      simp only [mallocEnter, wp_bind, wp_mallocLock, h, Bool.false_eq_true, if_false]
      cases av with
      | some av =>
          rw [wp_pure]
      | none => exact wp_mono (quiet_newMstate _) (fun _ _ hl => hl.locked) (fun _ _ he => he.1)
    refine wp_mono (wp_and (henter _) halloc) (fun av s1 h1 => ?_) (fun e s1 h1 => h1.1)
    simp only [hrange, if_false]
    have hserve := quiet_mallocServe av (request2size bytes) L s1
    rw [mallocBody, wp_bind]
    refine wp_mono (wp_and hserve h1.2) (fun found s2 h2 => ?_) (fun e s2 h2 => h2.1.1)
    have hheld : s2.locked = true := h2.1.locked.trans h1.1
    cases found with
    | some mem =>
        rw [wp_pure, wp_mallocUnlock, hheld]
        rfl
    | none =>
        have hmem := locked_mallocAlloc ops retry pid (request2size bytes) av L (h2.2 rfl)
        refine wp_mono hmem (fun mem s3 h3 => ?_) (fun e s3 h3 => h3)
        rw [wp_mallocUnlock, show s3.locked = true from h3.trans hheld]
        rfl

/-! ### Runs -/

/-- The condition on `ablib_realloc`. If the block moves, the inner request has
    to meet the condition on requests. -/
def ReallocLockOk (oldmem bytes : Nat) (L : Label) (s : State K) : Prop :=
  if oldmem = 0 then MallocLockOk bytes L s
  else bytes = 0 ∨ (¬ requestOutOfRange bytes ∧ ∀ u ∈ unitAt s oldmem,
    reallocMoves s u oldmem (request2size bytes) →
      MallocLockOk (request2size bytes - 7) L s)

/-- The call does not take one of the two paths that break the discipline. -/
def LockOk (s : State K) : Call → Prop
  | .malloc _ bytes L => MallocLockOk bytes L s
  | .calloc _ n e L =>
      ¬ (n ≠ 0 ∧ e ≠ n * e % wordSize / n) → MallocLockOk (n * e % wordSize) L s
  | .realloc _ oldmem bytes L => ReallocLockOk oldmem bytes L s
  | .free _ _ => True

/-- The lock is held, and it is free. -/
theorem lock_sections (ops : KernelOps K) :
    Sections ops (fun s => s.locked = true) (fun s => s.locked = false) HeapFault where
  fault _ he := he
  frame _ _ hf hs := hf.outside.locked.trans hs
  frame_rest _ _ hf hs := hf.outside.locked.trans hs
  lock _ _ _ := rfl
  deadlock s hs hlocked := absurd (hs.symm.trans hlocked) Bool.false_ne_true
  unlock _ _ _ := rfl
  badUnlock s hs hlocked := absurd (hlocked.symm.trans hs) Bool.false_ne_true
  freeMmapped s pid av u p head hs := by
    refine wp_mono (quiet_freeMmapped ops pid av u p head s) ?_ (fun _ _ he => he.1)
    exact fun _ s' hq => hq.locked.trans hs

theorem LockOk.callOk {s : State K} {c : Call} (h : LockOk s c) :
    CallOk MallocLockOk False s c := by
  cases c with
  | malloc pid bytes L => exact h
  | calloc pid n e L => exact h
  | realloc pid oldmem bytes L =>
    change ReallocLockOk oldmem bytes L s at h
    change ReallocOk MallocLockOk False oldmem bytes L s
    unfold ReallocLockOk at h
    unfold ReallocOk
    split at h
    · rw [if_pos ‹_›]
      exact h
    · rw [if_neg ‹_›]
      exact h.imp_right (fun h => ⟨h.1, fun _ => h.2⟩)
  | free pid mem => trivial

theorem balanced_call (ops : KernelOps K) (c : Call) {s : State K} (h : s.locked = false)
    (hok : LockOk s c) : Ends (fun s => s.locked = false) HeapFault (c.run ops) s := by
  refine (lock_sections ops).call ?_ False.elim c h hok.callOk
  intro pid bytes L s hs hM
  exact balanced_ablibMallocStep ops (ablibMallocAux ops 1) pid bytes L hs hM

/-- Sequences of calls that all return and all meet the condition. -/
inductive LockRun (ops : KernelOps K) (s0 : State K) : State K → Prop
  | start : LockRun ops s0 s0
  | call {s s' : State K} {r : Nat} (c : Call) (run : LockRun ops s0 s) (ok : LockOk s c)
      (ret : c.run ops s = .ok r s') : LockRun ops s0 s'

/-- In every run that starts unlocked and whose calls meet the condition, the
    lock is free after each call, and no call takes the lock while it is held or
    releases it while it is free. -/
theorem lock_discipline (ops : KernelOps K) (s0 s : State K) (h0 : s0.locked = false)
    (hrun : LockRun ops s0 s) :
    s.locked = false ∧ ∀ c, LockOk s c →
      wp (c.run ops) (fun _ s' => s'.locked = false)
        (fun e _ => e ≠ .deadlock ∧ e ≠ .badUnlock) s := by
  have hfree : s.locked = false := by
    induction hrun with
    | start => exact h0
    | call c run ok ret ih =>
        have hcall := balanced_call ops c ih ok
        unfold Ends at hcall
        have hret := wp_run hcall ret
        exact hret
  exact ⟨hfree, fun c hok => balanced_call ops c hfree hok⟩

/-- A run of two calls that meet the condition: a request and its release. -/
theorem lock_discipline_malloc_free :
    ∃ s, LockRun generousKernel (State.start () []) s ∧ haveFastchunks (s.mstates 0) ∧
      s.locked = false ∧ ∀ c, LockOk s c →
        wp (c.run generousKernel) (fun _ s' => s'.locked = false)
          (fun e _ => e ≠ .deadlock ∧ e ≠ .badUnlock) s := by
  let request : Call := .malloc 1 16 (fun _ => 0)
  let release : Call := .free 1 0x80000008
  have hok : LockOk (State.start () []) request := by
    exact Or.inr ⟨by decide, by decide +kernel⟩
  obtain ⟨mem, s1, h1, hs1⟩ : ∃ mem s1,
      request.run generousKernel (State.start () []) = .ok mem s1 ∧
      wp (release.run generousKernel) (fun _ s => haveFastchunks (s.mstates 0))
        (fun _ _ => False) s1 := exists_ok (by decide +kernel)
  obtain ⟨r, s2, h2, hfast⟩ := exists_ok hs1
  have hrun : LockRun generousKernel (State.start () []) s2 :=
    .call release (.call request .start hok h1) trivial h2
  exact ⟨s2, hrun, hfast, lock_discipline generousKernel _ s2 rfl hrun⟩

/-- A request of 2^32 - 1 bytes returns `NULL` with the lock held. -/
theorem lock_discipline_fails :
    (State.start () []).locked = false ∧
    wp ((Call.malloc 1 0xFFFFFFFF (fun _ => 0)).run generousKernel)
      (fun r s' => r = 0 ∧ s'.locked = true) (fun _ _ => False) (State.start () []) ∧
    ¬ wp ((Call.malloc 1 0xFFFFFFFF (fun _ => 0)).run generousKernel)
      (fun _ s' => s'.locked = false) (fun e _ => e ≠ .deadlock ∧ e ≠ .badUnlock)
      (State.start () []) := by
  refine ⟨rfl, ?_, ?_⟩
  · decide +kernel
  · decide +kernel

-- A small request with a fastbin chunk pending and every unit top too small
-- blocks for ever.
example :
    wp (do
      let mem ← ablibMalloc generousKernel 1 16 (fun _ => 0)
      let _ ← ablibMalloc generousKernel 1 40700 (fun _ => 0)
      ablibFree generousKernel 1 mem
      ablibMalloc generousKernel 1 240 (fun _ => 0))
      (fun _ _ => False) (fun e _ => e = .deadlock) (State.start () []) := by
  decide +kernel

end ArbiterThread
