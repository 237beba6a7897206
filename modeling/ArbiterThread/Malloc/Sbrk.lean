import ArbiterThread.Malloc.Alloc

/-!
# The Break

`ablib_sbrk` against a kernel that grants the break asked for, answers the break
there was, or fails. The answers come in any order and are part of the kernel's
state, one for each call.

A failed system call answers -1, the largest word there is. `__ablib_brk` takes
over whatever comes back, and looks for a failure by asking whether it is below
the break it asked for. So a failure reads as a success with a break at the end
of the address space. Apart from that, and from increments that are asserted not
to occur, the break of the allocator is the kernel's.

## Main definitions

* `BrkAnswer`, `BrkKernel`, `brkKernel`: A kernel that answers as it is told.
* `SbrkMeets`: What a call should do.
* `SbrkAnswered`: The calls of `absys_brk` do not fail.
* `SbrkRun`: Sequences of calls.

## Theorems

* `SbrkRun.insync`: The break is the kernel's.
* `sbrk_meets_iff`: A call does what it should exactly if `absys_brk` does not fail.
-/

namespace ArbiterThread

open Exec

/-! ### A kernel that answers as it is told -/

/-- The outcomes of `absys_brk`. -/
inductive BrkAnswer where
  /-- the break asked for -/
  | granted
  /-- the break there was -/
  | refused
  /-- the C library's -1 -/
  | failed
deriving DecidableEq, Repr

/-- The kernel's `ab_brk`, the answers it will give, and how many it has given. -/
structure BrkKernel where
  brk : Nat
  answers : Nat → BrkAnswer
  asked : Nat

/-- The next answer. -/
def BrkKernel.answer (k : BrkKernel) : BrkAnswer := k.answers k.asked

/-- `sys_absys_brk` with the outcome given. A break below the channel heap is
    never set. -/
def BrkKernel.serve (k : BrkKernel) (addr : Nat) : Nat × BrkKernel :=
  match k.answer with
  | .granted =>
      if addr < channelAddr then (k.brk, { k with asked := k.asked + 1 })
      else (addr, { k with brk := addr, asked := k.asked + 1 })
  | .refused => (k.brk, { k with asked := k.asked + 1 })
  | .failed => (morecoreFailure, { k with asked := k.asked + 1 })

def brkKernel : KernelOps BrkKernel where
  absysBrk := fun k _ addr => k.serve addr
  absysMmap := fun k _ addr _ _ => (addr, k)
  absysMunmap := fun k _ _ _ => k
  absysMprotect := fun k _ _ _ _ => (0, k)
  oops := fun _ _ => false
  oops_mprotect := fun _ _ _ _ _ => rfl
  oops_brk := fun _ _ _ => rfl
  oops_mmap := fun _ _ _ _ _ => rfl

/-! ### What a call should do -/

/-- The break a call begins with, which the first one reads from the kernel. -/
def State.openBrk (s : State BrkKernel) : Nat := if s.curbrk = 0 then s.kern.brk else s.curbrk

/-- The call returns with the break of the allocator being the kernel's. If it
    obtains nothing it answers -1 and leaves the break as it was, and if it answers
    an address, then the break is the increment above it. -/
def SbrkMeets (pid increment : Nat) (s : State BrkKernel) : Prop :=
  wp (ablibSbrk brkKernel pid increment)
    (fun r s' => s'.curbrk = s'.kern.brk ∧
      (increment ≠ 0 → s'.kern.brk = s.kern.brk →
        r = morecoreFailure ∧ s'.curbrk = s.openBrk) ∧
      (r ≠ morecoreFailure → s'.curbrk = r + increment))
    (fun _ _ => False) s

instance (pid increment : Nat) (s : State BrkKernel) : Decidable (SbrkMeets pid increment s) :=
  decidableWp

/-- The increment is one of those that are allowed, and the calls of `absys_brk`
    do not fail: the first one, if the break has not been read yet, and the one that
    moves it. -/
def SbrkAnswered (increment : Nat) (s : State BrkKernel) : Prop :=
  (increment = 0 ∨ increment = unitSize) ∧ (s.curbrk = 0 → s.kern.answer ≠ .failed) ∧
    (increment ≠ 0 → s.openBrk + increment < wordSize →
      s.kern.answers (if s.curbrk = 0 then s.kern.asked + 1 else s.kern.asked) ≠ .failed)

/-- Sequences of calls whose system calls do not fail. -/
inductive SbrkRun : State BrkKernel → Prop
  | start (answers : Nat → BrkAnswer) (clients : List ClientDesc) :
      SbrkRun (State.start { brk := channelAddr, answers := answers, asked := 0 } clients)
  | call {s s' : State BrkKernel} (pid increment : Nat) {r : Nat} (before : SbrkRun s)
      (answered : SbrkAnswered increment s)
      (call : ablibSbrk brkKernel pid increment s = .ok r s') : SbrkRun s'

/-! ### Calls -/

/-- The break of the allocator is the kernel's, once it has been read. -/
structure Insync (s : State BrkKernel) : Prop where
  first : s.curbrk = 0 → s.kern.brk = channelAddr
  later : s.curbrk ≠ 0 → s.curbrk = s.kern.brk
  lower : channelAddr ≤ s.kern.brk
  upper : s.kern.brk < wordSize

/-- The state after the break has been read. -/
def State.withBrk (s : State BrkKernel) : State BrkKernel :=
  if s.curbrk = 0 then
    { s with
      kern := { s.kern with asked := s.kern.asked + 1 }
      curbrk := s.kern.brk }
  else s

section

variable {s : State BrkKernel} {increment pid : Nat} {Q : Nat → State BrkKernel → Prop}
variable {E : Fault → State BrkKernel → Prop}

theorem Insync.withBrk (h : Insync s) :
    s.withBrk.curbrk = s.kern.brk ∧ s.withBrk.kern.brk = s.kern.brk ∧
      s.withBrk.kern.answers = s.kern.answers ∧
      s.withBrk.kern.asked = (if s.curbrk = 0 then s.kern.asked + 1 else s.kern.asked) ∧
      s.openBrk = s.kern.brk := by
  unfold State.withBrk State.openBrk
  by_cases hfirst : s.curbrk = 0
  · simp only [hfirst, if_true, and_self]
  · simp only [if_neg hfirst]
    exact ⟨h.later hfirst, trivial, trivial, trivial, h.later hfirst⟩

/-- A failed system call leaves a break the first call does not expect. -/
theorem wp_ablibSbrk_first_failed (hfirst : s.curbrk = 0) (hfail : s.kern.answer = .failed)
    (h : wp (ablibSbrk brkKernel pid increment) Q (fun _ _ => False) s) : False := by
  simp only [ablibSbrk, initBreak, wp_ablibBrk, brkKernel, BrkKernel.serve, hfirst, hfail,
    wp_bind, wp_get, wp_pure, wp_ite, wp_check, if_true, Bool.false_eq_true, if_false] at h
  rw [if_neg (by decide), if_neg (by decide)] at h
  exact h

/-- Any other answer to the first question is the break. -/
theorem wp_ablibSbrk_withBrk (h : Insync s) (hok : s.curbrk = 0 → s.kern.answer ≠ .failed) :
    wp (ablibSbrk brkKernel pid increment) Q E s ↔
      wp (ablibSbrk brkKernel pid increment) Q E s.withBrk := by
  by_cases hfirst : s.curbrk = 0
  · have hbrk := h.first hfirst
    have hserve : s.kern.serve 0 = (s.kern.brk, { s.kern with asked := s.kern.asked + 1 }) := by
      unfold BrkKernel.serve
      cases hcase : s.kern.answer with
      | granted => rfl
      | refused => rfl
      | failed => exact absurd hcase (hok hfirst)
    have hne : s.withBrk.curbrk ≠ 0 := by
      rw [h.withBrk.1, hbrk]
      decide
    have hstate : s.withBrk = { s with
        kern := { s.kern with asked := s.kern.asked + 1 }
        curbrk := s.kern.brk } := if_pos hfirst
    have hinit : ∀ {R : Bool → State BrkKernel → Prop}, wp (initBreak brkKernel pid) R E s ↔
        R true s.withBrk := by
      intro R
      simp only [initBreak, wp_ablibBrk, brkKernel, hserve, hfirst, wp_bind, wp_get, wp_pure,
        wp_ite, wp_check, if_true, Bool.false_eq_true, Nat.not_lt_zero, if_false, lt_irrefl, hbrk,
        hstate]
    have hinit' : ∀ {R : Bool → State BrkKernel → Prop},
        wp (initBreak brkKernel pid) R E s.withBrk ↔ R true s.withBrk := by
      intro R
      simp only [initBreak, hne, wp_bind, wp_get, wp_pure, wp_ite, if_false]
    unfold ablibSbrk
    rw [wp_bind, hinit, wp_bind, hinit']
  · rw [State.withBrk, if_neg hfirst]

/-- The call on a break that has been read. -/
theorem wp_ablibSbrk_later (hne : s.curbrk ≠ 0) :
    wp (ablibSbrk brkKernel pid increment) Q E s ↔
      if increment = 0 then Q s.curbrk s
      else if increment = unitSize then
        if (s.curbrk + increment) % wordSize < s.curbrk then Q morecoreFailure s
        else Q (if (s.kern.serve (s.curbrk + increment)).1 < s.curbrk + increment
          then morecoreFailure else s.curbrk)
          { s with
            kern := (s.kern.serve (s.curbrk + increment)).2
            curbrk := (s.kern.serve (s.curbrk + increment)).1 }
      else E .assertion s := by
  have hrc : ∀ a b : Nat, (if (if a < b then (-12 : Int) else 0) < 0 then morecoreFailure
      else s.curbrk) = if a < b then morecoreFailure else s.curbrk := by
    intro a b
    by_cases hlt : a < b
    · simp only [hlt, if_true, Int.reduceNeg, Int.reduceLT]
    · simp only [hlt, if_false, lt_irrefl]
  simp only [ablibSbrk, initBreak, wp_ablibBrk, brkKernel, hne, wp_bind, wp_get, wp_pure,
    wp_ite, wp_check, Bool.false_eq_true, if_false, if_true]
  split
  · rfl
  · split
    · split
      · rfl
      · exact Iff.of_eq (congrArg (fun r => Q r _) (hrc _ _))
    · rfl

/-- The call whose system calls do not fail. -/
theorem Insync.call (h : Insync s) (hok : SbrkAnswered increment s) (pid : Nat) :
    wp (ablibSbrk brkKernel pid increment)
      (fun r s' => Insync s' ∧ s'.curbrk = s'.kern.brk ∧
        (increment ≠ 0 → s'.kern.brk = s.kern.brk →
          r = morecoreFailure ∧ s'.curbrk = s.openBrk) ∧
        (r ≠ morecoreFailure → s'.curbrk = r + increment))
      (fun _ _ => False) s := by
  obtain ⟨hinc, hfirst, hmove⟩ := hok
  obtain ⟨hcur, hbrk, hanswers, hasked, hopen⟩ := h.withBrk
  have hlower := h.lower
  have hupper := h.upper
  unfold channelAddr at hlower
  have hne : s.withBrk.curbrk ≠ 0 := by omega
  have hready : Insync s.withBrk :=
    ⟨fun h0 => absurd h0 hne, fun _ => hcur.trans hbrk.symm, hbrk ▸ h.lower, hbrk ▸ h.upper⟩
  rw [wp_ablibSbrk_withBrk h hfirst, wp_ablibSbrk_later hne, hcur, hopen]
  -- the question for the break, which changes nothing more
  rcases hinc with rfl | rfl
  · rw [if_pos rfl]
    exact ⟨hready, hbrk.symm, fun h0 => absurd rfl h0, fun _ => rfl⟩
  have hunit : unitSize ≠ 0 := by decide
  rw [if_neg hunit, if_pos rfl]
  by_cases hwrap : (s.kern.brk + unitSize) % wordSize < s.kern.brk
  · -- the sum wraps around, and nothing is asked for
    rw [if_pos hwrap]
    exact ⟨hready, hbrk.symm, fun _ _ => ⟨rfl, rfl⟩, fun hr => absurd rfl hr⟩
  rw [if_neg hwrap]
  have hroom : s.kern.brk + unitSize < wordSize := by
    unfold wordSize unitSize at *
    omega
  have hanswer : s.withBrk.kern.answer ≠ .failed := by
    unfold BrkKernel.answer
    rw [hanswers, hasked]
    exact hmove hunit (by rw [hopen]; exact hroom)
  unfold BrkKernel.serve
  unfold unitSize at *
  cases hcase : s.withBrk.kern.answer with
  | granted =>
    rw [if_neg (by unfold channelAddr; omega)]
    dsimp only
    rw [if_neg (lt_irrefl _)]
    refine ⟨⟨fun h0 => ?_, fun _ => rfl, ?_, hroom⟩, rfl, fun _ heq => ?_, fun _ => rfl⟩
    · dsimp only at h0
      omega
    · unfold channelAddr
      dsimp only
      omega
    · omega
  | refused =>
    dsimp only
    rw [hbrk, if_pos (by omega)]
    refine ⟨⟨fun h0 => ?_, fun _ => rfl, h.lower, h.upper⟩, rfl, fun _ _ => ⟨rfl, rfl⟩,
      fun hr => absurd rfl hr⟩
    dsimp only at h0
    omega
  | failed => exact absurd hcase hanswer

/-- A call that does what it should did not meet a failure. -/
theorem Insync.answered (h : Insync s) (hm : SbrkMeets pid increment s) :
    SbrkAnswered increment s := by
  unfold SbrkMeets at hm
  obtain ⟨hcur, hbrk, hanswers, hasked, hopen⟩ := h.withBrk
  have hlower := h.lower
  unfold channelAddr at hlower
  have hfirst : s.curbrk = 0 → s.kern.answer ≠ .failed :=
    fun h0 hfail => wp_ablibSbrk_first_failed h0 hfail hm
  rw [wp_ablibSbrk_withBrk h hfirst, wp_ablibSbrk_later (by omega), hcur] at hm
  by_cases hzero : increment = 0
  · exact ⟨.inl hzero, hfirst, fun hne => absurd hzero hne⟩
  by_cases hunit : increment = unitSize
  · refine ⟨.inr hunit, hfirst, fun _ hroom hfail => ?_⟩
    rw [hopen] at hroom
    have hanswer : s.withBrk.kern.answer = .failed := by
      unfold BrkKernel.answer
      rw [hanswers, hasked]
      exact hfail
    have hwrap : ¬ (s.kern.brk + increment) % wordSize < s.kern.brk := by
      rw [Nat.mod_eq_of_lt hroom]
      omega
    rw [if_neg hzero, if_pos hunit, if_neg hwrap] at hm
    simp only [BrkKernel.serve, hanswer] at hm
    -- the break is at the end of the address space, and the kernel's is not
    have hsync := hm.1
    rw [hbrk] at hsync
    unfold unitSize at hunit
    unfold morecoreFailure at hsync
    unfold wordSize at hroom
    omega
  · rw [if_neg hzero, if_neg hunit] at hm
    exact hm.elim

end

/-! ### Sequences of calls -/

theorem SbrkRun.insync {s : State BrkKernel} (h : SbrkRun s) : Insync s := by
  induction h with
  | start answers clients =>
    exact ⟨fun _ => rfl, fun h => absurd rfl h, le_rfl, by
      change channelAddr < wordSize
      decide⟩
  | call pid increment _ answered call ih => exact (wp_run (ih.call answered pid) call).1

/-- The second system call fails, and the first call to `ablib_sbrk` answers an
    address with the break at the end of the address space. -/
theorem sbrk_failed_reads_as_granted :
    ¬ SbrkMeets 7 unitSize (State.start
      { brk := channelAddr, answers := fun n => if n = 0 then .refused else .failed, asked := 0 }
      []) := by
  decide

/-- As long as no system call fails the break is the kernel's, and a call does what
    it should exactly if its system calls do not fail. -/
theorem sbrk_meets_iff {s : State BrkKernel} (h : SbrkRun s) :
    (s.curbrk ≠ 0 → s.curbrk = s.kern.brk) ∧
      ∀ pid increment, SbrkMeets pid increment s ↔ SbrkAnswered increment s := by
  refine ⟨h.insync.later, fun pid increment => ⟨h.insync.answered, fun hok => ?_⟩⟩
  exact wp_mono (h.insync.call hok pid) (fun _ _ hpost => hpost.2) (fun _ _ hfault => hfault)

/-- The first call, with a kernel that grants everything. -/
theorem sbrk_meets_granted :
    SbrkMeets 7 unitSize
      (State.start { brk := channelAddr, answers := fun _ => .granted, asked := 0 } []) := by
  refine ((sbrk_meets_iff (.start (fun _ => .granted) [])).2 7 unitSize).mpr
    ⟨.inr rfl, fun _ => ?_, fun _ _ => ?_⟩
  · decide
  · decide

end ArbiterThread
