import ArbiterThread.Malloc.Quiet

/-!
# Locked Sections

The public functions of the allocator are sequences of locked sections. What
they have in common is proved here once, for any two properties of states: one
that holds while the lock is held and is kept by work on bins and chunks, and
one that holds in between. A later file says what the two are, what happens
where a unit is given back, and what a request for new memory needs.

## Main definitions

* `Ends`: A run ends in a given kind of state, or in a given kind of fault.
* `Sections`: What the two properties have to satisfy.
* `ReallocOk`, `CallOk`: Every request for new memory that a call makes meets a condition.

## Theorems

* `Sections.ablibFree`, `Sections.ablibCalloc`, `Sections.ablibRealloc`: The
  public functions, given what holds of `ablib_malloc`.
* `Sections.call`: Any call that meets the condition.
-/

namespace ArbiterThread

open Exec

variable {K α β : Type}

/-- The run ends in a state with `Q`, or in a fault with `F`. -/
def Ends (Q : State K → Prop) (F : Fault → Prop) (x : HeapM K α) (s : State K) : Prop :=
  wp x (fun _ s' => Q s') (fun e _ => F e) s

namespace Ends

variable {P Q : State K → Prop} {F : Fault → Prop} {s : State K}

theorem pure (h : Q s) (a : α) : Ends Q F (Pure.pure a : HeapM K α) s := (wp_pure ..).mpr h

theorem ite {c : Prop} [Decidable c] {x y : HeapM K α} (hx : c → Ends Q F x s)
    (hy : ¬ c → Ends Q F y s) : Ends Q F (if c then x else y) s := by
  unfold Ends
  by_cases hc : c
  · rw [if_pos hc]
    exact hx hc
  · rw [if_neg hc]
    exact hy hc

theorem bind {x : HeapM K β} {f : β → HeapM K α} (hx : Ends P F x s)
    (hf : ∀ b s', P s' → Ends Q F (f b) s') : Ends Q F (x >>= f) s := by
  unfold Ends
  rw [wp_bind]
  exact wp_mono hx (fun b s' h => hf b s' h) (fun e s' h => h)

/-- Reading a word, when what was read matters. -/
theorem load (hF : F .segv) {f : Nat → HeapM K α} {a : Nat}
    (hf : Ends Q F (f (s.mem.load32 a)) s) : Ends Q F (ArbiterThread.load a >>= f) s := by
  unfold Ends
  rw [wp_bind, wp_load]
  split
  · exact hf
  · exact hF

/-- Looking up a unit, when it matters which. -/
theorem lookup (hF : F .segv) {f : Nat → HeapM K α} {ptr : Nat}
    (hf : ∀ u ∈ unitAt s ptr, Ends Q F (f u) s) :
    Ends Q F (lookupUstateByMem ptr >>= f) s := by
  unfold Ends
  rw [wp_bind, wp_lookupUstateByMem]
  cases hu : unitAt s ptr with
  | some u => exact hf u hu
  | none => exact hF

theorem unit {f : Ustate → HeapM K α} {u : Nat} (hf : Ends Q F (f (s.units u)) s) :
    Ends Q F (getUnit u >>= f) s := by
  unfold Ends
  rw [wp_bind, wp_getUnit]
  exact hf

theorem mstate {f : Mstate → HeapM K α} {av : Nat} (hf : Ends Q F (f (s.mstates av)) s) :
    Ends Q F (getMstate av >>= f) s := by
  unfold Ends
  rw [wp_bind, wp_getMstate]
  exact hf

/-- The lock was only taken and is given back: the state is that of the call. -/
theorem relock {f : Unit → HeapM K α} (hlocked : s.locked = false)
    (hf : Ends Q F (f ()) s) :
    Ends Q F (mallocUnlock >>= f) { s with locked := true } := by
  unfold Ends
  rw [wp_bind, wp_mallocUnlock, if_pos rfl]
  change Ends Q F (f ()) { s with locked := false }
  rw [← hlocked]
  exact hf

end Ends

/-- The condition on `ablib_realloc`, given one on requests. If the block moves,
    the inner request has to meet it. -/
def ReallocOk (M : Nat → Label → State K → Prop) (Out : Prop) (oldmem bytes : Nat) (L : Label)
    (s : State K) : Prop :=
  if oldmem = 0 then M bytes L s
  else bytes = 0 ∨ ((requestOutOfRange bytes → Out) ∧
    (¬ requestOutOfRange bytes → ∀ u ∈ unitAt s oldmem,
      reallocMoves s u oldmem (request2size bytes) → M (request2size bytes - 7) L s))

theorem ReallocOk.mono {M M' : Nat → Label → State K → Prop} {Out : Prop} {oldmem bytes : Nat}
    {L : Label} {s : State K} (hM : ∀ bytes, M bytes L s → M' bytes L s)
    (hok : ReallocOk M Out oldmem bytes L s) : ReallocOk M' Out oldmem bytes L s := by
  unfold ReallocOk at hok ⊢
  split
  · rename_i hzero
    rw [if_pos hzero] at hok
    exact hM bytes hok
  · rename_i hne
    rw [if_neg hne] at hok
    exact hok.imp_right (And.imp_right fun hmoves hin u hu hmove => hM _ (hmoves hin u hu hmove))

/-- `Held` is a property of states in which the lock is held, `Rest` one of states
    between two sections, and `F` contains the faults that may happen. -/
structure Sections (ops : KernelOps K) (Held Rest : State K → Prop) (F : Fault → Prop) : Prop where
  fault : ∀ e, HeapFault e → F e
  frame : ∀ s s', Frame s s' → Held s → Held s'
  frame_rest : ∀ s s', Frame s s' → Rest s → Rest s'
  lock : ∀ s, Rest s → s.locked = false → Held { s with locked := true }
  deadlock : ∀ s, Rest s → s.locked = true → F .deadlock
  unlock : ∀ s, Held s → s.locked = true → Rest { s with locked := false }
  badUnlock : ∀ s, Held s → s.locked = false → F .badUnlock
  /-- giving a unit back -/
  freeMmapped : ∀ s pid av u p head, Held s → Ends Held F (freeMmapped ops pid av u p head) s

namespace Sections

variable {ops : KernelOps K} {Held Rest : State K → Prop} {F : Fault → Prop}
  (h : Sections ops Held Rest F) {s : State K}

include h

theorem framed {x : HeapM K α} (hx : Framed x) (hs : Held s) : Ends Held F x s := by
  unfold Ends
  exact wp_mono (hx s) (fun _ s' hf => h.frame s s' hf hs) (fun e _ hf => h.fault e hf.1)

theorem framed_rest {x : HeapM K α} (hx : Framed x) (hs : Rest s) : Ends Rest F x s := by
  unfold Ends
  exact wp_mono (hx s) (fun _ s' hf => h.frame_rest s s' hf hs) (fun e _ hf => h.fault e hf.1)

/-- Work on bins and chunks, in front. -/
theorem framed_bind {Q : State K → Prop} {x : HeapM K β} {f : β → HeapM K α} (hx : Framed x)
    (hs : Held s) (hf : ∀ b s', Held s' → Ends Q F (f b) s') : Ends Q F (x >>= f) s :=
  Ends.bind (h.framed hx hs) hf

theorem lock_bind {Q : State K → Prop} {f : Unit → HeapM K α} (hs : Rest s)
    (hf : s.locked = false → Held { s with locked := true } →
      Ends Q F (f ()) { s with locked := true }) : Ends Q F (mallocLock >>= f) s := by
  unfold Ends
  rw [wp_bind, wp_mallocLock]
  split
  · rename_i hlocked
    exact h.deadlock s hs hlocked
  · rename_i hlocked
    rw [Bool.not_eq_true] at hlocked
    exact hf hlocked (h.lock s hs hlocked)

theorem unlock_last (hs : Held s) : Ends Rest F (mallocUnlock : HeapM K Unit) s := by
  unfold Ends
  rw [wp_mallocUnlock]
  split
  · rename_i hlocked
    exact h.unlock s hs hlocked
  · rename_i hlocked
    rw [Bool.not_eq_true] at hlocked
    exact h.badUnlock s hs hlocked

theorem unlock_bind {f : Unit → HeapM K α} (hs : Held s)
    (hf : ∀ s', Rest s' → Ends Rest F (f ()) s') : Ends Rest F (mallocUnlock >>= f) s :=
  Ends.bind (h.unlock_last hs) (fun _ s' hs' => hf s' hs')

theorem ablibFree (pid mem : Nat) (hs : Rest s) : Ends Rest F (ablibFree ops pid mem) s := by
  refine Ends.ite (fun _ => Ends.pure hs _) (fun _ => ?_)
  refine h.lock_bind hs (fun _ h0 => ?_)
  refine h.framed_bind (framed_lookupUstateByMem mem) h0 (fun u s1 h1 => ?_)
  refine h.framed_bind (framed_getUnit u) h1 (fun unit s2 h2 => ?_)
  refine h.framed_bind (framed_headOf _) h2 (fun head s3 h3 => ?_)
  refine h.framed_bind (framed_getMstate _) h3 (fun m s4 h4 => ?_)
  refine Ends.bind ?_ (fun _ s5 h5 => h.unlock_last h5)
  refine Ends.ite (fun _ => h.framed (framed_freeFast _ _ _) h4) (fun _ => ?_)
  refine Ends.ite (fun _ => h.freeMmapped s4 _ _ _ _ _ h4) (fun _ => ?_)
  exact h.framed (framed_freeChunk _ _ _ _) h4

theorem reallocSplit (pid nb newp newsize : Nat) (hs : Held s) :
    Ends Rest F (reallocSplit ops pid nb newp newsize) s := by
  refine h.framed_bind (framed_check _) hs (fun _ s1 h1 => ?_)
  refine Ends.bind (P := Rest) ?_ (fun _ s2 h2 => Ends.pure h2 _)
  refine Ends.ite (fun _ => ?_) (fun _ => ?_)
  · refine h.framed_bind (framed_setHeadSize _ _) h1 (fun _ s2 h2 => ?_)
    refine h.framed_bind (framed_setInuseBitAtOffset _ _) h2 (fun _ s3 h3 => ?_)
    exact h.unlock_last h3
  · refine h.framed_bind (framed_setHeadSize _ _) h1 (fun _ s2 h2 => ?_)
    refine h.framed_bind (framed_setHead _ _) h2 (fun _ s3 h3 => ?_)
    refine h.framed_bind (framed_setInuseBitAtOffset _ _) h3 (fun _ s4 h4 => ?_)
    exact h.unlock_bind h4 (fun s5 h5 => h.ablibFree pid _ h5)

variable {pid : Nat} {M : Nat → Label → State K → Prop} (hM : ∀ bytes L s, Rest s →
  M bytes L s → Ends Rest F (ablibMalloc ops pid bytes L) s)

include hM

theorem ablibCalloc (n e : Nat) (L : Label) (hs : Rest s)
    (hok : ¬ (n ≠ 0 ∧ e ≠ n * e % wordSize / n) → M (n * e % wordSize) L s) :
    Ends Rest F (ablibCalloc ops pid n e L) s := by
  refine Ends.ite (fun _ => Ends.pure hs _) (fun hfit => ?_)
  refine Ends.bind (hM _ L s hs (hok hfit)) (fun mem s1 h1 => ?_)
  refine Ends.ite (fun _ => ?_) (fun _ => Ends.pure h1 _)
  refine Ends.bind (h.framed_rest (framed_headOf _) h1) (fun head s2 h2 => ?_)
  refine Ends.bind ?_ (fun _ s3 h3 => Ends.pure h3 _)
  exact h.framed_rest (Framed.ite (Framed.pure _) (framed_clearBlock _ _)) h2

theorem reallocCopy (oldmem nb oldp oldsize next : Nat) (L : Label) (hs : Rest s)
    (hlocked : s.locked = false) (hok : M (nb - 7) L s) :
    Ends Rest F (reallocCopy ops pid oldmem nb oldp oldsize next L) { s with locked := true } := by
  refine Ends.relock hlocked ?_
  refine Ends.bind (hM _ L s hs hok) (fun newmem s1 h1 => ?_)
  refine Ends.ite (fun _ => Ends.pure h1 _) (fun _ => ?_)
  refine h.lock_bind h1 (fun _ h2 => ?_)
  refine h.framed_bind (framed_chunksize _) h2 (fun newsize s3 h3 => ?_)
  refine Ends.ite (fun _ => h.reallocSplit pid nb oldp _ h3) (fun _ => ?_)
  refine h.framed_bind (framed_copyBlock _ _ _) h3 (fun _ s4 h4 => ?_)
  refine h.unlock_bind h4 (fun s5 h5 => ?_)
  exact Ends.bind (h.ablibFree pid oldmem h5) (fun _ s6 h6 => Ends.pure h6 _)

theorem reallocMmapped (oldmem nb u : Nat) (L : Label) (hs : Rest s)
    (hlocked : s.locked = false) (hmmapped : isMmapped (s.mem.load32 (mem2chunk oldmem + 4)))
    (hok : reallocMoves s u oldmem nb → M (nb - 7) L s) :
    Ends Rest F (reallocMmapped ops pid oldmem nb (s.units u).unitAv (mem2chunk oldmem)
      (sizeOfHead (s.mem.load32 (mem2chunk oldmem + 4))) L) { s with locked := true } := by
  have hsegv : F .segv := h.fault _ heapFault_segv
  refine Ends.load hsegv (Ends.mstate ?_)
  refine Ends.ite (fun _ => Ends.relock hlocked (Ends.pure hs _)) (fun hpages => ?_)
  refine Ends.ite (fun _ => Ends.relock hlocked (Ends.pure hs _)) (fun hsmall => ?_)
  have hmoves : reallocMoves s u oldmem nb := by
    simp only [reallocMoves, hmmapped, if_true]
    exact ⟨hpages, by omega⟩
  refine Ends.relock hlocked ?_
  refine Ends.bind (hM _ L s hs (hok hmoves)) (fun newmem s1 h1 => ?_)
  refine Ends.ite (fun _ => ?_) (fun _ => Ends.pure h1 _)
  refine Ends.bind (h.framed_rest (framed_copyBytes _ _ _) h1) (fun _ s2 h2 => ?_)
  exact Ends.bind (h.ablibFree pid oldmem h2) (fun _ s3 h3 => Ends.pure h3 _)

theorem reallocGrow (oldmem nb u : Nat) (L : Label) (hs : Rest s)
    (hlocked : s.locked = false) (hmmapped : ¬ isMmapped (s.mem.load32 (mem2chunk oldmem + 4)))
    (hsmall : ¬ nb ≤ sizeOfHead (s.mem.load32 (mem2chunk oldmem + 4)))
    (hok : reallocMoves s u oldmem nb → M (nb - 7) L s) :
    Ends Rest F (reallocGrow ops pid oldmem nb u (mem2chunk oldmem)
      (sizeOfHead (s.mem.load32 (mem2chunk oldmem + 4))) L) { s with locked := true } := by
  have hsegv : F .segv := h.fault _ heapFault_segv
  have h0 := h.lock s hs hlocked
  refine Ends.unit ?_
  simp only [chunksize, headOf, bind_assoc, pure_bind]
  refine Ends.load hsegv ?_
  refine Ends.ite (fun _ => ?_) (fun htop => ?_)
  · refine h.framed_bind (framed_setHeadSize _ _) h0 (fun _ s1 h1 => ?_)
    refine h.framed_bind (framed_setUnitTop _ _) h1 (fun _ s2 h2 => ?_)
    refine h.framed_bind (framed_setHead _ _) h2 (fun _ s3 h3 => ?_)
    exact h.unlock_bind h3 (fun s4 h4 => Ends.pure h4 _)
  · refine Ends.ite (fun hnext => ?_) (fun hnext => ?_)
    · simp only [inuse, inuseBitAtOffset, headOf, bind_assoc, pure_bind]
      refine Ends.load hsegv (Ends.load hsegv ?_)
      refine Ends.ite (fun _ => ?_) (fun hfree => ?_)
      · exact h.framed_bind (framed_unlink _) h0
          (fun _ s1 h1 => h.reallocSplit pid nb _ _ h1)
      · refine h.reallocCopy hM oldmem nb _ _ _ L hs hlocked (hok ?_)
        simp only [reallocMoves, hmmapped, if_false]
        refine ⟨by omega, htop, fun hc => hfree ⟨?_, hc.2.2⟩⟩
        rw [decide_eq_true_eq]
        exact hc.2.1
    · refine h.reallocCopy hM oldmem nb _ _ _ L hs hlocked (hok ?_)
      simp only [reallocMoves, hmmapped, if_false]
      exact ⟨by omega, htop, fun hc => hnext hc.1⟩

theorem ablibRealloc (oldmem bytes : Nat) (L : Label) (hs : Rest s)
    {Out : Prop} (hout : Out → ∀ s, Held s → Rest s) (hok : ReallocOk M Out oldmem bytes L s) :
    Ends Rest F (ablibRealloc ops pid oldmem bytes L) s := by
  have hsegv : F .segv := h.fault _ heapFault_segv
  unfold ReallocOk at hok
  refine Ends.ite (fun hold => ?_) (fun hold => ?_)
  · rw [if_pos hold] at hok
    exact hM bytes L s hs hok
  rw [if_neg hold] at hok
  refine Ends.ite (fun _ => ?_) (fun hbytes => ?_)
  · exact Ends.bind (h.ablibFree pid oldmem hs) (fun _ s1 h1 => Ends.pure h1 _)
  obtain ⟨hrange, hmove⟩ := hok.resolve_left hbytes
  refine h.lock_bind hs (fun hlocked h0 => Ends.lookup hsegv (fun u hu => Ends.unit ?_))
  refine Ends.ite (fun hr => Ends.pure (hout (hrange hr) _ h0) _) (fun hr => ?_)
  have hmove := hmove hr u hu
  refine Ends.load hsegv ?_
  refine Ends.ite (fun hm => ?_) (fun hm => ?_)
  · exact h.reallocMmapped (s := s) hM oldmem _ u L hs hlocked hm hmove
  · refine Ends.ite (fun _ => ?_) (fun hsmall => ?_)
    · exact h.reallocSplit pid _ _ _ h0
    · exact h.reallocGrow (s := s) hM oldmem _ u L hs hlocked hm hsmall hmove

end Sections

/-- Every request for new memory that the call makes meets `M`, and a `realloc`
    of a block is not out of range, unless `Out`. -/
def CallOk (M : Nat → Label → State K → Prop) (Out : Prop) (s : State K) : Call → Prop
  | .malloc _ bytes L => M bytes L s
  | .calloc _ n e L => ¬ (n ≠ 0 ∧ e ≠ n * e % wordSize / n) → M (n * e % wordSize) L s
  | .realloc _ oldmem bytes L => ReallocOk M Out oldmem bytes L s
  | .free _ _ => True

/-- A call that meets the condition ends between two sections. -/
theorem Sections.call {ops : KernelOps K} {Held Rest : State K → Prop} {F : Fault → Prop}
    (h : Sections ops Held Rest F) {M : Nat → Label → State K → Prop}
    (hM : ∀ pid bytes L s, Rest s → M bytes L s → Ends Rest F (ablibMalloc ops pid bytes L) s)
    {Out : Prop} (hout : Out → ∀ s, Held s → Rest s) (c : Call) {s : State K} (hs : Rest s)
    (hok : CallOk M Out s c) : Ends Rest F (c.run ops) s := by
  cases c with
  | malloc pid bytes L => exact hM pid bytes L s hs hok
  | calloc pid n e L => exact h.ablibCalloc (hM pid) n e L hs hok
  | realloc pid oldmem bytes L => exact h.ablibRealloc (hM pid) oldmem bytes L hs hout hok
  | free pid mem =>
    exact Ends.bind (h.ablibFree pid mem hs) (fun _ s1 h1 => Ends.pure h1 _)

end ArbiterThread
