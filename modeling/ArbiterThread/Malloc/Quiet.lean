import ArbiterThread.Malloc.Frame

/-!
# What the Allocator Leaves Alone

No step of the allocator looks at the client table, at the category generator
or at what was reported, and what stands between `__MALLOC_LOCK` and
`__MALLOC_UNLOCK` does not touch the lock either.

## Main definitions

* `State.table`: What the arbiter keeps besides the heap.
* `Quiet`: A program leaves the lock and the table alone.
* `Tabled`: A program leaves the table alone.
* `updateKern`: The system calls of `malloc_update`.

## Theorems

* `quiet_mallocServe`, `quiet_mallocMmap`, `quiet_mallocSbrk`,
  `quiet_freeMmapped`: The parts of the allocator leave both alone.
* `tabled_ablibMalloc`, `tabled_ablibCalloc`, `tabled_ablibFree`,
  `tabled_ablibRealloc`: The public functions leave the table alone, however they
  end.
* `wp_mallocUpdate`: `malloc_update` only changes the kernel.
-/

namespace ArbiterThread

open Exec

variable {K α β : Type}

/-- What the arbiter keeps besides the heap: its clients and categories, and what
    else the process has mapped. -/
def State.table (s : State K) : List ClientDesc × Cat × (Nat → Bool) :=
  (s.clients, s.catGen, s.elsewhere)

/-- The lock and the table are as they were. -/
def SameOutside (s s' : State K) : Prop := (s'.locked, s'.table) = (s.locked, s.table)

theorem SameOutside.refl (s : State K) : SameOutside s s := rfl

theorem SameOutside.trans (s t r : State K) (h : SameOutside s t) (h' : SameOutside t r) :
    SameOutside s r :=
  Eq.trans h' h

theorem SameOutside.locked {s s' : State K} (h : SameOutside s s') : s'.locked = s.locked :=
  congrArg Prod.fst h

theorem SameOutside.table {s s' : State K} (h : SameOutside s s') : s'.table = s.table :=
  congrArg Prod.snd h

/-- The program leaves the lock and the table alone. -/
def Quiet (x : HeapM K α) : Prop := Keeps SameOutside HeapFault x

theorem Frame.outside {s s' : State K} (h : Frame s s') : SameOutside s s' := by
  rw [h.rest]
  rfl

theorem Framed.quiet {x : HeapM K α} (h : Framed x) : Quiet x := by
  intro s
  exact wp_mono (h s) (fun _ _ hf => hf.outside) (fun _ _ hf => ⟨hf.1, hf.2.outside⟩)

namespace Quiet

theorem pure (a : α) : Quiet (Pure.pure a : HeapM K α) := Keeps.pure SameOutside.refl a

theorem throw {e : Fault} (he : HeapFault e) : Quiet (throw e : HeapM K α) :=
  Keeps.throw SameOutside.refl he

theorem bind {x : HeapM K β} {f : β → HeapM K α} (hx : Quiet x) (hf : ∀ b, Quiet (f b)) :
    Quiet (x >>= f) :=
  Keeps.bind SameOutside.trans hx hf

theorem ite {c : Prop} [Decidable c] {x y : HeapM K α} (hx : Quiet x) (hy : Quiet y) :
    Quiet (if c then x else y) :=
  Keeps.ite hx hy

theorem modify {f : State K → State K} (h : ∀ s, SameOutside s (f s)) :
    Quiet (modify f : HeapM K Unit) :=
  Keeps.modify h

theorem get {f : State K → HeapM K α} (hf : ∀ s, Quiet (f s)) :
    Quiet (MonadState.get >>= f) :=
  bind (Keeps.get SameOutside.refl) hf

end Quiet

/-! ### What stands between the lock and the unlock -/

theorem quiet_setMstate (av : Nat) (f : Mstate → Mstate) :
    Quiet (setMstate av f : HeapM K Unit) :=
  .modify (fun _ => rfl)

theorem quiet_newMstate : Quiet (newMstate : HeapM K Nat) := by
  intro s
  simp only [newMstate, wp_bind, wp_get, wp_ite, wp_set, wp_pure, wp_throw]
  split
  · rfl
  · exact ⟨heapFault_segv, rfl⟩

theorem framed_initBins (av : Nat) (is : List Nat) : Framed (initBins av is : HeapM K Unit) := by
  induction is with
  | nil => exact .pure _
  | cons i is ih =>
      refine .bind (framed_setBk _ _) fun _ => ?_
      exact .bind (framed_setFd _ _) fun _ => ih

theorem quiet_mallocConsolidate (av : Nat) : Quiet (mallocConsolidate av : HeapM K Unit) := by
  refine .bind (framed_getMstate av).quiet fun m => ?_
  refine .ite ?_ ?_
  · exact .bind (quiet_setMstate av _) fun _ => (framed_consolidateBins av _).quiet
  · refine .get (fun s => ?_)
    refine .bind (.ite (.modify (fun _ => rfl)) (.pure _)) fun _ => ?_
    refine .bind (framed_initBins av _).quiet fun _ => ?_
    exact .bind (quiet_setMstate av _) (fun _ => .modify (fun _ => rfl))

theorem quiet_mallocServe (av nb : Nat) (L : Label) :
    Quiet (mallocServe av nb L : HeapM K (Option Nat)) := by
  refine .bind (framed_getMstate av).quiet fun m => ?_
  refine .ite ?_ ?_
  · refine .bind (framed_searchBins av nb).quiet fun found => ?_
    cases found with
    | some mem => exact .pure _
    | none => exact (framed_mallocTop av nb).quiet
  · refine .bind (.ite ?_ (.pure _)) fun _ => (framed_mallocTop av nb).quiet
    exact .bind (quiet_mallocConsolidate av) fun _ => quiet_setMstate av _

theorem quiet_absys (ops : KernelOps K) (pid : Nat) (call : K → α × K) :
    Quiet (absys ops pid call) := by
  intro s
  exact wp_absys_of (fun _ => rfl) (fun _ => ⟨heapFault_killed, rfl⟩)

theorem quiet_ablibBrk (ops : KernelOps K) (pid addr : Nat) : Quiet (ablibBrk ops pid addr) := by
  refine .bind (quiet_absys _ _ _) fun _ => ?_
  exact .bind (.modify (fun _ => rfl)) fun _ => .pure _

theorem quiet_initBreak (ops : KernelOps K) (pid : Nat) : Quiet (initBreak ops pid) := by
  refine .get (fun s => .ite ?_ (.pure _))
  refine .bind (quiet_ablibBrk ops pid 0) fun rc => ?_
  refine .ite (.pure _) (.get (fun s => ?_))
  exact .bind (framed_check _).quiet fun _ => .pure _

theorem quiet_ablibSbrk (ops : KernelOps K) (pid increment : Nat) :
    Quiet (ablibSbrk ops pid increment) := by
  refine .bind (quiet_initBreak ops pid) fun ready => ?_
  refine .ite (.get (fun s => ?_)) (.pure _)
  refine .ite (.pure _) ?_
  refine .bind (framed_check _).quiet fun _ => ?_
  refine .ite (.pure _) ?_
  exact .bind (quiet_ablibBrk ops pid _) fun _ => .pure _

theorem quiet_unitInitState (unit : Ustate) : Quiet (unitInitState unit : HeapM K Nat) := by
  intro s
  simp only [unitInitState, wp_bind, wp_get, wp_set, wp_pure]
  rfl

theorem quiet_protUpdate (ops : KernelOps K) (pid p size : Nat) (L : Label) :
    Quiet (protUpdate ops pid p size L) := by
  intro s
  rw [wp_protUpdate]
  split
  · exact ⟨heapFault_killed, rfl⟩
  · rfl

theorem quiet_insertMmappedUnit (unit : Nat) : Quiet (insertMmappedUnit unit : HeapM K Unit) := by
  intro s
  simp only [insertMmappedUnit, wp_bind, wp_get]
  split
  · simp only [wp_ite, wp_set, wp_throw]
    split
    · rfl
    · split
      · exact ⟨heapFault_segv, rfl⟩
      · split
        · rw [wp_set]
          rfl
        · rw [wp_pure]
          rfl
  · rw [wp_set]
    rfl

theorem framed_mmapChunk (mm size : Nat) : Framed (mmapChunk mm size : HeapM K Nat) := by
  refine .ite ?_ ?_
  all_goals
    refine .bind (framed_store _ _) fun _ => ?_
    exact .bind (framed_setHead _ _) fun _ => .pure _

theorem quiet_mallocMmap (ops : KernelOps K) (pid nb av : Nat) (L : Label) :
    Quiet (mallocMmap ops pid nb av L) := by
  refine .bind (framed_getMstate av).quiet fun m => ?_
  refine .ite (.get (fun s => ?_)) (.pure _)
  refine .ite ?_ (.pure _)
  refine .bind (framed_mmapChunk _ _).quiet fun p => ?_
  refine .bind (quiet_absys _ _ _) fun abMm => ?_
  refine .bind (framed_check _).quiet fun _ => ?_
  refine .bind (quiet_unitInitState _) fun unit => ?_
  refine .bind (.modify (fun _ => rfl)) fun _ => ?_
  refine .bind (quiet_insertMmappedUnit _) fun _ => ?_
  refine .bind (quiet_setMstate _ _) fun _ => ?_
  exact .bind (quiet_protUpdate _ _ _ _ _) fun _ => .pure _

theorem quiet_mallocSbrk (ops : KernelOps K) (pid nb av : Nat) (L : Label) :
    Quiet (mallocSbrk ops pid nb av L) := by
  refine .bind (framed_getMstate av).quiet fun m => ?_
  refine .bind (framed_check _).quiet fun _ => ?_
  refine .bind (quiet_ablibSbrk ops pid _) fun fstBrk => ?_
  refine .bind (framed_check _).quiet fun _ => ?_
  refine .bind (quiet_setMstate _ _) fun _ => ?_
  refine .bind (framed_check _).quiet fun _ => ?_
  refine .bind (quiet_unitInitState _) fun unit => ?_
  refine .bind (quiet_setMstate _ _) fun _ => ?_
  refine .bind (.modify (fun _ => rfl)) fun _ => ?_
  refine .bind (framed_fencepost _).quiet fun _ => ?_
  refine .bind (quiet_setMstate _ _) fun _ => ?_
  refine .bind (framed_chunksize _).quiet fun size => ?_
  refine .ite ?_ (.pure _)
  refine .bind (framed_setUnitTop _ _).quiet fun _ => ?_
  refine .bind (framed_setHead _ _).quiet fun _ => ?_
  refine .bind (framed_setHead _ _).quiet fun _ => ?_
  refine .bind (framed_setFoot _ _).quiet fun _ => ?_
  exact .bind (quiet_protUpdate _ _ _ _ _) fun _ => .pure _

theorem quiet_listDelete (list : List Nat) (unit : Nat) :
    Quiet (listDelete list unit : HeapM K (List Nat)) :=
  .ite (.pure _) (.throw heapFault_segv)

theorem quiet_freeMmapped (ops : KernelOps K) (pid av u p head : Nat) :
    Quiet (freeMmapped ops pid av u p head) := by
  refine .bind (framed_prevSize p).quiet fun offset => ?_
  refine .bind (quiet_setMstate _ _) fun _ => ?_
  refine .bind (quiet_absys _ _ _) fun _ => ?_
  refine .get (fun s => ?_)
  refine .bind (quiet_listDelete _ _) fun mmapped => ?_
  refine .bind (.modify (fun _ => rfl)) fun _ => ?_
  refine .bind (quiet_listDelete _ _) fun units => ?_
  exact .modify (fun _ => rfl)

/-! ### The public functions -/

def SameTable (s s' : State K) : Prop := s'.table = s.table

theorem SameTable.refl (s : State K) : SameTable s s := rfl

theorem SameTable.trans (s t r : State K) (h : SameTable s t) (h' : SameTable t r) :
    SameTable s r :=
  Eq.trans h' h

/-- The program leaves the table alone, whether it returns or not. -/
def Tabled (x : HeapM K α) : Prop := Keeps SameTable (fun _ => True) x

theorem Quiet.tabled {x : HeapM K α} (h : Quiet x) : Tabled x := by
  intro s
  exact wp_mono (h s) (fun _ _ hq => hq.table) (fun _ _ hq => ⟨trivial, hq.2.table⟩)

namespace Tabled

theorem pure (a : α) : Tabled (Pure.pure a : HeapM K α) := Keeps.pure SameTable.refl a

theorem throw (e : Fault) : Tabled (throw e : HeapM K α) := Keeps.throw SameTable.refl trivial

theorem bind {x : HeapM K β} {f : β → HeapM K α} (hx : Tabled x) (hf : ∀ b, Tabled (f b)) :
    Tabled (x >>= f) :=
  Keeps.bind SameTable.trans hx hf

theorem ite {c : Prop} [Decidable c] {x y : HeapM K α} (hx : Tabled x) (hy : Tabled y) :
    Tabled (if c then x else y) :=
  Keeps.ite hx hy

theorem get {f : State K → HeapM K α} (hf : ∀ s, Tabled (f s)) :
    Tabled (MonadState.get >>= f) :=
  bind (Keeps.get SameTable.refl) hf

end Tabled

theorem tabled_mallocLock : Tabled (mallocLock : HeapM K Unit) := by
  intro s
  rw [wp_mallocLock]
  split
  · exact ⟨trivial, rfl⟩
  · rfl

theorem tabled_mallocUnlock : Tabled (mallocUnlock : HeapM K Unit) := by
  intro s
  rw [wp_mallocUnlock]
  split
  · rfl
  · exact ⟨trivial, rfl⟩

theorem tabled_ablibFree (ops : KernelOps K) (pid mem : Nat) :
    Tabled (ablibFree ops pid mem) := by
  refine .ite (.pure _) (.bind tabled_mallocLock (fun _ => ?_))
  refine .bind (framed_lookupUstateByMem mem).quiet.tabled fun u => ?_
  refine .bind (framed_getUnit u).quiet.tabled fun unit => ?_
  refine .bind (framed_headOf _).quiet.tabled fun head => ?_
  refine .bind (framed_getMstate _).quiet.tabled fun m => ?_
  refine .bind (.ite (framed_freeFast _ _ _).quiet.tabled ?_)
    (fun _ => tabled_mallocUnlock)
  exact .ite (quiet_freeMmapped _ _ _ _ _ _).tabled (framed_freeChunk _ _ _ _).quiet.tabled

theorem tabled_mallocAlloc (ops : KernelOps K) {retry : Nat → Nat → Label → HeapM K Nat}
    (hretry : ∀ pid bytes L, Tabled (retry pid bytes L)) (pid nb av : Nat) (L : Label) :
    Tabled (mallocAlloc ops retry pid nb av L) := by
  refine .bind (framed_getMstate av).quiet.tabled fun m => .ite ?_ ?_
  · refine .bind (framed_check _).quiet.tabled fun _ => ?_
    exact .bind (quiet_mallocConsolidate av).tabled fun _ => hretry _ _ _
  · refine .bind (quiet_mallocMmap _ _ _ _ _).tabled fun mem => ?_
    cases mem with
    | some mem => exact .pure _
    | none => exact (quiet_mallocSbrk _ _ _ _ _).tabled

theorem tabled_ablibMallocStep (ops : KernelOps K) {retry : Nat → Nat → Label → HeapM K Nat}
    (hretry : ∀ pid bytes L, Tabled (retry pid bytes L)) (pid bytes : Nat) (L : Label) :
    Tabled (ablibMallocStep ops retry pid bytes L) := by
  refine .bind (.get (fun _ => .pure _)) fun av => ?_
  refine .ite (.pure _) (.bind ?_ (fun av => ?_))
  · refine .bind tabled_mallocLock fun _ => ?_
    cases av with
    | some av => exact .pure _
    | none => exact quiet_newMstate.tabled
  · refine .ite (.pure _) (.bind ?_ (fun mem => ?_))
    · refine .bind (quiet_mallocServe _ _ _).tabled fun found => ?_
      cases found with
      | some mem => exact .pure _
      | none => exact tabled_mallocAlloc ops hretry _ _ _ _
    · exact .bind tabled_mallocUnlock fun _ => .pure _

theorem tabled_ablibMallocAux (ops : KernelOps K) (fuel : Nat) :
    ∀ pid bytes L, Tabled (ablibMallocAux ops fuel pid bytes L) := by
  induction fuel with
  | zero => exact fun _ _ _ => .throw _
  | succ fuel ih => exact tabled_ablibMallocStep ops ih

theorem tabled_ablibMalloc (ops : KernelOps K) (pid bytes : Nat) (L : Label) :
    Tabled (ablibMalloc ops pid bytes L) :=
  tabled_ablibMallocAux ops 2 pid bytes L

theorem tabled_ablibCalloc (ops : KernelOps K) (pid n e : Nat) (L : Label) :
    Tabled (ablibCalloc ops pid n e L) := by
  refine .ite (.pure _) (.bind (tabled_ablibMalloc ops _ _ _) (fun mem => ?_))
  refine .ite (.bind (framed_headOf _).quiet.tabled (fun head => ?_)) (.pure _)
  exact .bind (.ite (.pure _) (framed_clearBlock _ _).quiet.tabled)
    (fun _ => .pure _)

theorem tabled_reallocSplit (ops : KernelOps K) (pid nb newp newsize : Nat) :
    Tabled (reallocSplit ops pid nb newp newsize) := by
  refine .bind (framed_check _).quiet.tabled fun _ => ?_
  refine .bind (.ite ?_ ?_) fun _ => .pure _
  · refine .bind (framed_setHeadSize _ _).quiet.tabled fun _ => ?_
    exact .bind (framed_setInuseBitAtOffset _ _).quiet.tabled fun _ => tabled_mallocUnlock
  · refine .bind (framed_setHeadSize _ _).quiet.tabled fun _ => ?_
    refine .bind (framed_setHead _ _).quiet.tabled fun _ => ?_
    refine .bind (framed_setInuseBitAtOffset _ _).quiet.tabled fun _ => ?_
    exact .bind tabled_mallocUnlock fun _ => tabled_ablibFree ops _ _

theorem tabled_reallocCopy (ops : KernelOps K) (pid oldmem nb oldp oldsize next : Nat)
    (L : Label) : Tabled (reallocCopy ops pid oldmem nb oldp oldsize next L) := by
  refine .bind tabled_mallocUnlock fun _ => ?_
  refine .bind (tabled_ablibMalloc ops _ _ _) fun newmem => ?_
  refine .ite (.pure _) (.bind tabled_mallocLock (fun _ => ?_))
  refine .bind (framed_chunksize _).quiet.tabled fun newsize => ?_
  refine .ite (tabled_reallocSplit ops _ _ _ _) ?_
  refine .bind (framed_copyBlock _ _ _).quiet.tabled fun _ => ?_
  refine .bind tabled_mallocUnlock fun _ => ?_
  exact .bind (tabled_ablibFree ops _ _) fun _ => .pure _

theorem tabled_reallocGrow (ops : KernelOps K) (pid oldmem nb u oldp oldsize : Nat) (L : Label) :
    Tabled (reallocGrow ops pid oldmem nb u oldp oldsize L) := by
  refine .bind (framed_getUnit u).quiet.tabled fun unit => ?_
  refine .bind (framed_chunksize _).quiet.tabled fun nextsize => ?_
  refine .ite ?_ (.ite ?_ (tabled_reallocCopy ops _ _ _ _ _ _ _))
  · refine .bind (framed_setHeadSize _ _).quiet.tabled fun _ => ?_
    refine .bind (framed_setUnitTop _ _).quiet.tabled fun _ => ?_
    refine .bind (framed_setHead _ _).quiet.tabled fun _ => ?_
    exact .bind tabled_mallocUnlock fun _ => .pure _
  · refine .bind (framed_inuse _).quiet.tabled fun used => ?_
    refine .ite ?_ (tabled_reallocCopy ops _ _ _ _ _ _ _)
    exact .bind (framed_unlink _).quiet.tabled fun _ => tabled_reallocSplit ops _ _ _ _

theorem tabled_reallocMmapped (ops : KernelOps K) (pid oldmem nb av oldp oldsize : Nat)
    (L : Label) : Tabled (reallocMmapped ops pid oldmem nb av oldp oldsize L) := by
  refine .bind (framed_prevSize oldp).quiet.tabled fun offset => ?_
  refine .bind (framed_getMstate av).quiet.tabled fun m => ?_
  have hstay : Tabled (do mallocUnlock; Pure.pure oldmem : HeapM K Nat) :=
    .bind tabled_mallocUnlock (fun _ => .pure _)
  refine .ite hstay (.ite hstay (.bind tabled_mallocUnlock (fun _ => ?_)))
  refine .bind (tabled_ablibMalloc ops _ _ _) fun newmem => ?_
  refine .ite (.bind (framed_copyBytes _ _ _).quiet.tabled (fun _ => ?_))
    (Tabled.pure _)
  exact .bind (tabled_ablibFree ops _ _) fun _ => .pure _

theorem tabled_ablibRealloc (ops : KernelOps K) (pid oldmem bytes : Nat) (L : Label) :
    Tabled (ablibRealloc ops pid oldmem bytes L) := by
  refine .ite (tabled_ablibMalloc ops _ _ _) (.ite ?_ ?_)
  · exact .bind (tabled_ablibFree ops _ _) fun _ => .pure _
  refine .bind tabled_mallocLock fun _ => ?_
  refine .bind (framed_lookupUstateByMem oldmem).quiet.tabled fun u => ?_
  refine .bind (framed_getUnit u).quiet.tabled fun unit => .ite (.pure _) ?_
  refine .bind (framed_headOf _).quiet.tabled fun head => ?_
  refine .ite (tabled_reallocMmapped ops _ _ _ _ _ _ _) (.ite ?_ ?_)
  · exact tabled_reallocSplit ops _ _ _ _
  · exact tabled_reallocGrow ops _ _ _ _ _ _ _

/-- The system calls of `malloc_update`, one for each unit. -/
def updateKern (ops : KernelOps K) (c : ClientDesc) (s : State K) : List Nat → K → K
  | [], k => k
  | u :: us, k =>
      let unit := s.units u
      updateKern ops c s us (ops.absysMprotect k c.pid unit.addr unit.length
        (checkMemProt c.label c.ownership (s.mstates unit.unitAv).label)).2

/-- Only the kernel changes. If there is no task to change then the first call about it
    kills the arbiter. -/
theorem wp_mallocUpdate (ops : KernelOps K) (c : ClientDesc) (Q : Unit → State K → Prop)
    (E : Fault → State K → Prop) (s : State K) :
    wp (mallocUpdate ops c) Q E s ↔
      if ops.oops s.kern c.pid = true ∧ s.ustateList ≠ [] then E .killed s
      else Q () { s with kern := updateKern ops c s s.ustateList s.kern } := by
  -- the later calls find the task that the first one found
  have hloop : ∀ us k, ops.oops k c.pid = false →
      (wp (mallocUpdateLoop ops c us) Q E { s with kern := k } ↔
        Q () { s with kern := updateKern ops c s us k }) := by
    intro us
    induction us with
    | nil =>
      intro k _
      rw [mallocUpdateLoop, wp_pure, updateKern]
    | cons u us ih =>
      intro k hk
      simp only [mallocUpdateLoop, wp_bind, wp_getUnit, wp_getMstate, wp_absys, hk, wp_ite,
        wp_abMsg, wp_pure, ite_self, Bool.false_eq_true, if_false]
      exact ih _ (by rw [ops.oops_mprotect, hk])
  have hall : ∀ us, wp (mallocUpdateLoop ops c us) Q E s ↔
      if ops.oops s.kern c.pid = true ∧ us ≠ [] then E .killed s
      else Q () { s with kern := updateKern ops c s us s.kern } := by
    intro us
    cases hoops : ops.oops s.kern c.pid with
    | false =>
      rw [if_neg (fun hboth => absurd hboth.1 Bool.false_ne_true)]
      exact hloop us s.kern hoops
    | true =>
      cases us with
      | nil => rw [if_neg (fun hboth => hboth.2 rfl), mallocUpdateLoop, wp_pure, updateKern]
      | cons u us =>
        rw [if_pos ⟨rfl, List.cons_ne_nil _ _⟩]
        simp only [mallocUpdateLoop, wp_bind, wp_getUnit, wp_getMstate, wp_absys, hoops, if_true]
  rw [mallocUpdate, wp_bind, wp_get]
  exact hall s.ustateList

theorem wp_mallocUpdate_of {ops : KernelOps K} {c : ClientDesc} {Q : Unit → State K → Prop}
    {E : Fault → State K → Prop} {s : State K}
    (hQ : Q () { s with kern := updateKern ops c s s.ustateList s.kern }) (hE : E .killed s) :
    wp (mallocUpdate ops c) Q E s := by
  rw [wp_mallocUpdate]
  split
  · exact hE
  · exact hQ

end ArbiterThread
