import ArbiterThread.Malloc.Free

/-!
# What the Bins Leave Alone

The functions that work on chunks and bins touch the memory, the unit tops
and four fields of a `malloc_state`. Everything else of the arbiter stays as
it is: the lock, the break, the lists of units, the ranges and labels of
units, the clients, the kernel. `Frame` says so once, and every function of
that kind is shown to keep it.

The faults are part of the same statement. Code that works on bins may crash
in many ways, but it never touches the lock, so it cannot fail on it.

Only three things step outside the frame: setting up a `malloc_state`,
getting a unit from the kernel and giving one back. Later files look at those
directly and use the frame for everything in between.

## Main definitions

* `HeapFault`: The faults that do not concern the lock.
* `Frame`: The fields bins and chunks leave alone.
* `Framed`: A program keeps the frame and has only heap faults.

## Theorems

* `framed_searchBins`: The search through the bins keeps the frame.
* `framed_useUnitTop`: So does cutting a unit top.
* `framed_freeFast`, `framed_freeChunk`: So does releasing a chunk.
* `frame_mallocConsolidate`: So does consolidation, once initialised.
-/

namespace ArbiterThread

open Exec

variable {K α β : Type}

/-- The faults that do not concern the lock. -/
def HeapFault (e : Fault) : Prop := e ≠ .deadlock ∧ e ≠ .badUnlock

/-- The fields that work on bins and chunks leaves alone. -/
structure Frame (s s' : State K) : Prop where
  rest : s' = { s with mem := s'.mem, units := s'.units, mstates := s'.mstates }
  unit : ∀ u, s'.units u = { s.units u with unitTop := (s'.units u).unitTop }
  mstate : ∀ m, s'.mstates m =
    { s.mstates m with
      maxFast := (s'.mstates m).maxFast
      fastbins := (s'.mstates m).fastbins
      lastRemainder := (s'.mstates m).lastRemainder
      binmap := (s'.mstates m).binmap }
  /-- what was initialised stays so -/
  active : ∀ m, 72 ≤ (s.mstates m).maxFast → 72 ≤ (s'.mstates m).maxFast

theorem Frame.refl (s : State K) : Frame s s := ⟨rfl, fun _ => rfl, fun _ => rfl, fun _ h => h⟩

theorem Frame.trans (s t r : State K) (h : Frame s t) (h' : Frame t r) : Frame s r := by
  refine ⟨?_, fun u => ?_, fun m => ?_, fun m hm => h'.active m (h.active m hm)⟩
  · refine h'.rest.trans ?_
    conv_lhs => rw [h.rest]
  · refine (h'.unit u).trans ?_
    rw [h.unit u]
  · refine (h'.mstate m).trans ?_
    rw [h.mstate m]

/-- The program keeps the frame and has no fault of the lock. -/
def Framed (x : HeapM K α) : Prop := Keeps Frame HeapFault x

namespace Framed

theorem pure (a : α) : Framed (Pure.pure a : HeapM K α) := Keeps.pure Frame.refl a

theorem throw {e : Fault} (he : HeapFault e) : Framed (throw e : HeapM K α) :=
  Keeps.throw Frame.refl he

theorem bind {x : HeapM K β} {f : β → HeapM K α} (hx : Framed x) (hf : ∀ b, Framed (f b)) :
    Framed (x >>= f) :=
  Keeps.bind Frame.trans hx hf

theorem ite {c : Prop} [Decidable c] {x y : HeapM K α} (hx : Framed x) (hy : Framed y) :
    Framed (if c then x else y) :=
  Keeps.ite hx hy

end Framed

theorem heapFault_segv : HeapFault .segv := ⟨by decide, by decide⟩

theorem heapFault_abort : HeapFault .abort := ⟨by decide, by decide⟩

theorem heapFault_assertion : HeapFault .assertion := ⟨by decide, by decide⟩

theorem heapFault_diverge : HeapFault .diverge := ⟨by decide, by decide⟩

theorem heapFault_undefined : HeapFault .undefined := ⟨by decide, by decide⟩

theorem heapFault_killed : HeapFault .killed := ⟨by decide, by decide⟩

/-! ### Words and chunks -/

theorem framed_load (a : Nat) : Framed (load a : HeapM K Nat) := by
  intro s
  rw [wp_load]
  split
  · exact Frame.refl s
  · exact ⟨heapFault_segv, Frame.refl s⟩

/-- Changing only the memory keeps the frame. -/
theorem Frame.mem (s : State K) (m : Mem) : Frame s { s with mem := m } :=
  ⟨rfl, fun _ => rfl, fun _ => rfl, fun _ h => h⟩

theorem framed_store (a v : Nat) : Framed (store a v : HeapM K Unit) := by
  intro s
  rw [wp_store]
  split
  · exact Frame.mem s _
  · exact ⟨heapFault_segv, Frame.refl s⟩

theorem framed_bulk (a n : Nat) (f : Mem → Mem) : Framed (bulk a n f : HeapM K Unit) := by
  intro s
  simp only [bulk, wp_bind, wp_get, wp_ite, wp_pure, wp_set, wp_throw]
  split
  · exact Frame.refl s
  · split
    · exact Frame.mem s _
    · exact ⟨heapFault_segv, Frame.refl s⟩

theorem framed_check (c : Prop) [Decidable c] : Framed (check c : HeapM K Unit) :=
  .ite (.pure _) (.throw heapFault_assertion)

theorem framed_prevSize (p : Nat) : Framed (prevSize p : HeapM K Nat) := framed_load _

theorem framed_headOf (p : Nat) : Framed (headOf p : HeapM K Nat) := framed_load _

theorem framed_fdOf (p : Nat) : Framed (fdOf p : HeapM K Nat) := framed_load _

theorem framed_bkOf (p : Nat) : Framed (bkOf p : HeapM K Nat) := framed_load _

theorem framed_setHead (p v : Nat) : Framed (setHead p v : HeapM K Unit) := framed_store _ _

theorem framed_setFd (p v : Nat) : Framed (setFd p v : HeapM K Unit) := framed_store _ _

theorem framed_setBk (p v : Nat) : Framed (setBk p v : HeapM K Unit) := framed_store _ _

theorem framed_setFoot (p s : Nat) : Framed (setFoot p s : HeapM K Unit) := framed_store _ _

theorem framed_chunksize (p : Nat) : Framed (chunksize p : HeapM K Nat) :=
  .bind (framed_headOf p) (fun _ => .pure _)

theorem framed_setHeadSize (p s : Nat) : Framed (setHeadSize p s : HeapM K Unit) :=
  .bind (framed_headOf p) (fun _ => framed_setHead _ _)

theorem framed_inuseBitAtOffset (p s : Nat) : Framed (inuseBitAtOffset p s : HeapM K Bool) :=
  .bind (framed_headOf _) (fun _ => .pure _)

theorem framed_setInuseBitAtOffset (p s : Nat) :
    Framed (setInuseBitAtOffset p s : HeapM K Unit) :=
  .bind (framed_headOf _) (fun _ => framed_setHead _ _)

theorem framed_unlink (p : Nat) : Framed (unlink p : HeapM K Unit) := by
  refine .bind (framed_fdOf p) fun fd => ?_
  refine .bind (framed_bkOf p) fun bk => ?_
  refine .bind (framed_bkOf fd) fun fdbk => ?_
  refine .bind (framed_fdOf bk) fun bkfd => ?_
  refine .ite (.throw heapFault_abort) ?_
  exact .bind (framed_setBk fd bk) fun _ => framed_setFd bk fd

/-! ### Metadata -/

theorem framed_getMstate (av : Nat) : Framed (getMstate av : HeapM K Mstate) := by
  intro s
  rw [wp_getMstate]
  exact Frame.refl s

theorem framed_getUnit (u : Nat) : Framed (getUnit u : HeapM K Ustate) := by
  intro s
  rw [wp_getUnit]
  exact Frame.refl s

/-- An update of one `malloc_state` keeps the frame if it only changes what has
    to do with bins. -/
theorem framed_setMstate (av : Nat) (f : Mstate → Mstate)
    (hf : ∀ m, f m =
      { m with
        maxFast := (f m).maxFast
        fastbins := (f m).fastbins
        lastRemainder := (f m).lastRemainder
        binmap := (f m).binmap })
    (hactive : ∀ m, 72 ≤ m.maxFast → 72 ≤ (f m).maxFast) :
    Framed (setMstate av f : HeapM K Unit) := by
  refine Keeps.modify (fun s => ⟨rfl, fun _ => rfl, fun m => ?_, fun m h => ?_⟩)
  all_goals by_cases hm : m = av
  · subst hm
    simp only [Function.update_self]
    exact hf _
  · simp only [Function.update_of_ne hm]
  · subst hm
    simp only [Function.update_self]
    exact hactive _ h
  · simp only [Function.update_of_ne hm]
    exact h

theorem framed_setUnitTop (u top : Nat) : Framed (setUnitTop u top : HeapM K Unit) := by
  refine Keeps.modify (fun s => ⟨rfl, fun v => ?_, fun _ => rfl, fun _ h => h⟩)
  by_cases hv : v = u
  · subst hv
    simp only [Function.update_self]
  · simp only [Function.update_of_ne hv]

theorem framed_setFastbin (av i v : Nat) : Framed (setFastbin av i v : HeapM K Unit) :=
  framed_setMstate av _ (fun _ => rfl) (fun _ h => h)

theorem framed_lookupUstateByMem (ptr : Nat) : Framed (lookupUstateByMem ptr : HeapM K Nat) := by
  intro s
  rw [wp_lookupUstateByMem]
  split
  · exact Frame.refl s
  · exact ⟨heapFault_segv, Frame.refl s⟩

/-! ### Consolidation -/

theorem framed_consolidateLink (av p size : Nat) :
    Framed (consolidateLink av p size : HeapM K Unit) := by
  refine .bind (framed_fdOf _) fun first => ?_
  refine .bind (framed_setFd _ _) fun _ => ?_
  refine .bind (framed_setBk _ _) fun _ => ?_
  refine .bind (framed_setHead _ _) fun _ => ?_
  refine .bind (framed_setBk _ _) fun _ => ?_
  exact .bind (framed_setFd _ _) fun _ => framed_setFoot _ _

theorem framed_consolidateForward (av p size nextchunk nextsize : Nat) :
    Framed (consolidateForward av p size nextchunk nextsize : HeapM K Unit) := by
  refine .bind (framed_lookupUstateByMem p) fun u => ?_
  refine .bind (framed_getUnit u) fun unit => ?_
  refine .ite ?_ ?_
  · refine .bind (framed_inuseBitAtOffset _ _) fun nextinuse => ?_
    refine .bind (framed_setHead _ _) fun _ => ?_
    refine .ite (framed_consolidateLink _ _ _) ?_
    exact .bind (framed_unlink _) fun _ => framed_consolidateLink _ _ _
  · exact .bind (framed_setHead _ _) fun _ => framed_setUnitTop _ _

theorem framed_consolidateChunk (av p : Nat) :
    Framed (consolidateChunk av p : HeapM K Unit) := by
  refine .bind (framed_headOf p) fun head => ?_
  refine .bind (framed_chunksize _) fun nextsize => ?_
  refine .ite (framed_consolidateForward _ _ _ _ _) ?_
  refine .bind (framed_prevSize p) fun prevsize => ?_
  exact .bind (framed_unlink _) fun _ => framed_consolidateForward _ _ _ _ _

theorem framed_consolidateChain (av fuel p : Nat) :
    Framed (consolidateChain av fuel p : HeapM K Unit) := by
  induction fuel generalizing p with
  | zero => exact .throw heapFault_diverge
  | succ fuel ih =>
      refine .ite (.pure _) ?_
      refine .bind (framed_fdOf p) fun nextp => ?_
      exact .bind (framed_consolidateChunk av p) fun _ => ih nextp

theorem framed_consolidateBins (av : Nat) (is : List Nat) :
    Framed (consolidateBins av is : HeapM K Unit) := by
  induction is with
  | nil => exact .pure _
  | cons i is ih =>
      refine .bind (framed_getMstate av) fun m => ?_
      refine .bind (framed_setFastbin av i 0) fun _ => ?_
      exact .bind (framed_consolidateChain av _ _) fun _ => ih

/-- Consolidation proper. With `max_fast` 0 the function sets up a
    `malloc_state` instead, and that is not within the frame. -/
theorem frame_mallocConsolidate (s : State K) (av : Nat) (h : (s.mstates av).maxFast ≠ 0) :
    wp (mallocConsolidate av) (fun _ s' => Frame s s')
      (fun e s' => HeapFault e ∧ Frame s s') s := by
  simp only [mallocConsolidate, wp_bind, wp_getMstate, wp_ite]
  rw [if_pos h, ← wp_bind]
  exact Framed.bind (framed_setMstate av clearFastchunks (fun _ => rfl)
    (fun m _ => by change 72 ≤ m.maxFast / 4 * 4 + m.maxFast % 2; omega))
    (fun _ => framed_consolidateBins av _) s

theorem maxFast_ne_zero_of_haveFastchunks {m : Mstate} (h : haveFastchunks m) :
    m.maxFast ≠ 0 := by
  simp only [haveFastchunks] at h
  omega

/-! ### The search -/

theorem framed_takeFast (av nb : Nat) : Framed (takeFast av nb : HeapM K (Option Nat)) := by
  refine .bind (framed_getMstate av) fun m => ?_
  refine .ite (.ite ?_ (.pure _)) (.pure _)
  refine .bind (framed_fdOf _) fun fd => ?_
  exact .bind (framed_setFastbin _ _ _) fun _ => .pure _

theorem framed_takeSmall (av nb : Nat) : Framed (takeSmall av nb : HeapM K (Option Nat)) := by
  refine .ite ?_ ?_
  · refine .bind (framed_bkOf _) fun victim => ?_
    refine .ite ?_ (.pure _)
    refine .bind (framed_bkOf victim) fun bck => ?_
    refine .bind (framed_setInuseBitAtOffset _ _) fun _ => ?_
    refine .bind (framed_setBk _ _) fun _ => ?_
    exact .bind (framed_setFd _ _) fun _ => .pure _
  · intro s
    simp only [wp_bind, wp_getMstate, wp_ite, wp_pure]
    split
    · rename_i hfast
      exact frame_mallocConsolidate s av (maxFast_ne_zero_of_haveFastchunks hfast)
    · exact Frame.refl s

theorem framed_splitRemainder (av victim nb rs : Nat) (last : Bool) :
    Framed (splitRemainder av victim nb rs last : HeapM K Nat) := by
  refine .bind (framed_setFd _ _) fun _ => ?_
  refine .bind (framed_setBk _ _) fun _ => ?_
  refine .bind (framed_setMstate av _ (fun m => ?_) (fun m h => ?_)) fun _ => ?_
  · cases last <;> rfl
  · cases last <;> exact h
  refine .bind (framed_setFd _ _) fun _ => ?_
  refine .bind (framed_setBk _ _) fun _ => ?_
  refine .bind (framed_setHead _ _) fun _ => ?_
  refine .bind (framed_setHead _ _) fun _ => ?_
  exact .bind (framed_setFoot _ _) fun _ => .pure _

theorem framed_exhaust (victim size : Nat) : Framed (exhaust victim size : HeapM K Nat) :=
  .bind (framed_setInuseBitAtOffset _ _) (fun _ => .pure _)

theorem framed_exhaustOrSplit (av victim size nb : Nat) (last : Bool) :
    Framed (exhaustOrSplit av victim size nb last : HeapM K Nat) :=
  .ite (framed_exhaust _ _) (framed_splitRemainder _ _ _ _ _)

theorem framed_sortedWalk (size fuel fwd : Nat) :
    Framed (sortedWalk size fuel fwd : HeapM K Nat) := by
  induction fuel generalizing fwd with
  | zero => exact .throw heapFault_diverge
  | succ fuel ih =>
      refine .bind (framed_headOf fwd) fun h => ?_
      refine .ite ?_ (.pure _)
      exact .bind (framed_fdOf fwd) fun next => ih next

theorem framed_largeNeighbours (bin size : Nat) :
    Framed (largeNeighbours bin size : HeapM K (Nat × Nat)) := by
  refine .bind (framed_fdOf bin) fun fwd => ?_
  refine .ite ?_ (.pure _)
  refine .bind (framed_bkOf bin) fun last => ?_
  refine .bind (framed_headOf last) fun lastHead => ?_
  refine .ite (.pure _) (.ite ?_ (.pure _))
  refine .bind (framed_sortedWalk _ _ _) fun fwd => ?_
  exact .bind (framed_bkOf fwd) fun _ => .pure _

theorem framed_markBin (av i : Nat) : Framed (markBin av i : HeapM K Unit) :=
  framed_setMstate av _ (fun _ => rfl) (fun _ h => h)

theorem framed_linkBetween (victim bck fwd : Nat) :
    Framed (linkBetween victim bck fwd : HeapM K Unit) := by
  refine .bind (framed_setBk _ _) fun _ => ?_
  refine .bind (framed_setFd _ _) fun _ => ?_
  exact .bind (framed_setBk _ _) fun _ => framed_setFd _ _

theorem framed_placeInBin (av victim size : Nat) :
    Framed (placeInBin av victim size : HeapM K Unit) := by
  refine .ite ?_ ?_
  · refine .bind (framed_fdOf _) fun fwd => ?_
    exact .bind (framed_markBin _ _) fun _ => framed_linkBetween _ _ _
  · refine .bind (framed_largeNeighbours _ _) fun n => ?_
    exact .bind (framed_markBin _ _) fun _ => framed_linkBetween _ _ _

theorem framed_takeUnsorted (av nb fuel : Nat) :
    Framed (takeUnsorted av nb fuel : HeapM K (Option Nat)) := by
  induction fuel with
  | zero => exact .throw heapFault_diverge
  | succ fuel ih =>
      refine .bind (framed_bkOf _) fun victim => ?_
      refine .ite (.pure _) ?_
      refine .bind (framed_bkOf victim) fun bck => ?_
      refine .bind (framed_chunksize victim) fun size => ?_
      refine .bind (framed_getMstate av) fun m => ?_
      refine .ite ?_ ?_
      · exact .bind (framed_splitRemainder _ _ _ _ _) fun _ => .pure _
      · refine .bind (framed_setBk _ _) fun _ => ?_
        refine .bind (framed_setFd _ _) fun _ => ?_
        refine .ite ?_ ?_
        · exact .bind (framed_exhaust _ _) fun _ => .pure _
        · exact .bind (framed_placeInBin _ _ _) fun _ => ih

theorem framed_takeLarge (av nb bin fuel victim : Nat) :
    Framed (takeLarge av nb bin fuel victim : HeapM K (Option Nat)) := by
  induction fuel generalizing victim with
  | zero => exact .throw heapFault_diverge
  | succ fuel ih =>
      refine .ite (.pure _) ?_
      refine .bind (framed_chunksize victim) fun size => ?_
      refine .ite ?_ ?_
      · refine .bind (framed_unlink victim) fun _ => ?_
        exact .bind (framed_exhaustOrSplit _ _ _ _ _) fun _ => .pure _
      · exact .bind (framed_bkOf victim) fun next => ih next

theorem framed_advanceBit (map fuel bin bit : Nat) :
    Framed (advanceBit map fuel bin bit : HeapM K (Nat × Nat)) := by
  induction fuel generalizing bin bit with
  | zero => exact .throw heapFault_diverge
  | succ fuel ih =>
      refine .ite ?_ (.pure _)
      exact .bind (framed_check _) fun _ => ih _ _

theorem framed_inspectBin (av nb bin block map bit : Nat) :
    Framed (inspectBin av nb bin block map bit : HeapM K (Nat ⊕ (Nat × Nat × Nat))) := by
  refine .bind (framed_bkOf bin) fun victim => ?_
  refine .ite ?_ ?_
  · exact .bind (framed_setMstate av _ (fun _ => rfl) (fun _ h => h))
      (fun _ => .pure _)
  · refine .bind (framed_chunksize victim) fun size => ?_
    refine .bind (framed_check _) fun _ => ?_
    refine .bind ?_ fun _ => ?_
    · refine .bind (framed_bkOf victim) fun bck => ?_
      exact .bind (framed_setBk _ _) fun _ => framed_setFd _ _
    · exact .bind (framed_exhaustOrSplit _ _ _ _ _) fun _ => .pure _

theorem framed_takeBinmap (av nb fuel bin block map bit : Nat) :
    Framed (takeBinmap av nb fuel bin block map bit : HeapM K (Option Nat)) := by
  induction fuel generalizing bin block map bit with
  | zero => exact .throw heapFault_diverge
  | succ fuel ih =>
      refine .bind (framed_getMstate av) fun m => ?_
      dsimp only
      split
      · exact .pure _
      · refine .bind (framed_advanceBit _ _ _ _) fun r => ?_
        refine .bind (framed_inspectBin _ _ _ _ _ _) fun r => ?_
        cases r with
        | inl mem => exact .pure _
        | inr next => exact ih _ _ _ _

theorem framed_takeOwnBin (av nb : Nat) :
    Framed (takeOwnBin av nb : HeapM K (Option Nat)) := by
  refine .ite (.pure _) ?_
  exact .bind (framed_bkOf _) fun _ => framed_takeLarge _ _ _ _ _

theorem framed_takeBinned (av nb : Nat) : Framed (takeBinned av nb : HeapM K (Option Nat)) := by
  refine .bind (framed_takeOwnBin av nb) fun found => ?_
  cases found with
  | some mem => exact .pure _
  | none => exact .bind (framed_getMstate av) (fun _ => framed_takeBinmap _ _ _ _ _ _ _)

theorem framed_searchBins (av nb : Nat) : Framed (searchBins av nb : HeapM K (Option Nat)) := by
  refine .bind (framed_takeFast av nb) fun fast => ?_
  cases fast with
  | some mem => exact .pure _
  | none =>
      refine .bind (framed_takeSmall av nb) fun small => ?_
      cases small with
      | some mem => exact .pure _
      | none =>
          refine .bind (framed_takeUnsorted av nb _) fun unsorted => ?_
          cases unsorted with
          | some mem => exact .pure _
          | none => exact framed_takeBinned av nb

/-! ### Unit tops -/

theorem framed_cutTop (victim size nb : Nat) : Framed (cutTop victim size nb : HeapM K Unit) := by
  refine .ite (framed_setInuseBitAtOffset _ _) ?_
  refine .bind (framed_setHead _ _) fun _ => ?_
  exact .bind (framed_setHead _ _) fun _ => framed_setFoot _ _

theorem framed_useUnitTop (nb : Nat) (us : List Nat) :
    Framed (useUnitTop nb us : HeapM K (Option Nat)) := by
  induction us with
  | nil => exact .pure _
  | cons u us ih =>
      refine .bind (framed_getUnit u) fun unit => ?_
      refine .bind (framed_chunksize _) fun size => ?_
      refine .ite ?_ ih
      refine .bind (framed_setUnitTop _ _) fun _ => ?_
      exact .bind (framed_cutTop _ _ _) fun _ => .pure _

theorem framed_mallocTop (av nb : Nat) : Framed (mallocTop av nb : HeapM K (Option Nat)) :=
  .bind (framed_getMstate av) (fun _ => framed_useUnitTop _ _)

theorem framed_fencepost (unitTop : Nat) : Framed (fencepost unitTop : HeapM K Unit) := by
  unfold fencepost
  refine .bind (framed_setHead _ _) fun _ => ?_
  refine .bind (framed_setHead _ _) fun _ => ?_
  apply framed_setHead

/-! ### Releases -/

theorem framed_freeFast (av p size : Nat) : Framed (freeFast av p size : HeapM K Unit) := by
  refine .bind (framed_setMstate av setFastchunks (fun _ => rfl)
    (fun m _ => by change 72 ≤ m.maxFast / 4 * 4 + 3; omega)) (fun _ => ?_)
  refine .ite (.throw heapFault_undefined) ?_
  refine .bind (framed_getMstate av) fun m => ?_
  exact .bind (framed_setFd _ _) fun _ => framed_setFastbin _ _ _

theorem framed_freeLink (av p size : Nat) : Framed (freeLink av p size : HeapM K Unit) := by
  refine .bind (framed_fdOf _) fun fwd => ?_
  refine .bind (framed_setBk _ _) fun _ => ?_
  refine .bind (framed_setFd _ _) fun _ => ?_
  refine .bind (framed_setFd _ _) fun _ => ?_
  refine .bind (framed_setBk _ _) fun _ => ?_
  exact .bind (framed_setHead _ _) fun _ => framed_setFoot _ _

theorem framed_freeForward (av u p size nextchunk nextsize : Nat) :
    Framed (freeForward av u p size nextchunk nextsize : HeapM K Nat) := by
  refine .bind (framed_getUnit u) fun unit => ?_
  refine .ite ?_ ?_
  · refine .bind (framed_inuseBitAtOffset _ _) fun nextinuse => ?_
    refine .bind (framed_setHead _ _) fun _ => ?_
    refine .ite ?_ ?_
    · exact .bind (framed_freeLink _ _ _) fun _ => .pure _
    · refine .bind (framed_unlink _) fun _ => ?_
      exact .bind (framed_freeLink _ _ _) fun _ => .pure _
  · refine .bind (framed_setHead _ _) fun _ => ?_
    exact .bind (framed_setUnitTop _ _) fun _ => .pure _

theorem framed_freeBackward (av u p head nextchunk nextsize : Nat) :
    Framed (freeBackward av u p head nextchunk nextsize : HeapM K Nat) := by
  refine .ite (framed_freeForward _ _ _ _ _ _) ?_
  refine .bind (framed_prevSize p) fun prevsize => ?_
  exact .bind (framed_unlink _) fun _ => framed_freeForward _ _ _ _ _ _

theorem framed_freeChunk (av u p head : Nat) :
    Framed (freeChunk av u p head : HeapM K Unit) := by
  refine .bind (framed_setMstate av setAnychunks (fun _ => rfl)
    (fun m _ => by change 72 ≤ m.maxFast / 2 * 2 + 1; omega)) (fun _ => ?_)
  refine .bind (framed_chunksize _) fun nextsize => ?_
  refine .bind (framed_freeBackward _ _ _ _ _ _) fun merged => ?_
  intro s
  simp only [wp_bind, wp_getMstate, wp_ite, wp_pure]
  split
  · rename_i h
    exact frame_mallocConsolidate s av (maxFast_ne_zero_of_haveFastchunks h.2)
  · exact Frame.refl s

theorem framed_clearWords (d : Nat) (is : List Nat) :
    Framed (clearWords d is : HeapM K Unit) := by
  induction is with
  | nil => exact .pure _
  | cons i is ih => exact .bind (framed_store _ _) (fun _ => ih)

theorem framed_clearBlock (mem head : Nat) : Framed (clearBlock mem head : HeapM K Unit) := by
  refine .bind (framed_check _) fun _ => ?_
  exact .ite (framed_bulk _ _ _) (framed_clearWords _ _)

theorem framed_copyWords (d s : Nat) (is : List Nat) :
    Framed (copyWords d s is : HeapM K Unit) := by
  induction is with
  | nil => exact .pure _
  | cons i is ih =>
      refine .bind (framed_load _) fun w => ?_
      exact .bind (framed_store _ _) fun _ => ih

theorem framed_copyBytes (d s n : Nat) : Framed (copyBytes d s n : HeapM K Unit) :=
  .bind (framed_bulk _ _ _) (fun _ => framed_bulk _ _ _)

theorem framed_copyBlock (newmem oldmem oldsize : Nat) :
    Framed (copyBlock newmem oldmem oldsize : HeapM K Unit) := by
  refine .bind (framed_check _) fun _ => ?_
  exact .ite (framed_copyBytes _ _ _) (framed_copyWords _ _ _)

theorem framed_inuse (p : Nat) : Framed (inuse p : HeapM K Bool) :=
  .bind (framed_headOf p) (fun _ => framed_inuseBitAtOffset _ _)

end ArbiterThread
