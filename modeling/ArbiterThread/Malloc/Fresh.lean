import ArbiterThread.Malloc.Units

/-!
# Making a `malloc_state`

What happens the first time a label is used. A `malloc_state` is made and
cleared, its bins are linked to themselves, and it is put on the list. The very
first time of all the channel heap is mapped and cleared as well.

None of this can fault, and all of it is known exactly: the memory changes
inside the new `malloc_state` only, apart from the channel heap when there are
no units yet.

## Main definitions

* `linkBins`: The memory after the bins listed were linked to themselves.
* `State.prepared`: The state after a `malloc_state` was initialised.
* `State.withMstate`: The state after one was made.

## Theorems

* `linkBins_apply`: Nothing outside the `malloc_state` changes.
* `wp_mallocConsolidate_fresh`, `wp_newMstate`: The two steps.
-/

namespace ArbiterThread

open Exec

variable {K : Type}

/-- The memory after the bins listed were linked to themselves. -/
def linkBins (av : Nat) : List Nat → Mem → Mem
  | [], m => m
  | i :: is, m =>
      linkBins av is
        ((m.store32 (binAt av i + 12) (binAt av i)).store32 (binAt av i + 8) (binAt av i))

/-- The headers of all bins lie inside their `malloc_state`. -/
theorem binAt_bounds (av : Nat) {i : Nat} (hi : i < nBins) :
    privateBase + mstateStride * av ≤ binAt av i ∧
      binAt av i + 16 ≤ privateBase + mstateStride * av + 904 := by
  simp only [binAt, nBins] at *
  omega

theorem bins_lt : ∀ i ∈ List.range' 1 (nBins - 1), i < nBins := by
  intro i hi
  have := List.mem_range'_1.mp hi
  simp only [nBins] at *
  omega

theorem linkBins_apply {av : Nat} {is : List Nat} (his : ∀ i ∈ is, i < nBins) (m : Mem) {x : Nat}
    (hx : x < privateBase + mstateStride * av ∨ privateBase + mstateStride * av + 904 ≤ x) :
    linkBins av is m x = m x := by
  induction is generalizing m with
  | nil => rfl
  | cons i is ih =>
    have hb := binAt_bounds av (his i List.mem_cons_self)
    rw [linkBins, ih (fun j hj => his j (List.mem_cons_of_mem i hj))]
    simp only [Mem.store32]
    rw [if_neg (by omega), if_neg (by omega)]

theorem wp_initBins {av : Nat} {is : List Nat} (his : ∀ i ∈ is, i < nBins) {s : State K}
    (hav : av < s.nextMstate) (hlimit : s.nextMstate ≤ mstateLimit)
    {Q : Unit → State K → Prop} {E : Fault → State K → Prop}
    (hQ : Q () { s with mem := linkBins av is s.mem }) : wp (initBins av is) Q E s := by
  induction is generalizing s with
  | nil => exact (wp_pure ..).mpr hQ
  | cons i is ih =>
    have hb := binAt_bounds av (his i List.mem_cons_self)
    have hmapped : ∀ a m, binAt av i ≤ a → a + 4 ≤ binAt av i + 16 →
        mapped { s with mem := m } a := by
      intro a m hlo hhi
      simp only [mapped, wordSize, privateBase, mstateStride, mstateLimit] at *
      omega
    rw [initBins, wp_bind, setBk, wp_store, if_pos (hmapped _ s.mem (by omega) (by omega)), wp_bind,
      setFd, wp_store, if_pos (hmapped _ _ (by omega) (by omega))]
    exact ih (fun j hj => his j (List.mem_cons_of_mem i hj)) hav hlimit hQ

/-- The record of a `malloc_state` after `malloc_init_state`. -/
def Mstate.init (m : Mstate) : Mstate :=
  { m with
    nMmapsMax := 65536
    mmapThreshold := unitSize
    maxFast := request2size 64 + m.maxFast % 4
    ustateList := []
    pagesize := 4096 }

/-- The memory in which the bins of a `malloc_state` are linked: the channel
    heap is cleared if it is the first one. -/
def State.cleared (s : State K) : State K :=
  if s.mstateList = [] then
    { s with
      mstateList := []
      ustateList := []
      mmappedUstateList := []
      mem := s.mem.fill channelAddr channelSize 0 }
  else s

/-- The state after a `malloc_state` was initialised. -/
def State.prepared (s : State K) (av : Nat) : State K :=
  { s.cleared with
    mem := linkBins av (List.range' 1 (nBins - 1)) s.cleared.mem
    mstates := Function.update s.mstates av (s.mstates av).init
    mstateList := s.mstateList ++ [av] }

theorem State.cleared_mstates (s : State K) : s.cleared.mstates = s.mstates := by
  unfold State.cleared
  split <;> rfl

theorem State.cleared_mstateList (s : State K) : s.cleared.mstateList = s.mstateList := by
  unfold State.cleared
  split
  · rename_i hnil
    exact hnil.symm
  · rfl

theorem State.cleared_nextMstate (s : State K) : s.cleared.nextMstate = s.nextMstate := by
  unfold State.cleared
  split <;> rfl

theorem wp_mallocConsolidate_fresh {av : Nat} {s : State K} (hfresh : (s.mstates av).maxFast = 0)
    (hav : av < s.nextMstate) (hlimit : s.nextMstate ≤ mstateLimit)
    {Q : Unit → State K → Prop} {E : Fault → State K → Prop} (hQ : Q () (s.prepared av)) :
    wp (mallocConsolidate av) Q E s := by
  rw [mallocConsolidate, wp_bind, wp_getMstate, if_neg (not_not.mpr hfresh), wp_bind, wp_get,
    wp_bind]
  -- Whether or not the heap is cleared first, the rest runs on from `cleared`.
  suffices h : wp (mallocInitState av : HeapM K Unit) Q E s.cleared by
    unfold State.cleared at h
    split
    · rename_i hnil
      rw [if_pos hnil] at h
      exact (wp_modify ..).mpr h
    · rename_i hne
      rw [if_neg hne] at h
      exact (wp_pure ..).mpr h
  rw [mallocInitState, wp_bind]
  refine wp_initBins bins_lt (by rwa [s.cleared_nextMstate]) (by rwa [s.cleared_nextMstate]) ?_
  rw [wp_bind, setMstate, wp_modify, wp_modify]
  convert hQ using 1
  simp only [State.prepared, s.cleared_mstates, s.cleared_mstateList]
  rfl

/-- The state after a `malloc_state` was made. -/
def State.withMstate (s : State K) : State K :=
  { s with
    mstates := Function.update s.mstates s.nextMstate Mstate.zero
    nextMstate := s.nextMstate + 1
    mem := s.mem.fill (privateBase + mstateStride * s.nextMstate) 904 0 }

theorem wp_newMstate (s : State K) (Q : Nat → State K → Prop) (E : Fault → State K → Prop) :
    wp newMstate Q E s ↔
      if s.nextMstate < mstateLimit then Q s.nextMstate s.withMstate else E .segv s := by
  simp only [newMstate, wp_bind, wp_get, wp_ite, wp_set, wp_pure, wp_throw, State.withMstate]

end ArbiterThread
