import ArbiterThread.Malloc.Alloc

/-!
# The Allocator: Releases

`ablib_free` and `ablib_realloc`.

Both find the unit of a block by its address and then trust the block's own
header. `ablib_realloc` drops the lock before every call of another public
function, so each of its paths is a sequence of locked sections.

## Main definitions

* `freeFast`, `freeChunk`, `freeMmapped`: The three cases of `ablib_free`.
* `ablibFree`: The public function.
* `reallocSplit`, `reallocCopy`, `reallocGrow`, `reallocMmapped`: The cases of
  `ablib_realloc`.
* `ablibRealloc`: The public function.
* `Call`: A call of one of the four public functions.
* `AtAlloc`, `reallocMoves`: Where a call asks for new memory.

## Theorems

* `wp_mallocBeforeAlloc`, `atAlloc_iff`: The two stages before a call asks for new memory.
-/

namespace ArbiterThread

open Exec

variable {K : Type}

/-! ### Free -/

/-- Place a chunk on the fastbin of its size. -/
def freeFast (av p size : Nat) : HeapM K Unit := do
  setMstate av setFastchunks
  -- a chunk below the minimal size has no fastbin
  if size < minSize then throw .undefined
  else do
    let m ← getMstate av
    setFd p (m.fastbins (fastbinIndex size))
    setFastbin av (fastbinIndex size) p

/-- Put a chunk at the front of the unsorted list, with its head and foot. The
    writes come in the order of `ablib_free`. -/
def freeLink (av p size : Nat) : HeapM K Unit := do
  let fwd ← fdOf (unsortedChunks av)
  setBk p (unsortedChunks av)
  setFd p fwd
  setFd (unsortedChunks av) p
  setBk fwd p
  setHead p (withInuse size)
  setFoot p size

/-- After the backward merge: merge with the next chunk or with the unit top.
    Answers the size of the free chunk that results. -/
def freeForward (av u p size nextchunk nextsize : Nat) : HeapM K Nat := do
  let unit ← getUnit u
  if nextchunk ≠ unit.unitTop then do
    let nextinuse ← inuseBitAtOffset nextchunk nextsize
    setHead nextchunk nextsize
    if nextinuse then do
      freeLink av p size
      pure size
    else do
      unlink nextchunk
      freeLink av p ((size + nextsize) % wordSize)
      pure ((size + nextsize) % wordSize)
  else do
    setHead p (withInuse ((size + nextsize) % wordSize))
    setUnitTop u p
    pure ((size + nextsize) % wordSize)

/-- Merge with the chunk before, if that is free, and then forward. -/
def freeBackward (av u p head nextchunk nextsize : Nat) : HeapM K Nat :=
  if prevInuse head then freeForward av u p (sizeOfHead head) nextchunk nextsize
  else do
    let prevsize ← prevSize p
    let p := chunkBefore p prevsize
    unlink p
    freeForward av u p ((sizeOfHead head + prevsize) % wordSize) nextchunk nextsize

/-- Release a chunk that is not mapped by itself, merging it with its free
    neighbours. -/
def freeChunk (av u p head : Nat) : HeapM K Unit := do
  setMstate av setAnychunks
  let nextchunk := chunkAtOffset p (sizeOfHead head)
  let nextsize ← chunksize nextchunk
  let merged ← freeBackward av u p head nextchunk nextsize
  let m ← getMstate av
  if fastbinConsolidationThreshold ≤ merged ∧ haveFastchunks m then mallocConsolidate av
  else pure ()

/-- `linked_list_locate` and `list_del_entry`. A datum that is not in the list
    leads to an access through `NULL`. -/
def listDelete (list : List Nat) (unit : Nat) : HeapM K (List Nat) :=
  if unit ∈ list then pure (list.erase unit) else throw .segv

/-- Release a unit that was mapped for one block. -/
def freeMmapped (ops : KernelOps K) (pid av u p head : Nat) : HeapM K Unit := do
  let size := sizeOfHead head
  let offset ← prevSize p
  setMstate av fun m =>
    { m with
      nMmaps := m.nMmaps - 1
      mmappedMem := (m.mmappedMem + (wordSize - (size + offset) % wordSize)) % wordSize }
  absys ops pid fun k =>
    ((), ops.absysMunmap k pid (chunkBefore p offset) ((size + offset) % wordSize))
  let s ← get
  let mmapped ← listDelete s.mmappedUstateList u
  modify fun s => { s with mmappedUstateList := mmapped }
  let units ← listDelete s.ustateList u
  modify fun s => { s with ustateList := units }

def ablibFree (ops : KernelOps K) (pid mem : Nat) : HeapM K Unit := do
  if mem = 0 then pure ()
  else do
    mallocLock
    let u ← lookupUstateByMem mem
    let unit ← getUnit u
    let av := unit.unitAv
    let p := mem2chunk mem
    let head ← headOf p
    let m ← getMstate av
    (if sizeOfHead head ≤ m.maxFast then freeFast av p (sizeOfHead head)
    else if isMmapped head then freeMmapped ops pid av u p head
    else freeChunk av u p head)
    mallocUnlock

/-! ### Realloc -/

def copyWords (d s : Nat) : List Nat → HeapM K Unit
  | [] => pure ()
  | i :: is => do
      let w ← load (s + 4 * i)
      store (d + 4 * i) w
      copyWords d s is

/-- `memcpy` between two blocks. -/
def copyBytes (d s n : Nat) : HeapM K Unit := do
  bulk s n id
  bulk d n fun m => m.copy d s n

/-- Copy the contents of the old block, a few words at a time if it is small. -/
def copyBlock (newmem oldmem oldsize : Nat) : HeapM K Unit := do
  let copysize := (oldsize + (wordSize - 4)) % wordSize
  let ncopies := copysize / 4
  check (3 ≤ ncopies)
  if 9 < ncopies then copyBytes newmem oldmem copysize
  else copyWords newmem oldmem (List.range (unrolled ncopies))

/-- The common end of the in-place cases: `newp` now has `newsize` bytes; give
    back what is not needed. Releases the lock. -/
def reallocSplit (ops : KernelOps K) (pid nb newp newsize : Nat) : HeapM K Nat := do
  check (nb ≤ newsize)
  let remainderSize := newsize - nb
  (if remainderSize < minSize then do
    setHeadSize newp newsize
    setInuseBitAtOffset newp newsize
    mallocUnlock
  else do
    let remainder := chunkAtOffset newp nb
    setHeadSize newp nb
    setHead remainder (withInuse remainderSize)
    -- mark the remainder as in use so that free does not complain
    setInuseBitAtOffset remainder remainderSize
    mallocUnlock
    ablibFree ops pid (chunk2mem remainder))
  pure (chunk2mem newp)

/-- Allocate, copy, free. When the new chunk turns out to be the one behind the
    old, the two are joined instead. -/
def reallocCopy (ops : KernelOps K) (pid oldmem nb oldp oldsize next : Nat) (L : Label) :
    HeapM K Nat := do
  mallocUnlock
  let newmem ← ablibMalloc ops pid (nb - 7) L
  if newmem = 0 then pure 0
  else do
    mallocLock
    let newp := mem2chunk newmem
    let newsize ← chunksize newp
    if newp = next then reallocSplit ops pid nb oldp ((newsize + oldsize) % wordSize)
    else do
      copyBlock newmem oldmem oldsize
      mallocUnlock
      ablibFree ops pid oldmem
      pure (chunk2mem newp)

/-- `inuse`: the use bit of a chunk, kept in the chunk behind it. -/
def inuse (p : Nat) : HeapM K Bool := do
  let h ← headOf p
  inuseBitAtOffset p (h / 2 * 2)

/-- Realloc of a block that is too small, in a unit cut into chunks. -/
def reallocGrow (ops : KernelOps K) (pid oldmem nb u oldp oldsize : Nat) (L : Label) :
    HeapM K Nat := do
  let next := chunkAtOffset oldp oldsize
  let unit ← getUnit u
  let nextsize ← chunksize next
  let newsize := (oldsize + nextsize) % wordSize
  if next = unit.unitTop ∧ nb + minSize ≤ newsize then do
    -- expand forward into top
    setHeadSize oldp nb
    setUnitTop u (chunkAtOffset oldp nb)
    setHead (chunkAtOffset oldp nb) (withInuse (newsize - nb))
    mallocUnlock
    pure (chunk2mem oldp)
  else if next ≠ unit.unitTop then do
    let nextinuse ← inuse next
    if ¬ nextinuse ∧ nb ≤ newsize then do
      -- expand forward into the next chunk
      unlink next
      reallocSplit ops pid nb oldp newsize
    else reallocCopy ops pid oldmem nb oldp oldsize next L
  else reallocCopy ops pid oldmem nb oldp oldsize next L

/-- Realloc of a block that has a mapped unit of its own. -/
def reallocMmapped (ops : KernelOps K) (pid oldmem nb av oldp oldsize : Nat) (L : Label) :
    HeapM K Nat := do
  let offset ← prevSize oldp
  let m ← getMstate av
  let newsize := (nb + offset + 4 + (m.pagesize - 1)) % wordSize / m.pagesize * m.pagesize
  -- don't need to remap if still within same page
  if oldsize = (newsize + (wordSize - offset)) % wordSize then do
    mallocUnlock
    pure oldmem
  else if nb + 4 ≤ oldsize then do
    mallocUnlock
    pure oldmem
  else do
    mallocUnlock
    let newmem ← ablibMalloc ops pid (nb - 7) L
    if newmem ≠ 0 then do
      copyBytes newmem oldmem ((oldsize + (wordSize - 8)) % wordSize)
      ablibFree ops pid oldmem
      pure newmem
    else pure newmem

def ablibRealloc (ops : KernelOps K) (pid oldmem bytes : Nat) (L : Label) : HeapM K Nat := do
  if oldmem = 0 then ablibMalloc ops pid bytes L
  else if bytes = 0 then do
    ablibFree ops pid oldmem
    pure 0
  else do
    mallocLock
    let u ← lookupUstateByMem oldmem
    let unit ← getUnit u
    -- the return hidden in checked_request2size, with the lock taken
    if requestOutOfRange bytes then pure 0
    else do
      let nb := request2size bytes
      let oldp := mem2chunk oldmem
      let head ← headOf oldp
      let oldsize := sizeOfHead head
      if isMmapped head then reallocMmapped ops pid oldmem nb unit.unitAv oldp oldsize L
      else if nb ≤ oldsize then reallocSplit ops pid nb oldp oldsize
      else reallocGrow ops pid oldmem nb u oldp oldsize L

/-! ### Calls -/

/-- A call of one of the four public functions. -/
inductive Call where
  | malloc (pid bytes : Nat) (L : Label)
  | calloc (pid nElements elemSize : Nat) (L : Label)
  | realloc (pid oldmem bytes : Nat) (L : Label)
  | free (pid mem : Nat)

def Call.run (ops : KernelOps K) : Call → HeapM K Nat
  | .malloc pid bytes L => ablibMalloc ops pid bytes L
  | .calloc pid nElements elemSize L => ablibCalloc ops pid nElements elemSize L
  | .realloc pid oldmem bytes L => ablibRealloc ops pid oldmem bytes L
  | .free pid mem => do
      ablibFree ops pid mem
      pure 0

/-! ### Where a call asks for new memory -/

/-- `ablib_malloc` up to the call of `__malloc_alloc`: the `malloc_state` of the
    label, and the block if one was found without that call. -/
def mallocBeforeAlloc (bytes : Nat) (L : Label) : HeapM K (Nat × Option Nat) := do
  let av ← lookupMstateByLabel L
  let av ← mallocEnter av
  let found ← mallocServe av (request2size bytes) L
  pure (av, found)

/-- If the request gets as far as `__malloc_alloc`, then `P` of the
    `malloc_state` and the state in which it gets there. -/
def AtAlloc (bytes : Nat) (L : Label) (P : Nat → State K → Prop) (s : State K) : Prop :=
  wp (mallocBeforeAlloc bytes L) (fun r s' => r.2 = none → P r.1 s') (fun _ _ => True) s

instance decidableAtAlloc (bytes : Nat) (L : Label) (P : Nat → State K → Prop) (s : State K)
    [∀ av s, Decidable (P av s)] : Decidable (AtAlloc bytes L P s) := by
  unfold AtAlloc
  infer_instance

/-- The `malloc_state` is found or made, and then searched. -/
theorem wp_mallocBeforeAlloc (bytes : Nat) (L : Label) (Q : Nat × Option Nat → State K → Prop)
    (E : Fault → State K → Prop) (s : State K) :
    wp (mallocBeforeAlloc bytes L) Q E s ↔
      wp (mallocEnter (s.mstateList.find? fun m => decide ((s.mstates m).label = L)))
        (fun av s' => wp (mallocServe av (request2size bytes) L)
          (fun found s'' => Q (av, found) s'') E s') E s := by
  simp only [mallocBeforeAlloc, lookupMstateByLabel, wp_bind, wp_get, wp_pure]

theorem atAlloc_iff {bytes : Nat} {L : Label} {P : Nat → State K → Prop} {s : State K} :
    AtAlloc bytes L P s ↔
      wp (mallocEnter (s.mstateList.find? fun m => decide ((s.mstates m).label = L)))
        (fun av s' => wp (mallocServe av (request2size bytes) L)
          (fun found s'' => found = none → P av s'') (fun _ _ => True) s') (fun _ _ => True) s :=
  wp_mallocBeforeAlloc bytes L _ _ s

/-- The block cannot be resized where it is: a mapped block is too small and in
    fewer pages than needed, any other block is too small and what is behind it
    is neither the unit top nor a free chunk with enough room. -/
def reallocMoves (s : State K) (u oldmem nb : Nat) : Prop :=
  let oldp := mem2chunk oldmem
  let head := s.mem.load32 (oldp + 4)
  let oldsize := sizeOfHead head
  if isMmapped head then
    let offset := s.mem.load32 oldp
    let pagesize := (s.mstates (s.units u).unitAv).pagesize
    let newsize := (nb + offset + 4 + (pagesize - 1)) % wordSize / pagesize * pagesize
    oldsize ≠ (newsize + (wordSize - offset)) % wordSize ∧ oldsize < nb + 4
  else
    let next := chunkAtOffset oldp oldsize
    let nextHead := s.mem.load32 (next + 4)
    let newsize := (oldsize + sizeOfHead nextHead) % wordSize
    let nextInuse := prevInuse (s.mem.load32 (chunkAtOffset next (nextHead / 2 * 2) + 4))
    oldsize < nb ∧ ¬ (next = (s.units u).unitTop ∧ nb + minSize ≤ newsize) ∧
      ¬ (next ≠ (s.units u).unitTop ∧ ¬ nextInuse ∧ nb ≤ newsize)

end ArbiterThread
