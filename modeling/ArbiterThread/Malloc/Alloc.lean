import ArbiterThread.Malloc.State

/-!
# The Allocator: Requests

`ablib_malloc` and `ablib_calloc`, with everything below them: the
consolidation of fastbins, the search through the bins, the unit tops, and
the two ways of getting a new unit from the kernel.

The functions follow the source statement by statement. Where the source
jumps to `DONE` from inside a search, the stage returns the block it found,
and `none` stands for falling through to the next stage.

Two loops of the source recurse into memory without a bound of their own, so
they carry fuel. `ablib_malloc` calls itself once, from `__malloc_alloc` and
with the lock held. The second call is a second turn of `ablibMallocAux`; it
blocks on the lock and never gets as far as a third.

## Main definitions

* `lookupMstateByLabel`, `lookupUstateByMem`, `lookupLabelByMem`: Metadata
  lookups.
* `mallocConsolidate`: Tearing down the fastbins, and initialisation.
* `searchBins`: All stages of `ablib_malloc` before `use_unit_top`.
* `useUnitTop`: Cutting a block from the first unit top that is large enough.
* `getUnmappedArea`, `insertMmappedUnit`: The placement of mapped units.
* `protUpdate`, `mallocUpdate`: Setting page protections.
* `mallocAlloc`: Getting a new unit.
* `ablibMalloc`, `ablibCalloc`: The public functions.

## Theorems

* `wp_getMstate`, `wp_getUnit`, `wp_lookupUstateByMem`: Reading the metadata.
* `wp_protUpdate`: All clients but one get the protection of a label, or the kernel is gone.
* `wp_ablibBrk`: What is left after asking for a break.
* `calloc_size`, `calloc_overflow_iff`: The division finds every product that does not fit.
-/

namespace ArbiterThread

open Exec

variable {K : Type}

/-! ### Metadata -/

def getMstate (av : Nat) : HeapM K Mstate := do
  let s ← get
  pure (s.mstates av)

def setMstate (av : Nat) (f : Mstate → Mstate) : HeapM K Unit :=
  modify fun s => { s with mstates := Function.update s.mstates av (f (s.mstates av)) }

def getUnit (u : Nat) : HeapM K Ustate := do
  let s ← get
  pure (s.units u)

def setUnitTop (u top : Nat) : HeapM K Unit :=
  modify fun s =>
    { s with units := Function.update s.units u { s.units u with unitTop := top } }

/-- `unit_init_state`, from the process's own `malloc`. -/
def unitInitState (unit : Ustate) : HeapM K Nat := do
  let s ← get
  set { s with units := Function.update s.units s.nextUnit unit, nextUnit := s.nextUnit + 1 }
  pure s.nextUnit

def lookupMstateByLabel (L : Label) : HeapM K (Option Nat) := do
  let s ← get
  pure (s.mstateList.find? fun m => decide ((s.mstates m).label = L))

/-- The address is inside the unit. -/
def covers (u : Ustate) (ptr : Nat) : Prop :=
  u.addr ≤ ptr ∧ ptr < (u.addr + u.length) % wordSize

instance (u : Ustate) (ptr : Nat) : Decidable (covers u ptr) := inferInstanceAs (Decidable (_ ∧ _))

/-- The first unit from the tail of the list on that contains the address. -/
def unitAt (s : State K) (ptr : Nat) : Option Nat :=
  s.ustateList.reverse.find? fun u => decide (covers (s.units u) ptr)

/-- The end test of the walk compares with the address of the list itself, which
    no `prev` ever is, so past the head it reads through `NULL`. -/
def lookupUstateByMem (ptr : Nat) : HeapM K Nat := do
  let s ← get
  match unitAt s ptr with
  | some u => pure u
  | none => throw .segv

def lookupLabelByMem (ptr : Nat) : HeapM K Label := do
  let u ← lookupUstateByMem ptr
  let unit ← getUnit u
  let m ← getMstate unit.unitAv
  pure m.label

section

variable (E : Fault → State K → Prop) (s : State K)

theorem wp_getMstate (av : Nat) (Q : Mstate → State K → Prop) :
    wp (getMstate av) Q E s ↔ Q (s.mstates av) s := by
  simp only [getMstate, wp_bind, wp_get, wp_pure]

theorem wp_getUnit (u : Nat) (Q : Ustate → State K → Prop) :
    wp (getUnit u) Q E s ↔ Q (s.units u) s := by
  simp only [getUnit, wp_bind, wp_get, wp_pure]

theorem wp_lookupUstateByMem (ptr : Nat) (Q : Nat → State K → Prop) :
    wp (lookupUstateByMem ptr) Q E s ↔
      match unitAt s ptr with
      | some u => Q u s
      | none => E .segv s := by
  simp only [lookupUstateByMem, wp_bind, wp_get]
  cases unitAt s ptr with
  | some u => simp only [wp_pure]
  | none => simp only [wp_throw]

end

/-! ### Initialisation and consolidation -/

/-- `malloc` and `memset` of a `malloc_state`. When the process's own memory is
    used up, `malloc` answers `NULL` and `memset` writes through it. -/
def newMstate : HeapM K Nat := do
  let s ← get
  if s.nextMstate < mstateLimit then do
    set { s with
      mstates := Function.update s.mstates s.nextMstate Mstate.zero
      nextMstate := s.nextMstate + 1
      mem := s.mem.fill (privateBase + mstateStride * s.nextMstate) 904 0 }
    pure s.nextMstate
  else throw .segv

/-- Establish circular links for the bins listed. -/
def initBins (av : Nat) : List Nat → HeapM K Unit
  | [] => pure ()
  | i :: is => do
      setBk (binAt av i) (binAt av i)
      setFd (binAt av i) (binAt av i)
      initBins av is

def mallocInitState (av : Nat) : HeapM K Unit := do
  initBins av (List.range' 1 (nBins - 1))
  setMstate av fun m =>
    { m with
      nMmapsMax := 65536
      mmapThreshold := unitSize
      -- set_max_fast: the flags stay
      maxFast := request2size 64 + m.maxFast % 4
      ustateList := []
      pagesize := 4096 }
  modify fun s => { s with mstateList := s.mstateList ++ [av] }

/-- The first call of all: empty lists, and the channel heap mapped and
    touched. -/
def abheapInit : HeapM K Unit :=
  modify fun s =>
    { s with
      mstateList := []
      ustateList := []
      mmappedUstateList := []
      mem := s.mem.fill channelAddr channelSize 0 }

/-- Put a chunk at the front of the unsorted list, with its head and foot. The
    writes come in the order of `__malloc_consolidate`. -/
def consolidateLink (av p size : Nat) : HeapM K Unit := do
  let firstUnsorted ← fdOf (unsortedChunks av)
  setFd (unsortedChunks av) p
  setBk firstUnsorted p
  setHead p (withInuse size)
  setBk p (unsortedChunks av)
  setFd p firstUnsorted
  setFoot p size

/-- The part of the loop body after the backward merge, for the chunk of `size`
    bytes at `p` whose successor is `nextchunk`. -/
def consolidateForward (av p size nextchunk nextsize : Nat) : HeapM K Unit := do
  let u ← lookupUstateByMem p
  let unit ← getUnit u
  if nextchunk ≠ unit.unitTop then do
    let nextinuse ← inuseBitAtOffset nextchunk nextsize
    setHead nextchunk nextsize
    if nextinuse then consolidateLink av p size
    else do
      unlink nextchunk
      consolidateLink av p ((size + nextsize) % wordSize)
  else do
    setHead p (withInuse ((size + nextsize) % wordSize))
    setUnitTop u p

/-- One chunk of a fastbin: the loop body of `__malloc_consolidate`. -/
def consolidateChunk (av p : Nat) : HeapM K Unit := do
  let head ← headOf p
  -- IS_MMAPPED is not masked off here
  let size := head / 2 * 2
  let nextchunk := chunkAtOffset p size
  let nextsize ← chunksize nextchunk
  if prevInuse head then consolidateForward av p size nextchunk nextsize
  else do
    let prevsize ← prevSize p
    let p := chunkBefore p prevsize
    unlink p
    consolidateForward av p ((size + prevsize) % wordSize) nextchunk nextsize

/-- The chunks of one fastbin, from `p` on. -/
def consolidateChain (av : Nat) : Nat → Nat → HeapM K Unit
  | 0, _ => throw .diverge
  | fuel + 1, p =>
      if p = 0 then pure ()
      else do
        let nextp ← fdOf p
        consolidateChunk av p
        consolidateChain av fuel nextp

def setFastbin (av i v : Nat) : HeapM K Unit :=
  setMstate av fun m => { m with fastbins := Function.update m.fastbins i v }

/-- The fastbins listed, one after the other. -/
def consolidateBins (av : Nat) : List Nat → HeapM K Unit
  | [] => pure ()
  | i :: is => do
      let m ← getMstate av
      setFastbin av i 0
      consolidateChain av loopFuel (m.fastbins i)
      consolidateBins av is

/-- `__malloc_consolidate`. A `malloc_state` whose `max_fast` is 0 has not been
    initialised, and that is done instead. -/
def mallocConsolidate (av : Nat) : HeapM K Unit := do
  let m ← getMstate av
  if m.maxFast ≠ 0 then do
    setMstate av clearFastchunks
    consolidateBins av (List.range (fastbinIndex m.maxFast + 1))
  else do
    let s ← get
    (if s.mstateList = [] then abheapInit else pure ())
    mallocInitState av

/-! ### The search through the bins -/

/-- The fastbin of exactly this size. -/
def takeFast (av nb : Nat) : HeapM K (Option Nat) := do
  let m ← getMstate av
  if nb ≤ m.maxFast then do
    let victim := m.fastbins (fastbinIndex nb)
    if victim ≠ 0 then do
      let fd ← fdOf victim
      setFastbin av (fastbinIndex nb) fd
      pure (some (chunk2mem victim))
    else pure none
  else pure none

/-- The last chunk of `bin` is `victim`: take it off. -/
def unlinkLast (bin victim : Nat) : HeapM K Unit := do
  let bck ← bkOf victim
  setBk bin bck
  setFd bck bin

/-- A small request is looked up in its own bin. A large one instead has the
    fastbins consolidated. -/
def takeSmall (av nb : Nat) : HeapM K (Option Nat) := do
  if inSmallbinRange nb then do
    let bin := binAt av (smallbinIndex nb)
    let victim ← bkOf bin
    if victim ≠ bin then do
      let bck ← bkOf victim
      setInuseBitAtOffset victim nb
      setBk bin bck
      setFd bck bin
      pure (some (chunk2mem victim))
    else pure none
  else do
    let m ← getMstate av
    if haveFastchunks m then do
      mallocConsolidate av
      pure none
    else pure none

/-- Cut `victim` after `nb` bytes and make the rest the only unsorted chunk.
    `last` says whether it is advertised as the last remainder. -/
def splitRemainder (av victim nb remainderSize : Nat) (last : Bool) : HeapM K Nat := do
  let remainder := chunkAtOffset victim nb
  setFd (unsortedChunks av) remainder
  setBk (unsortedChunks av) remainder
  setMstate av fun m => if last then { m with lastRemainder := remainder } else m
  setFd remainder (unsortedChunks av)
  setBk remainder (unsortedChunks av)
  setHead victim (withInuse nb)
  setHead remainder (withInuse remainderSize)
  setFoot remainder remainderSize
  pure (chunk2mem victim)

/-- The whole of `victim`, `size` bytes, is handed out. -/
def exhaust (victim size : Nat) : HeapM K Nat := do
  setInuseBitAtOffset victim size
  pure (chunk2mem victim)

/-- Hand out `nb` of the `size` bytes of an unlinked chunk. -/
def exhaustOrSplit (av victim size nb : Nat) (last : Bool) : HeapM K Nat :=
  if size - nb < minSize then exhaust victim size
  else splitRemainder av victim nb (size - nb) last

/-- The walk that keeps large bins in sorted order. -/
def sortedWalk (size : Nat) : Nat → Nat → HeapM K Nat
  | 0, _ => throw .diverge
  | fuel + 1, fwd => do
      let h ← headOf fwd
      if size < h then do
        let next ← fdOf fwd
        sortedWalk size fuel next
      else pure fwd

/-- The neighbours a chunk of `size` bytes gets in the large bin `bin`, as
    `(bck, fwd)`. -/
def largeNeighbours (bin size : Nat) : HeapM K (Nat × Nat) := do
  let fwd ← fdOf bin
  if fwd ≠ bin then do
    let last ← bkOf bin
    let lastHead ← headOf last
    -- if smaller than smallest, place last
    if size < lastHead then pure (last, bin)
    else if 256 ≤ size then do
      let fwd ← sortedWalk (withInuse size) loopFuel fwd
      let bck ← bkOf fwd
      pure (bck, fwd)
    else pure (bin, fwd)
  else pure (bin, fwd)

def markBin (av i : Nat) : HeapM K Unit :=
  setMstate av fun m =>
    { m with
      binmap := Function.update m.binmap (idx2block i) (m.binmap (idx2block i) ||| idx2bit i) }

/-- Link `victim` between two neighbours. -/
def linkBetween (victim bck fwd : Nat) : HeapM K Unit := do
  setBk victim bck
  setFd victim fwd
  setBk fwd victim
  setFd bck victim

/-- Place a chunk of `size` bytes in its bin. -/
def placeInBin (av victim size : Nat) : HeapM K Unit := do
  if inSmallbinRange size then do
    let bck := binAt av (smallbinIndex size)
    let fwd ← fdOf bck
    markBin av (smallbinIndex size)
    linkBetween victim bck fwd
  else do
    let (bck, fwd) ← largeNeighbours (binAt av (mallocLargebinIndex size)) size
    markBin av (mallocLargebinIndex size)
    linkBetween victim bck fwd

/-- Process the unsorted chunks: take one on an exact fit or as the last
    remainder, place the others in bins. -/
def takeUnsorted (av nb : Nat) : Nat → HeapM K (Option Nat)
  | 0 => throw .diverge
  | fuel + 1 => do
      let victim ← bkOf (unsortedChunks av)
      if victim = unsortedChunks av then pure none
      else do
        let bck ← bkOf victim
        let size ← chunksize victim
        let m ← getMstate av
        if inSmallbinRange nb ∧ bck = unsortedChunks av ∧ victim = m.lastRemainder ∧
            nb + minSize < size then do
          let mem ← splitRemainder av victim nb (size - nb) true
          pure (some mem)
        else do
          -- remove from unsorted list
          setBk (unsortedChunks av) bck
          setFd bck (unsortedChunks av)
          if size = nb then do
            let mem ← exhaust victim size
            pure (some mem)
          else do
            placeInBin av victim size
            takeUnsorted av nb fuel

/-- Scan a large bin from its end for the first chunk that fits. -/
def takeLarge (av nb bin : Nat) : Nat → Nat → HeapM K (Option Nat)
  | 0, _ => throw .diverge
  | fuel + 1, victim =>
      if victim = bin then pure none
      else do
        let size ← chunksize victim
        if nb ≤ size then do
          unlink victim
          let mem ← exhaustOrSplit av victim size nb false
          pure (some mem)
        else do
          let victim ← bkOf victim
          takeLarge av nb bin fuel victim

/-- `do { if (++block >= BINMAPSIZE) goto use_unit_top; } while (binmap[block] == 0)`. -/
def nextBlock (m : Mstate) : Nat → Nat → Option Nat
  | 0, _ => none
  | fuel + 1, block =>
      if binmapSize ≤ block + 1 then none
      else if m.binmap (block + 1) = 0 then nextBlock m fuel (block + 1)
      else some (block + 1)

/-- Advance to the bin with a set bit. -/
def advanceBit (map : Nat) : Nat → Nat → Nat → HeapM K (Nat × Nat)
  | 0, _, _ => throw .diverge
  | fuel + 1, bin, bit =>
      if bit &&& map = 0 then do
        let bit := (bit <<< 1) % wordSize
        check (bit ≠ 0)
        advanceBit map fuel (nextBin bin) bit
      else pure (bin, bit)

/-- Inspect the bin with the set bit `bit` of word `block`. A false alarm clears
    the bit and answers the bin, word and bit to go on with. -/
def inspectBin (av nb bin block map bit : Nat) : HeapM K (Nat ⊕ (Nat × Nat × Nat)) := do
  let victim ← bkOf bin
  if victim = bin then do
    let map := map &&& (0xFFFFFFFF ^^^ bit)
    setMstate av fun m => { m with binmap := Function.update m.binmap block map }
    pure (.inr (nextBin bin, map, (bit <<< 1) % wordSize))
  else do
    let size ← chunksize victim
    -- the first chunk in this bin is big enough to use
    check (nb ≤ size)
    unlinkLast bin victim
    let mem ← exhaustOrSplit av victim size nb (decide (inSmallbinRange nb))
    pure (.inl mem)

/-- Search the bins above the request's own with the help of the bit map. -/
def takeBinmap (av nb : Nat) : Nat → Nat → Nat → Nat → Nat → HeapM K (Option Nat)
  | 0, _, _, _, _ => throw .diverge
  | fuel + 1, bin, block, map, bit => do
      let m ← getMstate av
      let start : Option (Nat × Nat × Nat × Nat) :=
        if map < bit ∨ bit = 0 then
          match nextBlock m binmapSize block with
          | none => none
          | some block => some (binAt av (32 * block), block, m.binmap block, 1)
        else some (bin, block, map, bit)
      match start with
      | none => pure none
      | some (bin, block, map, bit) => do
          let (bin, bit) ← advanceBit map 33 bin bit
          let r ← inspectBin av nb bin block map bit
          match r with
          | .inl mem => pure (some mem)
          | .inr (bin, map, bit) => takeBinmap av nb fuel bin block map bit

/-- The bin index of a request, from which the last two stages start. -/
def binIndex (nb : Nat) : Nat :=
  if inSmallbinRange nb then smallbinIndex nb else mallocLargebinIndex nb

/-- If a large request, scan the chunks of its own bin. -/
def takeOwnBin (av nb : Nat) : HeapM K (Option Nat) :=
  if inSmallbinRange nb then pure none
  else do
    let victim ← bkOf (binAt av (binIndex nb))
    takeLarge av nb (binAt av (binIndex nb)) loopFuel victim

/-- The last two stages: the request's own bin, then the bins above it. -/
def takeBinned (av nb : Nat) : HeapM K (Option Nat) := do
  let found ← takeOwnBin av nb
  match found with
  | some mem => pure (some mem)
  | none => do
      let m ← getMstate av
      let idx := binIndex nb + 1
      takeBinmap av nb 128 (binAt av idx) (idx2block idx) (m.binmap (idx2block idx)) (idx2bit idx)

/-- All stages of `ablib_malloc` before `use_unit_top`, in order. -/
def searchBins (av nb : Nat) : HeapM K (Option Nat) := do
  let fast ← takeFast av nb
  match fast with
  | some mem => pure (some mem)
  | none => do
      let small ← takeSmall av nb
      match small with
      | some mem => pure (some mem)
      | none => do
          let unsorted ← takeUnsorted av nb loopFuel
          match unsorted with
          | some mem => pure (some mem)
          | none => takeBinned av nb

/-! ### Unit tops -/

/-- Cut `nb` bytes off a unit top of `size` bytes. A top that would be left with
    less than a minimal chunk is handed out whole. -/
def cutTop (victim size nb : Nat) : HeapM K Unit :=
  if size - nb < minSize then setInuseBitAtOffset victim size
  else do
    let remainder := chunkAtOffset victim nb
    setHead victim (withInuse nb)
    setHead remainder (withInuse (size - nb))
    setFoot remainder (size - nb)

/-- Take `nb` bytes from the first of the unit tops listed that is large enough.
    `unit_top` moves by `nb`, also when the top was handed out whole. -/
def useUnitTop (nb : Nat) : List Nat → HeapM K (Option Nat)
  | [] => pure none
  | u :: us => do
      let unit ← getUnit u
      let victim := unit.unitTop
      let size ← chunksize victim
      if nb ≤ size then do
        setUnitTop u (chunkAtOffset victim nb)
        cutTop victim size nb
        pure (some (chunk2mem victim))
      else useUnitTop nb us

/-! ### The placement of mapped units -/

/-- The holes between neighbouring units of the list, given highest first. -/
def holeBelow (units : Nat → Ustate) (size : Nat) : List Nat → Option Nat
  | h :: l :: rest =>
      if ((units l).addr + (units l).length + size) % wordSize < (units h).addr then
        some (((units h).addr + (wordSize - size)) % wordSize)
      else holeBelow units size (l :: rest)
  | _ => none

/-- Search for an area of `size` bytes, from the end of the channel heap
    downwards. `ab_top` is never moved, and being a chunk pointer it advances by
    16 times what is added to it. The answer 0 means that nothing was found. -/
def getUnmappedArea (units : Nat → Ustate) (list : List Nat) (size : Nat) : Nat :=
  let last := (channelAddr + channelSize + (wordSize - size)) % wordSize
  match list.reverse with
  | [] => last
  | tail :: rest =>
      if ((units tail).addr + (units tail).length + size) % wordSize ≤
          channelAddr + channelSize then last
      else
        match holeBelow units size (tail :: rest) with
        | some a => a
        | none =>
            let head := (units (rest.getLastD tail)).addr
            if (channelAddr + 16 * size) % wordSize ≤ head then
              (head + (wordSize - size)) % wordSize
            else 0

/-- Insert the unit after the first of the units listed, highest first, that
    ends below it. -/
def insertBelow (units : Nat → Ustate) (unit : Nat) : List Nat → Option (List Nat)
  | [] => none
  | p :: ps =>
      if ((units p).addr + (units p).length) % wordSize < (units unit).addr then
        some (unit :: p :: ps)
      else (insertBelow units unit ps).map (p :: ·)

/-- Keep `mmapped_ustate_list` sorted. When the unit belongs behind the tail the
    code links it through `ptr->next`, which is `NULL` there. When it belongs
    nowhere the list is left alone. -/
def insertMmappedUnit (unit : Nat) : HeapM K Unit := do
  let s ← get
  match s.mmappedUstateList, s.mmappedUstateList.reverse with
  | head :: _, tail :: rest =>
      if (s.units unit).addr < (s.units head).addr then
        set { s with mmappedUstateList := unit :: s.mmappedUstateList }
      else if ((s.units tail).addr + (s.units tail).length) % wordSize < (s.units unit).addr then
        throw .segv
      else
        match insertBelow s.units unit rest with
        | some rest => set { s with mmappedUstateList := (tail :: rest).reverse }
        | none => pure ()
  | _, _ => set { s with mmappedUstateList := [unit] }

/-! ### Page protections -/

/-- Set the protection of every client but `pid` on the range. -/
def protLoop (ops : KernelOps K) (pid p size : Nat) (L : Label) : List ClientDesc → K → K
  | [], k => k
  | c :: cs, k =>
      if c.pid = pid then protLoop ops pid p size L cs k
      else
        protLoop ops pid p size L cs
          (ops.absysMprotect k c.pid p size (checkMemProt c.label c.ownership L)).2

/-- Whether the kernel kills the arbiter in one of these calls. -/
def protKills (ops : KernelOps K) (pid : Nat) (k : K) (cs : List ClientDesc) : Bool :=
  cs.any fun c => decide (c.pid ≠ pid) && ops.oops k c.pid

/-- The calls for a new unit are about tasks that are there. -/
def TasksLive (ops : KernelOps K) (pid : Nat) (s : State K) : Prop :=
  ops.oops s.kern pid = false ∧ protKills ops pid s.kern s.clients = false

instance (ops : KernelOps K) (pid : Nat) (s : State K) : Decidable (TasksLive ops pid s) :=
  inferInstanceAs (Decidable (_ ∧ _))

def protUpdate (ops : KernelOps K) (pid p size : Nat) (L : Label) : HeapM K Unit := do
  let s ← get
  if protKills ops pid s.kern s.clients then throw .killed
  else set { s with kern := protLoop ops pid p size L s.clients s.kern }

theorem protKills_congr {ops : KernelOps K} {k k' : K} (h : ops.oops k' = ops.oops k)
    (pid : Nat) (cs : List ClientDesc) : protKills ops pid k' cs = protKills ops pid k cs := by
  simp only [protKills, h]

theorem wp_protUpdate (ops : KernelOps K) (pid p size : Nat) (L : Label)
    (Q : Unit → State K → Prop) (E : Fault → State K → Prop) (s : State K) :
    wp (protUpdate ops pid p size L) Q E s ↔
      if protKills ops pid s.kern s.clients then E .killed s
      else Q () { s with kern := protLoop ops pid p size L s.clients s.kern } := by
  simp only [protUpdate, wp_bind, wp_get, wp_ite, wp_throw, wp_set]

/-- The loop of `malloc_update`, over the units listed. -/
def mallocUpdateLoop (ops : KernelOps K) (c : ClientDesc) : List Nat → HeapM K Unit
  | [] => pure ()
  | u :: us => do
      let unit ← getUnit u
      let m ← getMstate unit.unitAv
      let rc ← absys ops c.pid fun k => ops.absysMprotect k c.pid unit.addr unit.length
        (checkMemProt c.label c.ownership m.label)
      (if rc ≠ 0 then abMsg "ERROR: malloc_update() failed\n" else pure ())
      mallocUpdateLoop ops c us

/-- Set up the protections of a new client on all existing units. -/
def mallocUpdate (ops : KernelOps K) (cNew : ClientDesc) : HeapM K Unit := do
  let s ← get
  mallocUpdateLoop ops cNew s.ustateList

/-! ### New units -/

/-- `__ablib_brk`: ask for a break, and take over whatever the kernel answers.
    Returns 0, or -ENOMEM if the answer is below what was asked for. -/
def ablibBrk (ops : KernelOps K) (pid addr : Nat) : HeapM K Int := do
  let newbrk ← absys ops pid fun k => ops.absysBrk k pid addr
  modify fun s => { s with curbrk := newbrk }
  pure (if newbrk < addr then -12 else 0)

theorem wp_ablibBrk (ops : KernelOps K) (pid addr : Nat) (Q : Int → State K → Prop)
    (E : Fault → State K → Prop) (s : State K) :
    wp (ablibBrk ops pid addr) Q E s ↔
      if ops.oops s.kern pid then E .killed s
      else Q (if (ops.absysBrk s.kern pid addr).1 < addr then -12 else 0)
        { s with
          kern := (ops.absysBrk s.kern pid addr).2
          curbrk := (ops.absysBrk s.kern pid addr).1 } := by
  simp only [ablibBrk, wp_bind, wp_absys, wp_modify, wp_pure]

/-- The break is read from the kernel on the first call. -/
def initBreak (ops : KernelOps K) (pid : Nat) : HeapM K Bool := do
  let s ← get
  if s.curbrk = 0 then do
    let rc ← ablibBrk ops pid 0
    if rc < 0 then pure false
    else do
      let s ← get
      check (s.curbrk = channelAddr)
      pure true
  else pure true

def ablibSbrk (ops : KernelOps K) (pid increment : Nat) : HeapM K Nat := do
  let ready ← initBreak ops pid
  if ready then do
    let s ← get
    if increment = 0 then pure s.curbrk
    else do
      check (increment = unitSize)
      let oldbrk := s.curbrk
      if (oldbrk + increment) % wordSize < oldbrk then pure morecoreFailure
      else do
        let rc ← ablibBrk ops pid (oldbrk + increment)
        pure (if rc < 0 then morecoreFailure else oldbrk)
  else pure morecoreFailure

/-- The statistics after a unit of `size` bytes was mapped. -/
def countMmapped (size : Nat) (m : Mstate) : Mstate :=
  let mmapped := (m.mmappedMem + size) % wordSize
  let total := (mmapped + m.sbrkedMem) % wordSize
  { m with
    nMmaps := m.nMmaps + 1
    maxNMmaps := max m.maxNMmaps (m.nMmaps + 1)
    mmappedMem := mmapped
    maxMmappedMem := max m.maxMmappedMem mmapped
    maxTotalMem := max m.maxTotalMem total }

/-- The statistics after a unit was obtained from `ablib_sbrk`; `sbrked_mem`
    itself was increased before. -/
def countSbrked (m : Mstate) : Mstate :=
  let total := (m.sbrkedMem + m.mmappedMem) % wordSize
  { m with
    maxSbrkedMem := max m.maxSbrkedMem m.sbrkedMem
    maxTotalMem := max m.maxTotalMem total }

/-- The chunk of a mapped area of `size` bytes at `mm`. The offset of the chunk
    in the area is kept in its `prev_size`. -/
def mmapChunk (mm size : Nat) : HeapM K Nat := do
  let frontMisalign := chunk2mem mm % 8
  if 0 < frontMisalign then do
    let correction := 8 - frontMisalign
    let p := (mm + correction) % wordSize
    setPrevSize p correction
    setHead p (withMmapped (size - correction))
    pure p
  else do
    setPrevSize mm 0
    setHead mm (withMmapped size)
    pure mm

/-- `AB_MMAP`, always for reading and writing. -/
def abMmap (ops : KernelOps K) (pid addr size : Nat) : HeapM K Nat :=
  absys ops pid fun k => ops.absysMmap k pid addr size .protRW

/-- The size of the area that is mapped for a request, rounded up to a page. -/
def mmapSize (m : Mstate) (nb : Nat) : Nat :=
  (nb + 11 + (m.pagesize - 1)) % wordSize / m.pagesize * m.pagesize

/-- Map a unit of its own for a large request. `none` means that the code goes
    on to `ablib_sbrk`. -/
def mallocMmap (ops : KernelOps K) (pid nb av : Nat) (L : Label) : HeapM K (Option Nat) := do
  let m ← getMstate av
  let size := mmapSize m nb
  -- Don't try if size wraps around 0
  if m.mmapThreshold ≤ nb ∧ m.nMmaps < m.nMmapsMax ∧ nb < size then do
    let s ← get
    let mm := getUnmappedArea s.units s.mmappedUstateList size
    if mm ≠ morecoreFailure then do
      let p ← mmapChunk mm size
      let abMm ← abMmap ops pid mm size
      check (abMm = mm)
      let unit ← unitInitState { unitTop := mm, addr := mm, length := size, unitAv := av }
      modify fun s => { s with ustateList := unit :: s.ustateList }
      insertMmappedUnit unit
      setMstate av (countMmapped size)
      protUpdate ops pid mm size L
      pure (some (chunk2mem p))
    else pure none
  else pure none

/-- Write the head of a fresh unit top and the double fencepost behind it. -/
def fencepost (unitTop : Nat) : HeapM K Unit := do
  setHead unitTop (withInuse unitTopSize)
  setHead (chunkAtOffset unitTop unitTopSize) 5
  setHead (chunkAtOffset unitTop (unitTopSize + 4)) 5

/-- Get a unit from `ablib_sbrk` and cut the request from it. The code after a
    failed `ablib_sbrk` is never reached, because the failure is asserted not to
    happen. -/
def mallocSbrk (ops : KernelOps K) (pid nb av : Nat) (L : Label) : HeapM K Nat := do
  let m ← getMstate av
  check (¬ haveFastchunks m)
  let fstBrk ← ablibSbrk ops pid unitSize
  check (fstBrk ≠ morecoreFailure)
  setMstate av fun m => { m with sbrkedMem := (m.sbrkedMem + unitSize) % wordSize }
  check (chunk2mem fstBrk % 8 = 0)
  let unit ← unitInitState
    { unitTop := fstBrk, addr := fstBrk, length := unitSize, unitAv := av }
  setMstate av fun m => { m with ustateList := unit :: m.ustateList }
  modify fun s => { s with ustateList := unit :: s.ustateList }
  fencepost fstBrk
  setMstate av countSbrked
  let size ← chunksize fstBrk
  if nb + minSize ≤ size then do
    let remainder := chunkAtOffset fstBrk nb
    setUnitTop unit remainder
    setHead fstBrk (withInuse nb)
    setHead remainder (withInuse (size - nb))
    setFoot remainder (size - nb)
    protUpdate ops pid fstBrk size L
    pure (chunk2mem fstBrk)
  else pure 0

/-- `__malloc_alloc`. With fastbin chunks pending it consolidates them and calls
    `ablib_malloc` again, which is `retry` here. -/
def mallocAlloc (ops : KernelOps K) (retry : Nat → Nat → Label → HeapM K Nat)
    (pid nb av : Nat) (L : Label) : HeapM K Nat := do
  let m ← getMstate av
  if haveFastchunks m then do
    check (inSmallbinRange nb)
    mallocConsolidate av
    retry pid (nb - 7) L
  else do
    let mem ← mallocMmap ops pid nb av L
    match mem with
    | some mem => pure mem
    | none => mallocSbrk ops pid nb av L

/-! ### The public functions -/

/-- `use_unit_top`: the unit tops of the label, oldest unit first. -/
def mallocTop (av nb : Nat) : HeapM K (Option Nat) := do
  let m ← getMstate av
  useUnitTop nb m.ustateList.reverse

/-- The body of `ablib_malloc` from the size conversion up to the call of
    `__malloc_alloc`, which `none` stands for. -/
def mallocServe (av nb : Nat) (L : Label) : HeapM K (Option Nat) := do
  let m ← getMstate av
  if haveAnychunks m then do
    let found ← searchBins av nb
    match found with
    | some mem => pure (some mem)
    | none => mallocTop av nb
  else do
    -- bypass the search if there were no frees yet
    (if m.maxFast = 0 then do
      mallocConsolidate av
      setMstate av fun m => { m with label := L }
    else pure ())
    mallocTop av nb

/-- Take the lock, and make a `malloc_state` if the label is new. -/
def mallocEnter (av : Option Nat) : HeapM K Nat := do
  mallocLock
  match av with
  | some av => pure av
  | none => newMstate

/-- Serve a request from the units there are, or get a new one. -/
def mallocBody (ops : KernelOps K) (retry : Nat → Nat → Label → HeapM K Nat)
    (pid nb av : Nat) (L : Label) : HeapM K Nat := do
  let found ← mallocServe av nb L
  match found with
  | some mem => pure mem
  | none => mallocAlloc ops retry pid nb av L

/-- One call of `ablib_malloc`, with the recursive call as a parameter. The
    return hidden in `checked_request2size` leaves the lock taken. -/
def ablibMallocStep (ops : KernelOps K) (retry : Nat → Nat → Label → HeapM K Nat)
    (pid bytes : Nat) (L : Label) : HeapM K Nat := do
  let av ← lookupMstateByLabel L
  if bytes = 0 then pure 0
  else do
    let av ← mallocEnter av
    if requestOutOfRange bytes then pure 0
    else do
      let mem ← mallocBody ops retry pid (request2size bytes) av L
      mallocUnlock
      pure mem

def ablibMallocAux (ops : KernelOps K) : Nat → Nat → Nat → Label → HeapM K Nat
  | 0 => fun _ _ _ => throw .diverge
  | fuel + 1 => ablibMallocStep ops (ablibMallocAux ops fuel)

/-- `ablib_malloc`. Answers the address of the block, or 0 for `NULL`. -/
def ablibMalloc (ops : KernelOps K) : Nat → Nat → Label → HeapM K Nat :=
  ablibMallocAux ops 2

/-- How many words the unrolled loops of `calloc` and `realloc` touch. -/
def unrolled (n : Nat) : Nat := if 8 < n then 9 else if 6 < n then 7 else if 4 < n then 5 else 3

def clearWords (d : Nat) : List Nat → HeapM K Unit
  | [] => pure ()
  | i :: is => do
      store (d + 4 * i) 0
      clearWords d is

/-- Clear a block that is not mapped by itself. -/
def clearBlock (mem head : Nat) : HeapM K Unit := do
  let clearsize := (sizeOfHead head + (wordSize - 4)) % wordSize
  let nclears := clearsize / 4
  check (3 ≤ nclears)
  if 9 < nclears then bulk mem clearsize fun m => m.fill mem clearsize 0
  else clearWords mem (List.range (unrolled nclears))

def ablibCalloc (ops : KernelOps K) (pid nElements elemSize : Nat) (L : Label) : HeapM K Nat := do
  let size := nElements * elemSize % wordSize
  if nElements ≠ 0 ∧ elemSize ≠ size / nElements then pure 0
  else do
    let mem ← ablibMalloc ops pid size L
    if mem ≠ 0 then do
      let head ← headOf (mem2chunk mem)
      (if isMmapped head then pure () else clearBlock mem head)
      pure mem
    else pure mem

/-- The product is what was asked for, unless it is too large. -/
theorem calloc_size {n e : Nat} (h : ¬ (n ≠ 0 ∧ e ≠ n * e % wordSize / n)) :
    n * e % wordSize = n * e := by
  by_cases hn : n = 0
  · rw [hn, Nat.zero_mul, Nat.zero_mod]
  · have he : e = n * e % wordSize / n := by
      by_contra hne
      exact h ⟨hn, hne⟩
    have hle : n * e ≤ n * e % wordSize :=
      calc n * e = n * (n * e % wordSize / n) := by rw [← he]
        _ ≤ n * e % wordSize := Nat.mul_div_le ..
    exact le_antisymm (Nat.mod_le ..) hle

/-- The overflow check of `ablib_calloc` is exact. -/
theorem calloc_overflow_iff (n e : Nat) :
    (n ≠ 0 ∧ e ≠ n * e % wordSize / n) ↔ wordSize ≤ n * e := by
  constructor
  · rintro ⟨hn, hne⟩
    by_contra hlt
    rw [Nat.mod_eq_of_lt (Nat.lt_of_not_le hlt), Nat.mul_div_cancel_left e (Nat.pos_of_ne_zero hn)]
      at hne
    exact hne rfl
  · intro hle
    by_contra hcheck
    have hlt := Nat.mod_lt (n * e) (show 0 < wordSize by decide)
    rw [calloc_size hcheck] at hlt
    omega

end ArbiterThread
