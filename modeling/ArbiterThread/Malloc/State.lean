import ArbiterThread.Lib.Exec
import ArbiterThread.Lib.Bytes
import ArbiterThread.Label

/-!
# The State of the Arbiter

What the arbiter process keeps, and the smallest steps its allocator takes on
it: word accesses, the chunk macros, the lock, and the two list lookups.

The channel heap and the bin headers live in one byte memory, because the
allocator links them with raw pointers and a chunk's `fd` may be a header's
address. Everything else of a `malloc_state` is a record. The `linked_list`s
hold the identities of their data, head first.

Machine words are natural numbers. Every place where the code computes an
address or a size that can wrap says so with an explicit remainder, and every
other access is bounded by `mapped`, outside which a load or store ends the
process.

The kernel's `absys` calls are a parameter, `KernelOps`, acting on a kernel
state `K` that the arbiter carries around without looking at it. A later file
picks the kernel it needs.

## Main definitions

* `Fault`: The ways in which a call does not return.
* `Mstate`, `Ustate`, `ClientDesc`: The records of the arbiter.
* `KernelOps`: The four system calls the allocator makes.
* `State`, `State.start`: The state of the arbiter process, and where it begins.
* `generousKernel`: A kernel for concrete runs.
* `HeapM`: Programs over that state.
* `load`, `store`: Word access.
* `mallocLock`, `mallocUnlock`: The non-recursive lock.
* `request2size`, `mallocLargebinIndex`: Size arithmetic.

## Theorems

* `wp_load`, `wp_store`, `wp_check`, `wp_mallocLock`, `wp_mallocUnlock`: What the
  smallest steps need and do.
-/

namespace ArbiterThread

open Exec

/-! ### Constants -/

/-- The number of values of a 32-bit word. -/
def wordSize : Nat := 4294967296

/-- The smallest chunk. -/
def minSize : Nat := 16

/-- The size of a unit obtained from `ablib_sbrk`. -/
def unitSize : Nat := 40960

/-- The size of such a unit without its double fencepost. -/
def unitTopSize : Nat := 40944

def channelAddr : Nat := 0x80000000

def channelSize : Nat := 0x20000000

/-- Where the process's own `malloc` places the first `malloc_state`. -/
def privateBase : Nat := 0x08000000

/-- The distance between two of them, the size of the struct rounded up. -/
def mstateStride : Nat := 1024

/-- How many of them fit below the channel heap. -/
def mstateLimit : Nat := 1000000

def nBins : Nat := 96

def binmapSize : Nat := 3

/-- The value of `MORECORE_FAILURE`, and of a failed system call. -/
def morecoreFailure : Nat := 0xFFFFFFFF

/-- A number of turns no loop over distinct 32-bit addresses exceeds. -/
def loopFuel : Nat := 4294967296

/-! ### Records -/

/-- The ways in which a call does not return. -/
inductive Fault where
  /-- an access to an address that is not mapped, `NULL` included -/
  | segv
  /-- the consistency check of `unlink` -/
  | abort
  /-- a failed `assert` -/
  | assertion
  /-- the lock is taken by the thread that holds it -/
  | deadlock
  /-- the lock is released while it is free -/
  | badUnlock
  /-- a loop that goes on for ever -/
  | diverge
  /-- an index outside an array, about which C says nothing -/
  | undefined
  /-- the kernel kills the process in a system call -/
  | killed
deriving DecidableEq, Repr

/-- The part of a `malloc_state` that is not linked to by chunks. -/
structure Mstate where
  label : Label
  /-- the units cut into chunks for this label, head first -/
  ustateList : List Nat
  /-- the low two bits are flags -/
  maxFast : Nat
  fastbins : Nat → Nat
  lastRemainder : Nat
  binmap : Nat → Nat
  mmapThreshold : Nat
  nMmaps : Int
  nMmapsMax : Int
  maxNMmaps : Int
  pagesize : Nat
  mmappedMem : Nat
  sbrkedMem : Nat
  maxSbrkedMem : Nat
  maxMmappedMem : Nat
  maxTotalMem : Nat

/-- A `malloc_state` filled with zeros. -/
def Mstate.zero : Mstate where
  label := fun _ => 0
  ustateList := []
  maxFast := 0
  fastbins := fun _ => 0
  lastRemainder := 0
  binmap := fun _ => 0
  mmapThreshold := 0
  nMmaps := 0
  nMmapsMax := 0
  maxNMmaps := 0
  pagesize := 0
  mmappedMem := 0
  sbrkedMem := 0
  maxSbrkedMem := 0
  maxMmappedMem := 0
  maxTotalMem := 0

/-- A `unit_state`. -/
structure Ustate where
  unitTop : Nat
  addr : Nat
  length : Nat
  unitAv : Nat

/-- A client, as the arbiter knows it: the address its datagrams come from, its
    process id, and its label and ownership. -/
structure ClientDesc where
  unixAddr : List UInt8
  pid : Nat
  label : Label
  ownership : Own
deriving DecidableEq

/-- The system calls the allocator makes. `absysBrk` and `absysMmap` answer an
    address, `absysMprotect` a status; the answer of `absysMunmap` is not
    looked at.

    Each call looks up the task with the process id it is given and follows its
    pointers. If there is no such task, or one whose address space is gone, the
    caller dies in the kernel. This is `oops`. -/
structure KernelOps (K : Type) where
  absysBrk : K → Nat → Nat → Nat × K
  absysMmap : K → Nat → Nat → Nat → MemProt → Nat × K
  absysMunmap : K → Nat → Nat → Nat → K
  absysMprotect : K → Nat → Nat → Nat → MemProt → Int × K
  oops : K → Nat → Bool
  /-- a change of protection makes no task come or go -/
  oops_mprotect : ∀ k pid addr size prot,
    oops (absysMprotect k pid addr size prot).2 = oops k
  oops_brk : ∀ k pid addr, oops (absysBrk k pid addr).2 = oops k
  oops_mmap : ∀ k pid addr size prot, oops (absysMmap k pid addr size prot).2 = oops k

/-- The state of the arbiter process, and of the kernel below it. -/
structure State (K : Type) where
  mem : Mem
  /-- the words the process can access besides the allocator's own: its code,
      its stack, the libraries -/
  elsewhere : Nat → Bool
  /-- whether `__malloc_lock` is held -/
  locked : Bool
  /-- `__ab_curbrk` -/
  curbrk : Nat
  mstates : Nat → Mstate
  nextMstate : Nat
  mstateList : List Nat
  units : Nat → Ustate
  nextUnit : Nat
  ustateList : List Nat
  mmappedUstateList : List Nat
  kern : K
  clients : List ClientDesc
  catGen : Cat

/-- The arbiter before its first request: nothing allocated, and the clients and
    kernel state given. -/
def State.start {K : Type} (kern : K) (clients : List ClientDesc) : State K where
  mem := fun _ => 0
  elsewhere := fun _ => false
  locked := false
  curbrk := 0
  mstates := fun _ => Mstate.zero
  nextMstate := 0
  mstateList := []
  units := fun _ => { unitTop := 0, addr := 0, length := 0, unitAv := 0 }
  nextUnit := 0
  ustateList := []
  mmappedUstateList := []
  kern := kern
  clients := clients
  catGen := 0

/-- A kernel that keeps no state and grants every request. -/
def generousKernel : KernelOps Unit where
  absysBrk := fun k _ addr => (if addr = 0 then channelAddr else addr, k)
  absysMmap := fun k _ addr _ _ => (addr, k)
  absysMunmap := fun k _ _ _ => k
  absysMprotect := fun k _ _ _ _ => (0, k)
  oops := fun _ _ => false
  oops_mprotect := fun _ _ _ _ _ => rfl
  oops_brk := fun _ _ _ => rfl
  oops_mmap := fun _ _ _ _ _ => rfl

/-- Programs over the state of the arbiter. -/
abbrev HeapM (K : Type) := EStateM Fault (State K)

variable {K : Type}

/-! ### Memory access -/

/-- The word at `a` can be accessed: it is part of a `malloc_state`, of the
    channel heap, or of what else the process has mapped. -/
def mapped (s : State K) (a : Nat) : Prop :=
  a + 4 ≤ wordSize ∧
    ((privateBase ≤ a ∧ a + 4 ≤ privateBase + mstateStride * s.nextMstate) ∨
      (channelAddr ≤ a ∧ a + 4 ≤ channelAddr + channelSize) ∨ s.elsewhere a = true)

instance (s : State K) (a : Nat) : Decidable (mapped s a) :=
  inferInstanceAs (Decidable (_ ∧ _))

def load (a : Nat) : HeapM K Nat := do
  let s ← get
  if mapped s a then pure (s.mem.load32 a) else throw .segv

def store (a v : Nat) : HeapM K Unit := do
  let s ← get
  if mapped s a then set { s with mem := s.mem.store32 a v } else throw .segv

section

variable (Q : Nat → State K → Prop) (R : Unit → State K → Prop) (E : Fault → State K → Prop)
variable (s : State K)

theorem wp_load (a : Nat) :
    wp (load a) Q E s ↔ if mapped s a then Q (s.mem.load32 a) s else E .segv s := by
  simp only [load, wp_bind, wp_get, wp_ite, wp_pure, wp_throw]

theorem wp_store (a v : Nat) :
    wp (store a v) R E s ↔
      if mapped s a then R () { s with mem := s.mem.store32 a v } else E .segv s := by
  simp only [store, wp_bind, wp_get, wp_ite, wp_set, wp_throw]

/-- Reading a word, where a fault is no concern. -/
theorem wp_load_of {a : Nat} (h : mapped s a → Q (s.mem.load32 a) s) (hE : E .segv s) :
    wp (load a) Q E s := by
  rw [wp_load]
  by_cases ha : mapped s a
  · rw [if_pos ha]
    exact h ha
  · rw [if_neg ha]
    exact hE

/-- Writing a word, where a fault is no concern. -/
theorem wp_store_of {a v : Nat} (h : mapped s a → R () { s with mem := s.mem.store32 a v })
    (hE : E .segv s) : wp (store a v) R E s := by
  rw [wp_store]
  by_cases ha : mapped s a
  · rw [if_pos ha]
    exact h ha
  · rw [if_neg ha]
    exact hE

end

/-- `memset` or `memcpy` on a range, as one update of the memory. An empty
    range touches nothing. -/
def bulk (a n : Nat) (f : Mem → Mem) : HeapM K Unit := do
  let s ← get
  if n = 0 then pure ()
  else if channelAddr ≤ a ∧ a + n ≤ channelAddr + channelSize then set { s with mem := f s.mem }
  else throw .segv

/-- `assert`. -/
def check (c : Prop) [Decidable c] : HeapM K Unit :=
  if c then pure () else throw .assertion

/-- `AB_MSG`, which `_NO_DBG` turns into nothing. -/
def abMsg (_ : String) : HeapM K Unit :=
  pure ()

theorem wp_check (c : Prop) [Decidable c] (Q : Unit → State K → Prop)
    (E : Fault → State K → Prop) (s : State K) :
    wp (check c) Q E s ↔ if c then Q () s else E .assertion s := by
  simp only [check, wp_ite, wp_pure, wp_throw]

theorem wp_abMsg (t : String) (Q : Unit → State K → Prop) (E : Fault → State K → Prop)
    (s : State K) : wp (abMsg t) Q E s ↔ Q () s := by
  simp only [abMsg, wp_pure]

/-! ### System calls -/

/-- A system call about the process `pid`, from which the arbiter comes back. -/
def absys (ops : KernelOps K) (pid : Nat) (call : K → α × K) : HeapM K α := do
  let s ← get
  if ops.oops s.kern pid then throw .killed
  else do
    set { s with kern := (call s.kern).2 }
    pure (call s.kern).1

theorem wp_absys (ops : KernelOps K) (pid : Nat) (call : K → α × K) (Q : α → State K → Prop)
    (E : Fault → State K → Prop) (s : State K) :
    wp (absys ops pid call) Q E s ↔
      if ops.oops s.kern pid then E .killed s
      else Q (call s.kern).1 { s with kern := (call s.kern).2 } := by
  simp only [absys, wp_bind, wp_get, wp_ite, wp_throw, wp_set, wp_pure]

theorem wp_absys_of {ops : KernelOps K} {pid : Nat} {call : K → α × K} {Q : α → State K → Prop}
    {E : Fault → State K → Prop} {s : State K}
    (h : ops.oops s.kern pid = false → Q (call s.kern).1 { s with kern := (call s.kern).2 })
    (hE : ops.oops s.kern pid = true → E .killed s) : wp (absys ops pid call) Q E s := by
  rw [wp_absys]
  split
  · exact hE ‹_›
  · exact h (Bool.eq_false_of_not_eq_true ‹_›)

/-! ### The lock -/

/-- `__MALLOC_LOCK`. The mutex is not recursive, so taking it twice blocks. -/
def mallocLock : HeapM K Unit := do
  let s ← get
  if s.locked then throw .deadlock else set { s with locked := true }

/-- `__MALLOC_UNLOCK`. -/
def mallocUnlock : HeapM K Unit := do
  let s ← get
  if s.locked then set { s with locked := false } else throw .badUnlock

theorem wp_mallocLock (Q : Unit → State K → Prop) (E : Fault → State K → Prop) (s : State K) :
    wp mallocLock Q E s ↔ if s.locked then E .deadlock s else Q () { s with locked := true } := by
  simp only [mallocLock, wp_bind, wp_get, wp_ite, wp_throw, wp_set]

theorem wp_mallocUnlock (Q : Unit → State K → Prop) (E : Fault → State K → Prop) (s : State K) :
    wp mallocUnlock Q E s ↔
      if s.locked then Q () { s with locked := false } else E .badUnlock s := by
  simp only [mallocUnlock, wp_bind, wp_get, wp_ite, wp_throw, wp_set]

/-! ### Sizes and bins -/

def requestOutOfRange (req : Nat) : Prop := 0xFFFFFFE0 ≤ req

instance (req : Nat) : Decidable (requestOutOfRange req) :=
  inferInstanceAs (Decidable (_ ≤ _))

/-- Pad a request to a chunk size. -/
def request2size (req : Nat) : Nat :=
  if req + 11 < minSize then minSize else (req + 11) / 8 * 8

def inSmallbinRange (sz : Nat) : Prop := sz < 256

instance (sz : Nat) : Decidable (inSmallbinRange sz) := inferInstanceAs (Decidable (_ < _))

def smallbinIndex (sz : Nat) : Nat := sz / 8

/-- The bin of a large size. The bit position of the highest set bit comes from
    `bsrl`, which is `Nat.log2`. -/
def mallocLargebinIndex (sz : Nat) : Nat :=
  let x := sz / 256
  if 0x10000 ≤ x then nBins - 1
  else 32 + Nat.log2 x * 4 + sz / 2 ^ (Nat.log2 x + 6) % 4

def fastbinIndex (sz : Nat) : Nat := sz / 8 - 2

/-- The threshold from which on `free` tears down the fastbins. -/
def fastbinConsolidationThreshold : Nat := 20480

def idx2block (i : Nat) : Nat := i / 32

def idx2bit (i : Nat) : Nat := 1 <<< (i % 32)

def haveAnychunks (m : Mstate) : Prop := m.maxFast % 2 = 1

instance (m : Mstate) : Decidable (haveAnychunks m) := inferInstanceAs (Decidable (_ = _))

def haveFastchunks (m : Mstate) : Prop := m.maxFast / 2 % 2 = 1

instance (m : Mstate) : Decidable (haveFastchunks m) := inferInstanceAs (Decidable (_ = _))

def setAnychunks (m : Mstate) : Mstate := { m with maxFast := m.maxFast / 2 * 2 + 1 }

def setFastchunks (m : Mstate) : Mstate := { m with maxFast := m.maxFast / 4 * 4 + 3 }

def clearFastchunks (m : Mstate) : Mstate :=
  { m with maxFast := m.maxFast / 4 * 4 + m.maxFast % 2 }

/-- The header of bin `i`, an address inside the `malloc_state`. -/
def binAt (av i : Nat) : Nat := privateBase + mstateStride * av + 60 + 8 * i

def nextBin (b : Nat) : Nat := b + 8

def unsortedChunks (av : Nat) : Nat := binAt av 1

/-! ### Chunks -/

def chunk2mem (p : Nat) : Nat := (p + 8) % wordSize

def mem2chunk (mem : Nat) : Nat := (mem + (wordSize - 8)) % wordSize

def chunkAtOffset (p s : Nat) : Nat := (p + s) % wordSize

/-- `chunk_at_offset` with a negated offset. -/
def chunkBefore (p s : Nat) : Nat := (p + (wordSize - s)) % wordSize

/-- `PREV_INUSE` of a size field. -/
def prevInuse (head : Nat) : Prop := head % 2 = 1

instance (head : Nat) : Decidable (prevInuse head) := inferInstanceAs (Decidable (_ = _))

/-- `IS_MMAPPED` of a size field. -/
def isMmapped (head : Nat) : Prop := head / 2 % 2 = 1

instance (head : Nat) : Decidable (isMmapped head) := inferInstanceAs (Decidable (_ = _))

/-- A size field without its two flags. -/
def sizeOfHead (head : Nat) : Nat := head / 4 * 4

/-- A size or size field with `PREV_INUSE` set. -/
def withInuse (sz : Nat) : Nat := sz / 2 * 2 + 1

/-- A size with `IS_MMAPPED` set. -/
def withMmapped (sz : Nat) : Nat := sz / 4 * 4 + 2 + sz % 2

def prevSize (p : Nat) : HeapM K Nat := load p

def headOf (p : Nat) : HeapM K Nat := load (p + 4)

def fdOf (p : Nat) : HeapM K Nat := load (p + 8)

def bkOf (p : Nat) : HeapM K Nat := load (p + 12)

def setPrevSize (p v : Nat) : HeapM K Unit := store p v

def setHead (p v : Nat) : HeapM K Unit := store (p + 4) v

def setFd (p v : Nat) : HeapM K Unit := store (p + 8) v

def setBk (p v : Nat) : HeapM K Unit := store (p + 12) v

def chunksize (p : Nat) : HeapM K Nat := do
  let h ← headOf p
  pure (sizeOfHead h)

def setFoot (p s : Nat) : HeapM K Unit := setPrevSize (chunkAtOffset p s) s

/-- `set_head_size`: a new size, the use bit of the old one. -/
def setHeadSize (p s : Nat) : HeapM K Unit := do
  let h ← headOf p
  setHead p (if prevInuse h then withInuse s else s)

def inuseBitAtOffset (p s : Nat) : HeapM K Bool := do
  let h ← headOf (chunkAtOffset p s)
  pure (decide (prevInuse h))

def setInuseBitAtOffset (p s : Nat) : HeapM K Unit := do
  let h ← headOf (chunkAtOffset p s)
  setHead (chunkAtOffset p s) (withInuse h)

/-- Take a chunk off a bin list. -/
def unlink (p : Nat) : HeapM K Unit := do
  let fd ← fdOf p
  let bk ← bkOf p
  let fdbk ← bkOf fd
  let bkfd ← fdOf bk
  if fdbk ≠ p ∨ bkfd ≠ p then throw .abort
  else do
    setBk fd bk
    setFd bk fd

end ArbiterThread
