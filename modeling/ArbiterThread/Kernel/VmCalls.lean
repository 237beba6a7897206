import ArbiterThread.Kernel.Areas
import Mathlib.Logic.Function.Basic

/-!
# Arguments of the Arbiter's Calls

The arguments with which the arbiter maps, unmaps and protects memory in the tasks of
its group, and what the kernel looks at besides the areas: the limits and rights of the
caller, the personality of a task, and the ring that the tasks are in.

Three calls end in the same way. Pages that are to be locked, or that are to be there at
once, are faulted in before the call returns, but on behalf of the arbiter and not of
the task that they are mapped in. Where these pages can be accessed the kernel does not
survive this: it asserts that whoever faults in a controlled area is special.

A call about one task goes through all others as well. It begins behind the task in
the ring, comes around past the arbiter, which it skips, and ends in front of it.

## Main definitions

* `ProtFlag`, `MapFlag`, `MapType`: The arguments.
* `Limits`, `VmTask`, `VmGroup`: The caller, a task, and the group.
* `lockOrPopulate`: What is done with the pages of a new area.
* `VmGroup.others`: The tasks besides one, in the order in which they are served.

## Theorems

* `lockOrPopulate_reserved`, `lockOrPopulate_access`: Where it succeeds.
* `VmGroup.mem_others`: Every other task of the ring is served.
-/

namespace ArbiterThread

/-! ### Arguments -/

namespace ProtFlag

def read : BitVec 32 := 0x1#32
def write : BitVec 32 := 0x2#32
def exec : BitVec 32 := 0x4#32
def sem : BitVec 32 := 0x8#32
def growsDown : BitVec 32 := 0x01000000#32
def growsUp : BitVec 32 := 0x02000000#32

end ProtFlag

namespace MapFlag

def shared : BitVec 32 := 0x1#32
def priv : BitVec 32 := 0x2#32
def type : BitVec 32 := 0xf#32
def fixed : BitVec 32 := 0x10#32
def anonymous : BitVec 32 := 0x20#32
def growsDown : BitVec 32 := 0x100#32
def denyWrite : BitVec 32 := 0x800#32
def executable : BitVec 32 := 0x1000#32
def locked : BitVec 32 := 0x2000#32
def noReserve : BitVec 32 := 0x4000#32
def populate : BitVec 32 := 0x8000#32
def nonBlock : BitVec 32 := 0x10000#32
def hugeTlb : BitVec 32 := 0x40000#32

end MapFlag

/-- The types of mapping that are allowed without a file. -/
inductive MapType where
  | shared
  | priv
deriving DecidableEq

/-- `flags & MAP_TYPE` -/
def mapType (flags : BitVec 32) : Option MapType :=
  if flags &&& MapFlag.type = MapFlag.shared then some .shared
  else if flags &&& MapFlag.type = MapFlag.priv then some .priv
  else none

namespace MapType

def flags : MapType → BitVec 32
  | shared => VmFlag.shared ||| VmFlag.mayShare
  | priv => 0

def pgoff (addr : Nat) : MapType → Nat
  | shared => 0
  | priv => addr / 4096

end MapType

/-- The bits of a protection are those of the flags. -/
def calcVmProtBits (prot : BitVec 32) : BitVec 32 :=
  (prot &&& ProtFlag.read) ||| (prot &&& ProtFlag.write) ||| (prot &&& ProtFlag.exec)

/-- So are the four bits that are taken from the flags of the call. -/
def calcVmFlagBits (flags : BitVec 32) : BitVec 32 :=
  (flags &&& MapFlag.growsDown) ||| (flags &&& MapFlag.denyWrite) |||
    (flags &&& MapFlag.executable) ||| (flags &&& MapFlag.locked)

/-- What the kernel asks about the caller, which is the arbiter. -/
structure Limits where
  /-- the areas of the caller itself -/
  areas : List VmArea
  /-- `RLIMIT_AS`, in pages -/
  asLimit : Nat
  /-- `can_do_mlock` -/
  canDoMlock : Bool
  /-- `capable(CAP_IPC_LOCK)` -/
  capIpcLock : Bool
  /-- `RLIMIT_MEMLOCK`, in pages -/
  memlock : Nat
  /-- `READ_IMPLIES_EXEC` in the personality -/
  readImpliesExec : Bool
  /-- `sysctl_overcommit_memory == OVERCOMMIT_NEVER` -/
  overcommitNever : Bool
  /-- `sysctl_max_map_count` -/
  maxMapCount : Nat
  /-- the error of `security_file_mmap` for the protections, the flags and the address -/
  fileMmap : BitVec 32 → BitVec 32 → BitVec 32 → Nat → Nat
  fileMmap_lt : ∀ reqprot prot flags addr, fileMmap reqprot prot flags addr < 4096

structure VmTask where
  mm : MmStruct
  /-- `READ_IMPLIES_EXEC` in the personality of the task -/
  readImpliesExec : Bool
  /-- `RLIMIT_MEMLOCK` of the task, in pages -/
  memlock : Nat

/-- The protection asked for, as the personality of the task has it. -/
def VmTask.prot (t : VmTask) (prot : BitVec 32) : BitVec 32 :=
  if prot &&& ProtFlag.read ≠ 0 ∧ t.readImpliesExec then prot ||| ProtFlag.exec else prot

/-- The flags that `do_absys_mmap_pgoff` and `do_absys_vma_propagate` compute, before the type
    of mapping adds its own. -/
def channelFlags (t : VmTask) (prot flags : BitVec 32) : BitVec 32 :=
  calcVmProtBits (t.prot prot) ||| calcVmFlagBits flags ||| t.mm.defFlags ||| VmFlag.mayRead |||
    VmFlag.mayWrite ||| VmFlag.mayExec ||| VmFlag.abControl ||| VmFlag.shared

/-! ### Bits -/

/-- A flag is one bit. -/
theorem and_bit_ne_iff {b : BitVec 32} (f : BitVec 32) {i : Nat} (hi : i < 32)
    (hb : b = BitVec.twoPow 32 i) : f &&& b ≠ 0 ↔ f.getLsbD i = true := by
  rw [hb, BitVec.and_twoPow]
  cases f.getLsbD i with
  | false => simp
  | true =>
    rw [if_pos rfl]
    refine iff_of_true (fun hzero => ?_) rfl
    have hbit := congrArg (fun x => x.getLsbD i) hzero
    simp [hi] at hbit

theorem abControl_iff (f : BitVec 32) : AbControl f ↔ f.getLsbD 29 = true :=
  and_bit_ne_iff f (by decide) (by decide)

theorem and_canNonlinear_iff (f : BitVec 32) :
    f &&& VmFlag.canNonlinear = 0 ↔ f.getLsbD 27 = false := by
  have hbit := and_bit_ne_iff f (by decide)
    (show VmFlag.canNonlinear = BitVec.twoPow 32 27 by decide)
  rw [← Bool.not_eq_true, ← hbit, not_not]

theorem locked_iff (f : BitVec 32) : f &&& VmFlag.locked ≠ 0 ↔ f.getLsbD 13 = true :=
  and_bit_ne_iff f (by decide) (by decide)

theorem readWrite_iff (f : BitVec 32) :
    f &&& (VmFlag.read ||| VmFlag.write) ≠ 0 ↔ f.getLsbD 0 = true ∨ f.getLsbD 1 = true := by
  rw [← and_bit_ne_iff f (by decide) (show VmFlag.read = BitVec.twoPow 32 0 by decide),
    ← and_bit_ne_iff f (by decide) (show VmFlag.write = BitVec.twoPow 32 1 by decide),
    BitVec.and_or_distrib_left]
  simp only [BitVec.ofNat_eq_ofNat, ne_eq, BitVec.or_eq_zero_iff]
  tauto

theorem or_linear {f g : BitVec 32} (hf : f &&& VmFlag.canNonlinear = 0)
    (hg : g &&& VmFlag.canNonlinear = 0) : (f ||| g) &&& VmFlag.canNonlinear = 0 := by
  rw [and_canNonlinear_iff] at hf hg ⊢
  rw [BitVec.getLsbD_or, hf, hg]
  rfl

theorem MapType.flags_linear (type : MapType) : type.flags &&& VmFlag.canNonlinear = 0 := by
  cases type <;> decide

section Flags

variable (t : VmTask) (prot flags : BitVec 32)

/-- A bit of the flags: that of an argument, or one that is always set. -/
theorem channelFlags_getLsbD (i : Nat) :
    (channelFlags t prot flags).getLsbD i =
      ((calcVmProtBits (t.prot prot)).getLsbD i || (calcVmFlagBits flags).getLsbD i ||
        t.mm.defFlags.getLsbD i || (0x20000078#32).getLsbD i) := by
  have hrest : VmFlag.mayRead ||| VmFlag.mayWrite ||| VmFlag.mayExec ||| VmFlag.abControl |||
      VmFlag.shared = 0x20000078#32 := by decide
  unfold channelFlags
  simp only [BitVec.or_assoc] at hrest ⊢
  rw [hrest]
  simp only [BitVec.getLsbD_or, Bool.or_assoc]

theorem channelFlags_abControl : AbControl (channelFlags t prot flags) := by
  rw [abControl_iff, channelFlags_getLsbD]
  simp

theorem channelFlags_linear : channelFlags t prot flags &&& VmFlag.canNonlinear = 0 := by
  rw [and_canNonlinear_iff, channelFlags_getLsbD]
  have hdef : t.mm.defFlags.getLsbD 27 = false := by
    unfold MmStruct.defFlags
    cases t.mm.lockFuture <;> decide
  have hprot : (calcVmProtBits (t.prot prot)).getLsbD 27 = false := by
    simp [calcVmProtBits, ProtFlag.read, ProtFlag.write, ProtFlag.exec]
  have hflag : (calcVmFlagBits flags).getLsbD 27 = false := by
    simp [calcVmFlagBits, MapFlag.growsDown, MapFlag.denyWrite, MapFlag.executable, MapFlag.locked]
  rw [hprot, hflag, hdef]
  rfl

end Flags

/-! ### Limits -/

def mayExpandVm (lim : Limits) (m : MmStruct) (npages : Nat) : Prop :=
  m.totalVm + npages ≤ lim.asLimit

instance (lim : Limits) (m : MmStruct) (npages : Nat) : Decidable (mayExpandVm lim m npages) :=
  inferInstanceAs (Decidable (_ ≤ _))

/-- `MAP_NORESERVE` is honoured if overcommitting is allowed. -/
def regionFlags (lim : Limits) (flags vmFlags : BitVec 32) : BitVec 32 :=
  if flags &&& MapFlag.noReserve ≠ 0 ∧ lim.overcommitNever = false then
    vmFlags ||| VmFlag.noReserve
  else vmFlags

theorem regionFlags_linear (lim : Limits) (flags : BitVec 32) {f : BitVec 32}
    (hf : f &&& VmFlag.canNonlinear = 0) :
    regionFlags lim flags f &&& VmFlag.canNonlinear = 0 := by
  unfold regionFlags
  split_ifs
  · exact or_linear hf (by decide)
  · exact hf

/-- The error for pages that are to be locked, or `0`. -/
def mlockError (lim : Limits) (t : VmTask) (flags vmFlags : BitVec 32) (len : Nat) : Nat :=
  if flags &&& MapFlag.locked ≠ 0 ∧ lim.canDoMlock = false then Errno.perm
  else if vmFlags &&& VmFlag.locked ≠ 0 ∧ t.memlock < len / 4096 + t.mm.lockedVm ∧
      lim.capIpcLock = false then Errno.again
  else 0

/-! ### Locked pages -/

/-- `make_pages_present`, which looks for the range in the address space of the caller.
    `false` is an assertion that fails. -/
def makePagesPresent (own : List VmArea) (addr stop : Nat) : Bool :=
  match findVma own addr with
  | none => true
  | some v => decide (addr < stop ∧ stop ≤ v.stop)

/-- The pages are to be entered at once. -/
def Populates (flags : BitVec 32) : Prop :=
  flags &&& MapFlag.populate ≠ 0 ∧ flags &&& MapFlag.nonBlock = 0

instance (flags : BitVec 32) : Decidable (Populates flags) := inferInstanceAs (Decidable (_ ∧ _))

/-- The end of `absys_mmap_region`, `propagate_region` and `do_absys_brk`. If pages are to be
    locked that may be read or written, `mlock_vma_pages_range` faults them in on behalf of
    the caller, and `abmap_get_page` asserts that the caller is special. If they may be
    neither then there is an error, which is hidden. `none` is an assertion that fails. -/
def lockOrPopulate (lim : Limits) (m : MmStruct) (addr len : Nat) (flags vmFlags : BitVec 32) :
    Option MmStruct :=
  if vmFlags &&& VmFlag.locked ≠ 0 then
    if vmFlags &&& (VmFlag.read ||| VmFlag.write) ≠ 0 then none
    else some { m with lockedVm := m.lockedVm + len / 4096 }
  else if Populates flags ∧ makePagesPresent lim.areas addr (wordAdd addr len) = false then none
  else some m

/-- Areas that nobody reads or writes are locked without being faulted in. -/
theorem lockOrPopulate_reserved (lim : Limits) (m : MmStruct) (addr len : Nat)
    {flags vmFlags : BitVec 32} (hpop : ¬Populates flags)
    (h : ¬(vmFlags &&& VmFlag.locked ≠ 0 ∧ vmFlags &&& (VmFlag.read ||| VmFlag.write) ≠ 0)) :
    ∃ k, lockOrPopulate lim m addr len flags vmFlags = some { m with lockedVm := k } := by
  unfold lockOrPopulate
  by_cases hlocked : vmFlags &&& VmFlag.locked ≠ 0
  · rw [if_pos hlocked, if_neg fun hrw => h ⟨hlocked, hrw⟩]
    exact ⟨_, rfl⟩
  · rw [if_neg hlocked, if_neg (fun h => hpop h.1)]
    exact ⟨m.lockedVm, rfl⟩

/-- Areas with access must not be locked. -/
theorem lockOrPopulate_access (lim : Limits) (m : MmStruct) (addr len : Nat)
    {flags vmFlags : BitVec 32} (haccess : vmFlags &&& (VmFlag.read ||| VmFlag.write) ≠ 0)
    (hpop : ¬Populates flags) :
    lockOrPopulate lim m addr len flags vmFlags =
      if vmFlags &&& VmFlag.locked ≠ 0 then none else some m := by
  unfold lockOrPopulate
  by_cases hlocked : vmFlags &&& VmFlag.locked ≠ 0
  · rw [if_pos hlocked, if_pos haccess, if_pos hlocked]
  · rw [if_neg hlocked, if_neg (fun h => hpop h.1), if_neg hlocked]

/-! ### Groups -/

/-- The tasks of a control group besides the arbiter. -/
structure VmGroup where
  /-- in the order of the links, from the arbiter on -/
  ring : List Nat
  nodup : ring.Nodup
  task : Nat → VmTask

namespace VmGroup

variable (g : VmGroup)

/-- The areas of a task. -/
def areas (u : Nat) : List VmArea := (g.task u).mm.areas

def setMm (u : Nat) (m : MmStruct) : VmGroup :=
  { g with task := Function.update g.task u { g.task u with mm := m } }

@[simp] theorem setMm_task_self (u : Nat) (m : MmStruct) :
    (g.setMm u m).task u = { g.task u with mm := m } := Function.update_self ..

@[simp] theorem setMm_task_of_ne {u v : Nat} (h : v ≠ u) (m : MmStruct) :
    (g.setMm u m).task v = g.task v := Function.update_of_ne h ..

@[simp] theorem setMm_mm_self (u : Nat) : g.setMm u (g.task u).mm = g := by
  unfold setMm
  rw [show ({ g.task u with mm := (g.task u).mm } : VmTask) = g.task u from rfl,
    Function.update_eq_self]

/-- The tasks besides `t`, from the one behind it around the ring. -/
def others (t : Nat) : List Nat :=
  (g.ring.dropWhile fun u => decide (u ≠ t)).tail ++ g.ring.takeWhile fun u => decide (u ≠ t)

variable {g} {t : Nat}

/-- The ring around a task of it. -/
theorem others_split (ht : t ∈ g.ring) : ∃ p r, g.ring = p ++ t :: r ∧ g.others t = r ++ p := by
  obtain ⟨p, r, hring⟩ := List.append_of_mem ht
  have hnodup := g.nodup
  rw [hring, List.nodup_append] at hnodup
  have hp : ∀ u ∈ p, decide (u ≠ t) = true := fun u hu => by
    simpa using hnodup.2.2 u hu t (by simp)
  refine ⟨p, r, hring, ?_⟩
  unfold others
  rw [hring, List.dropWhile_append_of_pos hp, List.takeWhile_append_of_pos hp]
  simp

theorem mem_others (ht : t ∈ g.ring) {u : Nat} : u ∈ g.others t ↔ u ∈ g.ring ∧ u ≠ t := by
  obtain ⟨p, r, hring, hothers⟩ := others_split ht
  have hnodup := g.nodup
  rw [hring, List.nodup_append, List.nodup_cons] at hnodup
  obtain ⟨-, ⟨hr, -⟩, hp⟩ := hnodup
  rw [hothers, hring]
  simp only [List.mem_append, List.mem_cons]
  constructor
  · rintro (hu | hu)
    · exact ⟨.inr (.inr hu), fun h => hr (h ▸ hu)⟩
    · exact ⟨.inl hu, hp u hu t (by simp)⟩
  · rintro ⟨hu | hu | hu, hne⟩
    · exact .inr hu
    · exact absurd hu hne
    · exact .inl hu

theorem nodup_others (ht : t ∈ g.ring) : (g.others t).Nodup := by
  obtain ⟨p, r, hring, hothers⟩ := others_split ht
  have hnodup := g.nodup
  rw [hring, List.nodup_append, List.nodup_cons] at hnodup
  rw [hothers, List.nodup_append]
  exact ⟨hnodup.2.1.2, hnodup.1, fun u hu v hv h => hnodup.2.2 v hv u (by simp [hu]) h.symm⟩

end VmGroup

/-! ### Examples of groups -/

/-- A caller that is refused nothing, with 4 GiB of address space. -/
def roomyLimits : Limits where
  areas := []
  asLimit := 0x100000
  canDoMlock := true
  capIpcLock := false
  memlock := 16
  readImpliesExec := false
  overcommitNever := false
  maxMapCount := 65530
  fileMmap := fun _ _ _ _ => 0
  fileMmap_lt := fun _ _ _ _ => by decide

/-- A task with the areas given. -/
def taskOf (areas : List VmArea) : VmTask where
  mm := ⟨areas, (areas.map vmaPages).sum, 0, false⟩
  readImpliesExec := false
  memlock := 16

/-- Two tasks, with the areas given. -/
def pairOf (areas₁ areas₂ : List VmArea) : VmGroup where
  ring := [1, 2]
  nodup := by decide
  task := fun u => if u = 1 then taskOf areas₁ else taskOf areas₂

end ArbiterThread
