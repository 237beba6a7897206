import ArbiterThread.Lib.Spans
import Mathlib.Algebra.GroupWithZero.Nat
import Mathlib.Data.Option.Basic

/-!
# Areas of an Address Space

The list of areas (`vm_area_struct`) of a task as the kernel keeps it: in the order of
the addresses, with the flags and the file of each area, split where a call ends
inside of an area and merged where neighbours are alike.

A call works at a place in the list. `find_vma_prepare` yields the area before the
address and what follows it, and `vma_merge` works on the two sides of that place.
The pointers between the areas are the order of the list, so where the kernel keeps
a pointer to an area, here its value is kept. This includes areas that the kernel
has given back to its cache and reads afterwards, as `do_absys_vma_propagate` and
`sys_absys_munmap` do: what they read is the value from before.

New areas are anonymous and of the arbiter. Three functions end with the same steps,
an attempt to merge and otherwise a new area, and `mapArea` is these steps. What
`vma_merge` can do there is said once, in `mapArea_spliced`: one area covers the
range, together with the neighbours that it was merged with, and all of these have
its flags.

## Main definitions

* `VmFlag`, `VmInfo`, `VmArea`: The areas.
* `findVma`, `findVmaIntersection`, `findVmaPrepare`: Lookups.
* `vmaAdjust`, `vmaMerge`: Growing and merging of areas.
* `mapArea`: A range becomes part of the list.
* `splitVma`, `doMunmap`: Unmapping.
* `flagsAt`: The flags of the area an address is in.
* `AreasOk`: What is true of the areas of every task.

## Theorems

* `mapArea_spliced`: All that merging can do to a new area.
* `AreasOk.mapArea`: Mapping a range changes the range only.
* `doMunmap_spec`: Unmapping removes the range and nothing else.
-/

namespace ArbiterThread

open Span

/-! ### Words -/

/-- `PAGE_ALIGN`, in 32 bits. -/
def pageAlign (n : Nat) : Nat := (n + 4095) % 2 ^ 32 / 4096 * 4096

/-- `TASK_SIZE` -/
def taskSize : Nat := 0xc0000000

namespace Errno

def perm : Nat := 1
def again : Nat := 11
def noMem : Nat := 12
def access : Nat := 13
def inval : Nat := 22
def overflow : Nat := 75

end Errno

/-- The sum of two words. -/
def wordAdd (a b : Nat) : Nat := (a + b) % 2 ^ 32

/-- The difference of two words. -/
def wordSub (a b : Nat) : Nat := (a + (2 ^ 32 - b % 2 ^ 32)) % 2 ^ 32

theorem wordAdd_eq {a b : Nat} (h : a + b < 2 ^ 32) : wordAdd a b = a + b := Nat.mod_eq_of_lt h

/-- A negative error number in an unsigned word. -/
def errWord (e : Nat) : Nat := 2 ^ 32 - e

/-- `IS_ERR_VALUE` -/
def IsErrValue (w : Nat) : Prop := errWord 4095 ≤ w

instance (w : Nat) : Decidable (IsErrValue w) := inferInstanceAs (Decidable (_ ≤ _))

/-! ### Areas -/

namespace VmFlag

def read : BitVec 32 := 0x1#32
def write : BitVec 32 := 0x2#32
def exec : BitVec 32 := 0x4#32
def shared : BitVec 32 := 0x8#32
def mayRead : BitVec 32 := 0x10#32
def mayWrite : BitVec 32 := 0x20#32
def mayExec : BitVec 32 := 0x40#32
def mayShare : BitVec 32 := 0x80#32
def growsDown : BitVec 32 := 0x100#32
def growsUp : BitVec 32 := 0x200#32
def pfnMap : BitVec 32 := 0x400#32
def locked : BitVec 32 := 0x2000#32
def io : BitVec 32 := 0x4000#32
def dontExpand : BitVec 32 := 0x40000#32
def reserved : BitVec 32 := 0x80000#32
def account : BitVec 32 := 0x100000#32
def noReserve : BitVec 32 := 0x200000#32
def hugeTlb : BitVec 32 := 0x400000#32
def canNonlinear : BitVec 32 := 0x08000000#32

/-- `VM_AB_CONTROL`, which is the bit of `VM_SAO`. -/
def abControl : BitVec 32 := 0x20000000#32

/-- `VM_SPECIAL` -/
def special : BitVec 32 := io ||| dontExpand ||| reserved ||| pfnMap

/-- The bits that allow an access. -/
def access : BitVec 32 := read ||| write ||| exec

end VmFlag

/-- What is known about an area besides its ends. -/
structure VmInfo where
  flags : BitVec 32
  pgoff : Nat
  file : Option Nat
  anonVma : Option Nat
  /-- whether `vm_ops` has a `close` -/
  close : Bool
deriving DecidableEq

abbrev VmArea := Span VmInfo

/-- The area is one of the arbiter's. -/
def AbControl (flags : BitVec 32) : Prop := flags &&& VmFlag.abControl ≠ 0

instance (flags : BitVec 32) : Decidable (AbControl flags) := inferInstanceAs (Decidable (_ ≠ _))

/-- The flags of the area an address is in. -/
def flagsAt (l : List VmArea) (x : Nat) : Option (BitVec 32) := (get l x).map VmInfo.flags

/-- What is true of the areas of every task. `VM_CAN_NONLINEAR` comes from the file of an
    area. -/
structure AreasOk (l : List VmArea) : Prop where
  ordered : Ordered l
  aligned : ∀ v ∈ l, v.start % 4096 = 0 ∧ v.stop % 4096 = 0
  bounded : ∀ v ∈ l, v.stop ≤ taskSize
  linear : ∀ v ∈ l, v.val.file = none → v.val.flags &&& VmFlag.canNonlinear = 0

instance (l : List VmArea) : Decidable (AreasOk l) :=
  decidable_of_iff (Ordered l ∧ (∀ v ∈ l, v.start % 4096 = 0 ∧ v.stop % 4096 = 0) ∧
      (∀ v ∈ l, v.stop ≤ taskSize) ∧
      ∀ v ∈ l, v.val.file = none → v.val.flags &&& VmFlag.canNonlinear = 0)
    ⟨fun h => ⟨h.1, h.2.1, h.2.2.1, h.2.2.2⟩, fun h => ⟨h.1, h.2, h.3, h.4⟩⟩

/-! ### Lookups -/

/-- The first area that ends behind the address. -/
def findVma (l : List VmArea) (addr : Nat) : Option VmArea := (above l addr).head?

/-- The first area that ends behind `start`, if it begins before `stop`. -/
def findVmaIntersection (l : List VmArea) (start stop : Nat) : Option VmArea :=
  meeting l start stop

/-- A place in the list: the area before it, and the areas on both sides. -/
structure Place where
  before : List VmArea
  prev : Option VmArea
  after : List VmArea

/-- An area in the list. -/
structure Focus where
  before : List VmArea
  area : VmArea
  after : List VmArea

def Focus.areas (f : Focus) : List VmArea := f.before ++ f.area :: f.after

/-- The loop that `do_absys_vma_propagate` and `sys_absys_munmap` have in common: go through
    the areas that have an address between `addrTmp` and `stop`. The result is the address
    where the loop stopped; `none` if the body failed. -/
def walkAreas {σ : Type} (areas : σ → List VmArea) (body : Nat → VmArea → σ → Option σ)
    (stop addrTmp : Nat) (s : σ) : Option (Nat × σ) :=
  match _h : findVmaIntersection (areas s) addrTmp stop with
  | none => some (addrTmp, s)
  | some v =>
    match body addrTmp v s with
    | none => none
    | some s' => if stop ≤ v.stop then some (v.stop, s') else walkAreas areas body stop v.stop s'
termination_by stop - addrTmp
decreasing_by
  have := lt_stop_of_meeting _h
  omega

/-- `find_vma_prepare` and `find_vma_prev` -/
def findVmaPrepare (l : List VmArea) (addr : Nat) : Place where
  before := (below l addr).dropLast
  prev := (below l addr).getLast?
  after := above l addr

/-- What the body keeps holds when the loop stops, and the loop stops at the end or in front
    of a gap. -/
theorem walkAreas_invariant {σ : Type} (areas : σ → List VmArea)
    (body : Nat → VmArea → σ → Option σ) {stop : Nat} (P : Nat → σ → Prop)
    (hstep : ∀ a s v, a < stop → P a s → findVmaIntersection (areas s) a stop = some v →
      ∃ s', body a v s = some s' ∧ P v.stop s') (a : Nat) (s : σ) (ha : a < stop) (h : P a s) :
    ∃ a' s', walkAreas areas body stop a s = some (a', s') ∧ P a' s' ∧
      (stop ≤ a' ∨ findVmaIntersection (areas s') a' stop = none) := by
  induction hn : stop - a using Nat.strong_induction_on generalizing a s with
  | _ n ih =>
  rw [walkAreas]
  split
  · next hnone => exact ⟨a, s, rfl, h, .inr hnone⟩
  · next v hv =>
    obtain ⟨s', hbody, hP⟩ := hstep a s v ha h hv
    simp only [hbody]
    by_cases hend : stop ≤ v.stop
    · exact ⟨v.stop, s', by rw [if_pos hend], hP, .inl hend⟩
    · have hlt := lt_stop_of_meeting hv
      rw [if_neg hend]
      exact ih (stop - v.stop) (by omega) v.stop s' (by omega) hP rfl

theorem walkAreas_of_none {σ : Type} {areas : σ → List VmArea}
    {body : Nat → VmArea → σ → Option σ} {stop a : Nat} {s : σ}
    (h : findVmaIntersection (areas s) a stop = none) :
    walkAreas areas body stop a s = some (a, s) := by
  rw [walkAreas]
  split
  · rfl
  · next hv => rw [h] at hv; exact absurd hv (by simp)

/-! ### Merging -/

def resizeArea (v : VmArea) (start stop pgoff : Nat) : VmArea :=
  ⟨start, stop, { v.val with pgoff := pgoff % 2 ^ 32 }⟩

/-- An area that grows takes the `anon_vma` of the other if it has none. -/
def importAnon (v next : VmArea) : VmArea :=
  { v with val := { v.val with anonVma := v.val.anonVma.or next.val.anonVma } }

/-- `vma_adjust` of an area with the areas behind it, if no area is to be inserted. An end
    behind the next area removes this one and the one that follows it; `vma_merge` only
    asks for that if there is one. -/
def vmaAdjust (v : VmArea) (rest : List VmArea) (start stop pgoff : Nat) : VmArea × List VmArea :=
  match rest with
  | [] => (resizeArea v start stop pgoff, [])
  | next :: rest =>
    if next.stop ≤ stop then
      match decide (next.stop < stop), rest with
      | true, last :: rest =>
        (resizeArea (importAnon (importAnon v next) last) start last.stop pgoff, rest)
      | _, rest => (resizeArea (importAnon v next) start next.stop pgoff, rest)
    else if next.start < stop then
      let shift := (stop - next.start) / 4096
      (resizeArea (importAnon v next) start stop pgoff,
        resizeArea next (next.start + shift * 4096) next.stop (next.val.pgoff + shift) :: rest)
    else if stop < v.stop then
      let shift := (v.stop - stop) / 4096
      (resizeArea v start stop pgoff,
        resizeArea (importAnon next v) (next.start - shift * 4096) next.stop
          (wordSub next.val.pgoff shift) :: rest)
    else (resizeArea v start stop pgoff, next :: rest)

def IsMergeableVma (v : VmArea) (file : Option Nat) (flags : BitVec 32) : Prop :=
  (v.val.flags ^^^ flags) &&& ~~~VmFlag.canNonlinear = 0 ∧ v.val.file = file ∧
    v.val.close = false

instance (v : VmArea) (file : Option Nat) (flags : BitVec 32) :
    Decidable (IsMergeableVma v file flags) := inferInstanceAs (Decidable (_ ∧ _))

def IsMergeableAnonVma (anon₁ anon₂ : Option Nat) : Prop :=
  anon₁ = none ∨ anon₂ = none ∨ anon₁ = anon₂

instance (anon₁ anon₂ : Option Nat) : Decidable (IsMergeableAnonVma anon₁ anon₂) :=
  inferInstanceAs (Decidable (_ ∨ _))

def CanVmaMergeBefore (v : VmArea) (flags : BitVec 32) (anon file : Option Nat) (pgoff : Nat) :
    Prop :=
  IsMergeableVma v file flags ∧ IsMergeableAnonVma anon v.val.anonVma ∧
    v.val.pgoff = pgoff % 2 ^ 32

instance (v : VmArea) (flags : BitVec 32) (anon file : Option Nat) (pgoff : Nat) :
    Decidable (CanVmaMergeBefore v flags anon file pgoff) := inferInstanceAs (Decidable (_ ∧ _))

def CanVmaMergeAfter (v : VmArea) (flags : BitVec 32) (anon file : Option Nat) (pgoff : Nat) :
    Prop :=
  IsMergeableVma v file flags ∧ IsMergeableAnonVma anon v.val.anonVma ∧
    (v.val.pgoff + (v.stop - v.start) / 4096) % 2 ^ 32 = pgoff % 2 ^ 32

instance (v : VmArea) (flags : BitVec 32) (anon file : Option Nat) (pgoff : Nat) :
    Decidable (CanVmaMergeAfter v flags anon file pgoff) := inferInstanceAs (Decidable (_ ∧ _))

/-- The area that a range up to `stop` can be merged with. A range that reaches the end of
    an area is this area, and what counts is the one after it. -/
def nextFor (after : List VmArea) (stop : Nat) : Option VmArea :=
  match after with
  | [] => none
  | area :: rest => if area.stop = stop then rest.head? else some area

/-- Cases 1, 2, 5, 6 and 7 of `vma_merge`: the area before grows. -/
def extendPrev (p : Place) (prev : VmArea) (stop : Nat) : Focus :=
  let adjusted := vmaAdjust prev p.after prev.start stop prev.val.pgoff
  ⟨p.before, adjusted.1, adjusted.2⟩

/-- Cases 3, 4 and 8 of `vma_merge`: the area behind grows. In case 4 the range is the end of
    the area before. -/
def extendFront (p : Place) (next : VmArea) (addr pglen : Nat) : Option Focus :=
  match p.prev.filter fun v => decide (addr < v.stop), p.after with
  | some prev, after =>
    let adjusted := vmaAdjust prev after prev.start addr prev.val.pgoff
    match adjusted.2 with
    | [] => none
    | area :: rest => some ⟨p.before ++ [adjusted.1], area, rest⟩
  | none, area :: rest =>
    let adjusted := vmaAdjust area rest addr next.stop (wordSub next.val.pgoff pglen)
    some ⟨p.before ++ p.prev.toList, adjusted.1, adjusted.2⟩
  | none, [] => none

/-- Merge a range with the areas before and behind it. The result is the area that covers it
    then. -/
def vmaMerge (p : Place) (addr stop : Nat) (flags : BitVec 32) (anon file : Option Nat)
    (pgoff : Nat) : Option Focus :=
  if flags &&& VmFlag.special ≠ 0 then none
  else
    let pglen := (stop - addr) / 4096
    let front := (nextFor p.after stop).filter fun n =>
      decide (stop = n.start ∧ CanVmaMergeBefore n flags anon file (pgoff + pglen))
    let back := p.prev.filter fun v =>
      decide (v.stop = addr ∧ CanVmaMergeAfter v flags anon file pgoff)
    match back, front with
    | some v, some n =>
      some (extendPrev p v
        (if IsMergeableAnonVma v.val.anonVma n.val.anonVma then n.stop else stop))
    | some v, none => some (extendPrev p v stop)
    | none, some n => extendFront p n addr pglen
    | none, none => none

/-- A new anonymous area of the arbiter. `ab_vm_ops` has no `close`. -/
def anonArea (addr stop : Nat) (flags : BitVec 32) (pgoff : Nat) : VmArea :=
  ⟨addr, stop, ⟨flags, pgoff, none, none, false⟩⟩

/-- The end of `absys_mmap_region`, `propagate_region` and `do_absys_brk`: expand an old
    mapping, or link a new area. -/
def mapArea (l : List VmArea) (addr stop : Nat) (flags : BitVec 32) (pgoff : Nat) : List VmArea :=
  let p := findVmaPrepare l addr
  match vmaMerge p addr stop flags none none pgoff with
  | some f => f.areas
  | none => p.before ++ p.prev.toList ++ anonArea addr stop flags pgoff :: p.after

/-! ### Unmapping -/

/-- What a call reads and changes of an `mm_struct`. `total_vm` and `locked_vm` are in pages. -/
structure MmStruct where
  areas : List VmArea
  totalVm : Nat
  lockedVm : Nat
  /-- whether `mlockall` was called with `MCL_FUTURE` -/
  lockFuture : Bool
deriving DecidableEq

/-- `def_flags` -/
def MmStruct.defFlags (m : MmStruct) : BitVec 32 := if m.lockFuture then VmFlag.locked else 0

/-- `vma_pages` -/
def vmaPages (v : VmArea) : Nat := (v.stop - v.start) / 4096

/-- `split_vma` if the address is inside of an area. -/
def splitVma (maxMapCount : Nat) (l : List VmArea) (addr : Nat) : Option (List VmArea) :=
  match above l addr with
  | [] => some l
  | v :: rest =>
    if addr ≤ v.start then some l
    else if maxMapCount ≤ l.length then none
    else some (below l addr ++ { v with stop := addr } ::
      resizeArea v addr v.stop (v.val.pgoff + (addr - v.start) / 4096) :: rest)

/-- The area is locked into memory. -/
def IsLocked (v : VmArea) : Prop := v.val.flags &&& VmFlag.locked ≠ 0

instance (v : VmArea) : Decidable (IsLocked v) := inferInstanceAs (Decidable (_ ≠ _))

/-- The end of `do_munmap`: the areas between the two splits go away, and those of them that
    are locked count no longer. -/
def detach (m : MmStruct) (start stop : Nat) : MmStruct :=
  let inside := fun v : VmArea => decide (v.start < stop)
  let gone := (above m.areas start).takeWhile inside
  { m with
    areas := below m.areas start ++ (above m.areas start).dropWhile inside
    totalVm := m.totalVm - (gone.map vmaPages).sum
    lockedVm := m.lockedVm - ((gone.filter (IsLocked ·)).map vmaPages).sum }

/-- The result is an error number, or `0`. -/
def doMunmap (maxMapCount : Nat) (m : MmStruct) (start len : Nat) : Nat × MmStruct :=
  if start % 4096 ≠ 0 ∨ taskSize < start ∨ taskSize - start < len then (Errno.inval, m)
  else if pageAlign len = 0 then (Errno.inval, m)
  else
    let stop := start + pageAlign len
    match findVmaIntersection m.areas start stop with
    | none => (0, m)
    | some _ =>
      match splitVma maxMapCount m.areas start with
      | none => (Errno.noMem, m)
      | some lower =>
        match splitVma maxMapCount lower stop with
        | none => (Errno.noMem, { m with areas := lower })
        | some both => (0, detach { m with areas := both } start stop)

/-- The loop at `munmap_back` in `absys_mmap_region` and `do_absys_brk`, which is done after
    one turn. -/
def clearOldMaps (maxMapCount : Nat) (m : MmStruct) (addr len : Nat) : Nat × MmStruct :=
  match findVmaIntersection m.areas addr (wordAdd addr len) with
  | none => (0, m)
  | some _ => doMunmap maxMapCount m addr len

/-! ### What merging can do -/

/-- Areas that can be merged agree on every bit but `VM_CAN_NONLINEAR`. -/
theorem IsMergeableVma.getLsbD_eq {v : VmArea} {file : Option Nat} {flags : BitVec 32}
    (h : IsMergeableVma v file flags) {i : Nat} (hi : i < 32)
    (hc : VmFlag.canNonlinear.getLsbD i = false) : v.val.flags.getLsbD i = flags.getLsbD i := by
  have hbit := congrArg (fun b => b.getLsbD i) h.1
  simp only [BitVec.getLsbD_and, BitVec.getLsbD_xor, BitVec.getLsbD_not, hc, hi,
    BitVec.ofNat_eq_ofNat, BitVec.getLsbD_zero, decide_true, Bool.not_false, Bool.and_true] at hbit
  simpa using hbit

theorem IsMergeableVma.and_eq {v : VmArea} {file : Option Nat} {flags : BitVec 32}
    (h : IsMergeableVma v file flags) {m : BitVec 32} (hm : m &&& VmFlag.canNonlinear = 0) :
    v.val.flags &&& m = flags &&& m := by
  apply BitVec.eq_of_getLsbD_eq
  intro i hi
  have hmask := congrArg (fun b => b.getLsbD i) hm
  simp only [BitVec.getLsbD_and, BitVec.ofNat_eq_ofNat, BitVec.getLsbD_zero,
    Bool.and_eq_false_iff] at hmask
  rw [BitVec.getLsbD_and, BitVec.getLsbD_and]
  rcases hmask with hmask | hmask
  · simp only [hmask, Bool.and_false]
  · rw [h.getLsbD_eq hi hmask]

theorem IsMergeableVma.flags_eq {v : VmArea} {file : Option Nat} {flags : BitVec 32}
    (h : IsMergeableVma v file flags) (hv : v.val.flags &&& VmFlag.canNonlinear = 0)
    (hflags : flags &&& VmFlag.canNonlinear = 0) : v.val.flags = flags := by
  apply BitVec.eq_of_getLsbD_eq
  intro i hi
  have hv' := congrArg (fun b => b.getLsbD i) hv
  have hflags' := congrArg (fun b => b.getLsbD i) hflags
  simp only [BitVec.getLsbD_and, BitVec.ofNat_eq_ofNat, BitVec.getLsbD_zero,
    Bool.and_eq_false_iff] at hv' hflags'
  rcases hc : VmFlag.canNonlinear.getLsbD i with _ | _
  · exact h.getLsbD_eq hi hc
  · rw [hv'.resolve_right (by simp [hc]), hflags'.resolve_right (by simp [hc])]

/-- An area that grows up to the next one leaves it alone. -/
theorem vmaAdjust_of_le {v : VmArea} {rest : List VmArea} {start stop : Nat} (pgoff : Nat)
    (hstop : v.stop ≤ stop) (hrest : Ordered rest) (hbehind : ∀ w ∈ rest, stop ≤ w.start) :
    vmaAdjust v rest start stop pgoff = (resizeArea v start stop pgoff, rest) := by
  unfold vmaAdjust
  rcases rest with _ | ⟨next, rest⟩
  · rfl
  · have hpos := hrest.pos next (by simp)
    have hnext := hbehind next (by simp)
    simp only [if_neg (show ¬next.stop ≤ stop by omega), if_neg (show ¬next.start < stop by omega),
      if_neg (show ¬stop < v.stop by omega)]

/-- An area that grows to the end of the next one takes its place. -/
theorem vmaAdjust_next (v next : VmArea) (rest : List VmArea) (start pgoff : Nat) :
    vmaAdjust v (next :: rest) start next.stop pgoff =
      (resizeArea (importAnon v next) start next.stop pgoff, rest) := by
  simp [vmaAdjust]

/-- The place is at a gap from `addr` to `stop`. -/
structure Place.Gap (p : Place) (addr stop : Nat) : Prop where
  ordered : Ordered (p.before ++ p.prev.toList ++ p.after)
  left : ∀ v ∈ p.before ++ p.prev.toList, v.stop ≤ addr
  right : ∀ w ∈ p.after, stop ≤ w.start
  pos : addr < stop

theorem findVmaPrepare_left (l : List VmArea) (addr : Nat) :
    (findVmaPrepare l addr).before ++ (findVmaPrepare l addr).prev.toList = below l addr := by
  unfold findVmaPrepare
  rcases List.eq_nil_or_concat (below l addr) with h | ⟨b, v, h⟩
  · simp [h]
  · simp [h]

theorem findVmaPrepare_areas (l : List VmArea) (addr : Nat) :
    (findVmaPrepare l addr).before ++ (findVmaPrepare l addr).prev.toList ++
      (findVmaPrepare l addr).after = l := by
  rw [findVmaPrepare_left]
  exact below_append_above l addr

theorem findVmaPrepare_gap {l : List VmArea} {addr stop : Nat} (hl : Ordered l)
    (hpos : addr < stop) (hfree : ∀ x, addr ≤ x → x < stop → get l x = none) :
    (findVmaPrepare l addr).Gap addr stop where
  ordered := by rwa [findVmaPrepare_areas]
  left := by
    rw [findVmaPrepare_left]
    exact fun v hv => stop_le_of_mem_below hv
  right := by
    intro w hw
    have hmem : w ∈ l := mem_of_mem_above hw
    have hstop := lt_stop_of_mem_above hl hw
    have hw' := hl.pos w hmem
    by_contra hlt
    have hnone := hfree (max addr w.start) (by omega) (by omega)
    rw [hl.get_of_mem hmem (by unfold Span.Has; omega)] at hnone
    exact absurd hnone (by simp)
  pos := hpos

/-- A new range in the list `b ++ m ++ r`: the area `u` covers it, together with the
    neighbours `m` that it was merged with. -/
structure Spliced (b m r : List VmArea) (u : VmArea) (addr stop : Nat) (flags : BitVec 32) :
    Prop where
  like : ∀ v ∈ m, IsMergeableVma v none flags
  has : ∀ x, u.Has x ↔ (addr ≤ x ∧ x < stop) ∨ ∃ v ∈ m, v.Has x
  kind : (u.val.flags = flags ∨ ∃ v ∈ m, u.val.flags = v.val.flags) ∧ u.val.file = none
  left : ∀ v ∈ b, v.stop ≤ u.start
  right : ∀ w ∈ r, u.stop ≤ w.start
  start : u.start = addr ∨ ∃ v ∈ m, u.start = v.start
  stop : u.stop = stop ∨ ∃ v ∈ m, u.stop = v.stop

namespace Place.Gap

variable {p : Place} {addr stop : Nat} {flags : BitVec 32} {v n : VmArea} {r : List VmArea}

theorem nextFor_eq (h : p.Gap addr stop) : nextFor p.after stop = p.after.head? := by
  unfold nextFor
  rcases hafter : p.after with _ | ⟨n, r⟩
  · rfl
  · have hstart := h.right n (by simp [hafter])
    have hpos := h.ordered.pos n (by simp [hafter])
    exact if_neg (by omega)

theorem after (h : p.Gap addr stop) : Ordered p.after := (Ordered.append_iff.mp h.ordered).2.1

/-- Nothing is merged. -/
theorem anonArea (h : p.Gap addr stop) (flags : BitVec 32) (pgoff : Nat) :
    Spliced (p.before ++ p.prev.toList) [] p.after (anonArea addr stop flags pgoff) addr stop
      flags where
  like := by simp
  has := fun x => by simp [Span.Has, ArbiterThread.anonArea]
  kind := ⟨.inl rfl, rfl⟩
  left := h.left
  right := h.right
  start := .inl rfl
  stop := .inl rfl

/-- The area before grows. -/
theorem extendPrev (h : p.Gap addr stop) (hv : p.prev = some v) (hstop : v.stop = addr)
    (hlike : IsMergeableVma v none flags) :
    ∃ u, extendPrev p v stop = ⟨p.before, u, p.after⟩ ∧
      Spliced p.before [v] p.after u addr stop flags := by
  have hlt := h.pos
  have hpos := h.ordered.pos v (by simp [hv])
  refine ⟨resizeArea v v.start stop v.val.pgoff, ?_, ?_⟩
  · unfold ArbiterThread.extendPrev
    rw [vmaAdjust_of_le _ (by omega) h.after h.right]
  · have hleft := h.ordered
    rw [hv, Option.toList_some, Ordered.append_iff, Ordered.append_iff] at hleft
    refine ⟨by simpa using hlike, fun x => ?_, ⟨.inr ⟨v, by simp, rfl⟩, hlike.2.1⟩,
      fun w hw => hleft.1.2.2 w hw v (by simp), h.right, .inr ⟨v, by simp, rfl⟩, .inl rfl⟩
    simp only [Span.Has, resizeArea, List.mem_singleton, exists_eq_left]
    omega

/-- The area before grows over the range and the area behind. -/
theorem extendBoth (h : p.Gap addr stop) (hv : p.prev = some v) (hstop : v.stop = addr)
    (hlike : IsMergeableVma v none flags) (hafter : p.after = n :: r) (hstart : n.start = stop)
    (hlike' : IsMergeableVma n none flags) :
    ∃ u, ArbiterThread.extendPrev p v n.stop = ⟨p.before, u, r⟩ ∧
      Spliced p.before [v, n] r u addr stop flags := by
  have hlt := h.pos
  have hpos := h.ordered.pos v (by simp [hv])
  have hpos' := h.ordered.pos n (by simp [hafter])
  refine ⟨resizeArea (importAnon v n) v.start n.stop v.val.pgoff, ?_, ?_⟩
  · unfold ArbiterThread.extendPrev
    rw [hafter, vmaAdjust_next]
  · have hleft := h.ordered
    rw [hv, Option.toList_some, Ordered.append_iff, Ordered.append_iff] at hleft
    have hbehind := h.after
    rw [hafter, Ordered.cons_iff] at hbehind
    refine ⟨?_, fun x => ?_, ⟨.inr ⟨v, by simp, rfl⟩, hlike.2.1⟩,
      fun w hw => hleft.1.2.2 w hw v (by simp), hbehind.2.1, .inr ⟨v, by simp, rfl⟩,
      .inr ⟨n, by simp, rfl⟩⟩
    · simpa using ⟨hlike, hlike'⟩
    · simp only [Span.Has, resizeArea, List.mem_cons, List.not_mem_nil, or_false, exists_eq_or_imp,
        exists_eq_left]
      omega

/-- The area behind grows. -/
theorem extendFront (h : p.Gap addr stop) (hafter : p.after = n :: r) (hstart : n.start = stop)
    (hlike : IsMergeableVma n none flags) (pglen : Nat) :
    ∃ u, extendFront p n addr pglen = some ⟨p.before ++ p.prev.toList, u, r⟩ ∧
      Spliced (p.before ++ p.prev.toList) [n] r u addr stop flags := by
  have hlt := h.pos
  have hpos := h.ordered.pos n (by simp [hafter])
  have hbehind := h.after
  rw [hafter, Ordered.cons_iff] at hbehind
  have hprev : (p.prev.filter fun v => decide (addr < v.stop)) = none := by
    rw [Option.filter_eq_none_iff]
    intro v hv
    have := h.left v (by simp [hv])
    simpa using this
  refine ⟨resizeArea n addr n.stop (wordSub n.val.pgoff pglen), ?_, ?_⟩
  · unfold ArbiterThread.extendFront
    rw [hprev, hafter]
    simp only [vmaAdjust_of_le _ (Nat.le_refl n.stop) hbehind.2.2 hbehind.2.1]
  · refine ⟨by simpa using hlike, fun x => ?_, ⟨.inr ⟨n, by simp, rfl⟩, hlike.2.1⟩, h.left,
      hbehind.2.1, .inl rfl, .inr ⟨n, by simp, rfl⟩⟩
    simp only [Span.Has, resizeArea, List.mem_singleton, exists_eq_left]
    omega

end Place.Gap

/-- All that merging can do to a new area. -/
theorem mapArea_spliced {l : List VmArea} {addr stop : Nat} (hl : Ordered l) (hpos : addr < stop)
    (hfree : ∀ x, addr ≤ x → x < stop → get l x = none) (flags : BitVec 32) (pgoff : Nat) :
    ∃ b m r u, l = b ++ m ++ r ∧ mapArea l addr stop flags pgoff = b ++ u :: r ∧
      Spliced b m r u addr stop flags := by
  have hgap := findVmaPrepare_gap hl hpos hfree
  have hareas := (findVmaPrepare_areas l addr).symm
  unfold mapArea
  generalize findVmaPrepare l addr = p at hgap hareas
  -- Nothing merges.
  have hnew : ∃ b m r u, l = b ++ m ++ r ∧
      p.before ++ p.prev.toList ++ anonArea addr stop flags pgoff :: p.after = b ++ u :: r ∧
      Spliced b m r u addr stop flags :=
    ⟨_, [], _, _, by simpa using hareas, rfl, hgap.anonArea flags pgoff⟩
  -- The area before grows over the range.
  have hprev : ∀ v, p.prev = some v → v.stop = addr → IsMergeableVma v none flags →
      ∃ b m r u, l = b ++ m ++ r ∧ (extendPrev p v stop).areas = b ++ u :: r ∧
        Spliced b m r u addr stop flags := by
    intro v hv hstop hlike
    obtain ⟨u, hu, hspliced⟩ := hgap.extendPrev hv hstop hlike
    exact ⟨_, [v], _, u, by rw [hareas, hv, Option.toList_some], by rw [hu, Focus.areas], hspliced⟩
  simp only [vmaMerge, hgap.nextFor_eq]
  by_cases hspecial : flags &&& VmFlag.special ≠ 0
  · simpa only [if_pos hspecial] using hnew
  simp only [if_neg hspecial]
  rcases hback : p.prev.filter _ with _ | v <;> rcases hfront : p.after.head?.filter _ with _ | n
  · exact hnew
  · obtain ⟨hn, hmerge⟩ := Option.filter_eq_some_iff.mp hfront
    rw [decide_eq_true_eq] at hmerge
    obtain ⟨r, hafter⟩ := List.head?_eq_some_iff.mp hn
    obtain ⟨u, hu, hspliced⟩ :=
      hgap.extendFront hafter hmerge.1.symm hmerge.2.1 ((stop - addr) / 4096)
    simp only [hu]
    exact ⟨_, [n], r, u, by rw [hareas, hafter]; simp, rfl, hspliced⟩
  · obtain ⟨hv, hmerge⟩ := Option.filter_eq_some_iff.mp hback
    rw [decide_eq_true_eq] at hmerge
    exact hprev v hv hmerge.1 hmerge.2.1
  · obtain ⟨hv, hmerge⟩ := Option.filter_eq_some_iff.mp hback
    obtain ⟨hn, hmerge'⟩ := Option.filter_eq_some_iff.mp hfront
    rw [decide_eq_true_eq] at hmerge hmerge'
    obtain ⟨r, hafter⟩ := List.head?_eq_some_iff.mp hn
    by_cases hanon : IsMergeableAnonVma v.val.anonVma n.val.anonVma
    · obtain ⟨u, hu, hspliced⟩ :=
        hgap.extendBoth hv hmerge.1 hmerge.2.1 hafter hmerge'.1.symm hmerge'.2.1
      simp only [hanon, if_true, hu]
      exact ⟨_, [v, n], r, u, by rw [hareas, hv, hafter]; simp, rfl, hspliced⟩
    · simp only [hanon, if_false]
      exact hprev v hv hmerge.1 hmerge.2.1

namespace Spliced

variable {b m r : List VmArea} {u : VmArea} {addr stop : Nat} {flags : BitVec 32}

theorem ordered (h : Spliced b m r u addr stop flags) (hpos : addr < stop)
    (hl : Ordered (b ++ m ++ r)) : Ordered (b ++ u :: r) := by
  have haddr := (h.has addr).mpr (.inl ⟨Nat.le_refl _, hpos⟩)
  have hu : u.start < u.stop := Nat.lt_of_le_of_lt haddr.1 haddr.2
  rw [Ordered.append_iff, Ordered.append_iff] at hl
  rw [Ordered.append_iff, Ordered.cons_iff]
  refine ⟨hl.1.1, ⟨hu, h.right, hl.2.1⟩, fun v hv w hw => ?_⟩
  rcases List.mem_cons.mp hw with rfl | hw
  · exact h.left v hv
  · exact hl.2.2 v (by simp [hv]) w hw

/-- The new area has the flags, and so had its neighbours. -/
theorem flagsAt (h : Spliced b m r u addr stop flags) (hpos : addr < stop)
    (hl : Ordered (b ++ m ++ r)) (hsame : ∀ v ∈ m, v.val.flags = flags) (x : Nat) :
    flagsAt (b ++ u :: r) x =
      if addr ≤ x ∧ x < stop then some flags else ArbiterThread.flagsAt (b ++ m ++ r) x := by
  have hl' := h.ordered hpos hl
  have hflags : u.val.flags = flags := by
    rcases h.kind.1 with hu | ⟨v, hv, hu⟩
    · exact hu
    · rw [hu, hsame v hv]
  unfold ArbiterThread.flagsAt
  -- inside, the new area answers; outside, what answered before or nothing
  by_cases hx : addr ≤ x ∧ x < stop
  · rw [if_pos hx, hl'.get_of_mem (by simp) ((h.has x).mpr (.inl hx)), Option.map_some, hflags]
  rw [if_neg hx]
  rcases hget : get (b ++ m ++ r) x with _ | i
  · rw [get_eq_none_iff] at hget
    rw [Option.map_none, Option.map_eq_none_iff, get_eq_none_iff]
    intro v hv hvx
    rcases List.mem_append.mp hv with hv | hv
    · exact hget v (by simp [hv]) hvx
    rcases List.mem_cons.mp hv with rfl | hv
    · rcases (h.has x).mp hvx with hx' | ⟨w, hw, hwx⟩
      · exact hx hx'
      · exact hget w (by simp [hw]) hwx
    · exact hget v (by simp [hv]) hvx
  · obtain ⟨v, hv, hvx, rfl⟩ := mem_of_get hget
    rw [List.mem_append, List.mem_append] at hv
    rcases hv with (hv | hv) | hv
    · rw [hl'.get_of_mem (by simp [hv]) hvx]
    · rw [hl'.get_of_mem (by simp) ((h.has x).mpr (.inr ⟨v, hv, hvx⟩)), Option.map_some,
        Option.map_some, hflags, hsame v hv]
    · rw [hl'.get_of_mem (by simp [hv]) hvx]

end Spliced

theorem flagsAt_eq_none_iff {l : List VmArea} {x : Nat} : flagsAt l x = none ↔ get l x = none :=
  Option.map_eq_none_iff

/-- The area that an address is in, from its flags. -/
theorem mem_of_flagsAt {l : List VmArea} {x : Nat} {f : BitVec 32} (h : flagsAt l x = some f) :
    ∃ v ∈ l, v.Has x ∧ v.val.flags = f := by
  obtain ⟨i, hget, rfl⟩ := Option.map_eq_some_iff.mp h
  obtain ⟨v, hv, hx, rfl⟩ := mem_of_get hget
  exact ⟨v, hv, hx, rfl⟩

theorem flagsAt_of_mem {l : List VmArea} (hl : Ordered l) {v : VmArea} {x : Nat} (hv : v ∈ l)
    (hx : v.Has x) : flagsAt l x = some v.val.flags := by
  rw [flagsAt, hl.get_of_mem hv hx, Option.map_some]

/-- Mapping a free range gives it the flags and changes nothing else. -/
theorem AreasOk.mapArea {l : List VmArea} (hl : AreasOk l) {addr stop : Nat} {flags : BitVec 32}
    (pgoff : Nat) (hpos : addr < stop) (hfree : ∀ x, addr ≤ x → x < stop → flagsAt l x = none)
    (hflags : flags &&& VmFlag.canNonlinear = 0) :
    Ordered (mapArea l addr stop flags pgoff) ∧
    (∀ x, flagsAt (mapArea l addr stop flags pgoff) x =
      if addr ≤ x ∧ x < stop then some flags else flagsAt l x) ∧
    (addr % 4096 = 0 → stop % 4096 = 0 → stop ≤ taskSize →
      AreasOk (mapArea l addr stop flags pgoff)) := by
  obtain ⟨b, m, r, u, rfl, hmap, hspliced⟩ := mapArea_spliced hl.ordered hpos
    (fun x hx hxs => flagsAt_eq_none_iff.mp (hfree x hx hxs)) flags pgoff
  rw [hmap]
  -- the areas merged with have the same flags, as they are linear
  have hm : ∀ v ∈ m, v ∈ b ++ m ++ r := fun v hv => by simp [hv]
  have hbr : ∀ v ∈ b ++ u :: r, v = u ∨ v ∈ b ++ m ++ r := by
    intro v hv
    simp only [List.mem_append, List.mem_cons] at hv ⊢
    tauto
  have hsame : ∀ v ∈ m, v.val.flags = flags := fun v hv =>
    (hspliced.like v hv).flags_eq (hl.linear v (hm v hv) (hspliced.like v hv).2.1) hflags
  refine ⟨hspliced.ordered hpos hl.ordered, hspliced.flagsAt hpos hl.ordered hsame,
    fun haddr hstop hbound => ⟨hspliced.ordered hpos hl.ordered, ?_, ?_, ?_⟩⟩
  · intro v hv
    rcases hbr v hv with rfl | hv
    · refine ⟨?_, ?_⟩
      · rcases hspliced.start with h | ⟨w, hw, h⟩ <;> rw [h]
        · exact haddr
        · exact (hl.aligned w (hm w hw)).1
      · rcases hspliced.stop with h | ⟨w, hw, h⟩ <;> rw [h]
        · exact hstop
        · exact (hl.aligned w (hm w hw)).2
    · exact hl.aligned v hv
  · intro v hv
    rcases hbr v hv with rfl | hv
    · rcases hspliced.stop with h | ⟨w, hw, h⟩ <;> rw [h]
      · exact hbound
      · exact hl.bounded w (hm w hw)
    · exact hl.bounded v hv
  · intro v hv hfile
    rcases hbr v hv with rfl | hv
    · rcases hspliced.kind.1 with h | ⟨w, hw, h⟩
      · rw [h, hflags]
      · rw [h, hsame w hw, hflags]
    · exact hl.linear v hv hfile

/-! ### What unmapping does -/

/-- No area goes across the address. -/
def CutAt (l : List VmArea) (a : Nat) : Prop := ∀ v ∈ l, v.stop ≤ a ∨ a ≤ v.start

theorem flagsAt_append (l₁ l₂ : List VmArea) (x : Nat) :
    flagsAt (l₁ ++ l₂) x = (flagsAt l₁ x).or (flagsAt l₂ x) := by
  unfold flagsAt
  rw [get_append]
  cases get l₁ x <;> rfl

theorem flagsAt_cons (v : VmArea) (l : List VmArea) (x : Nat) :
    flagsAt (v :: l) x = if v.Has x then some v.val.flags else flagsAt l x := by
  unfold flagsAt
  rw [get_cons, apply_ite (Option.map VmInfo.flags), Option.map_some]

/-- The two parts of an area in place of it. -/
theorem AreasOk.cut {b r : List VmArea} {v : VmArea} {addr pgoff : Nat}
    (h : AreasOk (b ++ v :: r)) (haddr : addr % 4096 = 0) (hv : v.Has addr)
    (hstart : v.start < addr) :
    AreasOk (b ++ { v with stop := addr } :: resizeArea v addr v.stop pgoff :: r) := by
  have hmem : ∀ w ∈ b ++ { v with stop := addr } :: resizeArea v addr v.stop pgoff :: r,
      w ∈ b ++ v :: r ∨ w = { v with stop := addr } ∨ w = resizeArea v addr v.stop pgoff := by
    intro w hw
    simp only [List.mem_append, List.mem_cons] at hw ⊢
    tauto
  have hv' : v ∈ b ++ v :: r := by simp
  refine ⟨?_, fun w hw => ?_, fun w hw => ?_, fun w hw => ?_⟩
  -- the order: the two parts lie where the area was
  · have hord := h.ordered
    rw [Ordered.append_iff, Ordered.cons_iff] at hord
    rw [Ordered.append_iff, Ordered.cons_iff, Ordered.cons_iff]
    refine ⟨hord.1, ⟨hstart, ?_, hv.2, hord.2.1.2.1, hord.2.1.2.2⟩, fun w hw u hu => ?_⟩
    · intro w hw
      rcases List.mem_cons.mp hw with rfl | hw
      · exact Nat.le_refl _
      · exact Nat.le_trans (Nat.le_of_lt hv.2) (hord.2.1.2.1 w hw)
    · have hwv := hord.2.2 w hw v (by simp)
      rcases List.mem_cons.mp hu with rfl | hu
      · exact hwv
      rcases List.mem_cons.mp hu with rfl | hu
      · exact Nat.le_trans hwv (Nat.le_of_lt hstart)
      · exact hord.2.2 w hw u (by simp [hu])
  · rcases hmem w hw with hw | rfl | rfl
    · exact h.aligned w hw
    · exact ⟨(h.aligned v hv').1, haddr⟩
    · exact ⟨haddr, (h.aligned v hv').2⟩
  · rcases hmem w hw with hw | rfl | rfl
    · exact h.bounded w hw
    · exact Nat.le_trans (Nat.le_of_lt hv.2) (h.bounded v hv')
    · exact h.bounded v hv'
  · rcases hmem w hw with hw | rfl | rfl
    · exact h.linear w hw
    · exact h.linear v hv'
    · exact h.linear v hv'

/-- Splitting changes no flags. -/
theorem splitVma_spec {k addr : Nat} {l l' : List VmArea} (hl : AreasOk l)
    (haddr : addr % 4096 = 0) (h : splitVma k l addr = some l') :
    AreasOk l' ∧ (∀ x, flagsAt l' x = flagsAt l x) ∧ CutAt l' addr ∧
      ∀ a, CutAt l a → CutAt l' a := by
  have hsplit := below_append_above l addr
  have hbelow : ∀ v ∈ below l addr, v.stop ≤ addr := fun v hv => stop_le_of_mem_below hv
  unfold splitVma at h
  -- the address is behind all areas, in a hole or at a start, or inside of one
  rcases habove : above l addr with _ | ⟨v, r⟩ <;> rw [habove] at h hsplit
  · cases h
    refine ⟨hl, fun _ => rfl, fun v hv => .inl (hbelow v ?_), fun _ => id⟩
    rwa [← hsplit, List.append_nil] at hv
  have hvstop : addr < v.stop := lt_stop_of_mem_above hl.ordered (by simp [habove])
  have hbehind : ∀ w ∈ r, v.stop ≤ w.start := by
    have hord := hl.ordered
    rw [← hsplit, Ordered.append_iff, Ordered.cons_iff] at hord
    exact hord.2.1.2.1
  by_cases hstart : addr ≤ v.start
  · simp only [if_pos hstart] at h
    cases h
    refine ⟨hl, fun _ => rfl, fun w hw => ?_, fun _ => id⟩
    rw [← hsplit] at hw
    rcases List.mem_append.mp hw with hw | hw
    · exact .inl (hbelow w hw)
    rcases List.mem_cons.mp hw with rfl | hw
    · exact .inr hstart
    · have := hbehind w hw
      exact .inr (by omega)
  · simp only [if_neg hstart] at h
    by_cases hcount : k ≤ l.length
    · simp only [if_pos hcount] at h
      exact absurd h (by simp)
    simp only [if_neg hcount] at h
    cases h
    have hv : v.Has addr := ⟨by omega, hvstop⟩
    rw [← hsplit] at hl
    refine ⟨hl.cut haddr hv (by omega), fun x => ?_, fun w hw => ?_, fun a ha w hw => ?_⟩
    · rw [← hsplit, below_append hbelow (by simpa using hvstop), flagsAt_append, flagsAt_append,
        flagsAt_cons, flagsAt_cons, flagsAt_cons]
      congr 1
      by_cases hx : v.Has x
      · rw [if_pos hx]
        by_cases hlow : x < addr
        · rw [if_pos ⟨hx.1, hlow⟩]
        · rw [if_neg (fun h => hlow h.2), if_pos ⟨Nat.le_of_not_lt hlow, hx.2⟩]
          rfl
      · rw [if_neg hx, if_neg (fun h => hx ⟨h.1, Nat.lt_trans h.2 hvstop⟩),
          if_neg (fun h => hx ⟨Nat.le_trans hv.1 h.1, h.2⟩)]
    · simp only [List.mem_append, List.mem_cons] at hw
      rcases hw with hw | rfl | rfl | hw
      · exact .inl (hbelow w hw)
      · exact .inl (Nat.le_refl _)
      · exact .inr (Nat.le_refl _)
      · have := hbehind w hw
        exact .inr (by omega)
    · have hva := ha v (by rw [← hsplit]; simp)
      simp only [List.mem_append, List.mem_cons] at hw
      rcases hw with hw | rfl | rfl | hw
      · exact ha w (by rw [← hsplit]; simp [hw])
      · simp only
        omega
      · simp only [resizeArea]
        omega
      · exact ha w (by rw [← hsplit]; simp [hw])

theorem AreasOk.sublist {l l' : List VmArea} (h : AreasOk l) (hsub : l'.Sublist l) : AreasOk l' :=
  ⟨h.ordered.sublist hsub, fun v hv => h.aligned v (hsub.subset hv),
    fun v hv => h.bounded v (hsub.subset hv), fun v hv => h.linear v (hsub.subset hv)⟩

theorem detach_spec {m : MmStruct} {start stop : Nat} (hl : AreasOk m.areas)
    (hstart : CutAt m.areas start) (hstop : CutAt m.areas stop) :
    AreasOk (detach m start stop).areas ∧
      ∀ x, flagsAt (detach m start stop).areas x =
        if start ≤ x ∧ x < stop then none else flagsAt m.areas x := by
  have hsplit := below_append_above m.areas start
  have hord : Ordered (above m.areas start) := by
    have hl' := hl.ordered
    rw [← hsplit, Ordered.append_iff] at hl'
    exact hl'.2.1
  have hbelow : ∀ v ∈ below m.areas start, v.stop ≤ start := fun v hv => stop_le_of_mem_below hv
  let inside := fun v : VmArea => decide (v.start < stop)
  have hparts : below m.areas start ++ ((above m.areas start).takeWhile inside ++
      (above m.areas start).dropWhile inside) = m.areas := by
    rw [List.takeWhile_append_dropWhile, hsplit]
  have hbehind : ∀ v ∈ (above m.areas start).dropWhile inside, stop ≤ v.start :=
    fun v hv => hord.le_start_of_mem_dropWhile hv
  -- What is removed lies between the two cuts.
  have hinside : ∀ v ∈ (above m.areas start).takeWhile inside, start ≤ v.start ∧ v.stop ≤ stop := by
    intro v hv
    have hlt : v.start < stop := by simpa [inside] using List.mem_takeWhile_imp hv
    have hmem : v ∈ above m.areas start := (List.takeWhile_prefix _).subset hv
    have hgt := lt_stop_of_mem_above hl.ordered hmem
    have h₁ := hstart v (mem_of_mem_above hmem)
    have h₂ := hstop v (mem_of_mem_above hmem)
    omega
  have hareas : (detach m start stop).areas =
      below m.areas start ++ (above m.areas start).dropWhile inside := rfl
  rw [hareas]
  refine ⟨hl.sublist ?_, fun x => ?_⟩
  · have hsub : (below m.areas start ++ (above m.areas start).dropWhile inside).Sublist
        (below m.areas start ++ ((above m.areas start).takeWhile inside ++
          (above m.areas start).dropWhile inside)) :=
      (List.sublist_append_right _ _).append_left _
    rwa [hparts] at hsub
  have hx' := congrArg (flagsAt · x) hparts
  simp only [flagsAt_append] at hx'
  rw [← hx', flagsAt_append]
  by_cases hx : start ≤ x ∧ x < stop
  · rw [if_pos hx, flagsAt_eq_none_iff.mpr (get_of_stop_le hbelow hx.1),
      flagsAt_eq_none_iff.mpr (get_of_le_start hbehind hx.2)]
    rfl
  · have hmid : flagsAt ((above m.areas start).takeWhile inside) x = none := by
      rw [flagsAt_eq_none_iff, get_eq_none_iff]
      intro v hv hvx
      have := hinside v hv
      exact hx ⟨Nat.le_trans this.1 hvx.1, Nat.lt_of_lt_of_le hvx.2 this.2⟩
    rw [if_neg hx, hmid, Option.none_or]

theorem pageAlign_mod (n : Nat) : pageAlign n % 4096 = 0 := by
  unfold pageAlign
  omega

/-- The arguments that `do_munmap` accepts. -/
def UnmapArgs (start len : Nat) : Prop :=
  start % 4096 = 0 ∧ start ≤ taskSize ∧ len ≤ taskSize - start ∧ pageAlign len ≠ 0

theorem doMunmap_cases {k start len e : Nat} {m m' : MmStruct}
    (h : doMunmap k m start len = (e, m')) :
    (e ≠ 0 ∧ m' = m) ∨
    UnmapArgs start len ∧
      ((e = 0 ∧ m' = m ∧ findVmaIntersection m.areas start (start + pageAlign len) = none) ∨
      ∃ lower, splitVma k m.areas start = some lower ∧
        ((e ≠ 0 ∧ m' = { m with areas := lower }) ∨
        ∃ both, splitVma k lower (start + pageAlign len) = some both ∧ e = 0 ∧
          m' = detach { m with areas := both } start (start + pageAlign len))) := by
  unfold doMunmap at h
  by_cases hrange : start % 4096 ≠ 0 ∨ taskSize < start ∨ taskSize - start < len
  · rw [if_pos hrange, Prod.mk.injEq] at h
    exact .inl ⟨by rw [← h.1]; decide, h.2.symm⟩
  by_cases hzero : pageAlign len = 0
  · rw [if_neg hrange, if_pos hzero, Prod.mk.injEq] at h
    exact .inl ⟨by rw [← h.1]; decide, h.2.symm⟩
  have hargs : UnmapArgs start len := ⟨by omega, by omega, by omega, hzero⟩
  simp only [if_neg hrange, if_neg hzero] at h
  rcases hmeet : findVmaIntersection m.areas start (start + pageAlign len) with _ | v
  · simp only [hmeet, Prod.mk.injEq] at h
    exact .inr ⟨hargs, .inl ⟨h.1.symm, h.2.symm, rfl⟩⟩
  rcases hlower : splitVma k m.areas start with _ | lower
  · simp only [hmeet, hlower, Prod.mk.injEq] at h
    exact .inl ⟨by rw [← h.1]; decide, h.2.symm⟩
  refine .inr ⟨hargs, .inr ⟨lower, rfl, ?_⟩⟩
  rcases hboth : splitVma k lower (start + pageAlign len) with _ | both
  · simp only [hmeet, hlower, hboth, Prod.mk.injEq] at h
    exact .inl ⟨by rw [← h.1]; decide, h.2.symm⟩
  · simp only [hmeet, hlower, hboth, Prod.mk.injEq] at h
    exact .inr ⟨both, rfl, h.1.symm, h.2.symm⟩

/-- Unmapping removes the range and nothing else, or changes no flags. -/
theorem doMunmap_spec {k start len e : Nat} {m m' : MmStruct} (hl : AreasOk m.areas)
    (h : doMunmap k m start len = (e, m')) :
    AreasOk m'.areas ∧
      (e = 0 → UnmapArgs start len ∧ ∀ x, flagsAt m'.areas x =
        if start ≤ x ∧ x < start + pageAlign len then none else flagsAt m.areas x) ∧
      (e ≠ 0 → ∀ x, flagsAt m'.areas x = flagsAt m.areas x) := by
  have hend : start % 4096 = 0 → (start + pageAlign len) % 4096 = 0 := by
    have := pageAlign_mod len
    omega
  rcases doMunmap_cases h with ⟨he, rfl⟩ | ⟨hargs, ⟨he, rfl, hmeet⟩ | ⟨lower, hlower, hrest⟩⟩
  · exact ⟨hl, fun h0 => absurd h0 he, fun _ _ => rfl⟩
  · refine ⟨hl, fun _ => ⟨hargs, fun x => ?_⟩, fun hne => absurd he hne⟩
    by_cases hx : start ≤ x ∧ x < start + pageAlign len
    · rw [if_pos hx]
      exact flagsAt_eq_none_iff.mpr (get_of_meeting_eq_none hl.ordered hmeet hx.1 hx.2)
    · rw [if_neg hx]
  obtain ⟨hl₁, hflags₁, hcut₁, -⟩ := splitVma_spec hl hargs.1 hlower
  rcases hrest with ⟨he, rfl⟩ | ⟨both, hboth, he, rfl⟩
  · exact ⟨hl₁, fun h0 => absurd h0 he, fun _ => hflags₁⟩
  obtain ⟨hl₂, hflags₂, hcut₂, hkeep⟩ := splitVma_spec hl₁ (hend hargs.1) hboth
  obtain ⟨hl₃, hflags₃⟩ :=
    detach_spec (m := { m with areas := both }) hl₂ (hkeep start hcut₁) hcut₂
  refine ⟨hl₃, fun _ => ⟨hargs, fun x => ?_⟩, fun hne => absurd he hne⟩
  rw [hflags₃ x, hflags₂ x, hflags₁ x]

theorem clearOldMaps_spec {k addr len e : Nat} {m m' : MmStruct} (hl : AreasOk m.areas)
    (hlt : addr + len < 2 ^ 32) (hlen : pageAlign len = len)
    (h : clearOldMaps k m addr len = (e, m')) :
    AreasOk m'.areas ∧
      (e = 0 → ∀ x, flagsAt m'.areas x =
        if addr ≤ x ∧ x < addr + len then none else flagsAt m.areas x) := by
  unfold clearOldMaps at h
  rw [wordAdd_eq hlt] at h
  rcases hmeet : findVmaIntersection m.areas addr (addr + len) with _ | v <;> rw [hmeet] at h
  · cases h
    refine ⟨hl, fun _ x => ?_⟩
    by_cases hx : addr ≤ x ∧ x < addr + len
    · rw [if_pos hx]
      exact flagsAt_eq_none_iff.mpr (get_of_meeting_eq_none hl.ordered hmeet hx.1 hx.2)
    · rw [if_neg hx]
  · obtain ⟨hok, hspec, -⟩ := doMunmap_spec hl h
    rw [hlen] at hspec
    exact ⟨hok, fun he => (hspec he).2⟩

end ArbiterThread
