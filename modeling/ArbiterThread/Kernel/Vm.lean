import Mathlib.Logic.Function.Basic
import Mathlib.Tactic.Common

/-!
# Mappings of a Control Group

The address spaces of the tasks in a control group, page by page: which area each
page belongs to, and what its page-table entry leads to.

The kernel keeps areas as intervals, and splits and merges them as it goes. What
decides about an access is only what an area says about the page, so here every
page carries the flags of its area by itself. Where the extent of an area matters,
as in `absys_munmap`, which removes whole areas from the tasks that it was not
called for, the extent is a parameter of the call.

Four of the system calls are the arbiter's. `absys_mmap` maps an area in one task
and reserves it in the others, but only where they have nothing mapped. Whether this
works for the others nobody asks, and where the first part fails they are called with
the error for an address. `absys_brk` maps a range readable and writable in all of
them, one after the other, and stops where this fails. `absys_mprotect` is about one
task. The other calls are the task's own, and of these only `mprotect` knows that some
areas are not the task's to change.

## Main definitions

* `Prot`, `Vma`, `Pte`, `Mm`: What is known about a page in a task.
* `doMunmap`, `mmapRegion`, `propagateRegion`, `mprotectFixup`: Changes of a range.
* `accessError`, `doAbtAnonPage`, `doWpPage`, `handleAbtVmfault`: The page fault.
* `access`: An access, which faults unless the page table allows it.
* `Group`: The tasks in the arbiter's ring.
* `absysMmap`, `absysBrk`, `absysMprotect`, `absysMunmap`: The arbiter's calls.

## Theorems

* `absysMmap_mm`, `absysMmapFailed_mm`, `absysBrk_mm`, `absysMunmap_mm`: What a call does
  to one task.
-/

namespace ArbiterThread

/-! ### One address space -/

/-- `PROT_READ`, `PROT_WRITE` and `PROT_EXEC`. -/
structure Prot where
  read : Bool
  write : Bool
  exec : Bool
deriving DecidableEq

/-- No access. -/
def Prot.nothing : Prot := ⟨false, false, false⟩

/-- What `VM_DATA_DEFAULT_FLAGS` allow. -/
def Prot.data : Prot := ⟨true, true, false⟩

/-- The flags of the area a page is in. -/
structure Vma where
  /-- `VM_AB_CONTROL` -/
  abControl : Bool
  /-- `VM_SHARED` -/
  shared : Bool
  prot : Prot
deriving DecidableEq

/-- The memory behind a page. -/
inductive PageFrame where
  /-- the arbiter's own page for this address -/
  | channel (page : Nat)
  /-- anonymous memory of one task -/
  | anon (n : Nat)
deriving DecidableEq

structure Pte where
  frame : PageFrame
  write : Bool
deriving DecidableEq

structure Mm where
  vma : Nat → Option Vma
  pte : Nat → Option Pte

/-- The page is one of the `n` pages from `first` on. -/
def inArea (first n page : Nat) : Prop := first ≤ page ∧ page < first + n

instance (first n page : Nat) : Decidable (inArea first n page) :=
  inferInstanceAs (Decidable (_ ∧ _))

namespace Mm

variable (m : Mm) (first n : Nat)

def doMunmap : Mm where
  vma := fun page => if inArea first n page then none else m.vma page
  pte := fun page => if inArea first n page then none else m.pte page

/-- `absys_mmap_region`, `do_absys_brk` and `mmap_region`: what was mapped in the range
    goes away first. -/
def mmapRegion (v : Vma) : Mm where
  vma := fun page => if inArea first n page then some v else m.vma page
  pte := fun page => if inArea first n page then none else m.pte page

/-- The loop of `do_absys_vma_propagate`: only the holes are mapped, and of these the
    pages for which `propagate_region` does not fail. -/
def propagateRegion (v : Vma) (filled : Nat → Bool) : Mm where
  vma := fun page =>
    if inArea first n page ∧ m.vma page = none ∧ filled page = true then some v else m.vma page
  pte := m.pte

/-- The entry after `pte_modify`. Only a shared area gets the write permission that its
    protection says, in a private one the next write is to fault. -/
def changePte (v : Vma) (prot : Prot) (e : Pte) : Pte :=
  if v.prot = prot then e else { e with write := v.shared && prot.write }

/-- `mprotect_fixup` for every area in the range. -/
def mprotectFixup (prot : Prot) : Mm where
  vma := fun page =>
    if inArea first n page then (m.vma page).map fun v => { v with prot := prot } else m.vma page
  pte := fun page =>
    match m.vma page with
    | some v => if inArea first n page then (m.pte page).map (changePte v prot) else m.pte page
    | none => m.pte page

/-- Unmap the arbiter's areas at the pages given, and leave the task's own. -/
def unmapControlled (pages : Nat → Bool) : Mm where
  vma := fun page => if pages page then (m.vma page).filter (fun v => !v.abControl) else m.vma page
  pte := fun page =>
    match m.vma page with
    | some v => if pages page ∧ v.abControl then none else m.pte page
    | none => m.pte page

end Mm

/-! ### Page faults -/

/-- Whether an access is refused. A page that may be written or executed may be read. -/
def accessError (prot : Prot) (write : Bool) : Bool :=
  if write then !prot.write else !(prot.read || prot.exec || prot.write)

namespace Mm

variable (m : Mm) (page : Nat)

/-- The arbiter's page is entered with the permission of the area. -/
def doAbtAnonPage (v : Vma) : Mm :=
  { m with pte := Function.update m.pte page (some ⟨.channel page, v.prot.write⟩) }

/-- A write fault at a page that is entered. Pages of the arbiter are not anonymous, so
    what counts is whether the area is shared; `reuse` is what `reuse_swap_page` answers
    for anonymous memory, and `fresh` the memory that a copy goes to. -/
def doWpPage (v : Vma) (e : Pte) (reuse : Bool) (fresh : Nat) : Mm :=
  let keep := match e.frame with
    | .channel _ => v.shared && v.prot.write
    | .anon _ => reuse
  { m with
    pte := Function.update m.pte page
      (some (if keep then { e with write := true } else ⟨.anon fresh, true⟩)) }

/-- `handle_abt_vmfault` for a page of a controlled area, if the access is allowed and
    the arbiter has the page. The test of `pte_write` in `handle_pte_fault` guards no more
    than a message, so that every write fault at a page that is entered comes to
    `do_wp_page`, whether or not the entry is writable. -/
def handleAbtVmfault (arbiter : Nat → Bool) (write reuse : Bool) (fresh : Nat) : Option Mm :=
  match m.vma page with
  | none => none
  | some v =>
    if !v.abControl || accessError v.prot write then none
    else match m.pte page with
      | none => if arbiter page then some (m.doAbtAnonPage page v) else none
      | some e => if write then some (m.doWpPage page v e reuse fresh) else some m

/-- The page table allows the access. Entries of an area without access are not present. -/
def permits (write : Bool) : Bool :=
  match m.vma page, m.pte page with
  | some v, some e => v.abControl && !accessError v.prot write && (!write || e.write)
  | _, _ => false

/-- An access to a page of a controlled area, with the fault that it takes unless the page
    table allows it. -/
def access (arbiter : Nat → Bool) (write reuse : Bool) (fresh : Nat) : Option Mm :=
  if m.permits page write then some m else m.handleAbtVmfault page arbiter write reuse fresh

end Mm

/-! ### The group -/

/-- The address spaces of all tasks, and the ring of the arbiter. -/
structure Group where
  mm : Nat → Mm
  /-- the other tasks in the ring, in the order of its links -/
  ring : List Nat
  /-- the pages the arbiter itself can write -/
  arbiter : Nat → Bool

/-- The area of an `absys_mmap` in the task that it is for. -/
def channelVma (prot : Prot) : Vma := ⟨true, true, prot⟩

/-- The area that it reserves in the others. The mask that takes all access away takes
    `VM_SHARED` with it, and only `MAP_SHARED` brings that back. -/
def reservedVma (mapShared : Bool) : Vma := ⟨true, mapShared, .nothing⟩

/-- The area of an `absys_brk`, in which `VM_SHARED` is missing. -/
def heapVma : Vma := ⟨true, false, .data⟩

namespace Group

variable (g : Group)

def setMm (f : Nat → Mm → Mm) : Group := { g with mm := fun t => f t (g.mm t) }

/-- `sys_absys_mmap` for the task `t`, once it has found the address, with the pages that
    the others reserve. -/
def absysMmap (t first n : Nat) (prot : Prot) (mapShared : Bool) (filled : Nat → Nat → Bool) :
    Group :=
  if t ∈ g.ring then
    g.setMm fun u m =>
      if u = t then m.mmapRegion first n (channelVma prot)
      else if u ∈ g.ring then m.propagateRegion first n (reservedVma mapShared) (filled u)
      else m
  else g

/-- An `absys_mmap` that fails has possibly cleared the range before. The others reserve
    what they can from the page `stray` on, where the error leads as an address. -/
def absysMmapFailed (t first n : Nat) (cleared : Bool) (stray : Nat) (mapShared : Bool)
    (filled : Nat → Nat → Bool) : Group :=
  if t ∈ g.ring then
    g.setMm fun u m =>
      if u = t then if cleared then m.doMunmap first n else m
      else if u ∈ g.ring then m.propagateRegion stray n (reservedVma mapShared) (filled u)
      else m
  else g

/-- Nothing is mapped in the range, nor in the page behind it. -/
def rangeFree (first n : Nat) : Prop :=
  ∀ t ∈ g.ring, ∀ i ∈ List.range (n + 1), (g.mm t).vma (first + i) = none

instance (first n : Nat) : Decidable (g.rangeFree first n) :=
  inferInstanceAs (Decidable (∀ t ∈ g.ring, ∀ i ∈ List.range (n + 1), _))

/-- `sys_absys_brk` with the pages between the old and the new break. The tasks are
    served in the order of the ring, until `do_absys_brk` fails for one. -/
def absysBrk (first n served : Nat) : Group :=
  if g.rangeFree first n then
    g.setMm fun u m => if u ∈ g.ring.take served then m.mmapRegion first n heapVma else m
  else g

/-- `sys_absys_mprotect` for the task `t`, with the pages that were done when it returned. -/
def absysMprotect (t first n : Nat) (prot : Prot) : Group :=
  g.setMm fun u m => if u = t ∧ t ∈ g.ring then m.mprotectFixup first n prot else m

/-- `sys_absys_munmap` for the task `t`. From the others whole areas are removed that
    overlap the range, with the pages `also` outside. -/
def absysMunmap (t first n : Nat) (also : Nat → Nat → Bool) : Group :=
  if t ∈ g.ring then
    g.setMm fun u m =>
      if u = t then m.doMunmap first n
      else if u ∈ g.ring then m.unmapControlled fun page => inArea first n page || also u page
      else m
  else g

end Group

/-! ### What a call does to one task -/

namespace Group

variable (g : Group)

@[simp] theorem setMm_mm (f : Nat → Mm → Mm) (u : Nat) : (g.setMm f).mm u = f u (g.mm u) := rfl

@[simp] theorem setMm_ring (f : Nat → Mm → Mm) : (g.setMm f).ring = g.ring := rfl

theorem absysMmap_mm (t first n : Nat) (prot : Prot) (mapShared : Bool)
    (filled : Nat → Nat → Bool) (u : Nat) :
    (g.absysMmap t first n prot mapShared filled).mm u =
      if t ∈ g.ring ∧ u = t then (g.mm u).mmapRegion first n (channelVma prot)
      else if t ∈ g.ring ∧ u ∈ g.ring then
        (g.mm u).propagateRegion first n (reservedVma mapShared) (filled u)
      else g.mm u := by
  unfold absysMmap
  by_cases ht : t ∈ g.ring
  · simp only [ht, true_and, if_true, setMm_mm]
  · simp only [ht, false_and, if_false]

theorem absysMmapFailed_mm (t first n : Nat) (cleared : Bool) (stray : Nat) (mapShared : Bool)
    (filled : Nat → Nat → Bool) (u : Nat) :
    (g.absysMmapFailed t first n cleared stray mapShared filled).mm u =
      if t ∈ g.ring ∧ u = t then if cleared then (g.mm u).doMunmap first n else g.mm u
      else if t ∈ g.ring ∧ u ∈ g.ring then
        (g.mm u).propagateRegion stray n (reservedVma mapShared) (filled u)
      else g.mm u := by
  unfold absysMmapFailed
  by_cases ht : t ∈ g.ring
  · simp only [ht, true_and, if_true, setMm_mm]
  · simp only [ht, false_and, if_false]

theorem absysBrk_mm (first n served u : Nat) :
    (g.absysBrk first n served).mm u =
      if g.rangeFree first n ∧ u ∈ g.ring.take served then (g.mm u).mmapRegion first n heapVma
      else g.mm u := by
  unfold absysBrk
  by_cases hfree : g.rangeFree first n
  · simp only [hfree, true_and, if_true, setMm_mm]
  · simp only [hfree, false_and, if_false]

theorem absysMunmap_mm (t first n : Nat) (also : Nat → Nat → Bool) (u : Nat) :
    (g.absysMunmap t first n also).mm u =
      if t ∈ g.ring ∧ u = t then (g.mm u).doMunmap first n
      else if t ∈ g.ring ∧ u ∈ g.ring then
        (g.mm u).unmapControlled fun page => inArea first n page || also u page
      else g.mm u := by
  unfold absysMunmap
  by_cases ht : t ∈ g.ring
  · simp only [ht, true_and, if_true, setMm_mm]
  · simp only [ht, false_and, if_false]

end Group

end ArbiterThread
