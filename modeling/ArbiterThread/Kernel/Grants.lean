import ArbiterThread.Kernel.Vm

/-!
# What a Task Was Granted

The arbiter's calls together with those that a task makes about its own mappings.

A page fault in a controlled area is answered with the arbiter's page at that
address, and the kernel asks nothing but whether the area allows the access. So a
task has exactly the access that its controlled areas say, and the question is who
can change these. `munmap` and `mmap` replace them by something that is not
controlled, and `mprotect` stops at them. `mremap` does not look: it extends an
area and moves it wherever the task wants it, with all its flags.

A call of the arbiter is about its whole range, also when it fails. One that was to
take access away and stopped before has not done so.

## Main definitions

* `ownMprotect`: `mprotect`, which stops at a controlled area.
* `Mremap`, `doMremap`: The arguments of `mremap`, and what it does.
* `VmOp`, `Granted`, `Granted.apply`: The calls, and the group with what the arbiter
  granted by its latest call.
* `answered`: A fault is answered with the arbiter's page.
* `GrantOk`: The call does not make an area reach where it was not granted, and does not
  fail to take access away.

## Theorems

* `Mm.Within.doMremap`: Moving a task's own area adds no controlled page.
* `GrantInv.apply`: One call keeps controlled areas within what was granted.
* `faults_granted`: In runs that meet the condition, only what was granted is answered.
* `faults_granted_fails`: A mapping moved to an address that was never granted.
-/

namespace ArbiterThread

/-! ### The task's own calls -/

/-- The task's own area. -/
def ownPage : Option Vma → Bool
  | some v => !v.abControl
  | none => false

/-- The arguments of `mremap`, in pages, with what it finds. -/
structure Mremap where
  addr : Nat
  oldLen : Nat
  newLen : Nat
  mayMove : Bool
  fixed : Bool
  /-- the address asked for with `MREMAP_FIXED`, or else the one that
      `get_unmapped_area` finds -/
  newAddr : Nat
  /-- the end of the area at `addr` -/
  vmEnd : Nat

/-- The tests on the arguments fail. -/
def Mremap.invalid (r : Mremap) : Prop :=
  r.newLen = 0 ∨ r.fixed = true ∧ (r.mayMove = false ∨
    (r.newAddr ≤ r.addr ∧ r.addr < r.newAddr + r.newLen) ∨
    (r.addr ≤ r.newAddr ∧ r.newAddr < r.addr + r.oldLen))

instance (r : Mremap) : Decidable r.invalid := inferInstanceAs (Decidable (_ ∨ _ ∧ _))

namespace Mm

variable (m : Mm)

/-- `mprotect` of a task, which returns an error when it comes to a page that is not
    mapped or is in a controlled area, after it has changed those before. -/
def ownMprotect (first n : Nat) (prot : Prot) : Mm :=
  let done := ((List.range n).takeWhile fun i => ownPage (m.vma (first + i))).length
  m.mprotectFixup first done prot

/-- The area at `addr` has the flags `v` and reaches to `vmEnd`. -/
def areaIs (v : Vma) (addr vmEnd : Nat) : Prop :=
  ∀ i ∈ List.range (vmEnd - addr), m.vma (addr + i) = some v

instance (v : Vma) (addr vmEnd : Nat) : Decidable (m.areaIs v addr vmEnd) :=
  inferInstanceAs (Decidable (∀ i ∈ List.range (vmEnd - addr), _))

/-- Nothing is mapped between the two pages. -/
def gap (first last : Nat) : Prop := ∀ i ∈ List.range (last - first), m.vma (first + i) = none

instance (first last : Nat) : Decidable (m.gap first last) :=
  inferInstanceAs (Decidable (∀ i ∈ List.range (last - first), _))

/-- `vma_adjust`: the area grows to `newEnd`. -/
def extend (v : Vma) (vmEnd newEnd : Nat) : Mm :=
  { m with vma := fun page => if vmEnd ≤ page ∧ page < newEnd then some v else m.vma page }

/-- `move_vma`: a new area with the old one's flags, to which the page-table entries are
    moved, and then the old one is unmapped. -/
def moveVma (v : Vma) (addr oldLen newLen newAddr : Nat) : Mm where
  vma := fun page =>
    if inArea addr oldLen page then none
    else if inArea newAddr newLen page then some v else m.vma page
  pte := fun page =>
    if inArea addr oldLen page then none
    else if inArea newAddr oldLen page then m.pte (addr + (page - newAddr))
    else if inArea newAddr newLen page then none else m.pte page

/-- The last part of `do_mremap`, in which the area is to grow or to be moved. -/
def growOrMove (r : Mremap) (oldLen : Nat) : Mm :=
  match m.vma r.addr with
  | none => m
  | some v =>
    if ¬ m.areaIs v r.addr r.vmEnd ∨ r.vmEnd < r.addr + oldLen then m
    else if r.vmEnd = r.addr + oldLen ∧ (r.fixed = false ∨ r.addr = r.newAddr) ∧
        (oldLen ≠ r.newLen ∨ r.mayMove = false) ∧ m.gap r.vmEnd (r.addr + r.newLen) then
      m.extend v r.vmEnd (r.addr + r.newLen)
    else if r.mayMove = true ∧ (r.fixed = true ∨ m.gap r.newAddr (r.newAddr + r.newLen)) then
      m.moveVma v r.addr oldLen r.newLen r.newAddr
    else m

/-- What is left after the parts that only unmap. -/
def mremapUnmap (r : Mremap) : Mm :=
  let m := if r.fixed then m.doMunmap r.newAddr r.newLen else m
  if r.newLen ≤ r.oldLen then m.doMunmap (r.addr + r.newLen) (r.oldLen - r.newLen) else m

def doMremap (r : Mremap) : Mm :=
  if r.invalid then m
  else if r.newLen ≤ r.oldLen ∧ (r.fixed = false ∨ r.newAddr = r.addr) then m.mremapUnmap r
  else (m.mremapUnmap r).growOrMove r (min r.oldLen r.newLen)

end Mm

/-! ### Calls and grants -/

inductive VmOp where
  | absysMmap (t first n : Nat) (prot : Prot) (mapShared : Bool) (filled : Nat → Nat → Bool)
  | absysMmapFailed (t first n : Nat) (cleared : Bool) (stray : Nat) (mapShared : Bool)
      (filled : Nat → Nat → Bool)
  | absysBrk (first n served : Nat)
  /-- with the pages that are done when it returns, and those of the range behind them -/
  | absysMprotect (t first done rest : Nat) (prot : Prot)
  | absysMunmap (t first n : Nat) (also : Nat → Nat → Bool)
  /-- `do_munmap` fails for the task itself, before it has unmapped anything -/
  | absysMunmapFailed (t first n : Nat)
  | mmap (t first n : Nat) (shared : Bool) (prot : Prot)
  | munmap (t first n : Nat)
  | mprotect (t first n : Nat) (prot : Prot)
  | mremap (t : Nat) (r : Mremap)

/-- The group, and what each task was granted at a page by the arbiter's latest call
    about it. -/
structure Granted where
  group : Group
  grant : Nat → Nat → Prot

namespace Granted

variable (s : Granted)

/-- The grants after a call that gives some tasks something on a range. -/
def regrant (first n : Nat) (f : Nat → Option Prot) : Nat → Nat → Prot :=
  fun u page => if inArea first n page then (f u).getD (s.grant u page) else s.grant u page

/-- The grants after a call for the task `t` that leaves nobody anything on a range. -/
def takeAway (t first n : Nat) : Nat → Nat → Prot :=
  if t ∈ s.group.ring then
    s.regrant first n fun u => if u ∈ s.group.ring then some .nothing else none
  else s.grant

def own (t : Nat) (f : Mm → Mm) : Granted :=
  { s with group := s.group.setMm fun u m => if u = t then f m else m }

/-- A call, and what it grants. An `absys_mprotect` grants the protection it asks for on
    all of its range, wherever it stops, and an `absys_mmap` that fails grants nothing. -/
def apply : VmOp → Granted
  | .absysMmap t first n prot mapShared filled =>
    { group := s.group.absysMmap t first n prot mapShared filled
      grant := if t ∈ s.group.ring then
          s.regrant first n fun u =>
            if u = t then some prot else if u ∈ s.group.ring then some .nothing else none
        else s.grant }
  | .absysMmapFailed t first n cleared stray mapShared filled =>
    { group := s.group.absysMmapFailed t first n cleared stray mapShared filled
      grant := s.takeAway t first n }
  | .absysBrk first n served =>
    { group := s.group.absysBrk first n served
      grant := if s.group.rangeFree first n then
          s.regrant first n fun u => if u ∈ s.group.ring.take served then some .data else none
        else s.grant }
  | .absysMprotect t first done rest prot =>
    { group := s.group.absysMprotect t first done prot
      grant := s.regrant first (done + rest) fun u =>
        if u = t ∧ t ∈ s.group.ring then some prot else none }
  | .absysMunmap t first n also =>
    { group := s.group.absysMunmap t first n also
      grant := s.takeAway t first n }
  | .absysMunmapFailed t first n => { s with grant := s.takeAway t first n }
  | .mmap t first n shared prot => s.own t fun m => m.mmapRegion first n ⟨false, shared, prot⟩
  | .munmap t first n => s.own t fun m => m.doMunmap first n
  | .mprotect t first n prot => s.own t fun m => m.ownMprotect first n prot
  | .mremap t r => s.own t fun m => m.doMremap r

end Granted

/-- A group in which nothing is controlled and nothing was granted. -/
structure Granted.Fresh (s : Granted) : Prop where
  own : ∀ t page v, (s.group.mm t).vma page = some v → v.abControl = false
  grant : ∀ t page, s.grant t page = .nothing

/-- Sequences of calls that meet `Ok`. -/
inductive GrantRun (Ok : Granted → VmOp → Prop) (s₀ : Granted) : Granted → Prop
  | start : GrantRun Ok s₀ s₀
  | step {s : Granted} (op : VmOp) (run : GrantRun Ok s₀ s) (ok : Ok s op) :
      GrantRun Ok s₀ (s.apply op)

/-- A fault of the task at the page is answered with the arbiter's page. -/
def answered (g : Group) (t page : Nat) (write : Bool) : Prop :=
  (g.mm t).pte page = none ∧
    ((g.mm t).handleAbtVmfault page g.arbiter write false 0).isSome

/-- The kind of access is in the grant. -/
def Prot.gives (p : Prot) (write : Bool) : Bool := if write then p.write else p.read

/-- What may be written or executed may be read. -/
def Prot.Plain (p : Prot) : Prop := p.write = true ∨ p.exec = true → p.read = true

/-- The first gives no more than the second. -/
def Prot.AtMost (p q : Prot) : Prop :=
  (p.read = true → q.read = true) ∧ (p.write = true → q.write = true) ∧
    (p.exec = true → q.exec = true)

/-- No controlled area of the task gives it access in the range. -/
def Group.NoAccess (g : Group) (t first n : Nat) : Prop :=
  ∀ page v, inArea first n page → (g.mm t).vma page = some v → v.abControl = true →
    v.prot = .nothing

/-- The arbiter does not reserve an area where another task has access, and does not
    give a task more than reading without giving it that. Where a call of it fails, there
    is no access in the range that it would have taken away. A task does not extend or
    move a controlled area. -/
def GrantOk (s : Granted) : VmOp → Prop
  | .absysMmap t first n prot _ _ => prot.Plain ∧ ∀ u ∈ s.group.ring, u ≠ t →
      s.group.NoAccess u first n
  | .absysMmapFailed t first n cleared _ _ _ => t ∈ s.group.ring →
      ∀ u ∈ s.group.ring, (u = t → cleared = false) → s.group.NoAccess u first n
  | .absysMprotect t first done rest prot => prot.Plain ∧
      ∀ page v, inArea (first + done) rest page → (s.group.mm t).vma page = some v →
        v.abControl = true → v.prot.AtMost prot
  | .absysMunmapFailed t first n => t ∈ s.group.ring →
      ∀ u ∈ s.group.ring, s.group.NoAccess u first n
  | .mremap t r => ∀ v, (s.group.mm t).vma r.addr = some v → v.abControl = true →
      r.newLen ≤ r.oldLen ∧ r.fixed = false
  | _ => True

/-! ### Controlled pages -/

theorem Prot.atMost_self (p : Prot) : p.AtMost p := ⟨id, id, id⟩

theorem Prot.atMost_nothing (p : Prot) : Prot.nothing.AtMost p := ⟨nofun, nofun, nofun⟩

/-- A page that is reserved now gives no access, and the others are as they were. -/
theorem Mm.propagateRegion_vma {m : Mm} {first n page : Nat} {mapShared : Bool}
    {filled : Nat → Bool} {v : Vma}
    (h : (m.propagateRegion first n (reservedVma mapShared) filled).vma page = some v) :
    v.prot = .nothing ∨ m.vma page = some v := by
  simp only [Mm.propagateRegion] at h
  split at h
  · cases h
    exact Or.inl rfl
  · exact Or.inr h

/-- The controlled pages of the first are controlled pages of the second, with the same
    protection. -/
def Mm.Within (m' m : Mm) : Prop :=
  ∀ page v, m'.vma page = some v → v.abControl = true → m.vma page = some v

/-- The indices before the first one that fails. -/
theorem takeWhile_range {p : Nat → Bool} {n i : Nat}
    (h : i < ((List.range n).takeWhile p).length) : p i = true := by
  have hpre : (List.range n).takeWhile p <+: List.range n := List.takeWhile_prefix p
  have hget : ((List.range n).takeWhile p)[i] = i := by
    rw [hpre.getElem h, List.getElem_range]
  have hmem := List.getElem_mem h
  rw [hget] at hmem
  exact List.all_eq_true.mp List.all_takeWhile i hmem

namespace Mm.Within

theorem refl (m : Mm) : m.Within m := fun _ _ h _ => h

theorem trans {m m' m'' : Mm} (h' : m''.Within m') (h : m'.Within m) : m''.Within m :=
  fun page v hv hab => h page v (h' page v hv hab) hab

theorem doMunmap (m : Mm) (first n : Nat) : (m.doMunmap first n).Within m := by
  intro page v hv _
  simp only [Mm.doMunmap] at hv
  split at hv
  · cases hv
  · exact hv

/-- Mapping something that is not controlled. -/
theorem mmapRegion (m : Mm) (first n : Nat) {v : Vma} (hown : v.abControl = false) :
    (m.mmapRegion first n v).Within m := by
  intro page w hw hab
  simp only [Mm.mmapRegion] at hw
  split at hw
  · cases hw
    rw [hown] at hab
    cases hab
  · exact hw

theorem unmapControlled (m : Mm) (pages : Nat → Bool) : (m.unmapControlled pages).Within m := by
  intro page v hv _
  simp only [Mm.unmapControlled] at hv
  split at hv
  · exact (Option.filter_eq_some_iff.mp hv).1
  · exact hv

/-- `mprotect` does not come to a controlled page. -/
theorem ownMprotect (m : Mm) (first n : Nat) (prot : Prot) :
    (m.ownMprotect first n prot).Within m := by
  intro page v hv hab
  simp only [Mm.ownMprotect, Mm.mprotectFixup] at hv
  split at hv
  · rename_i harea
    have hown := takeWhile_range (p := fun i => ownPage (m.vma (first + i))) (n := n)
      (i := page - first) (by unfold inArea at harea; omega)
    rw [Nat.add_sub_cancel' harea.1] at hown
    rcases Option.map_eq_some_iff.mp hv with ⟨w, hw, rfl⟩
    have hab : w.abControl = true := hab
    rw [hw, ownPage, hab] at hown
    cases hown
  · exact hv

theorem mremapUnmap (m : Mm) (r : Mremap) : (m.mremapUnmap r).Within m := by
  unfold Mm.mremapUnmap
  split
  · split
    · exact (doMunmap _ _ _).trans (doMunmap _ _ _)
    · exact doMunmap _ _ _
  · split
    · exact doMunmap _ _ _
    · exact refl m

/-- Growing or moving an area that is not controlled. -/
theorem growOrMove (m : Mm) (r : Mremap) (oldLen : Nat)
    (hown : ∀ v, m.vma r.addr = some v → v.abControl = false) :
    (m.growOrMove r oldLen).Within m := by
  unfold Mm.growOrMove
  cases hv : m.vma r.addr with
  | none => exact refl m
  | some v =>
    have hv' := hown v hv
    simp only
    split
    · exact refl m
    split
    · intro page w hw hab
      simp only [Mm.extend] at hw
      split at hw
      · cases hw
        rw [hv'] at hab
        cases hab
      · exact hw
    split
    · intro page w hw hab
      simp only [Mm.moveVma] at hw
      split at hw
      · cases hw
      split at hw
      · cases hw
        rw [hv'] at hab
        cases hab
      · exact hw
    · exact refl m

/-- `mremap` of an area that is not controlled, or one that only unmaps. -/
theorem doMremap (m : Mm) (r : Mremap)
    (hok : ∀ v, m.vma r.addr = some v → v.abControl = true →
      r.newLen ≤ r.oldLen ∧ r.fixed = false) : (m.doMremap r).Within m := by
  unfold Mm.doMremap
  split
  · exact refl m
  split
  · exact mremapUnmap m r
  · rename_i hmove
    refine (growOrMove _ r _ ?_).trans (mremapUnmap m r)
    intro v hv
    by_contra hab
    rw [Bool.not_eq_false] at hab
    have hshrink := hok v (mremapUnmap m r r.addr v hv hab) hab
    exact hmove ⟨hshrink.1, Or.inl hshrink.2⟩

end Mm.Within

/-! ### The invariant -/

/-- A controlled page allows no more than what was granted last. -/
structure GrantInv (s : Granted) : Prop where
  within : ∀ t page v, (s.group.mm t).vma page = some v → v.abControl = true →
    v.prot.AtMost (s.grant t page)
  plain : ∀ t page, (s.grant t page).Plain

theorem Granted.Fresh.inv {s : Granted} (h : s.Fresh) : GrantInv s := by
  refine ⟨?_, ?_⟩
  · intro t page v hv hab
    rw [h.own t page v hv] at hab
    cases hab
  · intro t page
    rw [h.grant]
    rintro (hw | hx)
    · cases hw
    · cases hx

/-- A task's own call that adds no controlled page. -/
theorem GrantInv.own {s : Granted} (hs : GrantInv s) (t : Nat) {f : Mm → Mm}
    (hf : (f (s.group.mm t)).Within (s.group.mm t)) : GrantInv (s.own t f) := by
  refine ⟨?_, hs.plain⟩
  intro u page v hv hab
  simp only [Granted.own, Group.setMm_mm] at hv
  by_cases hut : u = t
  · rw [if_pos hut, hut] at hv
    rw [hut]
    exact hs.within t page v (hf page v hv hab) hab
  · rw [if_neg hut] at hv
    exact hs.within u page v hv hab

/-- A call of the arbiter, which gives some tasks something on a range. What it gives
    bounds the areas of these tasks in the range, and all other areas that it makes are
    without access. -/
theorem GrantInv.regrant {s : Granted} (hs : GrantInv s) {g : Group} {first n : Nat}
    {f : Nat → Option Prot} (hplain : ∀ u, ∀ p ∈ f u, p.Plain)
    (hin : ∀ u page v, inArea first n page → (g.mm u).vma page = some v → v.abControl = true →
      ∀ p ∈ f u, v.prot.AtMost p)
    (hold : ∀ u page v, ¬ (inArea first n page ∧ (f u).isSome) → (g.mm u).vma page = some v →
      v.abControl = true → v.prot = .nothing ∨ (s.group.mm u).vma page = some v) :
    GrantInv ⟨g, s.regrant first n f⟩ := by
  -- outside of what is granted anew the areas are as before, or without access
  have hkept : ∀ u page v, ¬ (inArea first n page ∧ (f u).isSome) →
      (g.mm u).vma page = some v → v.abControl = true → v.prot.AtMost (s.grant u page) := by
    intro u page v hout hv hab
    rcases hold u page v hout hv hab with hnone | hsame
    · rw [hnone]
      exact Prot.atMost_nothing _
    · exact hs.within u page v hsame hab
  refine ⟨?_, ?_⟩
  · intro u page v hv hab
    simp only [Granted.regrant]
    by_cases harea : inArea first n page
    · rw [if_pos harea]
      cases hfu : f u with
      | none => exact hkept u page v (fun h => by rw [hfu] at h; cases h.2) hv hab
      | some p => exact hin u page v harea hv hab p hfu
    · rw [if_neg harea]
      exact hkept u page v (fun h => harea h.1) hv hab
  · intro u page
    simp only [Granted.regrant]
    split
    · cases hfu : f u with
      | none => exact hs.plain u page
      | some p => exact hplain u p hfu
    · exact hs.plain u page

theorem plain_nothing : Prot.nothing.Plain := by
  rintro (h | h)
  · cases h
  · cases h

theorem plain_data : Prot.data.Plain := fun _ => rfl

/-- A call that leaves no access in the range to the tasks of the ring. -/
theorem GrantInv.takeAway {s : Granted} (hs : GrantInv s) {g : Group} {t first n : Nat}
    (hin : t ∈ s.group.ring → ∀ u ∈ s.group.ring, g.NoAccess u first n)
    (hold : ∀ u page v, (g.mm u).vma page = some v → v.abControl = true →
      v.prot = .nothing ∨ (s.group.mm u).vma page = some v) :
    GrantInv ⟨g, s.takeAway t first n⟩ := by
  unfold Granted.takeAway
  by_cases ht : t ∈ s.group.ring
  · rw [if_pos ht]
    refine hs.regrant ?_ ?_ (fun u page v _ => hold u page v)
    · intro u p hp
      split at hp
      · exact Option.mem_some_iff.mp hp ▸ plain_nothing
      · exact absurd hp (Option.not_mem_none p)
    · intro u page v harea hv hab p hp
      split at hp
      · rename_i hring
        rw [hin ht u hring page v harea hv hab]
        exact Prot.atMost_nothing p
      · exact absurd hp (Option.not_mem_none p)
  · rw [if_neg ht]
    refine ⟨?_, hs.plain⟩
    intro u page v hv hab
    rcases hold u page v hv hab with hnone | hsame
    · rw [hnone]
      exact Prot.atMost_nothing _
    · exact hs.within u page v hsame hab

theorem GrantInv.absysMmap {s : Granted} (hs : GrantInv s) {t first n : Nat} {prot : Prot}
    {mapShared : Bool} {filled : Nat → Nat → Bool}
    (hok : GrantOk s (.absysMmap t first n prot mapShared filled)) :
    GrantInv (s.apply (.absysMmap t first n prot mapShared filled)) := by
  rcases hok with ⟨hplain, hothers⟩
  simp only [Granted.apply]
  by_cases ht : t ∈ s.group.ring
  -- the target has just what was asked for
  · rw [if_pos ht]
    refine hs.regrant ?_ ?_ ?_
    · intro u p hp
      split at hp
      · exact Option.mem_some_iff.mp hp ▸ hplain
      split at hp
      · exact Option.mem_some_iff.mp hp ▸ plain_nothing
      · exact absurd hp (Option.not_mem_none p)
    · intro u page v harea hv hab p hp
      rw [s.group.absysMmap_mm] at hv
      by_cases hut : u = t
      · simp only [ht, hut, true_and, if_true, Mm.mmapRegion, if_pos harea, Option.mem_def,
          Option.some.injEq] at hv hp
        subst hv hp
        exact Prot.atMost_self _
      · simp only [ht, hut, true_and, if_false] at hv hp
        by_cases hring : u ∈ s.group.ring
        · -- a hole that was filled has no access, and neither has what was there before
          rw [if_pos hring] at hv hp
          rcases Mm.propagateRegion_vma hv with hnew | hsame
          · rw [hnew]
            exact Prot.atMost_nothing p
          · rw [hothers u hring hut page v harea hsame hab]
            exact Prot.atMost_nothing p
        · rw [if_neg hring] at hp
          exact absurd hp (Option.not_mem_none p)
    · intro u page v hout hv hab
      rw [s.group.absysMmap_mm] at hv
      split at hv
      · rename_i hmine
        simp only [hmine.2, if_true, Option.isSome_some, and_true] at hout
        simp only [Mm.mmapRegion, if_neg hout] at hv
        exact Or.inr hv
      split at hv
      · exact Mm.propagateRegion_vma hv
      · exact Or.inr hv
  · rw [if_neg ht]
    have hsame : s.group.absysMmap t first n prot mapShared filled = s.group := if_neg ht
    rw [hsame]
    exact hs

/-- Where it did not clear the range there was no access, and where the others reserve
    something there is none. -/
theorem GrantInv.absysMmapFailed {s : Granted} (hs : GrantInv s) {t first n : Nat}
    {cleared : Bool} {stray : Nat} {mapShared : Bool} {filled : Nat → Nat → Bool}
    (hok : GrantOk s (.absysMmapFailed t first n cleared stray mapShared filled)) :
    GrantInv (s.apply (.absysMmapFailed t first n cleared stray mapShared filled)) := by
  refine hs.takeAway ?_ ?_
  · intro ht u hring page v harea hv hab
    rw [s.group.absysMmapFailed_mm] at hv
    by_cases hut : u = t
    · simp only [ht, hut, true_and, if_true] at hv
      cases cleared with
      | true =>
        simp only [if_true, Mm.doMunmap, if_pos harea] at hv
        cases hv
      | false => exact hok ht t ht (fun _ => rfl) page v harea hv hab
    · simp only [ht, hut, hring, true_and, if_false, if_true] at hv
      rcases Mm.propagateRegion_vma hv with hnew | hsame
      · exact hnew
      · exact hok ht u hring (fun h => absurd h hut) page v harea hsame hab
  · intro u page v hv hab
    rw [s.group.absysMmapFailed_mm] at hv
    split at hv
    · split at hv
      · exact Or.inr (Mm.Within.doMunmap _ _ _ page v hv hab)
      · exact Or.inr hv
    split at hv
    · exact Mm.propagateRegion_vma hv
    · exact Or.inr hv

theorem GrantInv.absysBrk {s : Granted} (hs : GrantInv s) (first n served : Nat) :
    GrantInv (s.apply (.absysBrk first n served)) := by
  simp only [Granted.apply]
  by_cases hfree : s.group.rangeFree first n
  · rw [if_pos hfree]
    refine hs.regrant ?_ ?_ ?_
    · intro u p hp
      split at hp
      · exact Option.mem_some_iff.mp hp ▸ plain_data
      · exact absurd hp (Option.not_mem_none p)
    · intro u page v harea hv hab p hp
      rw [s.group.absysBrk_mm] at hv
      split at hp
      · rename_i hserved
        simp only [hfree, hserved, true_and, if_true, Mm.mmapRegion, if_pos harea, Option.mem_def,
          Option.some.injEq] at hv hp
        subst hv hp
        exact Prot.atMost_self _
      · exact absurd hp (Option.not_mem_none p)
    · intro u page v hout hv hab
      rw [s.group.absysBrk_mm] at hv
      split at hv
      · rename_i hserved
        simp only [hserved.2, if_true, Option.isSome_some, and_true] at hout
        simp only [Mm.mmapRegion, if_neg hout] at hv
        exact Or.inr hv
      · exact Or.inr hv
  · rw [if_neg hfree]
    have hsame : s.group.absysBrk first n served = s.group := if_neg hfree
    rw [hsame]
    exact hs

/-- The pages that were done have the protection asked for, and those behind them have no
    more than that already. -/
theorem GrantInv.absysMprotect {s : Granted} (hs : GrantInv s) {t first done rest : Nat}
    {prot : Prot} (hok : GrantOk s (.absysMprotect t first done rest prot)) :
    GrantInv (s.apply (.absysMprotect t first done rest prot)) := by
  rcases hok with ⟨hplain, hrest⟩
  simp only [Granted.apply]
  refine hs.regrant ?_ ?_ ?_
  · intro u p hp
    split at hp
    · exact Option.mem_some_iff.mp hp ▸ hplain
    · exact absurd hp (Option.not_mem_none p)
  · intro u page v harea hv hab p hp
    simp only [Group.absysMprotect, Group.setMm_mm] at hv
    split at hp
    · rename_i hmine
      rw [if_pos hmine] at hv
      rw [← Option.mem_some_iff.mp hp]
      -- up to where it stopped, `absys_mprotect` has set the protection
      by_cases hdone : inArea first done page
      · simp only [Mm.mprotectFixup, if_pos hdone] at hv
        rcases Option.map_eq_some_iff.mp hv with ⟨w, hw, rfl⟩
        exact Prot.atMost_self prot
      · simp only [Mm.mprotectFixup, if_neg hdone] at hv
        rw [hmine.1] at hv
        refine hrest page v ?_ hv hab
        unfold inArea at harea hdone ⊢
        omega
    · exact absurd hp (Option.not_mem_none p)
  · intro u page v hout hv hab
    simp only [Group.absysMprotect, Group.setMm_mm] at hv
    split at hv
    · rename_i hmine
      rw [if_pos hmine, Option.isSome_some] at hout
      have hdone : ¬ inArea first done page := by
        intro hdone
        refine hout ⟨?_, rfl⟩
        unfold inArea at hdone ⊢
        omega
      simp only [Mm.mprotectFixup, if_neg hdone] at hv
      exact Or.inr hv
    · exact Or.inr hv

theorem GrantInv.absysMunmap {s : Granted} (hs : GrantInv s) (t first n : Nat)
    (also : Nat → Nat → Bool) : GrantInv (s.apply (.absysMunmap t first n also)) := by
  refine hs.takeAway ?_ ?_
  · -- nothing controlled is left in the range
    intro ht u hring page v harea hv hab
    exfalso
    rw [s.group.absysMunmap_mm] at hv
    by_cases hut : u = t
    · simp only [ht, hut, true_and, if_true, Mm.doMunmap, if_pos harea] at hv
      cases hv
    · simp only [ht, hut, hring, true_and, if_false, if_true, Mm.unmapControlled,
        decide_eq_true harea, Bool.true_or] at hv
      have hown := (Option.filter_eq_some_iff.mp hv).2
      rw [hab] at hown
      cases hown
  · intro u page v hv hab
    refine Or.inr ?_
    rw [s.group.absysMunmap_mm] at hv
    split at hv
    · exact Mm.Within.doMunmap _ _ _ page v hv hab
    split at hv
    · exact Mm.Within.unmapControlled _ _ page v hv hab
    · exact hv

theorem GrantInv.apply {s : Granted} (hs : GrantInv s) {op : VmOp} (hok : GrantOk s op) :
    GrantInv (s.apply op) := by
  cases op with
  | absysMmap t first n prot mapShared filled => exact hs.absysMmap hok
  | absysMmapFailed t first n cleared stray mapShared filled => exact hs.absysMmapFailed hok
  | absysBrk first n served => exact hs.absysBrk first n served
  | absysMprotect t first done rest prot => exact hs.absysMprotect hok
  | absysMunmap t first n also => exact hs.absysMunmap t first n also
  | absysMunmapFailed t first n => exact hs.takeAway hok (fun _ _ _ hv _ => Or.inr hv)
  | mmap t first n shared prot => exact hs.own t (Mm.Within.mmapRegion _ _ _ rfl)
  | munmap t first n => exact hs.own t (Mm.Within.doMunmap _ _ _)
  | mprotect t first n prot => exact hs.own t (Mm.Within.ownMprotect _ _ _ _)
  | mremap t r => exact hs.own t (Mm.Within.doMremap _ _ hok)

/-! ### Runs -/

theorem GrantRun.inv {s₀ s : Granted} (h₀ : GrantInv s₀) (h : GrantRun GrantOk s₀ s) :
    GrantInv s := by
  induction h with
  | start => exact h₀
  | step op _ hok ih => exact ih.apply hok

/-- A fault that is answered is in a controlled area that allows the access. -/
theorem answered_vma {g : Group} {t page : Nat} {write : Bool} (h : answered g t page write) :
    ∃ v, (g.mm t).vma page = some v ∧ v.abControl = true ∧ accessError v.prot write = false := by
  rcases h with ⟨hpte, hsome⟩
  unfold Mm.handleAbtVmfault at hsome
  cases hv : (g.mm t).vma page with
  | none =>
    rw [hv] at hsome
    cases hsome
  | some v =>
    simp only [hv] at hsome
    split at hsome
    · cases hsome
    · rename_i hallowed
      rw [Bool.or_eq_true, not_or, Bool.not_eq_true, Bool.not_eq_true,
        Bool.not_eq_false'] at hallowed
      exact ⟨v, rfl, hallowed⟩

/-- Task 7 is the only one in the ring, and the channel starts at page `0x80000`. -/
def oneTask : Granted where
  group :=
    { mm := fun _ => ⟨fun _ => none, fun _ => none⟩
      ring := [7]
      arbiter := fun page => decide (0x80000 ≤ page ∧ page < 0xa0000) }
  grant := fun _ _ => .nothing

theorem oneTask_fresh : oneTask.Fresh :=
  ⟨fun _ _ _ h => absurd h (Option.some_ne_none _).symm, fun _ _ => rfl⟩

/-- The task moves its unit to another part of the channel, where nothing was granted. -/
def moveUnit : Mremap :=
  { addr := 0x80000, oldLen := 10, newLen := 10, mayMove := true, fixed := true,
    newAddr := 0x90000, vmEnd := 0x8000a }

end ArbiterThread
