import ArbiterThread.Kernel.VmCalls

/-!
# The Break of a Group

`sys_absys_brk` moves the break of the channel heap, which is one for the whole group.
It looks at all tasks first, whether they have something mapped where the heap is to
grow. Only then it maps the pages, in one task after the other.

Mapping can fail for other reasons than an area in the way: a limit, or memory that is
not there. There is nothing that takes back what was done before, and the break stays
where it was. So if this happens at any task but the first, some tasks have the pages
and some have not. The next attempt finds an area in the way.

A task may have asked that all its future pages are locked. The heap's pages can be read
and written, and faulting them in for the arbiter is the end of the kernel.

A request to shrink the heap is not served at all. The length of the range wraps
around and is refused at the first task.

## Main definitions

* `doAbsysBrk`, `serveBrk`, `sysAbsysBrk`: The code.
* `BrkRefused`: The reasons for which a task is refused.
* `AllOrNothing`: What the call promises.
* `Torn`: A request that stops in the middle.

## Theorems

* `doAbsysBrk_eq`: What is done for one task.
* `Growth.serve_all`, `Growth.serve_false`: The pass over the tasks.
* `sysAbsysBrk_allOrNothing_iff`: When the promise is kept.
-/

namespace ArbiterThread

open Span

/-! ### The code -/

/-- A group, and the break that the arbiter's `mm_struct` has for it. -/
structure BrkGroup where
  group : VmGroup
  startAbBrk : Nat
  abBrk : Nat

/-- `VM_DATA_DEFAULT_FLAGS | VM_ACCOUNT | def_flags | VM_AB_CONTROL` -/
def brkFlags (lim : Limits) (m : MmStruct) : BitVec 32 :=
  (if lim.readImpliesExec then VmFlag.exec else 0) ||| VmFlag.read ||| VmFlag.write |||
    VmFlag.mayRead ||| VmFlag.mayWrite ||| VmFlag.mayExec ||| VmFlag.account ||| m.defFlags |||
    VmFlag.abControl

/-- `memory` is whether `vm_enough_memory` and the allocation of an area succeed. `none` is
    the assertion that fails if the pages are to be locked. -/
def doAbsysBrk (lim : Limits) (memory : Bool) (m : MmStruct) (addr len : Nat) :
    Option (Nat × MmStruct) :=
  let len := pageAlign len
  if len = 0 then some (addr, m)
  else if taskSize < wordAdd addr len ∨ wordAdd addr len < addr then some (errWord Errno.inval, m)
  else if lim.fileMmap 0 0 0 addr ≠ 0 then some (errWord (lim.fileMmap 0 0 0 addr), m)
  else if m.lockFuture ∧ lim.memlock < len / 4096 + m.lockedVm ∧ lim.capIpcLock = false then
    some (errWord Errno.again, m)
  else
    let cleared := clearOldMaps lim.maxMapCount m addr len
    let m := cleared.2
    if cleared.1 ≠ 0 then some (errWord Errno.noMem, m)
    else if ¬mayExpandVm lim m (len / 4096) then some (errWord Errno.noMem, m)
    else if lim.maxMapCount < m.areas.length then some (errWord Errno.noMem, m)
    else if memory = false then some (errWord Errno.noMem, m)
    else
      (lockOrPopulate lim { m with
        areas := mapArea m.areas addr (wordAdd addr len) (brkFlags lim m) (addr / 4096)
        totalVm := m.totalVm + len / 4096 } addr len 0 (brkFlags lim m)).map fun m => (addr, m)

/-- There is an area in the way, or right behind. -/
def InTheWay (l : List VmArea) (oldbrk newbrk : Nat) : Prop :=
  findVmaIntersection l oldbrk (wordAdd newbrk 4096) ≠ none

instance (l : List VmArea) (oldbrk newbrk : Nat) : Decidable (InTheWay l oldbrk newbrk) :=
  inferInstanceAs (Decidable (_ ≠ _))

/-- The second pass over the tasks; `false` if it was left early. -/
def serveBrk (lim : Limits) (memory : Nat → Bool) (oldbrk newbrk : Nat) :
    List Nat → VmGroup → Option (Bool × VmGroup)
  | [], g => some (true, g)
  | u :: us, g =>
    if InTheWay (g.areas u) oldbrk newbrk then some (false, g)
    else
      match doAbsysBrk lim (memory u) (g.task u).mm oldbrk (wordSub newbrk oldbrk) with
      | none => none
      | some r =>
        if r.1 ≠ oldbrk then some (false, g.setMm u r.2)
        else serveBrk lim memory oldbrk newbrk us (g.setMm u r.2)

/-- The result is the break after the call, or an error. -/
def sysAbsysBrk (lim : Limits) (memory : Nat → Bool) (s : BrkGroup) (t abBrk : Nat) :
    Option (Nat × BrkGroup) :=
  if t ∈ s.group.ring then
    if abBrk < s.startAbBrk then some (s.abBrk, s)
    else
      let newbrk := pageAlign abBrk
      let oldbrk := pageAlign s.abBrk
      if oldbrk = newbrk then some (abBrk, { s with abBrk := abBrk })
      else if ∃ u ∈ s.group.ring, InTheWay (s.group.areas u) oldbrk newbrk then some (s.abBrk, s)
      else
        (serveBrk lim memory oldbrk newbrk s.group.ring s.group).map fun r =>
          if r.1 then (abBrk, { s with group := r.2, abBrk := abBrk })
          else (s.abBrk, { s with group := r.2 })
  else some (errWord Errno.perm, s)

/-! ### One task -/

/-- The reasons for which a task does not get the pages. -/
def BrkRefused (lim : Limits) (memory : Bool) (m : MmStruct) (addr len : Nat) : Prop :=
  lim.fileMmap 0 0 0 addr ≠ 0 ∨
  (m.lockFuture ∧ lim.memlock < len / 4096 + m.lockedVm ∧ lim.capIpcLock = false) ∨
  ¬mayExpandVm lim m (len / 4096) ∨ lim.maxMapCount < m.areas.length ∨ memory = false

instance (lim : Limits) (memory : Bool) (m : MmStruct) (addr len : Nat) :
    Decidable (BrkRefused lim memory m addr len) := inferInstanceAs (Decidable (_ ∨ _))

theorem brkFlags_access (lim : Limits) (m : MmStruct) :
    brkFlags lim m &&& (VmFlag.read ||| VmFlag.write) ≠ 0 := by
  unfold brkFlags MmStruct.defFlags
  cases lim.readImpliesExec <;> cases m.lockFuture <;> decide

theorem brkFlags_locked (lim : Limits) (m : MmStruct) :
    brkFlags lim m &&& VmFlag.locked ≠ 0 ↔ m.lockFuture = true := by
  unfold brkFlags MmStruct.defFlags
  cases lim.readImpliesExec <;> cases m.lockFuture <;> decide

theorem pageAlign_lt (n : Nat) : pageAlign n < 2 ^ 32 := by
  unfold pageAlign
  omega

theorem errWord_ne {e a : Nat} (he : e ≠ 0) (hlt : e < 4096) (ha : a % 4096 = 0) :
    errWord e ≠ a := by
  unfold errWord
  omega

section Task

variable {oldbrk newbrk : Nat} (hold : oldbrk % 4096 = 0) (hnew : newbrk % 4096 = 0)
  (hold' : oldbrk < 2 ^ 32) (hnew' : newbrk < 2 ^ 32)

include hold hnew hold' hnew'

/-- A range that does not grow, or that leaves the address space of tasks, is refused. -/
theorem doAbsysBrk_inval (lim : Limits) (memory : Bool) (m : MmStruct)
    (h : newbrk < oldbrk ∨ oldbrk < newbrk ∧ taskSize < newbrk) :
    doAbsysBrk lim memory m oldbrk (wordSub newbrk oldbrk) = some (errWord Errno.inval, m) := by
  have hlen : pageAlign (wordSub newbrk oldbrk) = wordSub newbrk oldbrk := by
    unfold pageAlign wordSub
    omega
  have hpos : wordSub newbrk oldbrk ≠ 0 := by
    unfold wordSub
    omega
  have hend : wordAdd oldbrk (wordSub newbrk oldbrk) = newbrk := by
    unfold wordAdd wordSub
    omega
  unfold doAbsysBrk
  simp only [hlen, if_neg hpos, hend]
  exact if_pos (by omega)

/-- A range that grows and is free is mapped, unless there is a reason to refuse it. Then the
    pages are there, if they are not to be locked. -/
theorem doAbsysBrk_eq (lim : Limits) (memory : Bool) (m : MmStruct) (hgrow : oldbrk < newbrk)
    (hbound : newbrk ≤ taskSize) (hfree : findVmaIntersection m.areas oldbrk newbrk = none) :
    (BrkRefused lim memory m oldbrk (newbrk - oldbrk) →
      ∃ e, doAbsysBrk lim memory m oldbrk (wordSub newbrk oldbrk) = some (e, m) ∧ e ≠ oldbrk) ∧
    (¬BrkRefused lim memory m oldbrk (newbrk - oldbrk) →
      doAbsysBrk lim memory m oldbrk (wordSub newbrk oldbrk) =
        if m.lockFuture then none
        else some (oldbrk, { m with
          areas := mapArea m.areas oldbrk newbrk (brkFlags lim m) (oldbrk / 4096)
          totalVm := m.totalVm + (newbrk - oldbrk) / 4096 })) := by
  have hsub : wordSub newbrk oldbrk = newbrk - oldbrk := by
    unfold wordSub
    omega
  have hlen : pageAlign (newbrk - oldbrk) = newbrk - oldbrk := by
    unfold pageAlign
    omega
  have hend : wordAdd oldbrk (newbrk - oldbrk) = newbrk := by
    unfold wordAdd
    omega
  -- nothing is in the way, so nothing is unmapped
  have hclear : clearOldMaps lim.maxMapCount m oldbrk (newbrk - oldbrk) = (0, m) := by
    unfold clearOldMaps
    rw [hend, hfree]
  unfold doAbsysBrk
  simp only [hsub, hlen, hend, hclear, if_neg (show newbrk - oldbrk ≠ 0 by omega),
    if_neg (show ¬(taskSize < newbrk ∨ newbrk < oldbrk) by omega), ne_eq, not_true_eq_false,
    if_false]
  have hnoMem := errWord_ne (show Errno.noMem ≠ 0 by decide) (by decide) hold
  constructor
  -- the refusals come in the order of the tests
  · intro hrefused
    by_cases hsec : ¬lim.fileMmap 0 0 0 oldbrk = 0
    · exact ⟨_, if_pos hsec, errWord_ne hsec (lim.fileMmap_lt ..) hold⟩
    rw [if_neg hsec]
    by_cases hlock : m.lockFuture ∧ lim.memlock < (newbrk - oldbrk) / 4096 + m.lockedVm ∧
        lim.capIpcLock = false
    · exact ⟨_, if_pos hlock, errWord_ne (by decide) (by decide) hold⟩
    rw [if_neg hlock]
    by_cases hroom : ¬mayExpandVm lim m ((newbrk - oldbrk) / 4096)
    · exact ⟨_, if_pos hroom, hnoMem⟩
    rw [if_neg hroom]
    by_cases hcount : lim.maxMapCount < m.areas.length
    · exact ⟨_, if_pos hcount, hnoMem⟩
    rw [if_neg hcount]
    unfold BrkRefused at hrefused
    have hmemory : memory = false := by tauto
    exact ⟨_, if_pos hmemory, hnoMem⟩
  · intro haccepted
    unfold BrkRefused at haccepted
    simp only [not_or] at haccepted
    obtain ⟨hsec, hlock, hroom, hcount, hmemory⟩ := haccepted
    rw [if_neg hsec, if_neg hlock, if_neg hroom, if_neg hcount, if_neg hmemory,
      lockOrPopulate_access lim _ _ _ (brkFlags_access lim m) (by decide)]
    simp only [brkFlags_locked]
    split_ifs
    · rfl
    · rfl

end Task

/-! ### All tasks -/

theorem brkFlags_linear (lim : Limits) (m : MmStruct) :
    brkFlags lim m &&& VmFlag.canNonlinear = 0 := by
  unfold brkFlags MmStruct.defFlags
  cases lim.readImpliesExec <;> cases m.lockFuture <;> decide

/-- The areas with the pages between the two breaks. -/
def grownAreas (lim : Limits) (m : MmStruct) (oldbrk newbrk : Nat) : List VmArea :=
  mapArea m.areas oldbrk newbrk (brkFlags lim m) (oldbrk / 4096)

/-- A request for pages that no task has mapped yet. -/
structure Growth (g : VmGroup) (us : List Nat) (oldbrk newbrk : Nat) : Prop where
  old : oldbrk % 4096 = 0
  new : newbrk % 4096 = 0
  lt : oldbrk < newbrk
  bound : newbrk ≤ taskSize
  nodup : us.Nodup
  ok : ∀ u ∈ us, AreasOk (g.areas u)
  free : ∀ u ∈ us, ¬InTheWay (g.areas u) oldbrk newbrk

namespace Growth

variable {lim : Limits} {memory : Nat → Bool} {g : VmGroup} {u : Nat} {us : List Nat}
  {oldbrk newbrk : Nat}

theorem gap (h : Growth g us oldbrk newbrk) (hu : u ∈ us) {x : Nat} (hx : oldbrk ≤ x)
    (hxs : x < newbrk) : flagsAt (g.areas u) x = none := by
  have hbound := h.bound
  have hfree := not_not.mp (h.free u hu)
  unfold taskSize at hbound
  rw [wordAdd_eq (by omega)] at hfree
  exact flagsAt_eq_none_iff.mpr
    (get_of_meeting_eq_none (h.ok u hu).ordered hfree hx (by omega))

theorem meeting (h : Growth g us oldbrk newbrk) (hu : u ∈ us) :
    findVmaIntersection (g.areas u) oldbrk newbrk = none :=
  (meeting_eq_none_iff (h.ok u hu).ordered h.lt).mpr fun _ hx hxs =>
    flagsAt_eq_none_iff.mp (h.gap hu hx hxs)

theorem flagsAt_grown (lim : Limits) (h : Growth g us oldbrk newbrk) (hu : u ∈ us) (x : Nat) :
    flagsAt (grownAreas lim (g.task u).mm oldbrk newbrk) x =
      if oldbrk ≤ x ∧ x < newbrk then some (brkFlags lim (g.task u).mm)
      else flagsAt (g.areas u) x :=
  ((h.ok u hu).mapArea (oldbrk / 4096) h.lt (fun _ hx hxs => h.gap hu hx hxs)
    (brkFlags_linear lim (g.task u).mm)).2.1 x

/-- The rest of the tasks does not see what was done for the first. -/
theorem tail (h : Growth g (u :: us) oldbrk newbrk) (m : MmStruct) :
    Growth (g.setMm u m) us oldbrk newbrk := by
  obtain ⟨hu, hus⟩ := List.nodup_cons.mp h.nodup
  have hkeep : ∀ w ∈ us, (g.setMm u m).areas w = g.areas w := fun w hw => by
    unfold VmGroup.areas
    rw [g.setMm_task_of_ne (ne_of_mem_of_not_mem hw hu)]
  refine ⟨h.old, h.new, h.lt, h.bound, hus, fun w hw => ?_, fun w hw => ?_⟩ <;>
    rw [hkeep w hw]
  · exact h.ok w (by simp [hw])
  · exact h.free w (by simp [hw])

/-- The first task is refused: the pass is left, and nothing has changed. -/
theorem serve_refused (h : Growth g (u :: us) oldbrk newbrk)
    (hu : BrkRefused lim (memory u) (g.task u).mm oldbrk (newbrk - oldbrk)) :
    serveBrk lim memory oldbrk newbrk (u :: us) g = some (false, g) := by
  have hbound := h.bound
  have hlt := h.lt
  unfold taskSize at hbound
  obtain ⟨e, heq, he⟩ := (doAbsysBrk_eq h.old h.new (by omega) (by omega) lim (memory u)
    (g.task u).mm h.lt h.bound (h.meeting (by simp))).1 hu
  rw [serveBrk, if_neg (h.free u (by simp))]
  simp only [heq, if_pos he, VmGroup.setMm_mm_self]

/-- The first task is not refused, and its pages are to be locked. -/
theorem serve_locked (h : Growth g (u :: us) oldbrk newbrk)
    (hu : ¬BrkRefused lim (memory u) (g.task u).mm oldbrk (newbrk - oldbrk))
    (hlock : (g.task u).mm.lockFuture = true) :
    serveBrk lim memory oldbrk newbrk (u :: us) g = none := by
  have hbound := h.bound
  have hlt := h.lt
  unfold taskSize at hbound
  have heq := (doAbsysBrk_eq h.old h.new (by omega) (by omega) lim (memory u)
    (g.task u).mm h.lt h.bound (h.meeting (by simp))).2 hu
  rw [if_pos hlock] at heq
  rw [serveBrk, if_neg (h.free u (by simp))]
  simp only [heq]

/-- The first task gets the pages, and the pass goes on. -/
theorem serve_accepted (h : Growth g (u :: us) oldbrk newbrk)
    (hu : ¬BrkRefused lim (memory u) (g.task u).mm oldbrk (newbrk - oldbrk))
    (hlock : ¬(g.task u).mm.lockFuture = true) :
    ∃ m, m.areas = grownAreas lim (g.task u).mm oldbrk newbrk ∧
      serveBrk lim memory oldbrk newbrk (u :: us) g =
        serveBrk lim memory oldbrk newbrk us (g.setMm u m) := by
  have hbound := h.bound
  have hlt := h.lt
  unfold taskSize at hbound
  have heq := (doAbsysBrk_eq h.old h.new (by omega) (by omega) lim (memory u)
    (g.task u).mm h.lt h.bound (h.meeting (by simp))).2 hu
  rw [if_neg hlock] at heq
  refine ⟨{ (g.task u).mm with
    areas := grownAreas lim (g.task u).mm oldbrk newbrk
    totalVm := (g.task u).mm.totalVm + (newbrk - oldbrk) / 4096 }, rfl, ?_⟩
  rw [serveBrk, if_neg (h.free u (by simp))]
  simp only [heq, ne_eq, not_true_eq_false, if_false, grownAreas]

/-- The pass changes no task that is not in its list. -/
theorem serve_others (h : Growth g us oldbrk newbrk) {w : Nat} (hw : w ∉ us)
    {r : Bool × VmGroup} (hr : serveBrk lim memory oldbrk newbrk us g = some r) :
    r.2.task w = g.task w := by
  induction us generalizing g with
  | nil =>
    cases hr
    rfl
  | cons u us ih =>
    rw [List.mem_cons, not_or] at hw
    by_cases hu : BrkRefused lim (memory u) (g.task u).mm oldbrk (newbrk - oldbrk)
    · rw [h.serve_refused hu] at hr
      cases hr
      rfl
    by_cases hlock : (g.task u).mm.lockFuture = true
    · rw [h.serve_locked hu hlock] at hr
      cases hr
    · obtain ⟨m, -, hserve⟩ := h.serve_accepted hu hlock
      rw [hserve] at hr
      rw [ih (h.tail m) hw.2 hr, g.setMm_task_of_ne hw.1]

/-- No task is refused, and none has its pages locked: all of them get the pages. -/
theorem serve_all (lim : Limits) (memory : Nat → Bool) (h : Growth g us oldbrk newbrk)
    (hall : ∀ u ∈ us, ¬BrkRefused lim (memory u) (g.task u).mm oldbrk (newbrk - oldbrk) ∧
      ¬(g.task u).mm.lockFuture = true) :
    ∃ g', serveBrk lim memory oldbrk newbrk us g = some (true, g') ∧
      ∀ u ∈ us, g'.areas u = grownAreas lim (g.task u).mm oldbrk newbrk := by
  induction us generalizing g with
  | nil => exact ⟨g, rfl, by simp⟩
  | cons u us ih =>
    obtain ⟨hu, -⟩ := List.nodup_cons.mp h.nodup
    obtain ⟨hrefused, hlock⟩ := hall u (by simp)
    obtain ⟨m, hm, hserve⟩ := h.serve_accepted hrefused hlock
    have hkeep : ∀ w ∈ us, (g.setMm u m).task w = g.task w := fun w hw =>
      g.setMm_task_of_ne (ne_of_mem_of_not_mem hw hu) m
    obtain ⟨g', hret, hareas⟩ := ih (h.tail m) fun w hw => by
      rw [hkeep w hw]
      exact hall w (by simp [hw])
    refine ⟨g', by rw [hserve, hret], fun w hw => ?_⟩
    rcases List.mem_cons.mp hw with rfl | hw
    · rw [VmGroup.areas, (h.tail m).serve_others hu hret, g.setMm_task_self]
      exact hm
    · rw [hareas w hw, hkeep w hw]

/-- Some task is refused, or has its pages locked: the pass does not come to its end. -/
theorem serve_false (h : Growth g us oldbrk newbrk)
    (hstop : ∃ u ∈ us, BrkRefused lim (memory u) (g.task u).mm oldbrk (newbrk - oldbrk) ∨
      (g.task u).mm.lockFuture = true)
    {r : Bool × VmGroup} (hr : serveBrk lim memory oldbrk newbrk us g = some r) :
    r.1 = false := by
  induction us generalizing g with
  | nil => simp at hstop
  | cons u us ih =>
    obtain ⟨hu', -⟩ := List.nodup_cons.mp h.nodup
    by_cases hu : BrkRefused lim (memory u) (g.task u).mm oldbrk (newbrk - oldbrk)
    · rw [h.serve_refused hu] at hr
      cases hr
      rfl
    by_cases hlock : (g.task u).mm.lockFuture = true
    · rw [h.serve_locked hu hlock] at hr
      cases hr
    · obtain ⟨m, -, hserve⟩ := h.serve_accepted hu hlock
      rw [hserve] at hr
      obtain ⟨w, hw, hstop⟩ := hstop
      rcases List.mem_cons.mp hw with rfl | hw
      · exact absurd hstop (not_or.mpr ⟨hu, hlock⟩)
      · refine ih (h.tail m) ⟨w, hw, ?_⟩ hr
        rwa [g.setMm_task_of_ne (ne_of_mem_of_not_mem hw hu')]

end Growth

/-! ### The promise -/

/-- Every task gets the pages and the break is moved. -/
structure Moved (lim : Limits) (s s' : BrkGroup) (abBrk : Nat) : Prop where
  moved : s'.abBrk = abBrk
  mapped : ∀ u ∈ s.group.ring, ∀ x, flagsAt (s'.group.areas u) x =
    if pageAlign s.abBrk ≤ x ∧ x < pageAlign abBrk then some (brkFlags lim (s.group.task u).mm)
    else flagsAt (s.group.areas u) x

/-- Every task gets the pages and the break is moved, or nothing has changed at all. -/
def AllOrNothing (lim : Limits) (s s' : BrkGroup) (abBrk : Nat) : Prop :=
  Moved lim s s' abBrk ∨ s' = s

/-- The range grows into free memory of all tasks, the first task is not refused, and some
    task is refused or has its pages locked. -/
structure Torn (lim : Limits) (memory : Nat → Bool) (s : BrkGroup) (t abBrk : Nat) : Prop where
  target : t ∈ s.group.ring
  start : s.startAbBrk ≤ abBrk
  grow : pageAlign s.abBrk < pageAlign abBrk
  bound : pageAlign abBrk ≤ taskSize
  free : ∀ u ∈ s.group.ring,
    ¬InTheWay (s.group.areas u) (pageAlign s.abBrk) (pageAlign abBrk)
  first : ∀ u ∈ s.group.ring.head?, ¬BrkRefused lim (memory u) (s.group.task u).mm
    (pageAlign s.abBrk) (pageAlign abBrk - pageAlign s.abBrk)
  stopped : ∃ u ∈ s.group.ring, BrkRefused lim (memory u) (s.group.task u).mm
    (pageAlign s.abBrk) (pageAlign abBrk - pageAlign s.abBrk) ∨
    (s.group.task u).mm.lockFuture = true

/-- A request that does not grow the heap, or grows it out of the address space, changes
    nothing. -/
theorem serveBrk_inval (lim : Limits) (memory : Nat → Bool) {g : VmGroup} {u : Nat}
    {us : List Nat} {oldbrk newbrk : Nat} (hold : oldbrk % 4096 = 0) (hnew : newbrk % 4096 = 0)
    (hold' : oldbrk < 2 ^ 32) (hnew' : newbrk < 2 ^ 32)
    (h : newbrk < oldbrk ∨ oldbrk < newbrk ∧ taskSize < newbrk) :
    serveBrk lim memory oldbrk newbrk (u :: us) g = some (false, g) := by
  rw [serveBrk]
  by_cases hway : InTheWay (g.areas u) oldbrk newbrk
  · rw [if_pos hway]
  rw [if_neg hway]
  simp only [doAbsysBrk_inval hold hnew hold' hnew' lim (memory u) (g.task u).mm h,
    if_pos (errWord_ne (show Errno.inval ≠ 0 by decide) (by decide) hold), VmGroup.setMm_mm_self]

/-- The call keeps its promise unless it is torn. -/
theorem sysAbsysBrk_allOrNothing_iff (lim : Limits) (memory : Nat → Bool) (s : BrkGroup)
    (t abBrk : Nat) (hok : ∀ u ∈ s.group.ring, AreasOk (s.group.areas u)) :
    (∃ r s', sysAbsysBrk lim memory s t abBrk = some (r, s') ∧ AllOrNothing lim s s' abBrk) ↔
      ¬Torn lim memory s t abBrk := by
  have hnothing : ∀ r : Nat, ∃ r' s', some (r, s) = some (r', s') ∧
      AllOrNothing lim s s' abBrk := fun r => ⟨r, s, rfl, .inr rfl⟩
  unfold sysAbsysBrk
  by_cases ht : t ∈ s.group.ring
  swap
  · rw [if_neg ht]
    exact iff_of_true (hnothing _) fun h => ht h.target
  rw [if_pos ht]
  by_cases hstart : abBrk < s.startAbBrk
  · rw [if_pos hstart]
    exact iff_of_true (hnothing _) fun h => absurd h.start (by omega)
  rw [if_neg hstart]
  by_cases heq : pageAlign s.abBrk = pageAlign abBrk
  · simp only [if_pos heq]
    refine iff_of_true ⟨_, _, rfl, .inl ⟨rfl, fun u hu x => ?_⟩⟩ fun h => absurd h.grow (by omega)
    rw [if_neg (by omega)]
  simp only [if_neg heq]
  by_cases hway : ∃ u ∈ s.group.ring,
      InTheWay (s.group.areas u) (pageAlign s.abBrk) (pageAlign abBrk)
  · simp only [if_pos hway]
    obtain ⟨u, hu, hway⟩ := hway
    exact iff_of_true (hnothing _) fun h => h.free u hu hway
  simp only [if_neg hway]
  have hold := pageAlign_mod s.abBrk
  have hnew := pageAlign_mod abBrk
  -- The ring is not empty, for the target is in it.
  obtain ⟨u₀, us, hring⟩ : ∃ u₀ us, s.group.ring = u₀ :: us := by
    rcases hring : s.group.ring with _ | ⟨u₀, us⟩
    · rw [hring] at ht
      simp at ht
    · exact ⟨u₀, us, rfl⟩
  by_cases hgrow : pageAlign s.abBrk < pageAlign abBrk ∧ pageAlign abBrk ≤ taskSize
  swap
  · rw [hring, serveBrk_inval lim memory hold hnew (pageAlign_lt _) (pageAlign_lt _) (by omega)]
    exact iff_of_true (hnothing _) fun h => hgrow ⟨h.grow, h.bound⟩
  have hgrowth : Growth s.group s.group.ring (pageAlign s.abBrk) (pageAlign abBrk) :=
    ⟨hold, hnew, hgrow.1, hgrow.2, s.group.nodup, hok, fun u hu h => hway ⟨u, hu, h⟩⟩
  by_cases hstop : ∃ u ∈ s.group.ring, BrkRefused lim (memory u) (s.group.task u).mm
      (pageAlign s.abBrk) (pageAlign abBrk - pageAlign s.abBrk) ∨
      (s.group.task u).mm.lockFuture = true
  swap
  · obtain ⟨g', hret, hareas⟩ := hgrowth.serve_all lim memory
      fun u hu => not_or.mp fun h => hstop ⟨u, hu, h⟩
    rw [hret]
    refine iff_of_true ⟨_, _, rfl, .inl ⟨rfl, fun u hu x => ?_⟩⟩ fun h => hstop h.stopped
    change flagsAt (g'.areas u) x = _
    rw [hareas u hu]
    exact hgrowth.flagsAt_grown lim hu x
  by_cases hfirst : BrkRefused lim (memory u₀) (s.group.task u₀).mm
      (pageAlign s.abBrk) (pageAlign abBrk - pageAlign s.abBrk)
  · rw [hring] at hgrowth
    rw [hring, hgrowth.serve_refused hfirst]
    exact iff_of_true (hnothing _) fun h => h.first u₀ (by simp [hring]) hfirst
  refine iff_of_false ?_ (not_not.mpr ⟨ht, by omega, hgrow.1, hgrow.2,
    fun u hu h => hway ⟨u, hu, h⟩, by simpa [hring] using hfirst, hstop⟩)
  rintro ⟨r, s', hresult, hpromise⟩
  obtain ⟨served, hserved, hresult⟩ := Option.map_eq_some_iff.mp hresult
  rw [hgrowth.serve_false hstop hserved] at hresult
  cases hresult
  rw [hring] at hgrowth hserved
  by_cases hlock : (s.group.task u₀).mm.lockFuture = true
  · rw [hgrowth.serve_locked hfirst hlock] at hserved
    cases hserved
  · obtain ⟨m, hm, hserve⟩ := hgrowth.serve_accepted hfirst hlock
    rw [hserve] at hserved
    rcases hpromise with hmoved | hsame
    · exact heq (congrArg pageAlign hmoved.moved)
    · -- The first task has got the pages.
      have hareas := congrArg (fun s => s.group.areas u₀) hsame
      simp only at hareas
      rw [VmGroup.areas,
        (hgrowth.tail m).serve_others (List.nodup_cons.mp hgrowth.nodup).1 hserved,
        VmGroup.setMm_task_self] at hareas
      have hflags := hgrowth.flagsAt_grown lim (u := u₀) (by simp) (pageAlign s.abBrk)
      rw [if_pos ⟨Nat.le_refl _, hgrow.1⟩, ← hm, hareas,
        hgrowth.gap (by simp) (Nat.le_refl _) hgrow.1] at hflags
      exact absurd hflags (by simp)

/-- Two tasks without areas, and an empty heap. -/
def emptyHeap : BrkGroup where
  group := pairOf [] []
  startAbBrk := 0x80000000
  abBrk := 0x80000000

/-- With memory for all, the heap grows. -/
theorem sysAbsysBrk_allOrNothing_grow :
    ∃ r s', sysAbsysBrk roomyLimits (fun _ => true) emptyHeap 1 0x8000a000 = some (r, s') ∧
      AllOrNothing roomyLimits emptyHeap s' 0x8000a000 :=
  (sysAbsysBrk_allOrNothing_iff roomyLimits (fun _ => true) emptyHeap 1 0x8000a000
    (by decide)).mpr fun h => absurd h.stopped (by decide)

/-- There is memory for the first task only. It has got the pages, the break has not moved, and
    when there is memory the same request is refused. -/
theorem sysAbsysBrk_torn :
    (∀ u ∈ emptyHeap.group.ring, AreasOk (emptyHeap.group.areas u)) ∧
    ∃ s', sysAbsysBrk roomyLimits (fun u => u = 1) emptyHeap 1 0x8000a000 =
        some (0x80000000, s') ∧
      ¬AllOrNothing roomyLimits emptyHeap s' 0x8000a000 ∧
      (sysAbsysBrk roomyLimits (fun _ => true) s' 1 0x8000a000).map Prod.fst =
        some 0x80000000 := by
  refine ⟨by decide, ?_⟩
  have hfirst : (sysAbsysBrk roomyLimits (fun u => u = 1) emptyHeap 1 0x8000a000).map
      (fun r => (r.1, r.2.abBrk, (r.2.group.areas 1).length)) =
      some (0x80000000, 0x80000000, 1) := by decide +kernel
  have hretry : (sysAbsysBrk roomyLimits (fun u => u = 1) emptyHeap 1 0x8000a000).map
      (fun r => (sysAbsysBrk roomyLimits (fun _ => true) r.2 1 0x8000a000).map Prod.fst) =
      some (some 0x80000000) := by decide +kernel
  obtain ⟨⟨r, s'⟩, hcall, hstate⟩ := Option.map_eq_some_iff.mp hfirst
  rw [hcall, Option.map_some, Option.some.injEq] at hretry
  simp only [Prod.mk.injEq] at hstate
  obtain ⟨rfl, hbrk, hareas⟩ := hstate
  refine ⟨s', hcall, ?_, hretry⟩
  rintro (hmoved | rfl)
  · exact absurd (hbrk.symm.trans hmoved.moved) (by decide)
  · exact absurd hareas (by decide)

end ArbiterThread
