import ArbiterThread.Kernel.Control

/-!
# Futex Keys

A futex on a private page is known by the address space it is in and its address
there. The threads of a group have an address space each, so a mutex in their global
data would have as many keys as there are threads. Each special task therefore keeps
a pointer to the address space of the first child of the arbiter, and
`get_futex_key` uses that one for addresses of the data segment.

The pointer is handed down: a child of the arbiter takes its own address space, any
other task what its parent has. So tasks whose chains of parents lead to the same
child have the same pointer, whatever the lengths of the chains.

The test for the data segment is made after the address was rounded down to its page.
Where the segment does not start at a page boundary its first page fails the test, and
tasks with address spaces of their own get keys of their own.

## Main definitions

* `FutexTable`: The tasks with their address spaces.
* `getFutexKey`: The key of an address.
* `FutexRun`: Sequences of forks, executions, changes of parent and changes of role.

## Theorems

* `LeaderInv.threadControl`: A change of role keeps the pointers of a group equal.
* `FutexRun.inv`: They are equal in every run.
* `shared_key_iff`: Two tasks of a group have one key exactly if the page starts inside
  the segment or they have one address space.
* `first_page_keys_differ`: Two tasks have different keys for a word of the first page.
-/

namespace ArbiterThread

/-! ### Tasks and address spaces -/

/-- The fields of `mm_struct` that delimit the data segment. -/
structure DataSegment where
  startData : Nat
  startBrk : Nat

/-- The tasks, with the address spaces they point to. Those are numbered in the order
    of their creation. -/
structure FutexTable where
  table : TaskTable
  mm : Nat → Nat
  segments : Nat → DataSegment
  mmCount : Nat
  abTgleaderMm : Nat → Option Nat
  /-- the child of the arbiter that a chain of special parents leads to; the kernel does
      not keep this -/
  leader : Nat → Option Nat

def isCommon (t : Task) : Prop := getCategory t = 0

instance (t : Task) : Decidable (isCommon t) := inferInstanceAs (Decidable (_ = _))

def isSpecial (t : Task) : Prop := ¬ isArbiter t ∧ ¬ isCommon t

instance (t : Task) : Decidable (isSpecial t) := inferInstanceAs (Decidable (_ ∧ _))

def FutexTable.start : FutexTable where
  table := .start
  mm := fun _ => 0
  segments := fun _ => ⟨0, 0⟩
  mmCount := 1
  abTgleaderMm := fun _ => none
  leader := fun _ => none

namespace FutexTable

variable (k : FutexTable)

/-- `current->mm` of a task. -/
def segment (t : Nat) : DataSegment := k.segments (k.mm t)

/-- A new task. Without `CLONE_VM` its address space is a copy; the pointer to the
    leader's is copied with the rest of `task_struct`. -/
def fork (caller parent : Nat) (cloneVm : Bool) : FutexTable :=
  { table := k.table.fork parent
    mm := Function.update k.mm k.table.count (if cloneVm then k.mm caller else k.mmCount)
    segments := Function.update k.segments k.mmCount (k.segment caller)
    mmCount := k.mmCount + 1
    abTgleaderMm := Function.update k.abTgleaderMm k.table.count (k.abTgleaderMm caller)
    leader := Function.update k.leader k.table.count none }

/-- `execve`: a new program, in a new address space. -/
def execve (t : Nat) (segment : DataSegment) : FutexTable :=
  { k with
    mm := Function.update k.mm t k.mmCount
    segments := Function.update k.segments k.mmCount segment
    mmCount := k.mmCount + 1 }

/-- The parent of a task has died, and another takes its place. -/
def reparent (t parent : Nat) : FutexTable :=
  { k with table := k.table.setTask t fun x => { x with parent := parent } }

/-- `sys_absys_thread_control`, with the pointer for the futex keys. -/
def threadControl (current : Nat) (abRole : BitVec 32) : FutexTable :=
  let parent := (k.table.tasks current).parent
  if abRole = abSetMeSpecial then
    if isArbiter (k.table.tasks parent) then
      { k with
        table := k.table.threadControl current abRole
        abTgleaderMm := Function.update k.abTgleaderMm current (some (k.mm current))
        leader := Function.update k.leader current (some current) }
    else
      { k with
        table := k.table.threadControl current abRole
        abTgleaderMm := Function.update k.abTgleaderMm current (k.abTgleaderMm parent)
        leader := Function.update k.leader current
          (if isSpecial (k.table.tasks parent) then k.leader parent else none) }
  else { k with table := k.table.threadControl current abRole }

end FutexTable

/-! ### Keys -/

def pageSize : Nat := 4096

def futOffInode : Nat := 1

def futOffMmshared : Nat := 2

/-- What the pointer of a key points to. -/
inductive FutexOwner where
  | mm (n : Nat)
  | inode (n : Nat)
  deriving DecidableEq

/-- `union futex_key`: the word is the address of the page, or its index in a file. -/
structure FutexKey where
  word : Nat
  ptr : FutexOwner
  offset : Nat
  deriving DecidableEq

inductive FutexError where
  | einval
  | efault
  /-- the error of `get_user_pages_fast` -/
  | pages (err : Int)
  /-- a failed `ab_assert` -/
  | bug
  deriving DecidableEq

/-- A page with a mapping: anonymous, or of a file. -/
inductive FutexPage where
  | anon
  | file (host index : Nat)
  deriving DecidableEq

/-- The loop at `again`, over the answers of `get_user_pages_fast`. It goes round while
    the page has no mapping. -/
def lockedPage : List (Except Int (Option FutexPage)) → Option (Except Int FutexPage)
  | [] => none
  | .error err :: _ => some (.error err)
  | .ok none :: answers => lockedPage answers
  | .ok (some page) :: _ => some (.ok page)

/-- What `get_futex_key` makes of the page at `address`. -/
def pageKey (k : FutexTable) (current address offset : Nat) :
    FutexPage → Except FutexError FutexKey
  | .anon =>
    if isSpecial (k.table.tasks current) ∧ (k.segment current).startData ≤ address ∧
        address < (k.segment current).startBrk then
      match k.abTgleaderMm current with
      | none => .error .bug
      | some mmTgleader => .ok ⟨address, .mm mmTgleader, offset ||| futOffMmshared⟩
    else .ok ⟨address, .mm (k.mm current), offset ||| futOffMmshared⟩
  | .file host index => .ok ⟨index, .inode host, offset ||| futOffInode⟩

/-- `get_futex_key`, called by `current`. There is no result while it waits for a page. -/
def getFutexKey (k : FutexTable) (current uaddr : Nat) (fshared accessOk : Bool)
    (answers : List (Except Int (Option FutexPage))) : Option (Except FutexError FutexKey) :=
  let offset := uaddr % pageSize
  if uaddr % 4 ≠ 0 then some (.error .einval)
  else
    let address := uaddr - offset
    if ¬ fshared then
      if ¬ accessOk then some (.error .efault)
      else some (.ok ⟨address, .mm (k.mm current), offset⟩)
    else
      match lockedPage answers with
      | none => none
      | some (.error err) => some (.error (.pages err))
      | some (.ok page) => some (pageKey k current address offset page)

/-! ### Leaders -/

/-- A task that has a leader has the pointer of its leader, which leads itself. -/
structure LeaderInv (k : FutexTable) : Prop where
  self : ∀ {t l}, k.leader t = some l → k.leader l = some l
  same : ∀ {t l}, k.leader t = some l → k.abTgleaderMm t = k.abTgleaderMm l
  isSome : ∀ {t l}, k.leader t = some l → (k.abTgleaderMm t).isSome
  old : ∀ {t l}, k.leader t = some l → t < k.table.count

/-- No task leads others before it has a leader. -/
theorem LeaderInv.ne_of_none {k : FutexTable} (hk : LeaderInv k) {t l current : Nat}
    (hnone : k.leader current = none) (h : k.leader t = some l) : l ≠ current := by
  rintro rfl
  exact absurd (hnone.symm.trans (hk.self h)) (by simp)

/-- A task without a leader gets the pointer and the leader of another, or leads. -/
theorem LeaderInv.join {k k' : FutexTable} (hk : LeaderInv k) {current : Nat} {m l : Option Nat}
    (hnone : k.leader current = none) (hcount : k.table.count ≤ k'.table.count)
    (hlt : current < k'.table.count)
    (hmm : k'.abTgleaderMm = Function.update k.abTgleaderMm current m)
    (hleader : k'.leader = Function.update k.leader current l)
    (hfrom : ∀ x, l = some x → m.isSome ∧
      (x = current ∨ (k.leader x = some x ∧ m = k.abTgleaderMm x))) : LeaderInv k' := by
  -- the leaders of the others are others, so their pointers stay
  have hother : ∀ {t x}, t ≠ current → k'.leader t = some x →
      k.leader t = some x ∧ x ≠ current := by
    intro t x ht h
    rw [hleader, Function.update_of_ne ht] at h
    exact ⟨h, hk.ne_of_none hnone h⟩
  have hcurrent : ∀ {x}, k'.leader current = some x → l = some x := by
    intro x h
    rwa [hleader, Function.update_self] at h
  refine ⟨?_, ?_, ?_, ?_⟩
  · intro t x h
    by_cases ht : t = current
    · obtain rfl | ⟨hx, -⟩ := (hfrom x (hcurrent (ht ▸ h))).2
      · exact ht ▸ h
      · rw [hleader, Function.update_of_ne (hk.ne_of_none hnone hx)]
        exact hx
    · obtain ⟨hold, hx⟩ := hother ht h
      rw [hleader, Function.update_of_ne hx]
      exact hk.self hold
  · intro t x h
    by_cases ht : t = current
    · obtain rfl | ⟨hx, hm⟩ := (hfrom x (hcurrent (ht ▸ h))).2
      · rw [ht]
      · rw [hmm, ht, Function.update_self, Function.update_of_ne (hk.ne_of_none hnone hx)]
        exact hm
    · obtain ⟨hold, hx⟩ := hother ht h
      rw [hmm, Function.update_of_ne ht, Function.update_of_ne hx]
      exact hk.same hold
  · intro t x h
    by_cases ht : t = current
    · rw [hmm, ht, Function.update_self]
      exact (hfrom x (hcurrent (ht ▸ h))).1
    · rw [hmm, Function.update_of_ne ht]
      exact hk.isSome (hother ht h).1
  · intro t x h
    by_cases ht : t = current
    · rw [ht]
      exact hlt
    · exact Nat.lt_of_lt_of_le (hk.old (hother ht h).1) hcount

theorem TaskTable.threadControl_count (k : TaskTable) (current : Nat) (abRole : BitVec 32) :
    (k.threadControl current abRole).count = k.count := by
  unfold TaskTable.threadControl
  split
  · rfl
  · split <;> rfl

theorem LeaderInv.threadControl {k : FutexTable} (hk : LeaderInv k) {current : Nat}
    {abRole : BitVec 32} (hlt : current < k.table.count)
    (hok : abRole = abSetMeSpecial → k.leader current = none) :
    LeaderInv (k.threadControl current abRole) := by
  have hcount := k.table.threadControl_count current abRole
  unfold FutexTable.threadControl
  by_cases hspecial : abRole = abSetMeSpecial
  · have hnone := hok hspecial
    rw [if_pos hspecial]
    by_cases hparent : isArbiter (k.table.tasks (k.table.tasks current).parent)
    · rw [if_pos hparent]
      refine hk.join hnone (Nat.le_of_eq hcount.symm) (hcount.symm ▸ hlt) rfl rfl ?_
      rintro x ⟨⟩
      exact ⟨rfl, Or.inl rfl⟩
    · rw [if_neg hparent]
      refine hk.join hnone (Nat.le_of_eq hcount.symm) (hcount.symm ▸ hlt) rfl rfl ?_
      intro x hx
      obtain ⟨-, hx⟩ := Option.ite_none_right_eq_some.mp hx
      exact ⟨hk.isSome hx, Or.inr ⟨hk.self hx, hk.same hx⟩⟩
  · rw [if_neg hspecial]
    exact ⟨hk.self, hk.same, hk.isSome, fun h => hcount.symm ▸ hk.old h⟩

theorem LeaderInv.fork {k : FutexTable} (hk : LeaderInv k) (caller parent : Nat) (cloneVm : Bool) :
    LeaderInv (k.fork caller parent cloneVm) := by
  have hnone : k.leader k.table.count = none := by
    by_contra hne
    obtain ⟨l, hl⟩ := Option.ne_none_iff_exists'.mp hne
    exact absurd (hk.old hl) (Nat.lt_irrefl _)
  refine hk.join hnone (Nat.le_succ _) (Nat.lt_succ_self _) rfl rfl ?_
  exact fun x hx => absurd hx (by simp)

/-! ### Runs -/

/-- Sequences of operations of any tasks. A task joins a group only once. -/
inductive FutexRun : FutexTable → Prop
  | start : FutexRun .start
  | fork {k : FutexTable} (caller parent : Nat) (cloneVm : Bool) (h : FutexRun k)
      (hcaller : caller < k.table.count) (hparent : parent < k.table.count) :
      FutexRun (k.fork caller parent cloneVm)
  | execve {k : FutexTable} (t : Nat) (segment : DataSegment) (h : FutexRun k)
      (hlt : t < k.table.count) : FutexRun (k.execve t segment)
  | reparent {k : FutexTable} (t parent : Nat) (h : FutexRun k) (hlt : t < k.table.count)
      (hparent : parent < k.table.count) : FutexRun (k.reparent t parent)
  | control {k : FutexTable} (current : Nat) (abRole : BitVec 32) (h : FutexRun k)
      (hlt : current < k.table.count)
      (honce : abRole = abSetMeSpecial → k.leader current = none) :
      FutexRun (k.threadControl current abRole)

theorem FutexRun.inv {k : FutexTable} (h : FutexRun k) : LeaderInv k := by
  induction h with
  | start => exact ⟨nofun, nofun, nofun, nofun⟩
  | fork caller parent cloneVm _ _ _ ih => exact ih.fork caller parent cloneVm
  | execve t segment _ _ ih => exact ⟨ih.self, ih.same, ih.isSome, ih.old⟩
  | reparent t parent _ _ _ ih => exact ⟨ih.self, ih.same, ih.isSome, ih.old⟩
  | control current abRole _ hlt honce ih => exact ih.threadControl hlt honce

/-- The key of a word in the data segment, on an anonymous page, that a special task with
    a leader gets. -/
theorem LeaderInv.getFutexKey {k : FutexTable} (hk : LeaderInv k) {t l uaddr : Nat}
    {answers : List (Except Int (Option FutexPage))} (accessOk : Bool)
    (hspecial : isSpecial (k.table.tasks t)) (hleader : k.leader t = some l)
    (halign : uaddr % 4 = 0) (hhigh : uaddr < (k.segment t).startBrk)
    (hpage : lockedPage answers = some (.ok .anon)) :
    ∃ m, k.abTgleaderMm l = some m ∧
      getFutexKey k t uaddr true accessOk answers =
        some (.ok ⟨uaddr - uaddr % pageSize,
          .mm (if (k.segment t).startData ≤ uaddr - uaddr % pageSize then m else k.mm t),
          uaddr % pageSize ||| futOffMmshared⟩) := by
  obtain ⟨m, hm⟩ := Option.isSome_iff_exists.mp (hk.isSome hleader)
  refine ⟨m, (hk.same hleader).symm.trans hm, ?_⟩
  have hbrk : uaddr - uaddr % pageSize < (k.segment t).startBrk := by omega
  simp only [ArbiterThread.getFutexKey, halign, hpage, pageKey, hm]
  by_cases hlow : (k.segment t).startData ≤ uaddr - uaddr % pageSize
  · simp [hspecial, hlow, hbrk]
  · simp [hlow]

/-- Two special tasks with the same leader and the same data segment get the same key for
    a word below the end of the segment exactly if its page starts inside the segment, or
    if they share their address space. -/
theorem shared_key_iff {k : FutexTable} (hrun : FutexRun k) {a b l uaddr : Nat}
    (ha : isSpecial (k.table.tasks a)) (hb : isSpecial (k.table.tasks b))
    (hla : k.leader a = some l) (hlb : k.leader b = some l)
    (hdata : (k.segment a).startData = (k.segment b).startData)
    (hbrk : (k.segment a).startBrk = (k.segment b).startBrk)
    (halign : uaddr % 4 = 0) (hhigh : uaddr < (k.segment a).startBrk) (oka okb : Bool)
    {pa pb : List (Except Int (Option FutexPage))}
    (hpa : lockedPage pa = some (.ok .anon)) (hpb : lockedPage pb = some (.ok .anon)) :
    (∃ key, getFutexKey k a uaddr true oka pa = some (.ok key) ∧
      getFutexKey k b uaddr true okb pb = some (.ok key)) ↔
      (k.segment a).startData ≤ uaddr - uaddr % pageSize ∨ k.mm a = k.mm b := by
  obtain ⟨m, hm, hka⟩ := hrun.inv.getFutexKey oka ha hla halign hhigh hpa
  obtain ⟨m', hm', hkb⟩ := hrun.inv.getFutexKey okb hb hlb halign (hbrk ▸ hhigh) hpb
  -- both pointers are the leader's
  obtain rfl : m = m' := Option.some_inj.mp (hm.symm.trans hm')
  rw [hka, hkb, ← hdata]
  by_cases hpage : (k.segment a).startData ≤ uaddr - uaddr % pageSize
  · simp [hpage]
  · simp [hpage, eq_comm]

/-! ### A group of two -/

/-- An arbiter, its child, and a child of that. The program's data segment starts inside
    a page. -/
def groupInExec : FutexTable :=
  ((((((FutexTable.start.fork 0 0 false).threadControl 1 abSetMeArbiter).fork 1 1 false).execve 2
    ⟨0x804af08, 0x804c000⟩).threadControl 2 abSetMeSpecial).fork 2 2 false).threadControl 3
    abSetMeSpecial

theorem futexRun_groupInExec : FutexRun groupInExec := by
  refine .control _ _ (.fork _ _ _ (.control _ _ (.execve _ _ (.fork _ _ _ (.control _ _
    (.fork _ _ _ .start ?_ ?_) ?_ ?_) ?_ ?_) ?_) ?_ ?_) ?_ ?_) ?_ ?_
  all_goals decide

/-- On the second page of the segment they have one key. -/
theorem shared_key_second_page :
    ∃ key, getFutexKey groupInExec 2 0x804b010 true true [.ok (some .anon)] = some (.ok key) ∧
      getFutexKey groupInExec 3 0x804b010 true true [.ok none, .ok (some .anon)] =
        some (.ok key) :=
  (shared_key_iff futexRun_groupInExec (a := 2) (b := 3) (l := 2) (by decide) (by decide)
    (by decide) (by decide) (by decide) (by decide) (by decide) (by decide) true true rfl
    rfl).mpr (Or.inl (by decide))

/-- On its first page they do not. -/
theorem first_page_keys_differ :
    FutexRun groupInExec ∧ isSpecial (groupInExec.table.tasks 2) ∧
      isSpecial (groupInExec.table.tasks 3) ∧ groupInExec.leader 2 = some 2 ∧
      groupInExec.leader 3 = some 2 ∧
      (groupInExec.segment 2).startData = (groupInExec.segment 3).startData ∧
      (groupInExec.segment 2).startBrk = (groupInExec.segment 3).startBrk ∧
      (groupInExec.segment 2).startData ≤ 0x804af10 ∧
      0x804af10 < (groupInExec.segment 2).startBrk ∧ 0x804af10 % 4 = 0 ∧
      ¬ ∃ key, getFutexKey groupInExec 2 0x804af10 true true [.ok (some .anon)] =
          some (.ok key) ∧
        getFutexKey groupInExec 3 0x804af10 true true [.ok (some .anon)] = some (.ok key) := by
  refine ⟨futexRun_groupInExec, by decide, by decide, by decide, by decide, by decide, by decide,
    by decide, by decide, by decide, ?_⟩
  rintro ⟨key, h2, h3⟩
  have hne : getFutexKey groupInExec 2 0x804af10 true true [.ok (some .anon)] ≠
      getFutexKey groupInExec 3 0x804af10 true true [.ok (some .anon)] := by decide
  exact hne (h2.trans h3.symm)

end ArbiterThread
