import Mathlib.Logic.Function.Basic
import Mathlib.Tactic.Common

/-!
# Control Groups

The kernel's idea of who controls whom: a circular list through all tasks of a
group, and one bit in each task that says whether it is an arbiter. Nothing
records which task the arbiter of a group is. The system calls find it by
walking the list from the target on and taking the first task with the bit.

Every task may set the bit for itself, and every task may link itself in again.
This is harmless as long as a task in a group never does either, and fatal
otherwise.

## Main definitions

* `Task`, `TaskTable`: The part of `task_struct` that matters here.
* `listAdd`, `threadControl`, `fork`: The operations that change it.
* `findMyArbiter`, `permitted`: Who controls a task.
* `ControlOk`: The task that changes its role is not in a group of others.
* `ControlRun`: Sequences of operations.

## Theorems

* `walk_spec`: What the walk finds is in the target's group.
* `ControlInv.threadControl`: A change of role that meets the condition keeps groups
  apart.
* `control_authority`: In runs that meet the condition, only the task that set up a
  group controls it.
* `control_authority_fails`: A member takes its group over.
-/

namespace ArbiterThread

/-! ### Tasks -/

/-- The fields of `task_struct` that are about control groups. The list links hold
    the tasks they lead to. -/
structure Task where
  abIdentity : BitVec 32
  next : Nat
  prev : Nat
  parent : Nat

/-- All tasks there have been, numbered in the order of their creation. -/
structure TaskTable where
  tasks : Nat → Task
  count : Nat
  abCategoryCount : BitVec 32
  /-- the task that set up the group a task is in; the kernel does not keep this -/
  group : Nat → Option Nat

def abSetMeSpecial : BitVec 32 := 0

def abSetMeArbiter : BitVec 32 := 1

def getCategory (t : Task) : BitVec 32 := t.abIdentity.sshiftRight 1

def getRole (t : Task) : BitVec 32 := t.abIdentity &&& 1

def isArbiter (t : Task) : Prop := getRole t ≠ 0

instance (t : Task) : Decidable (isArbiter t) := inferInstanceAs (Decidable (_ ≠ _))

def convertToIdentity (abCategory abRole : BitVec 32) : BitVec 32 := abCategory <<< 1 ||| abRole

/-- The table with the first task, which is its own parent. -/
def TaskTable.start : TaskTable where
  tasks := fun t => ⟨0, t, t, 0⟩
  count := 1
  abCategoryCount := 0
  group := fun _ => none

namespace TaskTable

variable (k : TaskTable)

def setTask (t : Nat) (f : Task → Task) : TaskTable :=
  { k with tasks := Function.update k.tasks t (f (k.tasks t)) }

def setIdentity (t : Nat) (identity : BitVec 32) : TaskTable :=
  k.setTask t fun x => { x with abIdentity := identity }

/-- `list_add`: link `new` in behind `head`. -/
def listAdd (new head : Nat) : TaskTable :=
  let next := (k.tasks head).next
  ((((k.setTask next fun t => { t with prev := new }).setTask new fun t =>
    { t with next := next }).setTask new fun t =>
    { t with prev := head }).setTask head fun t => { t with next := new })

/-- `sys_absys_thread_control`, called by the task `current`. A role that is
    neither of the two is stored as it is. -/
def threadControl (current : Nat) (abRole : BitVec 32) : TaskTable :=
  let parent := (k.tasks current).parent
  if abRole = abSetMeArbiter then
    let category := k.abCategoryCount + 1
    { k.setIdentity current (convertToIdentity category abRole) with
      abCategoryCount := category
      group := Function.update k.group current (some current) }
  else if abRole = abSetMeSpecial then
    let category := getCategory (k.tasks parent)
    { (k.listAdd current parent).setIdentity current (convertToIdentity category abRole) with
      group := Function.update k.group current (k.group parent) }
  else k.setIdentity current (convertToIdentity 0 abRole)

/-- A new task, whose list is empty. With `CLONE_PARENT` its parent is not the one
    that called. -/
def fork (parent : Nat) : TaskTable :=
  { k with
    tasks := Function.update k.tasks k.count ⟨0, k.count, k.count, parent⟩
    count := k.count + 1
    group := Function.update k.group k.count none }

/-- The rest of the walk around the list of `head`. It goes on for ever if it does
    not come back within as many steps as there are tasks. -/
def walk (head : Nat) : Nat → Nat → Option Nat
  | 0, _ => none
  | fuel + 1, t =>
    if t = head then none
    else if isArbiter (k.tasks t) then some t
    else walk head fuel (k.tasks t).next

def findMyArbiter (t : Nat) : Option Nat := k.walk t k.count (k.tasks t).next

/-- The test that `absys_mmap`, `absys_brk`, `absys_munmap` and `absys_mprotect`
    make before anything else. -/
def permitted (current target : Nat) : Prop :=
  isArbiter (k.tasks current) ∧ k.findMyArbiter target = some current

/-- The task has not been linked to others. -/
def listEmpty (t : Nat) : Prop := (k.tasks t).next = t

end TaskTable

instance (k : TaskTable) (current target : Nat) : Decidable (k.permitted current target) :=
  inferInstanceAs (Decidable (_ ∧ _))

instance (k : TaskTable) (t : Nat) : Decidable (k.listEmpty t) :=
  inferInstanceAs (Decidable (_ = _))

/-! ### The invariant -/

/-- Links lead to tasks of the same group and to each task at most once, and an
    arbiter is the task that set up its group. -/
structure ControlInv (k : TaskTable) : Prop where
  inj : Function.Injective fun t => (k.tasks t).next
  same : ∀ t, k.group (k.tasks t).next = k.group t
  arbiter : ∀ t, isArbiter (k.tasks t) → k.group t = some t
  unused : ∀ t, k.count ≤ t → (k.tasks t).next = t
  parents : ∀ t, (k.tasks t).parent < k.count

/-- The role bit of an identity is that of the role. -/
theorem convertToIdentity_and_one (c r : BitVec 32) : convertToIdentity c r &&& 1 = r &&& 1 := by
  unfold convertToIdentity
  ext i hi
  simp only [BitVec.getElem_and, BitVec.getElem_or, BitVec.getElem_shiftLeft,
    BitVec.ofNat_eq_ofNat, BitVec.getElem_one]
  -- the category starts at bit 1, and the mask ends at bit 0
  by_cases h : i = 0
  · simp only [h, Nat.zero_lt_one, decide_true, Bool.not_true, Bool.false_and, Bool.false_or]
  · simp only [h, decide_false, Bool.and_false]

/-- What the walk finds is an arbiter in the group of the tasks it walks through. -/
theorem TaskTable.walk_spec {k : TaskTable} (hk : ControlInv k) {head fuel t c : Nat}
    (h : k.walk head fuel t = some c) : isArbiter (k.tasks c) ∧ k.group c = k.group t := by
  induction fuel generalizing t with
  | zero => exact absurd h (by simp only [walk, reduceCtorEq, not_false_eq_true])
  | succ fuel ih =>
    unfold walk at h
    split at h
    · exact absurd h (by simp only [reduceCtorEq, not_false_eq_true])
    split at h
    · rename_i harb
      rw [Option.some.injEq] at h
      subst h
      exact ⟨harb, rfl⟩
    · obtain ⟨harb, hgroup⟩ := ih h
      exact ⟨harb, hgroup.trans (hk.same t)⟩

namespace TaskTable

variable (k : TaskTable)

theorem setTask_self (f : Task → Task) (t : Nat) : (k.setTask t f).tasks t = f (k.tasks t) :=
  Function.update_self ..

theorem setTask_of_ne (f : Task → Task) {u t : Nat} (h : t ≠ u) :
    (k.setTask u f).tasks t = k.tasks t :=
  Function.update_of_ne h ..

/-- A field that an update leaves alone. -/
theorem setTask_of_keeps {α : Type} (g : Task → α) (f : Task → Task) (u t : Nat)
    (hf : ∀ x, g (f x) = g x) : g ((k.setTask u f).tasks t) = g (k.tasks t) := by
  by_cases h : t = u
  · rw [h, setTask_self, hf]
  · rw [setTask_of_ne _ _ h]

/-- The links after a task was linked in. -/
theorem listAdd_next (new head t : Nat) :
    ((k.listAdd new head).tasks t).next =
      if t = head then new else if t = new then (k.tasks head).next else (k.tasks t).next := by
  simp only [listAdd]
  by_cases hhead : t = head
  · rw [if_pos hhead, hhead, setTask_self]
  · rw [if_neg hhead, setTask_of_ne _ _ hhead, setTask_of_keeps _ Task.next]
    · by_cases hnew : t = new
      · rw [if_pos hnew, hnew, setTask_self]
      · rw [if_neg hnew, setTask_of_ne _ _ hnew, setTask_of_keeps _ Task.next]
        exact fun _ => rfl
    · exact fun _ => rfl

theorem listAdd_parent (new head t : Nat) :
    ((k.listAdd new head).tasks t).parent = (k.tasks t).parent := by
  simp only [listAdd]
  repeat rw [setTask_of_keeps _ Task.parent]
  all_goals exact fun _ => rfl

theorem listAdd_abIdentity (new head t : Nat) :
    ((k.listAdd new head).tasks t).abIdentity = (k.tasks t).abIdentity := by
  simp only [listAdd]
  repeat rw [setTask_of_keeps _ Task.abIdentity]
  all_goals exact fun _ => rfl

theorem setIdentity_next (u t : Nat) (i : BitVec 32) :
    ((k.setIdentity u i).tasks t).next = (k.tasks t).next :=
  k.setTask_of_keeps Task.next (fun x => { x with abIdentity := i }) u t (fun _ => rfl)

theorem setIdentity_parent (u t : Nat) (i : BitVec 32) :
    ((k.setIdentity u i).tasks t).parent = (k.tasks t).parent :=
  k.setTask_of_keeps Task.parent (fun x => { x with abIdentity := i }) u t (fun _ => rfl)

/-- Whether a task is an arbiter is decided by the role it took last. -/
theorem isArbiter_setIdentity (u t : Nat) (c r : BitVec 32) :
    isArbiter ((k.setIdentity u (convertToIdentity c r)).tasks t) ↔
      if t = u then r &&& 1 ≠ 0 else isArbiter (k.tasks t) := by
  unfold setIdentity
  by_cases h : t = u
  · rw [if_pos h, h, setTask_self, isArbiter, getRole, convertToIdentity_and_one]
  · rw [if_neg h, setTask_of_ne _ _ h]

theorem isArbiter_listAdd (new head t : Nat) :
    isArbiter ((k.listAdd new head).tasks t) ↔ isArbiter (k.tasks t) := by
  rw [isArbiter, getRole, listAdd_abIdentity, isArbiter, getRole]

end TaskTable

/-! ### Steps -/

/-- A task may link itself in only once, and may become an arbiter only before it is
    linked in, unless it set up the group it is in. Roles that are neither of the two
    make no arbiter. -/
def ControlOk (k : TaskTable) (current : Nat) (abRole : BitVec 32) : Prop :=
  (abRole = abSetMeSpecial → k.listEmpty current) ∧
    (abRole &&& 1 ≠ 0 → k.group current = some current ∨
      (abRole = abSetMeArbiter ∧ k.listEmpty current))

instance (k : TaskTable) (current : Nat) (abRole : BitVec 32) :
    Decidable (ControlOk k current abRole) :=
  inferInstanceAs (Decidable ((_ → _) ∧ (_ → _)))

/-- Only a task itself leads to a task that is not linked. -/
theorem ControlInv.next_ne {k : TaskTable} (hk : ControlInv k) {t u : Nat} (hu : k.listEmpty u)
    (h : t ≠ u) : (k.tasks t).next ≠ u := by
  intro hnext
  exact h (hk.inj (hnext.trans hu.symm))

/-- Changing the identity of a task, and its group if it is not linked. -/
theorem ControlInv.setIdentity {k : TaskTable} (hk : ControlInv k) (current : Nat)
    (c r count : BitVec 32) (g : Option Nat)
    (hgroup : g = k.group current ∨ k.listEmpty current)
    (harb : r &&& 1 ≠ 0 → g = some current) :
    ControlInv
      { k.setIdentity current (convertToIdentity c r) with
        abCategoryCount := count
        group := Function.update k.group current g } := by
  refine ⟨?_, ?_, ?_, ?_, ?_⟩
  · intro t u htu
    simp only [k.setIdentity_next] at htu
    exact hk.inj htu
  · intro t
    simp only [k.setIdentity_next]
    rcases hgroup with hsame | hempty
    · rw [hsame, Function.update_eq_self]
      exact hk.same t
    · by_cases ht : t = current
      · rw [ht, hempty]
      · rw [Function.update_of_ne ht, Function.update_of_ne (hk.next_ne hempty ht)]
        exact hk.same t
  · intro t ht
    simp only [k.isArbiter_setIdentity] at ht
    by_cases hcur : t = current
    · rw [if_pos hcur] at ht
      simp only [hcur, Function.update_self]
      exact harb ht
    · rw [if_neg hcur] at ht
      simp only [Function.update_of_ne hcur]
      exact hk.arbiter t ht
  · intro t ht
    simp only [k.setIdentity_next]
    exact hk.unused t ht
  · intro t
    simp only [k.setIdentity_parent]
    exact hk.parents t

/-- Linking in a task that is not linked, with its parent's group and no role. -/
theorem ControlInv.join {k : TaskTable} (hk : ControlInv k) {new head : Nat} (c : BitVec 32)
    (hempty : k.listEmpty new) (hnew : new < k.count) (hhead : head < k.count) :
    ControlInv
      { (k.listAdd new head).setIdentity new (convertToIdentity c abSetMeSpecial) with
        group := Function.update k.group new (k.group head) } := by
  have hother : ∀ t, t ≠ new → (k.tasks t).next ≠ new := fun t ht => hk.next_ne hempty ht
  have hself : (k.tasks new).next = new := hempty
  refine ⟨?_, ?_, ?_, ?_, ?_⟩
  · intro t u htu
    -- only the new task and the head have another successor
    have hinj : ∀ a b, (k.tasks a).next = (k.tasks b).next → a = b := fun a b h => hk.inj h
    simp only [TaskTable.setIdentity_next, k.listAdd_next] at htu
    grind
  -- both belong to the group of the head now
  · intro t
    simp only [TaskTable.setIdentity_next, k.listAdd_next]
    by_cases ht : t = head
    · rw [if_pos ht, ht, Function.update_self]
      by_cases hsame : head = new
      · rw [hsame, Function.update_self]
      · rw [Function.update_of_ne hsame]
    · rw [if_neg ht]
      by_cases htnew : t = new
      · have hne : head ≠ new := fun h => ht (htnew.trans h.symm)
        rw [if_pos htnew, htnew, Function.update_self, Function.update_of_ne (hother head hne)]
        exact hk.same head
      · rw [if_neg htnew, Function.update_of_ne (hother t htnew), Function.update_of_ne htnew]
        exact hk.same t
  · intro t ht
    simp only [TaskTable.isArbiter_setIdentity, k.isArbiter_listAdd] at ht
    by_cases htnew : t = new
    · rw [if_pos htnew] at ht
      exact absurd (by decide) ht
    · rw [if_neg htnew] at ht
      simp only [Function.update_of_ne htnew]
      exact hk.arbiter t ht
  · intro t ht
    have ht : k.count ≤ t := ht
    simp only [TaskTable.setIdentity_next, k.listAdd_next]
    rw [if_neg (by omega), if_neg (by omega)]
    exact hk.unused t ht
  · intro t
    simp only [TaskTable.setIdentity_parent, k.listAdd_parent]
    exact hk.parents t

theorem ControlInv.threadControl {k : TaskTable} (hk : ControlInv k) {current : Nat}
    {abRole : BitVec 32} (hlt : current < k.count) (hok : ControlOk k current abRole) :
    ControlInv (k.threadControl current abRole) := by
  unfold TaskTable.threadControl
  by_cases harbiter : abRole = abSetMeArbiter
  · rw [if_pos harbiter]
    refine hk.setIdentity current _ _ _ _ ?_ (fun _ => rfl)
    rcases hok.2 (harbiter ▸ by decide) with hmine | hfree
    · exact Or.inl hmine.symm
    · exact Or.inr hfree.2
  rw [if_neg harbiter]
  by_cases hspecial : abRole = abSetMeSpecial
  · rw [if_pos hspecial, hspecial]
    exact hk.join _ (hok.1 hspecial) hlt (hk.parents current)
  · rw [if_neg hspecial]
    have hkeep := hk.setIdentity current 0 abRole k.abCategoryCount (k.group current)
      (Or.inl rfl) (fun h => (hok.2 h).resolve_right (fun h => harbiter h.1))
    rw [Function.update_eq_self] at hkeep
    exact hkeep

theorem ControlInv.fork {k : TaskTable} (hk : ControlInv k) {parent : Nat}
    (hlt : parent < k.count) : ControlInv (k.fork parent) := by
  -- the child is a ring of its own, as it was before it was used
  have hself : (k.tasks k.count).next = k.count := hk.unused k.count (Nat.le_refl _)
  have hnext : ∀ t, ((k.fork parent).tasks t).next = (k.tasks t).next := by
    intro t
    unfold TaskTable.fork
    by_cases ht : t = k.count
    · simp only [ht, Function.update_self, hself]
    · simp only [Function.update_of_ne ht]
  refine ⟨?_, ?_, ?_, ?_, ?_⟩
  · intro t u htu
    simp only [hnext] at htu
    exact hk.inj htu
  · intro t
    rw [hnext]
    unfold TaskTable.fork
    by_cases ht : t = k.count
    · simp only [ht, hself]
    · simp only [Function.update_of_ne ht, Function.update_of_ne (hk.next_ne hself ht)]
      exact hk.same t
  · intro t ht
    unfold TaskTable.fork at *
    by_cases hnew : t = k.count
    · simp only [hnew, Function.update_self, isArbiter, getRole] at ht
      exact absurd (by decide) ht
    · simp only [Function.update_of_ne hnew] at ht ⊢
      exact hk.arbiter t ht
  · intro t ht
    rw [hnext]
    exact hk.unused t (Nat.le_of_succ_le ht)
  · intro t
    unfold TaskTable.fork
    by_cases hnew : t = k.count
    · simp only [hnew, Function.update_self]
      omega
    · simp only [Function.update_of_ne hnew]
      exact Nat.lt_succ_of_lt (hk.parents t)

/-! ### Runs -/

/-- Sequences of operations of any tasks. The system calls that are subject to the
    test leave the table as it is, whether they pass or not. -/
inductive ControlRun (Ok : TaskTable → Nat → BitVec 32 → Prop) : TaskTable → Prop
  | start : ControlRun Ok .start
  | fork {k : TaskTable} (parent : Nat) (h : ControlRun Ok k) (hlt : parent < k.count) :
      ControlRun Ok (k.fork parent)
  | control {k : TaskTable} (current : Nat) (abRole : BitVec 32) (h : ControlRun Ok k)
      (hlt : current < k.count) (hok : Ok k current abRole) :
      ControlRun Ok (k.threadControl current abRole)

theorem ControlRun.inv {k : TaskTable} (h : ControlRun ControlOk k) : ControlInv k := by
  induction h with
  | start =>
    have hrole : (0 : BitVec 32) &&& 1 = 0 := by decide
    exact ⟨fun _ _ h => h, fun _ => rfl, fun t ht => absurd hrole ht, fun _ _ => rfl,
      fun _ => Nat.one_pos⟩
  | fork parent _ hlt ih => exact ih.fork hlt
  | control current abRole _ hlt hok ih => exact ih.threadControl hlt hok

/-- A task passes the test only on tasks of the group that it has set up itself. -/
theorem control_authority (k : TaskTable) (hrun : ControlRun ControlOk k) (current target : Nat)
    (hpass : k.permitted current target) : k.group target = some current := by
  have hinv := hrun.inv
  obtain ⟨harbiter, hgroup⟩ := TaskTable.walk_spec hinv hpass.2
  calc k.group target = k.group (k.tasks target).next := (hinv.same target).symm
    _ = k.group current := hgroup.symm
    _ = some current := hinv.arbiter current harbiter

/-- An arbiter, and two tasks it forked that have joined its group. -/
def groupOfThree : TaskTable :=
  (((((TaskTable.start.fork 0).threadControl 1 abSetMeArbiter).fork 1).threadControl 2
    abSetMeSpecial).fork 1).threadControl 3 abSetMeSpecial

theorem controlRun_groupOfThree {Ok : TaskTable → Nat → BitVec 32 → Prop}
    (hok : ∀ k current abRole, ControlOk k current abRole → Ok k current abRole) :
    ControlRun Ok groupOfThree := by
  refine .control _ _ (.fork _ (.control _ _ (.fork _ (.control _ _ (.fork _ .start ?_) ?_ ?_) ?_)
    ?_ ?_) ?_) ?_ ?_
  all_goals first | decide | exact hok _ _ _ (by decide)

/-- The arbiter controls the other two. -/
theorem control_authority_three :
    ControlRun ControlOk groupOfThree ∧ groupOfThree.permitted 1 2 ∧ groupOfThree.permitted 1 3 ∧
      groupOfThree.group 2 = some 1 ∧ groupOfThree.group 3 = some 1 := by
  have hrun : ControlRun ControlOk groupOfThree := controlRun_groupOfThree (fun _ _ _ h => h)
  have h2 : groupOfThree.permitted 1 2 := by decide
  have h3 : groupOfThree.permitted 1 3 := by decide
  exact ⟨hrun, h2, h3, control_authority _ hrun 1 2 h2, control_authority _ hrun 1 3 h3⟩

/-- When task 2 makes itself an arbiter, the walk from task 3 meets it first. -/
theorem control_authority_fails :
    ∃ k, ControlRun (fun _ _ _ => True) k ∧ k.permitted 2 3 ∧ k.group 3 ≠ some 2 := by
  refine ⟨groupOfThree.threadControl 2 abSetMeArbiter, ?_, by decide, by decide⟩
  exact .control 2 abSetMeArbiter (controlRun_groupOfThree (fun _ _ _ _ => trivial)) (by decide)
    trivial

end ArbiterThread
