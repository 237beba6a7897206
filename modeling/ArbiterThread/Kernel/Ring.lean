import Mathlib.Data.Finset.Card
import Mathlib.Logic.Function.Iterate
import ArbiterThread.Kernel.Control

/-!
# The Rings of Tasks

The lists `ab_tasks` as pointer structures, with tasks that come and go.

A task is linked in behind its parent when it becomes special, and it is never
taken out again. If it links itself in twice, its old neighbours still lead to it
and the ring falls apart into a path with a loop at its end. If it exits, it stays
in the ring with `mm` set to `NULL`, and whoever walks the ring next visits it.
As long as neither happens every ring is a proper one. This is an invariant about
links alone, and the walks terminate because a permutation of finitely many tasks
leads back to where one starts.

## Main definitions

* `listForEach`, `others`: The tasks a `list_for_each_entry` loop visits.
* `Life`: The tasks, and which of them have not exited.
* `LifeOp`, `Life.apply`, `LifeRun`: What tasks do, and sequences of it.
* `RingsOk`: The lists are proper rings of living tasks.
* `RingOk`: A task links itself in once and does not exit from a ring.

## Theorems

* `listAdd_prev`: The backward links after `list_add`.
* `exists_iterate_eq_self`: An injective function leads back.
* `RingInv.apply`: One operation keeps the invariant.
* `rings_proper`: In runs that meet the condition the lists are proper rings.
* `rings_proper_fails`: A second call, and a walk that does not end.
-/

namespace ArbiterThread

/-! ### Walking a list -/

namespace TaskTable

variable (k : TaskTable)

/-- `list_for_each_entry` from `t` on: the tasks visited before the loop is back at
    `head`. It goes on for ever if it is not within as many steps as there are tasks. -/
def listForEach (head : Nat) : Nat → Nat → Option (List Nat)
  | 0, t => if t = head then some [] else none
  | fuel + 1, t =>
    if t = head then some []
    else (listForEach head fuel (k.tasks t).next).map (t :: ·)

/-- The tasks visited by a loop over the list of `t`. -/
def others (t : Nat) : Option (List Nat) := k.listForEach t k.count (k.tasks t).next

/-- If the links lead back to the head, the loop ends there, and all it has visited is
    linked to something else. -/
theorem listForEach_of_iterate {head fuel m t : Nat}
    (hback : (fun t => (k.tasks t).next)^[m] t = head) (hm : m ≤ fuel) :
    ∃ l, k.listForEach head fuel t = some l ∧ ∀ u ∈ l, (k.tasks u).next ≠ u := by
  induction fuel generalizing m t with
  | zero =>
    have hzero : m = 0 := by omega
    subst hzero
    have ht : t = head := hback
    refine ⟨[], ?_, fun u hu => absurd hu List.not_mem_nil⟩
    rw [listForEach, if_pos ht]
  | succ fuel ih =>
    by_cases ht : t = head
    · refine ⟨[], ?_, fun u hu => absurd hu List.not_mem_nil⟩
      rw [listForEach, if_pos ht]
    cases m with
    | zero => exact absurd hback ht
    | succ m =>
      rcases ih (m := m) (t := (k.tasks t).next) hback (by omega) with ⟨l, hl, hlinked⟩
      refine ⟨t :: l, ?_, ?_⟩
      · rw [listForEach, if_neg ht, hl, Option.map_some]
      · intro u hu
        rcases List.mem_cons.mp hu with rfl | hu
        · -- a task that leads to itself would never lead to the head
          intro hself
          rw [Function.iterate_fixed hself] at hback
          exact ht hback
        · exact hlinked u hu

/-- The search for an arbiter looks at the same tasks in the same order. -/
theorem walk_of_listForEach {head fuel t : Nat} {l : List Nat}
    (h : k.listForEach head fuel t = some l) :
    k.walk head fuel t = l.find? fun u => isArbiter (k.tasks u) := by
  induction fuel generalizing t l with
  | zero =>
    unfold listForEach at h
    split at h
    · cases h
      rfl
    · cases h
  | succ fuel ih =>
    unfold listForEach at h
    unfold walk
    split at h
    · rename_i ht
      cases h
      rw [if_pos ht]
      rfl
    · rename_i ht
      rcases Option.map_eq_some_iff.mp h with ⟨l', hl', rfl⟩
      rw [if_neg ht, List.find?_cons]
      by_cases harb : isArbiter (k.tasks t)
      · rw [if_pos harb, decide_eq_true harb]
      · rw [if_neg harb, decide_eq_false harb]
        exact ih hl'

/-- The backward links after a task was linked in. -/
theorem listAdd_prev (new head t : Nat) :
    ((k.listAdd new head).tasks t).prev =
      if t = new then head else if t = (k.tasks head).next then new else (k.tasks t).prev := by
  simp only [listAdd]
  rw [setTask_of_keeps _ Task.prev]
  · by_cases hnew : t = new
    · rw [if_pos hnew, hnew, setTask_self]
    · rw [if_neg hnew, setTask_of_ne _ _ hnew, setTask_of_ne _ _ hnew]
      by_cases hnext : t = (k.tasks head).next
      · rw [if_pos hnext, hnext, setTask_self]
      · rw [if_neg hnext, setTask_of_ne _ _ hnext]
  · exact fun _ => rfl

theorem setIdentity_prev (u t : Nat) (i : BitVec 32) :
    ((k.setIdentity u i).tasks t).prev = (k.tasks t).prev :=
  k.setTask_of_keeps Task.prev (fun x => { x with abIdentity := i }) u t (fun _ => rfl)

end TaskTable

/-! ### Leading back -/

/-- An injective function that moves only numbers below a bound leads from each of them
    back to it. -/
theorem exists_iterate_eq_self {f : Nat → Nat} (hf : Function.Injective f) {n : Nat}
    (hfix : ∀ t, n ≤ t → f t = t) {t : Nat} (ht : t < n) : ∃ m, 0 < m ∧ m ≤ n ∧ f^[m] t = t := by
  have hlt : ∀ u, u < n → f u < n := by
    intro u hu
    by_contra hge
    have hsame := hf (hfix (f u) (by omega))
    omega
  have hiter : ∀ i, f^[i] t < n := by
    intro i
    induction i with
    | zero => exact ht
    | succ i ih =>
      rw [Function.iterate_succ_apply']
      exact hlt _ ih
  -- among the first `n + 1` tasks on the way, two are the same
  have hrepeat : ∃ i ∈ Finset.range (n + 1), ∃ j ∈ Finset.range (n + 1), i ≠ j ∧
      f^[i] t = f^[j] t := by
    refine Finset.exists_ne_map_eq_of_card_lt_of_maps_to (t := Finset.range n) (by simp) ?_
    intro i _
    exact Finset.mem_coe.mpr (Finset.mem_range.mpr (hiter i))
  rcases hrepeat with ⟨i, hi, j, hj, hne, heq⟩
  rw [Finset.mem_range] at hi hj
  have hback : ∀ a b, a < b → f^[a] t = f^[b] t → f^[b - a] t = t := by
    intro a b hab h
    apply hf.iterate a
    rw [← Function.iterate_add_apply, h]
    congr 1
    omega
  rcases Nat.lt_or_gt_of_ne hne with hlt' | hlt'
  · exact ⟨j - i, by omega, by omega, hback i j hlt' heq⟩
  · exact ⟨i - j, by omega, by omega, hback j i hlt' heq.symm⟩

/-! ### Tasks that exit -/

/-- The tasks, and which of them have not exited. A task that exits has its `mm` set to
    `NULL` by `exit_mm` and keeps its links. -/
structure Life where
  table : TaskTable
  alive : Nat → Bool

/-- The first task. -/
def Life.start : Life := ⟨.start, fun t => t = 0⟩

inductive LifeOp where
  | fork (parent : Nat)
  | threadControl (current : Nat) (abRole : BitVec 32)
  /-- the children of a task that exits are given to `reaper` -/
  | exit (t reaper : Nat)

namespace Life

variable (k : Life)

/-- `forget_original_parent`: another task becomes the parent of the children. -/
def reparent (t reaper : Nat) : TaskTable :=
  { k.table with
    tasks := fun u =>
      let x := k.table.tasks u
      { x with parent := if x.parent = t then reaper else x.parent } }

/-- Only a task that has not exited does anything, or becomes a parent. -/
def Enabled : LifeOp → Prop
  | .fork parent => k.alive parent
  | .threadControl current _ => k.alive current
  | .exit t reaper => k.alive t ∧ k.alive reaper ∧ reaper ≠ t

def apply : LifeOp → Life
  | .fork parent => ⟨k.table.fork parent, Function.update k.alive k.table.count true⟩
  | .threadControl current abRole => ⟨k.table.threadControl current abRole, k.alive⟩
  | .exit t reaper => ⟨k.reparent t reaper, Function.update k.alive t false⟩

end Life

instance (k : Life) : (op : LifeOp) → Decidable (k.Enabled op)
  | .fork parent => inferInstanceAs (Decidable (k.alive parent = true))
  | .threadControl current _ => inferInstanceAs (Decidable (k.alive current = true))
  | .exit t reaper => inferInstanceAs (Decidable (k.alive t = true ∧ k.alive reaper = true ∧ _))

/-- Sequences of operations that meet `Ok`. -/
inductive LifeRun (Ok : Life → LifeOp → Prop) : Life → Prop
  | start : LifeRun Ok .start
  | step {k : Life} (op : LifeOp) (run : LifeRun Ok k) (enabled : k.Enabled op) (ok : Ok k op) :
      LifeRun Ok (k.apply op)

/-- The links are inverse to each other, so that the lists are disjoint rings. A loop over
    any of them ends, after it has visited living tasks only, and the search for an
    arbiter looks at these. -/
structure RingsOk (k : Life) : Prop where
  inverse : ∀ t, (k.table.tasks (k.table.tasks t).next).prev = t ∧
    (k.table.tasks (k.table.tasks t).prev).next = t
  loops : ∀ t, ∃ l, k.table.others t = some l ∧ (∀ u ∈ l, k.alive u) ∧
    k.table.findMyArbiter t = l.find? fun u => isArbiter (k.table.tasks u)

/-- A task becomes special only before it is linked to others, and exits only if it is
    not. -/
def RingOk (k : Life) : LifeOp → Prop
  | .fork _ => True
  | .threadControl current abRole => abRole = abSetMeSpecial → k.table.listEmpty current
  | .exit t _ => k.table.listEmpty t

instance (k : Life) : (op : LifeOp) → Decidable (RingOk k op)
  | .fork _ => inferInstanceAs (Decidable True)
  | .threadControl _ _ => inferInstanceAs (Decidable (_ → _))
  | .exit t _ => inferInstanceAs (Decidable (k.table.listEmpty t))

/-! ### The invariant -/

structure RingInv (k : Life) : Prop where
  prev_next : ∀ t, (k.table.tasks (k.table.tasks t).next).prev = t
  next_prev : ∀ t, (k.table.tasks (k.table.tasks t).prev).next = t
  linked : ∀ t, (k.table.tasks t).next ≠ t → k.alive t
  unused : ∀ t, k.table.count ≤ t → (k.table.tasks t).next = t
  parents : ∀ t, k.alive (k.table.tasks t).parent
  lt_count : ∀ t, k.alive t → t < k.table.count

theorem ringInv_start : RingInv .start :=
  ⟨fun _ => rfl, fun _ => rfl, fun _ h => absurd rfl h, fun _ _ => rfl, fun _ => rfl,
    fun t ht => by
      have hzero : t = 0 := of_decide_eq_true ht
      rw [hzero]
      exact Nat.one_pos⟩

theorem RingInv.ringsOk {k : Life} (hk : RingInv k) : RingsOk k := by
  refine ⟨fun t => ⟨hk.prev_next t, hk.next_prev t⟩, fun t => ?_⟩
  have hinj : Function.Injective fun t => (k.table.tasks t).next :=
    Function.LeftInverse.injective (g := fun t => (k.table.tasks t).prev) hk.prev_next
  have hback : ∃ m, m ≤ k.table.count ∧
      (fun t => (k.table.tasks t).next)^[m] (k.table.tasks t).next = t := by
    by_cases ht : t < k.table.count
    · rcases exists_iterate_eq_self hinj hk.unused ht with ⟨m, hpos, hm, hself⟩
      refine ⟨m - 1, by omega, ?_⟩
      have hsucc : m - 1 + 1 = m := by omega
      rw [← hsucc, Function.iterate_succ_apply] at hself
      exact hself
    · exact ⟨0, Nat.zero_le _, hk.unused t (by omega)⟩
  rcases hback with ⟨m, hm, hback⟩
  rcases k.table.listForEach_of_iterate hback hm with ⟨l, hl, hlinked⟩
  exact ⟨l, hl, fun u hu => hk.linked u (hlinked u hu), k.table.walk_of_listForEach hl⟩

/-- Only a task itself leads to a task that is not linked. -/
theorem RingInv.empty_iff {k : Life} (hk : RingInv k) {t : Nat} (ht : k.table.listEmpty t) :
    (k.table.tasks t).prev = t ∧ ∀ u, u ≠ t → (k.table.tasks u).next ≠ t := by
  have hself : (k.table.tasks t).next = t := ht
  refine ⟨?_, ?_⟩
  · have h := hk.prev_next t
    rw [hself] at h
    exact h
  · intro u hu hnext
    have h := hk.prev_next u
    have h' := hk.prev_next t
    rw [hnext] at h
    rw [hself] at h'
    exact hu (h.symm.trans h')

/-- The invariant is about links, parents and the number of tasks only. -/
theorem RingInv.of_same {k : Life} (hk : RingInv k) {table : TaskTable}
    (hnext : ∀ t, (table.tasks t).next = (k.table.tasks t).next)
    (hprev : ∀ t, (table.tasks t).prev = (k.table.tasks t).prev)
    (hparent : ∀ t, (table.tasks t).parent = (k.table.tasks t).parent)
    (hcount : table.count = k.table.count) : RingInv ⟨table, k.alive⟩ := by
  refine ⟨?_, ?_, ?_, ?_, ?_, ?_⟩
  · intro t
    rw [hnext, hprev]
    exact hk.prev_next t
  · intro t
    rw [hprev, hnext]
    exact hk.next_prev t
  · intro t ht
    rw [hnext] at ht
    exact hk.linked t ht
  · intro t ht
    rw [hnext]
    exact hk.unused t (hcount ▸ ht)
  · intro t
    rw [hparent]
    exact hk.parents t
  · intro t ht
    exact hcount ▸ hk.lt_count t ht

/-! ### Steps -/

theorem RingInv.setIdentity {k : Life} (hk : RingInv k) (t : Nat) (i count : BitVec 32)
    (g : Nat → Option Nat) :
    RingInv ⟨{ k.table.setIdentity t i with abCategoryCount := count, group := g }, k.alive⟩ :=
  hk.of_same (k.table.setIdentity_next t · i) (k.table.setIdentity_prev t · i)
    (k.table.setIdentity_parent t · i) rfl

/-- Linking in a living task that is not linked, behind a living one. -/
theorem RingInv.listAdd {k : Life} (hk : RingInv k) {new head : Nat}
    (hempty : k.table.listEmpty new) (hnew : k.alive new) (hhead : k.alive head) :
    RingInv ⟨k.table.listAdd new head, k.alive⟩ := by
  have hself : (k.table.tasks new).next = new := hempty
  rcases hk.empty_iff hempty with ⟨hprev, hother⟩
  have hpn := hk.prev_next
  have hnp := hk.next_prev
  refine ⟨?_, ?_, ?_, ?_, ?_, hk.lt_count⟩
  · intro t
    simp only [k.table.listAdd_next, k.table.listAdd_prev]
    grind
  · intro t
    simp only [k.table.listAdd_next, k.table.listAdd_prev]
    grind
  · intro t ht
    simp only [k.table.listAdd_next] at ht
    by_cases hthead : t = head
    · exact hthead ▸ hhead
    · by_cases htnew : t = new
      · exact htnew ▸ hnew
      · rw [if_neg hthead, if_neg htnew] at ht
        exact hk.linked t ht
  · intro t ht
    have hlthead := hk.lt_count head hhead
    have hltnew := hk.lt_count new hnew
    have ht : k.table.count ≤ t := ht
    simp only [k.table.listAdd_next]
    rw [if_neg (by omega), if_neg (by omega)]
    exact hk.unused t ht
  · intro t
    simp only [k.table.listAdd_parent]
    exact hk.parents t

theorem RingInv.threadControl {k : Life} (hk : RingInv k) {current : Nat} {abRole : BitVec 32}
    (halive : k.alive current) (hok : abRole = abSetMeSpecial → k.table.listEmpty current) :
    RingInv ⟨k.table.threadControl current abRole, k.alive⟩ := by
  unfold TaskTable.threadControl
  by_cases harbiter : abRole = abSetMeArbiter
  · rw [if_pos harbiter]
    exact hk.setIdentity ..
  rw [if_neg harbiter]
  by_cases hspecial : abRole = abSetMeSpecial
  · rw [if_pos hspecial]
    have hlinked := hk.listAdd (hok hspecial) halive (hk.parents current)
    exact hlinked.setIdentity ..
  · rw [if_neg hspecial]
    exact hk.setIdentity current _ k.table.abCategoryCount k.table.group

theorem RingInv.fork {k : Life} (hk : RingInv k) {parent : Nat} (halive : k.alive parent) :
    RingInv ⟨k.table.fork parent, Function.update k.alive k.table.count true⟩ := by
  -- the child is a ring of its own: no link of another task changes
  have hself : k.table.listEmpty k.table.count := hk.unused _ (Nat.le_refl _)
  rcases hk.empty_iff hself with ⟨hprevself, -⟩
  have hnext : ∀ t, ((k.table.fork parent).tasks t).next = (k.table.tasks t).next := by
    intro t
    unfold TaskTable.fork
    by_cases ht : t = k.table.count
    · simp only [ht, Function.update_self]
      exact hself.symm
    · simp only [Function.update_of_ne ht]
  have hprev : ∀ t, ((k.table.fork parent).tasks t).prev = (k.table.tasks t).prev := by
    intro t
    unfold TaskTable.fork
    by_cases ht : t = k.table.count
    · simp only [ht, Function.update_self, hprevself]
    · simp only [Function.update_of_ne ht]
  have hmono : ∀ t, k.alive t → Function.update k.alive k.table.count true t := by
    intro t ht
    by_cases hnew : t = k.table.count
    · rw [hnew, Function.update_self]
    · rw [Function.update_of_ne hnew]
      exact ht
  refine ⟨?_, ?_, ?_, ?_, ?_, ?_⟩
  · intro t
    simp only [hnext, hprev]
    exact hk.prev_next t
  · intro t
    simp only [hnext, hprev]
    exact hk.next_prev t
  · intro t ht
    simp only [hnext] at ht
    exact hmono t (hk.linked t ht)
  · intro t ht
    simp only [hnext]
    exact hk.unused t (Nat.le_of_succ_le ht)
  · intro t
    apply hmono
    unfold TaskTable.fork
    by_cases hnew : t = k.table.count
    · simp only [hnew, Function.update_self]
      exact halive
    · simp only [Function.update_of_ne hnew]
      exact hk.parents t
  · intro t ht
    by_cases hnew : t = k.table.count
    · rw [hnew]
      exact Nat.lt_succ_self _
    · simp only [Function.update_of_ne hnew] at ht
      exact Nat.lt_succ_of_lt (hk.lt_count t ht)

/-- A task that is not linked may exit. -/
theorem RingInv.exit {k : Life} (hk : RingInv k) {t reaper : Nat} (hempty : k.table.listEmpty t)
    (halive : k.alive reaper) (hne : reaper ≠ t) :
    RingInv ⟨k.reparent t reaper, Function.update k.alive t false⟩ := by
  refine ⟨hk.prev_next, hk.next_prev, ?_, hk.unused, ?_, ?_⟩
  · intro u hu
    by_cases hut : u = t
    · exact absurd (hut ▸ hempty) hu
    · simp only [Function.update_of_ne hut]
      exact hk.linked u hu
  · intro u
    simp only [Life.reparent]
    by_cases hparent : (k.table.tasks u).parent = t
    · rw [if_pos hparent, Function.update_of_ne hne]
      exact halive
    · rw [if_neg hparent, Function.update_of_ne hparent]
      exact hk.parents u
  · intro u hu
    by_cases hut : u = t
    · simp only [hut, Function.update_self] at hu
      cases hu
    · simp only [Function.update_of_ne hut] at hu
      exact hk.lt_count u hu

theorem RingInv.apply {k : Life} (hk : RingInv k) {op : LifeOp} (henabled : k.Enabled op)
    (hok : RingOk k op) : RingInv (k.apply op) := by
  cases op with
  | fork parent => exact hk.fork henabled
  | threadControl current abRole => exact hk.threadControl henabled hok
  | exit t reaper => exact hk.exit hok henabled.2.1 henabled.2.2

/-! ### Runs -/

theorem LifeRun.ringInv {k : Life} (h : LifeRun RingOk k) : RingInv k := by
  induction h with
  | start => exact ringInv_start
  | step op _ henabled hok ih => exact ih.apply henabled hok

/-- As long as tasks become special once and do not exit from a ring, the lists are
    disjoint rings of living tasks and every walk around one of them ends. -/
theorem rings_proper (k : Life) (hrun : LifeRun RingOk k) : RingsOk k := hrun.ringInv.ringsOk

/-- Task 1 is an arbiter, and tasks 2 and 3 have joined its group. -/
def ringOfThree : Life :=
  (((((Life.start.apply (.fork 0)).apply (.threadControl 1 abSetMeArbiter)).apply
    (.fork 1)).apply (.threadControl 2 abSetMeSpecial)).apply (.fork 1)).apply
    (.threadControl 3 abSetMeSpecial)

theorem lifeRun_ringOfThree {Ok : Life → LifeOp → Prop} (hok : ∀ k op, RingOk k op → Ok k op) :
    LifeRun Ok ringOfThree := by
  refine .step _ (.step _ (.step _ (.step _ (.step _ (.step _ .start ?_ ?_) ?_ ?_) ?_ ?_) ?_ ?_)
    ?_ ?_) ?_ ?_
  all_goals first | decide | exact hok _ _ (by decide)

/-- From task 2 a loop visits the arbiter and task 3. -/
theorem rings_proper_three :
    LifeRun RingOk ringOfThree ∧ ringOfThree.table.others 2 = some [1, 3] ∧
      RingsOk ringOfThree := by
  have hrun : LifeRun RingOk ringOfThree := lifeRun_ringOfThree (fun _ _ h => h)
  exact ⟨hrun, by decide, rings_proper _ hrun⟩

/-- When task 2 calls `absys_thread_control` once more, a loop over the arbiter's list goes
    from 2 to 3 and back. -/
theorem rings_proper_fails :
    ∃ k, LifeRun (fun _ _ => True) k ∧ k.table.others 1 = none ∧ ¬ RingsOk k := by
  have hloop : (ringOfThree.apply (.threadControl 2 abSetMeSpecial)).table.others 1 = none := by
    decide
  refine ⟨_, .step (.threadControl 2 abSetMeSpecial) (lifeRun_ringOfThree fun _ _ _ => trivial)
    (by decide) trivial, hloop, ?_⟩
  intro h
  rcases h.loops 1 with ⟨l, hl, -⟩
  rw [hloop] at hl
  cases hl

end ArbiterThread
