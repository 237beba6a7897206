import Mathlib.Logic.Function.Basic
import Mathlib.Tactic.Common

/-!
# The Data Segment

Whether the processes that stand for the threads of a program have one data segment.

Threads are made by forking, so the data segment of a special task is a private
mapping, and fork is supposed to share it all the same. The whole mechanism is in
`copy_one_pte`: an entry between `start_data` and `start_brk` is not write-protected
when it is copied. The child then has the same page, and neither of the two faults
when it writes there.

This needs an entry that is there and writable when the fork happens. A page that
was never touched has none, and one that was only read leads to the file or to the
zero page and is read-only. Such a page looks the same in parent and child until one
of them writes it, and gets a copy. The page that `start_data` lies in is compared
by its first byte, which is before `start_data` unless the two are equal.

## Main definitions

* `Layout`: The bounds of the segment and what is behind its pages.
* `Segment`: The page tables of all tasks of the group, with the values written last
  and the pages that some fork did not share.
* `Segment.fork`, `Segment.fault`, `Segment.write`: What a task does.
* `SegmentRun`: Forks, reads and writes in any order.
* `Unsplit`: Only pages are written that every fork has shared.

## Theorems

* `SegmentInv.fork`, `SegmentInv.fault`, `SegmentInv.write`: Each step keeps the tasks' views
  equal.
* `segment_shared`: In runs that meet the condition, reads return what was written last.
* `segment_shared_fails`: A page that is written after a fork for the first time.
-/

namespace ArbiterThread

/-! ### Pages and entries -/

/-- The page an address is in. -/
def pageOf (a : Nat) : Nat := a / 4096

structure Layout where
  startData : Nat
  startBrk : Nat
  /-- the area that a page belongs to -/
  area : Nat → Nat
  /-- the contents of the file, or zero -/
  backing : Nat → UInt8

/-- The addresses of the segment. -/
def Layout.Inside (L : Layout) (a : Nat) : Prop := L.startData ≤ a ∧ a < L.startBrk

instance (L : Layout) (a : Nat) : Decidable (L.Inside a) := inferInstanceAs (Decidable (_ ∧ _))

/-- The memory behind a page of the segment. -/
inductive SegmentFrame where
  /-- the page of the file, or the zero page -/
  | backing
  /-- anonymous memory -/
  | anon (n : Nat)
deriving DecidableEq

structure SegmentPte where
  frame : SegmentFrame
  write : Bool
deriving DecidableEq

/-- A page that is not entered is read from what is behind it. -/
def frameOf : Option SegmentPte → SegmentFrame
  | none => .backing
  | some e => e.frame

structure Segment where
  /-- the special tasks of the group -/
  tasks : List Nat
  /-- the entry that a task has for a page -/
  pte : Nat → Nat → Option SegmentPte
  /-- whether a task's area has an `anon_vma` -/
  anonVma : Nat → Nat → Bool
  /-- the contents of anonymous memory -/
  mem : Nat → Nat → UInt8
  /-- the next anonymous memory to be taken -/
  fresh : Nat
  /-- the value written last to an address -/
  last : Nat → UInt8
  /-- the pages that some fork did not share -/
  split : Nat → Bool

namespace Segment

variable (L : Layout) (s : Segment)

def contents (f : SegmentFrame) (a : Nat) : UInt8 :=
  match f with
  | .backing => L.backing a
  | .anon n => s.mem n a

/-- The value a task reads. -/
def readValue (t a : Nat) : UInt8 := s.contents L (frameOf (s.pte t (pageOf a))) a

/-- `set_pte_at` -/
def setPte (t page : Nat) (e : SegmentPte) : Segment :=
  { s with pte := Function.update s.pte t (Function.update (s.pte t) page (some e)) }

/-! ### Page faults -/

/-- `reuse_swap_page`: nobody else has the page. `external` says that something outside
    the group has it. -/
def reuseSwapPage (t page n : Nat) (external : Bool) : Bool :=
  !external && s.tasks.all fun u => u = t || (s.pte u page).all fun e => e.frame ≠ .anon n

/-- The page is copied into fresh memory. -/
def copyPage (t page : Nat) : Segment :=
  { s.setPte t page ⟨.anon s.fresh, true⟩ with
    mem := fun n a => if n = s.fresh ∧ pageOf a = page then s.readValue L t a else s.mem n a
    anonVma := Function.update s.anonVma t (Function.update (s.anonVma t) (L.area page) true)
    fresh := s.fresh + 1 }

/-- `do_wp_page` in a private area. -/
def doWpPage (t page : Nat) (e : SegmentPte) (external : Bool) : Segment :=
  match e.frame with
  | .anon n =>
    if s.reuseSwapPage t page n external then s.setPte t page { e with write := true }
    else s.copyPage L t page
  | .backing => s.copyPage L t page

/-- `handle_pte_fault`, if the access faults. -/
def fault (t page : Nat) (write external : Bool) : Segment :=
  match s.pte t page with
  | none => if write then s.copyPage L t page else s.setPte t page ⟨.backing, false⟩
  | some e => if write && !e.write then s.doWpPage L t page e external else s

/-! ### Steps -/

/-- A byte is stored through the entry. -/
def store (t a : Nat) (value : UInt8) : Segment :=
  match s.pte t (pageOf a) with
  | some ⟨.anon n, _⟩ =>
    { s with
      mem := Function.update s.mem n (Function.update (s.mem n) a value)
      last := Function.update s.last a value }
  | _ => s

def write (t a : Nat) (value : UInt8) (external : Bool) : Segment :=
  (s.fault L t (pageOf a) true external).store t a value

/-- The entry that both have after `copy_one_pte`, called by a special task. -/
def copyOnePte (page : Nat) (e : SegmentPte) : SegmentPte :=
  if L.Inside (page * 4096) then e else { e with write := false }

/-- The fork leaves the page writable and in both tables. -/
def shares (t page : Nat) : Bool :=
  decide (L.Inside (page * 4096)) && (s.pte t page).any fun e => e.write

/-- The entries of the parent after a fork. -/
def parentPte (t page : Nat) : Option SegmentPte :=
  if s.anonVma t (L.area page) then (s.pte t page).map (copyOnePte L page) else s.pte t page

/-- The entries of the child. `copy_page_range` leaves out areas without an `anon_vma`. -/
def childPte (t page : Nat) : Option SegmentPte :=
  if s.anonVma t (L.area page) then (s.pte t page).map (copyOnePte L page) else none

def fork (t child : Nat) : Segment :=
  { s with
    tasks := child :: s.tasks
    pte := Function.update (Function.update s.pte t (s.parentPte L t)) child (s.childPte L t)
    anonVma := Function.update s.anonVma child (s.anonVma t)
    split := fun page => s.split page || !s.shares L t page }

end Segment

inductive SegmentOp where
  | fork (t child : Nat)
  | read (t a : Nat)
  | write (t a : Nat) (value : UInt8) (external : Bool)

namespace Segment

variable (L : Layout) (s : Segment)

/-- The step is one of a task of the group, inside the segment. -/
def Enabled : SegmentOp → Prop
  | .fork t child => t ∈ s.tasks ∧ child ∉ s.tasks
  | .read t a => t ∈ s.tasks ∧ L.Inside a
  | .write t a _ _ => t ∈ s.tasks ∧ L.Inside a

instance (op : SegmentOp) : Decidable (s.Enabled L op) :=
  match op with
  | .fork _ _ => inferInstanceAs (Decidable (_ ∧ _))
  | .read _ _ => inferInstanceAs (Decidable (_ ∧ _))
  | .write _ _ _ _ => inferInstanceAs (Decidable (_ ∧ _))

def apply : SegmentOp → Segment
  | .fork t child => s.fork L t child
  | .read t a => s.fault L t (pageOf a) false false
  | .write t a value external => s.write L t a value external

/-- One task, with any page table that its own faults can have left. -/
structure Start (t : Nat) : Prop where
  tasks : s.tasks = [t]
  others : ∀ u, u ≠ t → ∀ page, s.pte u page = none
  writable : ∀ page e, s.pte t page = some e → e.write = true → e.frame ≠ .backing
  anon : ∀ page e n, s.pte t page = some e → e.frame = .anon n →
    n < s.fresh ∧ s.anonVma t (L.area page) = true
  last : ∀ a, s.last a = s.readValue L t a
  split : ∀ page, s.split page = false

end Segment

inductive SegmentRun (L : Layout) (Ok : Segment → SegmentOp → Prop) (s₀ : Segment) : Segment → Prop
  | start : SegmentRun L Ok s₀ s₀
  | step {s : Segment} (op : SegmentOp) (run : SegmentRun L Ok s₀ s) (en : s.Enabled L op)
      (ok : Ok s op) : SegmentRun L Ok s₀ (s.apply L op)

/-- Only pages are written that every earlier fork has found writable in the forking
    task, and that do not begin before the segment if there was one. -/
def Unsplit (s : Segment) : SegmentOp → Prop
  | .write _ a _ _ => s.split (pageOf a) = false
  | _ => True

/-- A read of any task returns what was written last. -/
def OneSegment (L : Layout) (s : Segment) : Prop :=
  ∀ t ∈ s.tasks, ∀ a, L.Inside a → s.readValue L t a = s.last a

/-! ### The invariant -/

structure SegmentInv (L : Layout) (s : Segment) : Prop where
  writable : ∀ t page e, s.pte t page = some e → e.write = true → e.frame ≠ .backing
  anon : ∀ t page e n, s.pte t page = some e → e.frame = .anon n →
    n < s.fresh ∧ s.anonVma t (L.area page) = true
  view : ∀ t ∈ s.tasks, ∀ a, s.readValue L t a = s.last a
  joint : ∀ page, s.split page = false →
    (∃ t, s.tasks = [t]) ∨ ∃ n, ∀ t ∈ s.tasks, s.pte t page = some ⟨.anon n, true⟩

namespace Segment

variable {L : Layout} {s : Segment}

theorem setPte_pte (t page : Nat) (e : SegmentPte) (u p : Nat) :
    (s.setPte t page e).pte u p = if u = t ∧ p = page then some e else s.pte u p := by
  simp only [setPte, Function.update_apply]
  by_cases hu : u = t
  · subst hu
    simp only [if_true, true_and, Function.update_apply]
  · simp only [hu, if_false, false_and]

theorem copyPage_pte (t page u p : Nat) :
    (s.copyPage L t page).pte u p =
      if u = t ∧ p = page then some ⟨.anon s.fresh, true⟩ else s.pte u p :=
  setPte_pte t page _ u p

theorem readValue_eq {s' : Segment} {t u a : Nat}
    (hframe : frameOf (s'.pte u (pageOf a)) = frameOf (s.pte t (pageOf a)))
    (hmem : ∀ n e, s.pte t (pageOf a) = some e → e.frame = .anon n → s'.mem n a = s.mem n a) :
    s'.readValue L u a = s.readValue L t a := by
  unfold readValue
  rw [hframe]
  cases he : s.pte t (pageOf a) with
  | none => rfl
  | some e =>
    simp only [contents, frameOf]
    cases hf : e.frame with
    | backing => rfl
    | anon n => exact hmem n e he hf

theorem store_of_pte {t a n : Nat} {w : Bool} (value : UInt8)
    (h : s.pte t (pageOf a) = some ⟨.anon n, w⟩) :
    s.store t a value =
      { s with
        mem := Function.update s.mem n (Function.update (s.mem n) a value)
        last := Function.update s.last a value } := by
  simp only [store, h]

end Segment

namespace SegmentInv

variable {L : Layout} {s : Segment}

/-- One entry that was not writable is replaced by one with the same contents. -/
theorem enter (h : SegmentInv L s) {s' : Segment} {t page : Nat} {e : SegmentPte}
    (hro : ∀ o, s.pte t page = some o → o.write = false)
    (htasks : s'.tasks = s.tasks) (hlast : s'.last = s.last) (hsplit : s'.split = s.split)
    (hpte : ∀ u p, s'.pte u p = if u = t ∧ p = page then some e else s.pte u p)
    (hmem : ∀ n a, n < s.fresh → s'.mem n a = s.mem n a) (hfresh : s.fresh ≤ s'.fresh)
    (hvma : ∀ u x, s.anonVma u x = true → s'.anonVma u x = true)
    (hwrite : e.write = true → e.frame ≠ .backing)
    (hanon : ∀ n, e.frame = .anon n → n < s'.fresh ∧ s'.anonVma t (L.area page) = true)
    (hsame : ∀ a, pageOf a = page → s'.contents L e.frame a = s.readValue L t a) :
    SegmentInv L s' := by
  refine ⟨?_, ?_, ?_, ?_⟩
  · intro u p o ho
    rw [hpte] at ho
    split at ho
    · cases ho
      exact hwrite
    · exact h.writable u p o ho
  · intro u p o n ho hf
    rw [hpte] at ho
    split at ho
    · rename_i hself
      cases ho
      rw [hself.1, hself.2]
      exact hanon n hf
    · have hold := h.anon u p o n ho hf
      exact ⟨Nat.lt_of_lt_of_le hold.1 hfresh, hvma _ _ hold.2⟩
  · intro u hu a
    rw [htasks] at hu
    rw [hlast, ← h.view u hu a]
    by_cases hself : u = t ∧ pageOf a = page
    · rw [hself.1, ← hsame a hself.2, Segment.readValue, hpte, if_pos ⟨rfl, hself.2⟩, frameOf]
    · apply Segment.readValue_eq
      · rw [hpte, if_neg hself]
      · intro n o ho hf
        exact hmem n a (h.anon u _ o n ho hf).1
  · intro p hp
    rw [hsplit] at hp
    rw [htasks]
    rcases h.joint p hp with hone | ⟨n, hall⟩
    · exact Or.inl hone
    · right
      refine ⟨n, ?_⟩
      intro u hu
      -- the shared entries are writable, so none of them was replaced
      have hother : ¬(u = t ∧ p = page) := by
        rintro ⟨rfl, rfl⟩
        exact absurd (hro _ (hall u hu)) (by simp only [Bool.true_eq_false, not_false_eq_true])
      rw [hpte, if_neg hother]
      exact hall u hu

theorem copyPage (h : SegmentInv L s) {t page : Nat}
    (hro : ∀ o, s.pte t page = some o → o.write = false) : SegmentInv L (s.copyPage L t page) := by
  refine h.enter hro rfl rfl rfl (Segment.copyPage_pte t page) ?_ (Nat.le_succ _) ?_ nofun ?_ ?_
  · intro n a hn
    exact if_neg fun hnew => absurd hnew.1 (Nat.ne_of_lt hn)
  · intro u x hx
    simp only [Segment.copyPage, Function.update_apply]
    split
    · rename_i hu
      rw [Function.update_apply]
      split
      · rfl
      · rw [← hu]
        exact hx
    · exact hx
  · intro n hn
    cases hn
    exact ⟨Nat.lt_succ_self _, by simp only [Segment.copyPage, Function.update_self]⟩
  · intro a ha
    exact if_pos ⟨rfl, ha⟩

theorem fault (h : SegmentInv L s) (t page : Nat) (write external : Bool) :
    SegmentInv L (s.fault L t page write external) := by
  unfold Segment.fault
  -- a page not entered yet, one that is entered read-only, or nothing to do
  cases he : s.pte t page with
  | none =>
    have hro : ∀ o, s.pte t page = some o → o.write = false := by
      intro o ho
      rw [he] at ho
      cases ho
    cases write with
    | true => exact h.copyPage hro
    | false =>
      refine h.enter hro rfl rfl rfl (Segment.setPte_pte t page _) (fun _ _ _ => rfl)
        (Nat.le_refl _) (fun _ _ hx => hx) nofun nofun ?_
      intro a ha
      rw [Segment.readValue, ha, he]
      rfl
  | some e =>
    by_cases hfault : (write && !e.write) = true
    · simp only [hfault, if_true]
      rw [Bool.and_eq_true, Bool.not_eq_true'] at hfault
      have hro : ∀ o, s.pte t page = some o → o.write = false := by
        intro o ho
        rw [he] at ho
        cases ho
        exact hfault.2
      unfold Segment.doWpPage
      cases hf : e.frame with
      | backing => exact h.copyPage hro
      | anon n =>
        simp only
        split
        · refine h.enter hro rfl rfl rfl (Segment.setPte_pte t page _) (fun _ _ _ => rfl)
            (Nat.le_refl _) (fun _ _ hx => hx) ?_ ?_ ?_
          · exact nofun
          · intro m hm
            exact h.anon t page e m he (hf.trans hm)
          · intro a ha
            rw [Segment.readValue, ha, he, frameOf, hf]
            rfl
        · exact h.copyPage hro
    · simp only [hfault, Bool.false_eq_true, if_false]
      exact h

end SegmentInv

namespace Segment

variable {L : Layout} {s : Segment}

/-- A fault leaves the tasks and the split pages as they are. -/
theorem fault_tasks (t page : Nat) (write external : Bool) :
    (s.fault L t page write external).tasks = s.tasks ∧
      (s.fault L t page write external).split = s.split := by
  unfold fault doWpPage
  split
  · split
    · exact ⟨rfl, rfl⟩
    · exact ⟨rfl, rfl⟩
  · split
    · split
      · split
        · exact ⟨rfl, rfl⟩
        · exact ⟨rfl, rfl⟩
      · exact ⟨rfl, rfl⟩
    · exact ⟨rfl, rfl⟩

/-- After a write fault the entry is writable. -/
theorem fault_write (t page : Nat) (external : Bool) :
    ∃ e, (s.fault L t page true external).pte t page = some e ∧ e.write = true := by
  have hcopy : ∃ e, (s.copyPage L t page).pte t page = some e ∧ e.write = true :=
    ⟨_, (copyPage_pte t page t page).trans (if_pos ⟨rfl, rfl⟩), rfl⟩
  unfold fault
  cases he : s.pte t page with
  | none => exact hcopy
  | some e =>
    cases hw : e.write with
    | true =>
      simp only [hw, Bool.not_true, Bool.and_false, Bool.false_eq_true, if_false]
      exact ⟨e, he, hw⟩
    | false =>
      simp only [hw, Bool.not_false, Bool.and_self, if_true]
      unfold doWpPage
      split
      · split
        · exact ⟨_, (setPte_pte t page _ t page).trans (if_pos ⟨rfl, rfl⟩), rfl⟩
        · exact hcopy
      · exact hcopy

theorem shares_iff (t page : Nat) :
    s.shares L t page = true ↔
      L.Inside (page * 4096) ∧ ∃ e, s.pte t page = some e ∧ e.write = true := by
  simp only [shares, Bool.and_eq_true, decide_eq_true_eq, Option.any_eq_true]

end Segment

namespace SegmentInv

variable {L : Layout} {s : Segment}

/-- Storing through a writable entry that everybody shares. -/
theorem store (h : SegmentInv L s) {t a n : Nat} (value : UInt8) (ht : t ∈ s.tasks)
    (hentry : s.pte t (pageOf a) = some ⟨.anon n, true⟩) (hsplit : s.split (pageOf a) = false) :
    SegmentInv L (s.store t a value) := by
  have hshared : ∀ u ∈ s.tasks, s.pte u (pageOf a) = some ⟨.anon n, true⟩ := by
    intro u hu
    rcases h.joint _ hsplit with ⟨v, hone⟩ | ⟨m, hall⟩
    · rw [hone, List.mem_singleton] at hu ht
      rw [hu, ← ht]
      exact hentry
    · rw [hall u hu, ← hall t ht, hentry]
  rw [Segment.store_of_pte value hentry]
  refine ⟨h.writable, h.anon, ?_, h.joint⟩
  intro u hu b
  by_cases hb : b = a
  · subst hb
    simp only [Segment.readValue, hshared u hu, frameOf, Segment.contents, Function.update_self]
  · have hlast : Function.update s.last a value b = s.last b := Function.update_of_ne hb _ _
    simp only [hlast, ← h.view u hu b]
    refine Segment.readValue_eq (s := s) (t := u) rfl ?_
    intro m _ _ _
    simp only [Function.update_apply]
    split
    · rename_i hm
      rw [Function.update_of_ne hb, hm]
    · rfl

theorem write (h : SegmentInv L s) {t a : Nat} (value : UInt8) (external : Bool)
    (ht : t ∈ s.tasks) (hsplit : s.split (pageOf a) = false) :
    SegmentInv L (s.write L t a value external) := by
  have hfault := h.fault t (pageOf a) true external
  have hkept := Segment.fault_tasks (L := L) (s := s) t (pageOf a) true external
  rcases Segment.fault_write (L := L) (s := s) t (pageOf a) external with ⟨⟨frame, w⟩, he, hw⟩
  have hframe := hfault.writable t (pageOf a) _ he hw
  cases frame with
  | backing => exact absurd rfl hframe
  | anon n =>
    cases w with
    | false => cases hw
    | true =>
      refine hfault.store value ?_ he ?_
      · rw [hkept.1]
        exact ht
      · rw [hkept.2]
        exact hsplit

/-- Copying an entry keeps its memory. -/
theorem copyOnePte_frame (page : Nat) (e : SegmentPte) :
    (Segment.copyOnePte L page e).frame = e.frame := by
  unfold Segment.copyOnePte
  split
  · rfl
  · rfl

/-- An entry of the parent after a fork comes from one before. -/
theorem of_parentPte {t page : Nat} {e : SegmentPte} (he : s.parentPte L t page = some e) :
    ∃ d, s.pte t page = some d ∧ e.frame = d.frame ∧ (e.write = true → d.write = true) := by
  unfold Segment.parentPte at he
  split at he
  · rcases Option.map_eq_some_iff.mp he with ⟨d, hd, rfl⟩
    refine ⟨d, hd, copyOnePte_frame page d, ?_⟩
    unfold Segment.copyOnePte
    split
    · exact id
    · exact nofun
  · exact ⟨e, he, rfl, id⟩

/-- The child has at most the entries that the parent has. -/
theorem of_childPte {t page : Nat} {e : SegmentPte} (he : s.childPte L t page = some e) :
    s.parentPte L t page = some e ∧ s.anonVma t (L.area page) = true := by
  unfold Segment.childPte at he
  split at he
  · rename_i hvma
    unfold Segment.parentPte
    rw [if_pos hvma]
    exact ⟨he, hvma⟩
  · cases he

theorem frameOf_parentPte (t page : Nat) :
    frameOf (s.parentPte L t page) = frameOf (s.pte t page) := by
  unfold Segment.parentPte
  split
  · cases s.pte t page with
    | none => rfl
    | some e => exact copyOnePte_frame page e
  · rfl

/-- Entries that are left out lead to what is behind the page. -/
theorem frameOf_childPte (h : SegmentInv L s) (t page : Nat) :
    frameOf (s.childPte L t page) = frameOf (s.pte t page) := by
  unfold Segment.childPte
  split
  · cases s.pte t page with
    | none => rfl
    | some e => exact copyOnePte_frame page e
  · rename_i hvma
    cases he : s.pte t page with
    | none => rfl
    | some e =>
      cases hf : e.frame with
      | backing => exact hf.symm
      | anon n => exact absurd (h.anon t page e n he hf).2 hvma

/-- A page that the fork shares is the same entry in both tables. -/
theorem pte_of_shares (h : SegmentInv L s) {t page : Nat} (hshares : s.shares L t page = true) :
    ∃ n, s.pte t page = some ⟨.anon n, true⟩ ∧ s.parentPte L t page = some ⟨.anon n, true⟩ ∧
      s.childPte L t page = some ⟨.anon n, true⟩ := by
  rcases (Segment.shares_iff t page).mp hshares with ⟨hin, ⟨frame, w⟩, he, hw⟩
  have hframe := h.writable t page _ he hw
  cases frame with
  | backing => exact absurd rfl hframe
  | anon n =>
    have hvma := (h.anon t page _ n he rfl).2
    have hw : w = true := hw
    rw [hw] at he
    refine ⟨n, he, ?_, ?_⟩
    · rw [Segment.parentPte, if_pos hvma, he, Option.map_some, Segment.copyOnePte, if_pos hin]
    · rw [Segment.childPte, if_pos hvma, he, Option.map_some, Segment.copyOnePte, if_pos hin]

theorem fork_pte (t child u page : Nat) :
    (s.fork L t child).pte u page =
      if u = child then s.childPte L t page
      else if u = t then s.parentPte L t page else s.pte u page := by
  simp only [Segment.fork, Function.update_apply]
  split
  · rfl
  split
  · rfl
  · rfl

theorem fork (h : SegmentInv L s) {t child : Nat} (ht : t ∈ s.tasks) (hchild : child ∉ s.tasks) :
    SegmentInv L (s.fork L t child) := by
  have hne : t ≠ child := fun heq => hchild (heq ▸ ht)
  refine ⟨?_, ?_, ?_, ?_⟩
  -- what the parent and the child have entered was entered by the parent
  · intro u page e he hw
    rw [fork_pte] at he
    have hparent : s.parentPte L t page = some e → e.frame ≠ .backing := by
      intro he
      rcases of_parentPte he with ⟨d, hd, hframe, hwrite⟩
      rw [hframe]
      exact h.writable t page d hd (hwrite hw)
    split at he
    · exact hparent (of_childPte he).1
    split at he
    · exact hparent he
    · exact h.writable u page e he hw
  · intro u page e n he hf
    rw [fork_pte] at he
    have hparent : s.parentPte L t page = some e →
        n < s.fresh ∧ s.anonVma t (L.area page) = true := by
      intro he
      rcases of_parentPte he with ⟨d, hd, hframe, _⟩
      exact h.anon t page d n hd (hframe ▸ hf)
    by_cases hu : u = child
    · rw [if_pos hu] at he
      have hboth := hparent (of_childPte he).1
      subst hu
      exact ⟨hboth.1, by simp only [Segment.fork, Function.update_self]; exact hboth.2⟩
    · have hkept : (s.fork L t child).anonVma u = s.anonVma u := Function.update_of_ne hu _ _
      rw [if_neg hu] at he
      rw [hkept]
      split at he
      · rename_i hut
        rw [hut]
        exact hparent he
      · exact h.anon u page e n he hf
  -- all tasks still read the frame they read before
  · intro u hu a
    have hview : ∀ v ∈ s.tasks, frameOf ((s.fork L t child).pte u (pageOf a)) =
        frameOf (s.pte v (pageOf a)) → (s.fork L t child).readValue L u a = s.last a := by
      intro v hv hframe
      rw [← h.view v hv a]
      exact Segment.readValue_eq hframe (fun _ _ _ _ => rfl)
    rw [fork_pte] at hview
    rcases List.mem_cons.mp hu with rfl | hu
    · rw [if_pos rfl] at hview
      exact hview t ht (frameOf_childPte h t _)
    · have hother : u ≠ child := fun heq => hchild (heq ▸ hu)
      rw [if_neg hother] at hview
      by_cases hut : u = t
      · rw [if_pos hut] at hview
        exact hview t ht (frameOf_parentPte t _)
      · rw [if_neg hut] at hview
        exact hview u hu rfl
  -- a page that is not split was in one writable frame, which the child gets too
  · intro page hpage
    simp only [Segment.fork, Bool.or_eq_false_iff, Bool.not_eq_false'] at hpage
    rcases pte_of_shares h hpage.2 with ⟨n, he, hparent, hchildPte⟩
    right
    refine ⟨n, ?_⟩
    intro u hu
    rw [fork_pte]
    split
    · exact hchildPte
    split
    · exact hparent
    · rename_i hother hut
      have hu := (List.mem_cons.mp hu).resolve_left hother
      rcases h.joint page hpage.1 with ⟨v, hone⟩ | ⟨m, hall⟩
      · rw [hone, List.mem_singleton] at hu ht
        exact absurd (hu.trans ht.symm) hut
      · rw [hall u hu, ← hall t ht, he]

theorem apply (h : SegmentInv L s) (op : SegmentOp) (en : s.Enabled L op) (ok : Unsplit s op) :
    SegmentInv L (s.apply L op) := by
  cases op with
  | fork t child => exact h.fork en.1 en.2
  | read t a => exact h.fault t (pageOf a) false false
  | write t a value external => exact h.write value external en.1 ok

end SegmentInv

theorem Segment.Start.inv {L : Layout} {s : Segment} {t : Nat} (h : s.Start L t) :
    SegmentInv L s := by
  have hself : ∀ u page e, s.pte u page = some e → u = t := by
    intro u page e he
    by_contra hu
    rw [h.others u hu] at he
    cases he
  refine ⟨?_, ?_, ?_, fun _ _ => Or.inl ⟨t, h.tasks⟩⟩
  · intro u page e he
    rw [hself u page e he] at he
    exact h.writable page e he
  · intro u page e n he
    have hu := hself u page e he
    rw [hu] at he ⊢
    exact h.anon page e n he
  · intro u hu a
    rw [h.tasks, List.mem_singleton] at hu
    rw [hu, h.last]

/-! ### One segment -/

/-- If only pages are written that every fork has shared, the page tables are those of one
    segment. -/
theorem segment_shared {L : Layout} {s₀ s : Segment} {t : Nat} (hstart : s₀.Start L t)
    (run : SegmentRun L Unsplit s₀ s) : OneSegment L s := by
  have hinv : SegmentInv L s := by
    induction run with
    | start => exact hstart.inv
    | step op _ en ok ih => exact ih.apply op en ok
  intro u hu a _
  exact hinv.view u hu a

/-- The data segment of a small program: initialised data from the file in one area, the
    rest in another, and a task that has not touched any of it. The segment begins within
    a page. -/
def untouched : Layout × Segment :=
  let backing := fun a => if a < 0x0804b000 then 7 else 0
  (⟨0x08049f14, 0x0804d000, fun page => if page < 0x0804b then 0 else 1, backing⟩,
    ⟨[1], fun _ _ => none, fun _ _ => false, fun _ _ => 0, 0, backing, fun _ => false⟩)

theorem start_untouched : untouched.2.Start untouched.1 1 where
  tasks := rfl
  others := fun _ _ _ => rfl
  writable := nofun
  anon := nofun
  last := fun _ => rfl
  split := fun _ => rfl

/-- Pages that are written before the fork, one in each area, stay common to both. -/
theorem segment_shared_touched :
    OneSegment untouched.1 (((((untouched.2.apply untouched.1 (.write 1 0x0804a010 5 false)).apply
      untouched.1 (.write 1 0x0804c004 6 false)).apply untouched.1 (.fork 1 2)).apply untouched.1
      (.write 2 0x0804a010 8 false)).apply untouched.1 (.write 1 0x0804c005 9 false)) :=
  segment_shared start_untouched
    (.step _ (.step _ (.step _ (.step _ (.step _ .start (by decide) rfl) (by decide) rfl)
      (by decide) trivial) (by decide) rfl) (by decide) rfl)

/-- The parent writes a page for the first time after the fork: the child still reads what
    was there before. -/
theorem segment_shared_fails :
    ∃ (L : Layout) (s₀ s : Segment) (t a : Nat), s₀.Start L t ∧
      SegmentRun L (fun _ _ => True) s₀ s ∧ 2 ∈ s.tasks ∧ L.Inside a ∧ s.last a = 1 ∧
      s.readValue L 1 a = 1 ∧ s.readValue L 2 a = 0 :=
  ⟨untouched.1, untouched.2, _, 1, 0x0804c004, start_untouched,
    .step (.write 1 0x0804c004 1 false) (.step (.fork 1 2) .start (by decide) trivial)
      (by decide) trivial,
    by decide, by decide, by decide, by decide, by decide⟩

end ArbiterThread
