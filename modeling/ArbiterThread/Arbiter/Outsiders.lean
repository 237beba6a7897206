import ArbiterThread.Arbiter.Protection
import ArbiterThread.Client.Create
import ArbiterThread.Kernel.Grants
import ArbiterThread.Kernel.Sharing

/-!
# Outsiders

Tasks in the kernel's ring that the arbiter does not know.

There are two lists of the same people. The kernel's ring has every task that ever
became special, and nothing leaves it. The arbiter's table has the clients whose
`FORK` was accepted and which were not joined since. A task in the first list and not
in the second is an outsider, and the arbiter has no means to take anything away from
it, because `prot_update` walks the second list.

So an outsider keeps whatever the kernel gives it. `absys_mmap` reserves an area in
the tasks it is not called for, without access, and where they have something mapped
it leaves that as it is. `absys_brk` maps the pages readable and writable in the whole
ring. The second is how the allocator gets almost all of its units.

This needs the kernel as it is coded, with its areas, below the allocator as it is
coded. `GroupKernel` puts the ring and the address spaces under the allocator's
system calls.

## Main definitions

* `GroupKernel`, `groupOps`: The kernel's calls on the tasks of the ring.
* `Outsider`: In the ring, but not in the table.
* `Mm.Accessible`: The task may read or write the page.
* `Watched`: The arbiter, and since when each outsider is one.
* `WatchedRun`: Requests, forks, tasks that join the ring and tasks that change mappings
  of their own.
* `UnitClear`: A new unit is not given to an outsider.

## Theorems

* `Mm.NoMore`: The ways an address space changes without a page becoming accessible.
* `ShutFor.newUnit`, `shutFor_releases`: New units and releases.
* `outsiders_shut`: In runs that meet the condition, outsiders have no access to later
  units.
* `outsiders_shut_fails`: A task whose `FORK` was refused, and the next unit.
-/

namespace ArbiterThread

open Exec

/-! ### The kernel -/

/-- What is left open about a call. -/
structure Fate where
  /-- the tasks that `absys_brk` gets to -/
  served : Nat
  /-- whether `absys_mmap` finds what it needs -/
  mapped : Bool
  /-- whether it has cleared the range before it fails -/
  cleared : Bool
  /-- the page that its error leads to as an address -/
  stray : Nat
  /-- the pages that the other tasks can reserve for it -/
  filled : Nat → Nat → Bool
  /-- the pages that `absys_mprotect` gets to -/
  pages : Nat
  /-- the pages besides the range in the areas that `absys_munmap` removes -/
  also : Nat → Nat → Bool

structure GroupKernel where
  group : Group
  /-- `ab_brk` of the arbiter -/
  brk : Nat
  fates : Nat → Fate
  calls : Nat

namespace GroupKernel

variable (k : GroupKernel)

def fate : Fate := k.fates k.calls

def after (g : Group) : GroupKernel := { k with group := g, calls := k.calls + 1 }

end GroupKernel

/-- The number of pages that hold `len` bytes. -/
def pagesFor (len : Nat) : Nat := (len + 4095) / 4096

/-- The protections that `prot_update` passes on. -/
def MemProt.toProt : MemProt → Prot
  | .protN => .nothing
  | .protR => ⟨true, false, false⟩
  | .protRW => .data

/-- `EPERM`, and any other error, arrives as -1. -/
def callFailed : Nat := morecoreFailure

def groupOps : KernelOps GroupKernel where
  absysBrk := fun k pid addr =>
    if pid ∉ k.group.ring then (callFailed, k)
    else if addr < channelAddr then (k.brk, k)
    else if pagesFor addr = pagesFor k.brk then (addr, { k with brk := addr })
    else if pagesFor addr < pagesFor k.brk then (k.brk, k)
    else
      let first := pagesFor k.brk
      let n := pagesFor addr - first
      let g := k.group.absysBrk first n k.fate.served
      if k.group.rangeFree first n ∧ k.group.ring.length ≤ k.fate.served then
        (addr, { k.after g with brk := addr })
      else (k.brk, k.after g)
  absysMmap := fun k pid addr len p =>
    if pid ∉ k.group.ring ∨ addr % 4096 ≠ 0 then (callFailed, k)
    else if k.fate.mapped then
      -- `AB_MMAP` asks for a private area
      (addr, k.after (k.group.absysMmap pid (addr / 4096) (pagesFor len) p.toProt false
        k.fate.filled))
    else
      (callFailed, k.after (k.group.absysMmapFailed pid (addr / 4096) (pagesFor len)
        k.fate.cleared k.fate.stray false k.fate.filled))
  absysMunmap := fun k pid addr len =>
    if addr % 4096 ≠ 0 then k
    else k.after (k.group.absysMunmap pid (addr / 4096) (pagesFor len) k.fate.also)
  absysMprotect := fun k pid addr len p =>
    if pid ∉ k.group.ring ∨ addr % 4096 ≠ 0 then (-1, k)
    else
      (if pagesFor len ≤ k.fate.pages then 0 else -1,
        k.after (k.group.absysMprotect pid (addr / 4096) (min (pagesFor len) k.fate.pages)
          p.toProt))
  oops := fun _ _ => false
  oops_mprotect := fun _ _ _ _ _ => rfl
  oops_brk := fun _ _ _ => rfl
  oops_mmap := fun _ _ _ _ _ => rfl

/-! ### Access -/

/-- The page is in a controlled area that the task may read or write. -/
def Mm.Accessible (m : Mm) (page : Nat) : Prop :=
  ∃ v write, m.vma page = some v ∧ v.abControl = true ∧ accessError v.prot write = false

/-- No page became accessible. -/
def Mm.NoMore (m' m : Mm) : Prop := ∀ page, m'.Accessible page → m.Accessible page

namespace Mm.NoMore

theorem refl (m : Mm) : m.NoMore m := fun _ h => h

theorem trans {m m' m'' : Mm} (h' : m''.NoMore m') (h : m'.NoMore m) : m''.NoMore m :=
  fun page ha => h page (h' page ha)

theorem of_within {m m' : Mm} (h : m'.Within m) : m'.NoMore m := by
  rintro page ⟨v, write, hv, hab, hno⟩
  exact ⟨v, write, h page v hv hab, hab, hno⟩

/-- A reserved area gives no access. -/
theorem propagateRegion (m : Mm) (first n : Nat) (mapShared : Bool) (filled : Nat → Bool) :
    (m.propagateRegion first n (reservedVma mapShared) filled).NoMore m := by
  rintro page ⟨v, write, hv, hab, hno⟩
  rcases Mm.propagateRegion_vma hv with hnone | hold
  · have herr : accessError Prot.nothing write = true := by
      cases write with
      | false => rfl
      | true => rfl
    rw [hnone, herr] at hno
    cases hno
  · exact ⟨v, write, hold, hab, hno⟩

end Mm.NoMore

/-- In the ring, but not in the table. -/
def Outside (ring : List Nat) (clients : List ClientDesc) (t : Nat) : Prop :=
  t ∈ ring ∧ ∀ c ∈ clients, c.pid ≠ t

instance (ring : List Nat) (clients : List ClientDesc) (t : Nat) :
    Decidable (Outside ring clients t) := inferInstanceAs (Decidable (_ ∧ _))

def Outsider (s : State GroupKernel) (t : Nat) : Prop := Outside s.kern.group.ring s.clients t

instance (s : State GroupKernel) (t : Nat) : Decidable (Outsider s t) :=
  inferInstanceAs (Decidable (Outside _ _ _))

/-! ### System calls and outsiders -/

/-- The ring stays as it is, and a task gets no more access. -/
def GroupKernel.Still (k' k : GroupKernel) (t : Nat) : Prop :=
  k'.group.ring = k.group.ring ∧ (k'.group.mm t).NoMore (k.group.mm t)

namespace GroupKernel.Still

variable {k k' k'' : GroupKernel} {t : Nat}

theorem refl (k : GroupKernel) (t : Nat) : k.Still k t := ⟨rfl, Mm.NoMore.refl _⟩

theorem trans (h' : k''.Still k' t) (h : k'.Still k t) : k''.Still k t :=
  ⟨h'.1.trans h.1, h'.2.trans h.2⟩

/-- Mapping an area for another task. -/
theorem absysMmap {pid : Nat} (hpid : t ≠ pid) (k : GroupKernel) (addr len : Nat) (p : MemProt) :
    (groupOps.absysMmap k pid addr len p).2.Still k t := by
  simp only [groupOps]
  split
  · exact refl k t
  split
  · refine ⟨?_, ?_⟩
    · simp only [GroupKernel.after, Group.absysMmap]
      split
      · rfl
      · rfl
    · simp only [GroupKernel.after, Group.absysMmap_mm, hpid, and_false, if_false]
      split
      · exact Mm.NoMore.propagateRegion _ _ _ _ _
      · exact Mm.NoMore.refl _
  · refine ⟨?_, ?_⟩
    · simp only [GroupKernel.after, Group.absysMmapFailed]
      split
      · rfl
      · rfl
    · simp only [GroupKernel.after, Group.absysMmapFailed_mm, hpid, and_false, if_false]
      split
      · exact Mm.NoMore.propagateRegion _ _ _ _ _
      · exact Mm.NoMore.refl _

/-- Changing protections of another task. -/
theorem absysMprotect {pid : Nat} (hpid : t ≠ pid) (k : GroupKernel) (addr len : Nat)
    (p : MemProt) : (groupOps.absysMprotect k pid addr len p).2.Still k t := by
  simp only [groupOps]
  split
  · exact refl k t
  · refine ⟨rfl, ?_⟩
    simp only [GroupKernel.after, Group.absysMprotect, Group.setMm_mm, hpid, false_and, if_false]
    exact Mm.NoMore.refl _

/-- Unmapping takes access away, from whomever. -/
theorem absysMunmap (k : GroupKernel) (pid addr len t : Nat) :
    (groupOps.absysMunmap k pid addr len).Still k t := by
  simp only [groupOps]
  split
  · exact refl k t
  · refine ⟨?_, ?_⟩
    · simp only [GroupKernel.after, Group.absysMunmap]
      split
      · rfl
      · rfl
    · simp only [GroupKernel.after, Group.absysMunmap_mm]
      split
      · exact .of_within (Mm.Within.doMunmap _ _ _)
      split
      · exact .of_within (Mm.Within.unmapControlled _ _)
      · exact Mm.NoMore.refl _

/-- The loop of `prot_update` does not come to an outsider. -/
theorem protLoop {cs : List ClientDesc} (hout : ∀ c ∈ cs, c.pid ≠ t) (pid addr len : Nat)
    (L : Label) (k : GroupKernel) : (protLoop groupOps pid addr len L cs k).Still k t := by
  induction cs generalizing k with
  | nil => exact refl k t
  | cons c cs ih =>
    have htail := fun c' hc' => hout c' (List.mem_cons_of_mem c hc')
    unfold ArbiterThread.protLoop
    split
    · exact ih htail k
    · exact (ih htail _).trans (absysMprotect (hout c List.mem_cons_self).symm k _ _ _)

/-- Nor does the loop for a new client. -/
theorem updateKern {c : ClientDesc} (hc : c.pid ≠ t) (s : State GroupKernel) (us : List Nat)
    (k : GroupKernel) : (updateKern groupOps c s us k).Still k t := by
  induction us generalizing k with
  | nil => exact refl k t
  | cons u us ih =>
    unfold ArbiterThread.updateKern
    exact (ih _).trans (absysMprotect hc.symm k _ _ _)

end GroupKernel.Still

/-- A call for a task that is not in the ring does nothing. -/
theorem absysBrk_of_notMem {k : GroupKernel} {pid : Nat} (hpid : pid ∉ k.group.ring) (addr : Nat) :
    groupOps.absysBrk k pid addr = (callFailed, k) := if_pos hpid

theorem absysBrk_ring (k : GroupKernel) (pid addr : Nat) :
    (groupOps.absysBrk k pid addr).2.group.ring = k.group.ring := by
  have hbrk : ∀ first n served, (k.group.absysBrk first n served).ring = k.group.ring := by
    intro first n served
    unfold Group.absysBrk
    split
    · rfl
    · rfl
  simp only [groupOps]
  split
  · rfl
  split
  · rfl
  split
  · rfl
  split
  · rfl
  split
  · exact hbrk _ _ _
  · exact hbrk _ _ _

/-- Asking for the break changes nothing in the kernel. -/
theorem oldBrk_kern (v : View GroupKernel) (pid : Nat) : (v.oldBrk groupOps pid).2 = v.kern := by
  unfold View.oldBrk
  split
  · simp only [groupOps]
    split
    · rfl
    · rw [if_pos (by decide)]
  · rfl

/-! ### New units and releases -/

/-- The task has no access to the pages of the region. -/
def ShutFrom (k : GroupKernel) (t : Nat) (r : Region) : Prop :=
  ∀ page, inPages r.addr r.length page → ¬ (k.group.mm t).Accessible page

theorem ShutFrom.still {k k' : GroupKernel} {t : Nat} {r : Region} (h : ShutFrom k t r)
    (hstill : k'.Still k t) : ShutFrom k' t r :=
  fun page hpage hacc => h page hpage (hstill.2 page hacc)

/-- Outsiders have no access to the units numbered from their mark on. -/
def Shut (since : Nat → Nat) (v : View GroupKernel) : Prop :=
  ∀ t, Outside v.kern.group.ring v.clients t → ∀ r ∈ v.regions, since t ≤ r.unit →
    ShutFrom v.kern t r

/-- So it is, and the client that makes the request is not one of them. -/
def ShutFor (since : Nat → Nat) (c : ClientDesc) (v : View GroupKernel) : Prop :=
  c ∈ v.clients ∧ Shut since v

/-- A new unit is not given to an outsider. An area of its own is not where an outsider
    can access something, and the break is not moved while there is one. A client that is
    not in the ring cannot move the break, and gets a unit that the kernel has not mapped. -/
structure UnitClear (c : ClientDesc) (nb av : Nat) (s : State GroupKernel) : Prop where
  mmap : TakesMmap s av nb → ∀ t, Outsider s t → ∀ page,
    inPages (getUnmappedArea s.units s.mmappedUstateList (mmapSize (s.mstates av) nb))
      (mmapSize (s.mstates av) nb) page → ¬ (s.kern.group.mm t).Accessible page
  sbrk : ¬ TakesMmap s av nb → ∀ t, Outsider s t → c.pid ∉ s.kern.group.ring ∧
    ∀ page, inPages s.curbrk unitSize page → ¬ (s.kern.group.mm t).Accessible page

section

variable {since : Nat → Nat} {c : ClientDesc} {L : Label} {nb av : Nat} {s : State GroupKernel}

/-- One more region, that nobody outside can access. -/
theorem ShutFor.addRegion {v : View GroupKernel} (h : ShutFor since c v) {addr len b : Nat}
    {k : GroupKernel}
    (hstill : ∀ t, Outside k.group.ring v.clients t →
      k.Still v.kern t ∧ ∀ unit, ShutFrom v.kern t ⟨unit, addr, len, L⟩) :
    ShutFor since c { v.addRegion addr len L with kern := k, curbrk := b } := by
  refine ⟨h.1, ?_⟩
  intro t hout r hr hsince
  rcases hstill t hout with ⟨hno, hnew⟩
  rcases List.mem_cons.mp hr with rfl | hr
  · exact (hnew _).still hno
  · exact (h.2 t (hno.1 ▸ hout) r hr hsince).still hno

theorem ShutFor.mmapped (h : ShutFor since c s.view) (hclear : UnitClear c nb av s)
    (htakes : TakesMmap s av nb) {size mm : Nat} (hsize : size = mmapSize (s.mstates av) nb)
    (hmm : mm = getUnmappedArea s.units s.mmappedUstateList size) :
    ShutFor since c (s.view.mmapped groupOps c.pid mm size L) := by
  apply h.addRegion
  intro t hout
  have hstill : (protLoop groupOps c.pid mm size L s.clients
      (groupOps.absysMmap s.kern c.pid mm size .protRW).2).Still s.kern t :=
    (GroupKernel.Still.protLoop hout.2 _ _ _ _ _).trans
      (GroupKernel.Still.absysMmap (hout.2 c h.1).symm _ _ _ _)
  have hold : Outsider s t := ⟨hstill.1 ▸ hout.1, hout.2⟩
  subst hsize hmm
  exact ⟨hstill, fun _ => hclear.mmap htakes t hold⟩

/-- There is an outsider, so the break was not moved. -/
theorem ShutFor.sbrked (h : ShutFor since c s.view) (hclear : UnitClear c nb av s)
    (htakes : ¬ TakesMmap s av nb)
    (hfirst : s.curbrk = 0 → (s.view.oldBrk groupOps c.pid).1 = channelAddr) :
    ShutFor since c (s.view.sbrked groupOps c.pid nb L) := by
  have hkern := oldBrk_kern s.view c.pid
  apply h.addRegion
  intro t hout
  have hloop : ∀ k : GroupKernel, (if nb + minSize ≤ unitTopSize then
      protLoop groupOps c.pid (s.view.oldBrk groupOps c.pid).1 unitTopSize L s.view.clients k
      else k).Still k t := by
    intro k
    split
    · exact GroupKernel.Still.protLoop hout.2 _ _ _ _ _
    · exact GroupKernel.Still.refl k t
  have hring : (s.view.newBrk groupOps c.pid).2.group.ring = s.kern.group.ring := by
    rw [View.newBrk, absysBrk_ring, hkern]
    rfl
  have hold : Outsider s t := ⟨hring ▸ (hloop _).1 ▸ hout.1, hout.2⟩
  rcases hclear.sbrk htakes t hold with ⟨hpid, harea⟩
  -- a client that is not in the ring cannot move the break
  have hnone : ∀ addr, groupOps.absysBrk s.view.kern c.pid addr = (callFailed, s.kern) :=
    absysBrk_of_notMem hpid
  have hsame : (s.view.newBrk groupOps c.pid).2 = s.kern := by
    rw [View.newBrk, hkern, hnone]
  have hbrk : (s.view.oldBrk groupOps c.pid).1 = s.curbrk := by
    unfold View.oldBrk at hfirst ⊢
    by_cases hzero : s.view.curbrk = 0
    · -- without an answer from the kernel the first call does not come this far
      rw [if_pos hzero, hnone] at hfirst
      have hne : callFailed ≠ channelAddr := by decide
      exact absurd (hfirst hzero) hne
    · rw [if_neg hzero]
      rfl
  refine ⟨?_, ?_⟩
  · have hstill := hloop (s.view.newBrk groupOps c.pid).2
    rw [hsame] at hstill ⊢
    exact hstill
  · rw [hbrk]
    exact fun _ => harea

theorem ShutFor.newUnit {v : View GroupKernel} (h : ShutFor since c s.view)
    (hclear : UnitClear c nb av s) (hnew : NewUnit groupOps c.pid nb av L s v) :
    ShutFor since c v := by
  cases hnew with
  | mmap size mm htakes hsize hmm _ => exact h.mmapped hclear htakes hsize hmm
  | sbrk htakes hfirst _ _ => exact h.sbrked hclear htakes hfirst

theorem shutFor_releases (since : Nat → Nat) (c : ClientDesc) :
    Releases groupOps (ShutFor since c) := by
  intro v pid addr size regions h hsub
  refine ⟨h.1, ?_⟩
  intro t hout r hr hsince
  have hstill := GroupKernel.Still.absysMunmap v.kern pid addr size t
  exact (h.2 t (hstill.1 ▸ hout) r (hsub.subset hr) hsince).still hstill

end

/-! ### Runs -/

/-- The arbiter, and for each outsider the number of units when it became one. -/
structure Watched where
  state : State GroupKernel
  since : Nat → Nat

/-- The state after a step. A task that was no outsider before it is marked, in case it is
    one now. -/
def Watched.next (w : Watched) (s' : State GroupKernel) : Watched where
  state := s'
  since := fun t => if Outsider w.state t then w.since t else s'.nextUnit

/-- The child has the areas of its parent. -/
def GroupKernel.clone (k : GroupKernel) (parent child : Nat) : GroupKernel :=
  { k with
    group := { k.group with
      mm := Function.update (Function.update k.group.mm parent (k.group.mm parent).dupMmap) child
        (k.group.mm parent).dupMmap } }

def GroupKernel.join (k : GroupKernel) (t position : Nat) : GroupKernel :=
  { k with group := { k.group with ring := k.group.ring.insertIdx position t } }

def GroupKernel.setMm (k : GroupKernel) (t : Nat) (m : Mm) : GroupKernel :=
  { k with group := { k.group with mm := Function.update k.group.mm t m } }

/-- Runs of the arbiter in which requests meet `Ok`, while processes fork, become special
    and change mappings of their own. -/
inductive WatchedRun (Ok : Request → State GroupKernel → Prop) (w₀ : Watched) : Watched → Prop
  | start : WatchedRun Ok w₀ w₀
  | request {w : Watched} {s' : State GroupKernel} {rply : Option Reply} (req : Request)
      (run : WatchedRun Ok w₀ w) (ok : Ok req w.state)
      (hs : handleClientRpc groupOps req w.state = .ok rply s') : WatchedRun Ok w₀ (w.next s')
  | clone {w : Watched} (parent child : Nat) (run : WatchedRun Ok w₀ w)
      (hnew : child ∉ w.state.kern.group.ring) :
      WatchedRun Ok w₀ (w.next { w.state with kern := w.state.kern.clone parent child })
  | join {w : Watched} (t position : Nat) (run : WatchedRun Ok w₀ w)
      (hnew : t ∉ w.state.kern.group.ring) :
      WatchedRun Ok w₀ (w.next { w.state with kern := w.state.kern.join t position })
  | own {w : Watched} (t : Nat) (m : Mm) (run : WatchedRun Ok w₀ w)
      (hown : m.Within (w.state.kern.group.mm t)) :
      WatchedRun Ok w₀ (w.next { w.state with kern := w.state.kern.setMm t m })

/-- Outsiders have no access to the units allocated since they are outsiders. -/
def Watched.ShutOut (w : Watched) : Prop :=
  ∀ t, Outsider w.state t → ∀ u ∈ w.state.ustateList, w.since t ≤ u → ∀ page,
    inPages (w.state.units u).addr (w.state.units u).length page →
    ¬ (w.state.kern.group.mm t).Accessible page

/-- No request gives a new unit to an outsider. -/
def ClearOk (req : Request) (s : State GroupKernel) : Prop :=
  ∀ c op, Reaches req s c op → AllocOk (fun c _ => UnitClear c) req s c op

def Watched.Inv (w : Watched) : Prop := w.state.Wf ∧ Shut w.since w.state.view

namespace Watched.Inv

variable {w : Watched} {s' : State GroupKernel}

/-- Only tasks count that were outsiders before: for others there are no later units. -/
theorem next (hwf : s'.Wf)
    (h : ∀ t, Outsider w.state t → Outsider s' t → ∀ r ∈ s'.view.regions, w.since t ≤ r.unit →
      ShutFrom s'.kern t r) : (w.next s').Inv := by
  refine ⟨hwf, ?_⟩
  intro t hout r hr hsince
  by_cases hold : Outsider w.state t
  · simp only [Watched.next, if_pos hold] at hsince
    exact h t hold hout r hr hsince
  · simp only [Watched.next, if_neg hold] at hsince
    rcases List.mem_map.mp hr with ⟨u, hu, rfl⟩
    exact absurd (hwf.units u hu).1 (Nat.not_lt.mpr hsince)

/-- The units stay, and no outsider gets more access. -/
theorem still (h : w.Inv) (hwf : s'.Wf) (hregions : s'.view.regions = w.state.view.regions)
    (hstill : ∀ t, Outsider w.state t → Outsider s' t → s'.kern.Still w.state.kern t) :
    (w.next s').Inv := by
  refine next hwf ?_
  intro t hold hout r hr hsince
  rw [hregions] at hr
  exact (h.2 t hold r hr hsince).still (hstill t hold hout)

theorem handleClientRpc (h : w.Inv) {req : Request} (hok : ClearOk req w.state) :
    wp (handleClientRpc groupOps req) (fun _ s' => (w.next s').Inv) (fun _ _ => True)
      w.state := by
  have hwf := h.1
  have hsame : (w.next w.state).Inv :=
    h.still ⟨hwf.units, hwf.avs, hwf.start⟩ rfl (fun t _ _ => GroupKernel.Still.refl _ t)
  refine wp_handleClientRpc (fun _ => hsame) (fun c op hreach => ?_)
  have hc : c ∈ w.state.clients := List.mem_of_find?_eq_some hreach.2.1
  by_cases htable : op ≠ .createCat ∧ op ≠ .fork ∧ op ≠ .pthreadJoin
  · have hseen : Seen (ShutFor w.since c) w.state := ⟨hwf, hc, h.2⟩
    refine wp_mono (hseen.dispatch (shutFor_releases w.since c) c
      (fun L nb av s v hv hclear hnew => hv.newUnit hclear hnew) req htable (hok c op hreach))
      ?_ (fun _ _ _ => trivial)
    intro _ s' hs'
    exact next hs'.1 fun t _ hout r hr hsince => hs'.2.2 t hout r hr hsince
  cases op with
  | createCat =>
    change wp (handleCreateCatRpc c req) _ _ w.state
    rw [wp_handleCreateCatRpc]
    split
    · exact h.still ⟨hwf.units, hwf.avs, hwf.start⟩ rfl (fun t _ _ => GroupKernel.Still.refl _ t)
    · trivial
  | fork =>
    change wp (handleForkRpc groupOps c req) _ _ w.state
    rw [wp_handleForkRpc]
    split
    · exact hsame
    · refine wp_mallocUpdate_of ?_ trivial
      refine h.still ⟨hwf.units, hwf.avs, hwf.start⟩ rfl ?_
      intro t _ hout
      -- the new client is in the table now, so it is not the outsider
      have hnew := hout.2 (forked req) (List.mem_append_right _ (List.mem_singleton_self _))
      exact GroupKernel.Still.updateKern hnew _ _ _
  | pthreadJoin =>
    change wp (handlePthreadJoinRpc c req) _ _ w.state
    rw [wp_handlePthreadJoinRpc]
    split
    · exact hsame
    · split
      · exact hsame
      · exact h.still ⟨hwf.units, hwf.avs, hwf.start⟩ rfl (fun t _ _ => GroupKernel.Still.refl _ t)
  | malloc | calloc | realloc | free | getLabel | getOwnership | getMemLabel | rpc =>
    exact absurd ⟨by decide, by decide, by decide⟩ htable

/-- The ring and the address spaces change without the arbiter. -/
theorem setKern (h : w.Inv) (k : GroupKernel)
    (hmm : ∀ t ∈ w.state.kern.group.ring,
      (k.group.mm t).NoMore (w.state.kern.group.mm t)) :
    (w.next { w.state with kern := k }).Inv := by
  refine next ⟨h.1.units, h.1.avs, h.1.start⟩ ?_
  intro t hold _ r hr hsince page hpage hacc
  exact h.2 t hold r hr hsince page hpage (hmm t hold.1 page hacc)

theorem clone (h : w.Inv) (parent : Nat) {child : Nat} (hnew : child ∉ w.state.kern.group.ring) :
    (w.next { w.state with kern := w.state.kern.clone parent child }).Inv := by
  refine h.setKern _ ?_
  intro t ht
  have hchild : t ≠ child := fun heq => hnew (heq ▸ ht)
  simp only [GroupKernel.clone, Function.update_of_ne hchild, Function.update_apply]
  split
  · rename_i hparent
    subst hparent
    exact fun page hacc => hacc
  · exact Mm.NoMore.refl _

theorem own (h : w.Inv) {t : Nat} {m : Mm} (hown : m.Within (w.state.kern.group.mm t)) :
    (w.next { w.state with kern := w.state.kern.setMm t m }).Inv := by
  refine h.setKern _ ?_
  intro u _
  simp only [GroupKernel.setMm, Function.update_apply]
  split
  · rename_i hut
    rw [hut]
    exact .of_within hown
  · exact Mm.NoMore.refl _

theorem shutOut (h : w.Inv) : w.ShutOut := by
  intro t hout u hu hsince page hpage
  exact h.2 t hout (w.state.region u) (List.mem_map_of_mem hu) hsince page hpage

end Watched.Inv

theorem WatchedRun.inv {w₀ w : Watched} (h₀ : w₀.Inv) (run : WatchedRun ClearOk w₀ w) : w.Inv := by
  induction run with
  | start => exact h₀
  | @request w s' _ req _ ok hs ih =>
    exact wp_run (Q := fun _ s' => (w.next s').Inv) (ih.handleClientRpc ok) hs
  | clone parent child _ hnew ih => exact ih.clone parent hnew
  | join t position _ _ ih => exact ih.setKern _ (fun _ _ => Mm.NoMore.refl _)
  | own t m _ hown ih => exact ih.own hown

/-- The arbiter with its first client, before there are any units. -/
def Watched.start (k : GroupKernel) (c : ClientDesc) : Watched := ⟨State.start k [c], fun _ => 0⟩

theorem Watched.inv_start (k : GroupKernel) (c : ClientDesc) : (Watched.start k c).Inv := by
  refine ⟨⟨?_, ?_, fun _ => rfl⟩, ?_⟩
  · exact fun u hu => absurd hu List.not_mem_nil
  · exact fun av hav => absurd hav List.not_mem_nil
  · exact fun t _ r hr => absurd hr List.not_mem_nil

/-- From the state in which `main` enters `server_loop`, as long as no request gives a new
    unit to an outsider, outsiders have no access to any unit that is allocated while they
    are outsiders. -/
theorem outsiders_shut (k : GroupKernel) (pid : Nat) (L : Label) (O : Own) (w : Watched)
    (run : WatchedRun ClearOk (Watched.start k (initFirstChild pid L O)) w) : w.ShutOut :=
  (run.inv (Watched.inv_start k _)).shutOut

/-- The bins do not change what is seen from outside. -/
theorem wp_mallocBeforeAlloc_view {K : Type} {s : State K} (hs : s.Wf) (bytes : Nat) (L : Label) :
    wp (mallocBeforeAlloc bytes L) (fun _ s' => s'.view = s.view) (fun _ _ => True) s := by
  simp only [mallocBeforeAlloc, lookupMstateByLabel, wp_bind, wp_get, wp_pure]
  refine wp_mono (wp_mallocEnter hs L) (fun av s1 h1 => ?_) (fun _ _ _ => trivial)
  exact wp_mono (h1.mallocServe (request2size bytes)) (fun _ _ h2 => h2.1.view)
    (fun _ _ _ => trivial)

/-- Nothing is mapped, task 7 is in the ring, and every call succeeds. -/
def groupKernel : GroupKernel where
  group := ⟨fun _ => ⟨fun _ => none, fun _ => none⟩, [7], fun _ => true⟩
  brk := channelAddr
  fates := fun _ => ⟨100, true, false, 0, fun _ _ => true, 1000000, fun _ _ => false⟩
  calls := 0

/-- Task 7 is a client, and has forked task 8, which is in the ring. -/
def watchedTwo : Watched :=
  let w := Watched.start groupKernel (initFirstChild 7 (fun _ => 0) (fun _ => 0))
  let w' := w.next { w.state with kern := w.state.kern.clone 7 8 }
  w'.next { w'.state with kern := w'.state.kern.join 8 1 }

theorem watchedRun_two (Ok : Request → State GroupKernel → Prop) :
    WatchedRun Ok (Watched.start groupKernel (initFirstChild 7 (fun _ => 0) (fun _ => 0)))
      watchedTwo :=
  .join 8 1 (.clone 7 8 .start (by decide)) (by decide)

/-- Nobody has access to anything. -/
theorem not_accessible_two (t page : Nat) :
    ¬ (watchedTwo.state.kern.group.mm t).Accessible page := by
  have hnone : (watchedTwo.state.kern.group.mm t).vma page = none := by
    simp only [watchedTwo, Watched.next, Watched.start, State.start, GroupKernel.join,
      GroupKernel.clone, groupKernel, Function.update_apply]
    split
    · rfl
    split
    · rfl
    · rfl
  rintro ⟨v, _, hv, _⟩
  rw [hnone] at hv
  cases hv

/-- A request of client 7 for 50000 bytes without label. -/
def mallocLarge : Request where
  pktSize := 24
  data := fun i =>
    ([0xDE, 0xC0, 0xAB, 0, 24, 0, 0, 0, 2, 0, 0, 0, 0x50, 0xC3] : List UInt8).getD i 0
  clientAddr := fun i => (clientAddrOf 7).getD i 0
  clientAddrLen := (clientAddrOf 7).length

/-- Client 7 gets an area of its own, and task 8, which is not registered, has no access
    to it. -/
theorem outsiders_shut_mmap :
    ∃ w, WatchedRun ClearOk (Watched.start groupKernel (initFirstChild 7 (fun _ => 0)
        (fun _ => 0))) w ∧
      Outsider w.state 8 ∧ w.state.ustateList = [0] ∧ w.since 8 = 0 ∧ w.ShutOut := by
  have hwf : watchedTwo.state.Wf := (WatchedRun.inv (Watched.inv_start _ _) (watchedRun_two _)).1
  have htakes : wp (mallocBeforeAlloc 50000 (labelAt mallocLarge.data 16))
      (fun r s => TakesMmap s r.1 (request2size 50000)) (fun _ _ => True) watchedTwo.state := by
    decide +kernel
  have hok : ClearOk mallocLarge watchedTwo.state := by
    rintro c op ⟨-, hc, hop⟩
    have hdecode : Opcode.decode (mallocLarge.data.load32 8) = some .malloc := by decide
    cases hdecode.symm.trans hop
    refine fun _ => Or.inr (Or.inr (wp_mono (wp_and htakes
      (wp_mallocBeforeAlloc_view hwf 50000 (labelAt mallocLarge.data 16))) ?_ (fun _ _ h => h.1)))
    intro r s hs _ _
    have hkern : s.kern = watchedTwo.state.kern := congrArg View.kern hs.2
    refine ⟨?_, fun hno => absurd hs.1 hno⟩
    intro _ t _ page _
    rw [hkern]
    exact not_accessible_two t page
  obtain ⟨rply, s, hs, hout, hunit⟩ : ∃ rply s,
      handleClientRpc groupOps mallocLarge watchedTwo.state = .ok rply s ∧ Outsider s 8 ∧
      s.ustateList = [0] := exists_ok (by decide +kernel)
  have hrun := WatchedRun.request mallocLarge (watchedRun_two ClearOk) hok hs
  exact ⟨_, hrun, hout, hunit, rfl, outsiders_shut _ _ _ _ _ hrun⟩

/-- Client 7 asks to have task 8 registered with an ownership that it does not have itself. -/
def forkRefused : Request := forkReq 7 8 (fun _ => 0) ![1, 0, 0, 0, 0, 0, 0, 0]

/-- The request is refused, and then client 7 gets a unit: task 8 can read and write it. -/
theorem outsiders_shut_fails :
    ∃ w, WatchedRun (fun _ _ => True) (Watched.start groupKernel (initFirstChild 7 (fun _ => 0)
        (fun _ => 0))) w ∧
      ¬ w.ShutOut := by
  have hsteps : wp (handleClientRpc groupOps forkRefused)
      (fun rply s => rply = some (reply failed) ∧ Outsider s 8 ∧ s.nextUnit = 0 ∧
        wp (handleClientRpc groupOps (mallocReq 0))
          (fun _ s' => Outsider s' 8 ∧ s'.ustateList = [0] ∧
            inPages (s'.units 0).addr (s'.units 0).length (channelAddr / 4096) ∧
            (s'.kern.group.mm 8).vma (channelAddr / 4096) = some heapVma)
          (fun _ _ => False) s)
      (fun _ _ => False) watchedTwo.state := by
    decide +kernel
  rcases exists_ok hsteps with ⟨_, s, hfirst, _, hout, hnext, hstep⟩
  rcases exists_ok hstep with ⟨_, s', hsecond, hout', hunits, hpage, hvma⟩
  have hrun := WatchedRun.request (mallocReq 0)
    (WatchedRun.request forkRefused (watchedRun_two fun _ _ => True) trivial hfirst) trivial hsecond
  refine ⟨_, hrun, ?_⟩
  intro h
  have hunit : 0 ∈ s'.ustateList := by
    rw [hunits]
    exact List.mem_singleton_self 0
  refine h 8 hout' 0 hunit ?_ _ hpage ⟨heapVma, true, hvma, rfl, rfl⟩
  simp only [Watched.next, if_pos hout, hnext]
  split
  · exact Nat.le_refl 0
  · exact Nat.le_refl 0

end ArbiterThread
