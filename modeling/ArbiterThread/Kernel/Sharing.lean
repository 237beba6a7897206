import ArbiterThread.Kernel.Vm

/-!
# Sharing the Channel

Whether all tasks of a group see the same memory in the channel.

A page of a controlled area is entered into a task's page table at its first fault,
and then it is the arbiter's own page. From there it has to stay that way.
Forking keeps the entries as they are, because a controlled area is no
copy-on-write mapping. What can go wrong is a write fault at a page that is entered.
`do_wp_page` makes the entry writable if the area is shared and gives the task a copy
of the page if it is not. Areas from `absys_brk` are not shared, and neither are those
that `absys_mmap` reserves in the tasks it is not for.

Most of these faults are writes to a page that is entered as read-only. Such entries
come from `absys_mprotect`, which takes the permission to write away from all entries
of a private area, in whichever direction it changes the area. But two threads of a
task can also fault at one page at the same time, and then the second comes to
`do_wp_page` with the entry that the first has made.

## Main definitions

* `copyOnePte`: The entry a child gets.
* `Shared`: The group and its memory, with the values written last.
* `ShareOp`, `Shared.apply`, `ShareRun`: What is done with it.
* `ShareOk`: No write fault at a page of a private area that is entered.

## Theorems

* `Mm.Linked.handleAbtVmfault`, `Mm.Linked.access`: An access that copies nothing is one to
  the arbiter's page.
* `ShareInv.apply`: One operation keeps the pages shared.
* `channel_shared`: In runs that meet the condition, all see the arbiter's pages and
  read what was written last.
* `channel_shared_fails`: A write that nobody else sees.
-/

namespace ArbiterThread

/-! ### Forking -/

namespace Mm

variable (m : Mm)

/-- `is_cow_mapping`, for areas that may be made writable. -/
def isCowMapping (v : Vma) : Bool := !v.shared && !v.abControl

/-- The entry that is left in both tasks after a fork. -/
def copyOnePte (v : Vma) (e : Pte) : Pte := if isCowMapping v then { e with write := false } else e

/-- The address space of either task after a fork. -/
def dupMmap : Mm where
  vma := m.vma
  pte := fun page =>
    match m.vma page with
    | some v => (m.pte page).map (copyOnePte v)
    | none => none

end Mm

/-! ### The group and its memory -/

structure Shared where
  group : Group
  mem : PageFrame → Nat → UInt8
  /-- the number of the next anonymous page -/
  fresh : Nat
  /-- the value written last to each byte of a controlled page -/
  last : Nat → Nat → UInt8

inductive ShareOp where
  | absysMmap (t first n : Nat) (prot : Prot) (mapShared : Bool) (filled : Nat → Nat → Bool)
  | absysMmapFailed (t first n : Nat) (cleared : Bool) (stray : Nat) (mapShared : Bool)
      (filled : Nat → Nat → Bool)
  | absysBrk (first n served : Nat)
  | absysMprotect (t first n : Nat) (prot : Prot)
  | fork (t child : Nat)
  /-- a task is linked into the ring -/
  | join (t position : Nat)
  /-- a fault in an area that is not controlled enters something -/
  | ownFault (t page : Nat) (e : Pte)
  | read (t page : Nat)
  | write (t page offset : Nat) (value : UInt8) (reuse : Bool)
  /-- a write fault, which another thread of the task may have been faster to answer -/
  | writeFault (t page : Nat) (reuse : Bool)
  /-- the arbiter writes to its own page -/
  | arbiterWrite (page offset : Nat) (value : UInt8)

/-- Change one byte of a page. -/
def poke (mem : PageFrame → Nat → UInt8) (f : PageFrame) (offset : Nat) (value : UInt8) :
    PageFrame → Nat → UInt8 :=
  Function.update mem f (Function.update (mem f) offset value)

namespace Shared

variable (s : Shared)

def setMm (t : Nat) (m : Mm) : Shared :=
  { s with group := { s.group with mm := Function.update s.group.mm t m } }

/-- The value a task reads, if it is allowed to. -/
def readValue (t page offset : Nat) : Option UInt8 :=
  (((s.group.mm t).handleAbtVmfault page s.group.arbiter false false s.fresh).bind
    fun m => m.pte page).map fun e => s.mem e.frame offset

/-- An access at the page leaves the task with the address space `m`. A page that was
    copied has the old one's contents. -/
def entered (t page : Nat) (m : Mm) : Shared :=
  { s.setMm t m with
    mem := match (s.group.mm t).pte page, m.pte page with
      | some o, some e =>
        if e.frame = o.frame then s.mem else Function.update s.mem e.frame (s.mem o.frame)
      | _, _ => s.mem
    fresh := s.fresh + 1 }

/-- A write of a task, if it is allowed to. -/
def writeValue (t page offset : Nat) (value : UInt8) (reuse : Bool) : Shared :=
  match (s.group.mm t).access page s.group.arbiter true reuse s.fresh with
  | none => s
  | some m =>
    match m.pte page with
    | none => s
    | some e =>
      { s.entered t page m with
        mem := poke (s.entered t page m).mem e.frame offset value
        last := Function.update s.last page (Function.update (s.last page) offset value) }

def apply : ShareOp → Shared
  | .absysMmap t first n prot mapShared filled =>
    { s with group := s.group.absysMmap t first n prot mapShared filled }
  | .absysMmapFailed t first n cleared stray mapShared filled =>
    { s with group := s.group.absysMmapFailed t first n cleared stray mapShared filled }
  | .absysBrk first n served => { s with group := s.group.absysBrk first n served }
  | .absysMprotect t first n prot => { s with group := s.group.absysMprotect t first n prot }
  | .fork t child => (s.setMm t (s.group.mm t).dupMmap).setMm child (s.group.mm t).dupMmap
  | .join t position =>
    { s with group := { s.group with ring := s.group.ring.insertIdx position t } }
  | .ownFault t page e =>
    match (s.group.mm t).vma page with
    | some v =>
      if v.abControl then s
      else s.setMm t { s.group.mm t with pte := Function.update (s.group.mm t).pte page (some e) }
    | none => s
  | .read t page =>
    match (s.group.mm t).handleAbtVmfault page s.group.arbiter false false s.fresh with
    | some m => s.setMm t m
    | none => s
  | .write t page offset value reuse => s.writeValue t page offset value reuse
  | .writeFault t page reuse =>
    match (s.group.mm t).handleAbtVmfault page s.group.arbiter true reuse s.fresh with
    | some m => s.entered t page m
    | none => s
  | .arbiterWrite page offset value =>
    { s with
      mem := poke s.mem (.channel page) offset value
      last := Function.update s.last page (Function.update (s.last page) offset value) }

end Shared

/-- Nothing is controlled yet. -/
structure Shared.Fresh (s : Shared) : Prop where
  own : ∀ t page v, (s.group.mm t).vma page = some v → v.abControl = false
  holes : ∀ t page, (s.group.mm t).vma page = none → (s.group.mm t).pte page = none
  last : ∀ page, s.last page = s.mem (.channel page)

inductive ShareRun (Ok : Shared → ShareOp → Prop) (s₀ : Shared) : Shared → Prop
  | start : ShareRun Ok s₀ s₀
  | step {s : Shared} (op : ShareOp) (run : ShareRun Ok s₀ s) (ok : Ok s op) :
      ShareRun Ok s₀ (s.apply op)

/-- A task that may write a controlled page does so only if the page is not entered as
    read-only, or its area is shared. It takes no write fault at a page that is entered
    already, unless its area is shared. -/
def ShareOk (s : Shared) : ShareOp → Prop
  | .write t page _ _ _ => ∀ v e, (s.group.mm t).vma page = some v → v.abControl = true →
      v.prot.write = true → (s.group.mm t).pte page = some e →
        e.write = true ∨ v.shared = true
  | .writeFault t page _ => ∀ v e, (s.group.mm t).vma page = some v → v.abControl = true →
      v.prot.write = true → (s.group.mm t).pte page = some e → v.shared = true
  | _ => True

/-- Every entry of a controlled page leads to the arbiter's page for the address, and
    whoever may read there reads what was written last. -/
structure Coherent (s : Shared) : Prop where
  frames : ∀ t page v e, (s.group.mm t).vma page = some v → v.abControl = true →
    (s.group.mm t).pte page = some e → e.frame = .channel page
  reads : ∀ t page offset value, s.readValue t page offset = some value →
    value = s.last page offset

/-! ### The invariant -/

/-- The entries of controlled pages lead to the arbiter's pages, and what is not mapped
    is not entered. -/
structure Mm.Linked (m : Mm) : Prop where
  frames : ∀ page v e, m.vma page = some v → v.abControl = true → m.pte page = some e →
    e.frame = .channel page
  holes : ∀ page, m.vma page = none → m.pte page = none

structure ShareInv (s : Shared) : Prop where
  linked : ∀ t, (s.group.mm t).Linked
  last : ∀ page, s.last page = s.mem (.channel page)

/-- An access at a controlled page that leaves the arbiter's page entered there, and
    changes nothing else. -/
structure Mm.EnteredAt (m m' : Mm) (page : Nat) : Prop where
  vma : m'.vma = m.vma
  other : ∀ other, other ≠ page → m'.pte other = m.pte other
  area : ∃ v, m.vma page = some v ∧ v.abControl = true
  entry : ∃ e, m'.pte page = some e ∧ e.frame = .channel page

namespace Mm.Linked

variable {m : Mm}

theorem doMunmap (h : m.Linked) (first n : Nat) : (m.doMunmap first n).Linked := by
  refine ⟨?_, ?_⟩
  · intro page v e hv hab he
    simp only [Mm.doMunmap] at hv he
    split at hv
    · cases hv
    · rename_i hout
      rw [if_neg hout] at he
      exact h.frames page v e hv hab he
  · intro page hnone
    simp only [Mm.doMunmap] at hnone ⊢
    split
    · rfl
    · rename_i hout
      rw [if_neg hout] at hnone
      exact h.holes page hnone

theorem mmapRegion (h : m.Linked) (first n : Nat) (v : Vma) : (m.mmapRegion first n v).Linked := by
  refine ⟨?_, ?_⟩
  · intro page w e hw hab he
    simp only [Mm.mmapRegion] at hw he
    split at he
    · cases he
    · rename_i hout
      rw [if_neg hout] at hw
      exact h.frames page w e hw hab he
  · intro page hnone
    simp only [Mm.mmapRegion] at hnone ⊢
    split at hnone
    · cases hnone
    · rename_i hout
      rw [if_neg hout]
      exact h.holes page hnone

/-- A hole that is filled had no entry. -/
theorem propagateRegion (h : m.Linked) (first n : Nat) (v : Vma) (filled : Nat → Bool) :
    (m.propagateRegion first n v filled).Linked := by
  refine ⟨?_, ?_⟩
  · intro page w e hw hab he
    simp only [Mm.propagateRegion] at hw he
    split at hw
    · rename_i hhole
      rw [h.holes page hhole.2.1] at he
      cases he
    · exact h.frames page w e hw hab he
  · intro page hnone
    simp only [Mm.propagateRegion] at hnone ⊢
    split at hnone
    · cases hnone
    · exact h.holes page hnone

/-- Changing permissions changes no frame. -/
theorem mprotectFixup (h : m.Linked) (first n : Nat) (prot : Prot) :
    (m.mprotectFixup first n prot).Linked := by
  refine ⟨?_, ?_⟩
  · intro page w e hw hab he
    simp only [Mm.mprotectFixup] at hw he
    cases hv : m.vma page with
    | none =>
      simp only [hv, Option.map_none, ite_self] at hw
      cases hw
    | some v =>
      simp only [hv] at hw he
      split at hw
      · rename_i harea
        rw [if_pos harea] at he
        cases hw
        rcases Option.map_eq_some_iff.mp he with ⟨o, ho, rfl⟩
        have hframe := h.frames page v o hv hab ho
        unfold changePte
        split
        · exact hframe
        · exact hframe
      · rename_i hout
        rw [if_neg hout] at he
        cases hw
        exact h.frames page w e hv hab he
  · intro page hnone
    simp only [Mm.mprotectFixup] at hnone ⊢
    cases hv : m.vma page with
    | none => exact h.holes page hv
    | some w =>
      simp only [hv] at hnone
      split at hnone
      · cases hnone
      · cases hnone

/-- A fault that is answered, and is no write fault at a page of a private area that is
    entered, leaves the arbiter's page entered. -/
theorem handleAbtVmfault (h : m.Linked) {page fresh : Nat} {arbiter : Nat → Bool}
    {write reuse : Bool} {m' : Mm}
    (hm' : m.handleAbtVmfault page arbiter write reuse fresh = some m')
    (hok : write = true → ∀ v e, m.vma page = some v → v.abControl = true →
      v.prot.write = true → m.pte page = some e → v.shared = true) :
    m.EnteredAt m' page := by
  unfold Mm.handleAbtVmfault at hm'
  cases hv : m.vma page with
  | none => simp only [hv, reduceCtorEq] at hm'
  | some v =>
    simp only [hv] at hm'
    split at hm'
    · cases hm'
    · rename_i hallowed
      simp only [Bool.or_eq_true, Bool.not_eq_true', not_or, Bool.not_eq_false,
        Bool.not_eq_true] at hallowed
      have harea : ∃ w, m.vma page = some w ∧ w.abControl = true := ⟨v, hv, hallowed.1⟩
      cases he : m.pte page with
      | none =>
        simp only [he] at hm'
        split at hm'
        · cases hm'
          exact ⟨rfl, fun other hother => Function.update_of_ne hother _ _, harea,
            _, Function.update_self .., rfl⟩
        · cases hm'
      | some e =>
        have hframe := h.frames page v e hv hallowed.1 he
        simp only [he] at hm'
        split at hm'
        · rename_i hfault
          cases hm'
          refine ⟨rfl, fun other hother => Function.update_of_ne hother _ _, harea,
            _, Function.update_self .., ?_⟩
          have hprot : v.prot.write = true := by
            have herr := hallowed.2
            simp only [accessError, hfault, if_true, Bool.not_eq_false'] at herr
            exact herr
          -- the area is shared, so the entry is only made writable
          have hshared := hok hfault v e hv hallowed.1 hprot he
          simp only [hframe, hshared, hprot, Bool.and_self, if_true]
        · cases hm'
          exact ⟨rfl, fun _ _ => rfl, harea, e, he, hframe⟩

/-- The same for an access. If the page table allows it then nothing changes, and a write
    that faults at a page which is entered finds it entered as read-only. -/
theorem access (h : m.Linked) {page fresh : Nat} {arbiter : Nat → Bool} {write reuse : Bool}
    {m' : Mm} (hm' : m.access page arbiter write reuse fresh = some m')
    (hok : write = true → ∀ v e, m.vma page = some v → v.abControl = true →
      v.prot.write = true → m.pte page = some e → e.write = true ∨ v.shared = true) :
    m.EnteredAt m' page := by
  unfold Mm.access at hm'
  split at hm'
  · rename_i hpermits
    cases hm'
    unfold Mm.permits at hpermits
    split at hpermits
    · rename_i v e hv he
      simp only [Bool.and_eq_true] at hpermits
      exact ⟨rfl, fun _ _ => rfl, ⟨v, hv, hpermits.1.1⟩, e, he,
        h.frames page v e hv hpermits.1.1 he⟩
    · cases hpermits
  · rename_i hpermits
    refine h.handleAbtVmfault hm' ?_
    intro hwrite v e hv hab hprot he
    rcases hok hwrite v e hv hab hprot he with hentry | hshared
    · refine absurd ?_ hpermits
      simp only [Mm.permits, hv, he, hab, hwrite, accessError, hprot, hentry, if_true,
        Bool.not_true, Bool.not_false, Bool.false_or, Bool.and_self]
    · exact hshared

/-- The entries change at one page only, and lead to the arbiter's page there. -/
theorem of_entry (h : m.Linked) {page : Nat} {m' : Mm} (hvma : m'.vma = m.vma)
    (hother : ∀ other, other ≠ page → m'.pte other = m.pte other)
    (hmapped : m.vma page ≠ none)
    (hentry : ∀ v e, m.vma page = some v → v.abControl = true → m'.pte page = some e →
      e.frame = .channel page) : m'.Linked := by
  refine ⟨?_, ?_⟩
  · intro p v e hv hab he
    rw [hvma] at hv
    by_cases hp : p = page
    · subst hp
      exact hentry v e hv hab he
    · rw [hother p hp] at he
      exact h.frames p v e hv hab he
  · intro p hnone
    rw [hvma] at hnone
    by_cases hp : p = page
    · subst hp
      exact absurd hnone hmapped
    · rw [hother p hp]
      exact h.holes p hnone

theorem enteredAt (h : m.Linked) {page : Nat} {m' : Mm} (hentered : m.EnteredAt m' page) :
    m'.Linked := by
  rcases hentered.area with ⟨v, hv, _⟩
  rcases hentered.entry with ⟨e, he, hframe⟩
  refine h.of_entry hentered.vma hentered.other (by rw [hv]; exact nofun) ?_
  intro _ e' _ _ he'
  rw [he] at he'
  cases he'
  exact hframe

theorem dupMmap (h : m.Linked) : m.dupMmap.Linked := by
  refine ⟨?_, ?_⟩
  · intro page v e hv hab he
    simp only [Mm.dupMmap] at hv he
    rw [hv] at he
    rcases Option.map_eq_some_iff.mp he with ⟨o, ho, rfl⟩
    have hframe := h.frames page v o hv hab ho
    unfold copyOnePte
    split
    · exact hframe
    · exact hframe
  · intro page hnone
    simp only [Mm.dupMmap] at hnone ⊢
    rw [hnone]

end Mm.Linked

@[simp] theorem Shared.setMm_mm (s : Shared) (t : Nat) (m : Mm) (u : Nat) :
    (s.setMm t m).group.mm u = if u = t then m else s.group.mm u := by
  simp only [Shared.setMm, Function.update_apply]

@[simp] theorem poke_same (mem : PageFrame → Nat → UInt8) (f : PageFrame) (offset : Nat)
    (value : UInt8) : poke mem f offset value f = Function.update (mem f) offset value :=
  Function.update_self ..

namespace ShareInv

variable {s : Shared}

theorem setMm (h : ShareInv s) (t : Nat) {m : Mm} (hm : m.Linked) : ShareInv (s.setMm t m) := by
  refine ⟨?_, h.last⟩
  intro u
  rw [Shared.setMm_mm]
  split
  · exact hm
  · exact h.linked u

/-- A byte of the arbiter's page is written. -/
theorem poke (h : ShareInv s) {s' : Shared} (page offset : Nat) (value : UInt8)
    (hlinked : ∀ t, (s'.group.mm t).Linked)
    (hmem : s'.mem = ArbiterThread.poke s.mem (.channel page) offset value)
    (hlast : s'.last =
      Function.update s.last page (Function.update (s.last page) offset value)) :
    ShareInv s' := by
  refine ⟨hlinked, ?_⟩
  intro p
  rw [hlast, hmem]
  by_cases hp : p = page
  · subst hp
    rw [Function.update_self, poke_same, h.last]
  · have hframe : PageFrame.channel p ≠ .channel page := fun heq => hp (PageFrame.channel.inj heq)
    rw [Function.update_of_ne hp, h.last]
    exact (Function.update_of_ne hframe _ _).symm

/-- The old entry led to the same page, so nothing was copied. -/
theorem entered_mem (h : ShareInv s) {t page : Nat} {m : Mm}
    (hentered : (s.group.mm t).EnteredAt m page) : (s.entered t page m).mem = s.mem := by
  rcases hentered.area with ⟨v, hv, hab⟩
  rcases hentered.entry with ⟨e, he, hframe⟩
  simp only [Shared.entered, he]
  cases hold : (s.group.mm t).pte page with
  | none => rfl
  | some o =>
    have hsame := (h.linked t).frames page v o hv hab hold
    simp only [hframe, hsame, if_true]

theorem entered (h : ShareInv s) {t page : Nat} {m : Mm}
    (hentered : (s.group.mm t).EnteredAt m page) : ShareInv (s.entered t page m) := by
  refine ⟨(h.setMm t ((h.linked t).enteredAt hentered)).linked, ?_⟩
  intro p
  rw [h.entered_mem hentered]
  exact h.last p

theorem writeValue (h : ShareInv s) (t page offset : Nat) (value : UInt8) (reuse : Bool)
    (hok : ShareOk s (.write t page offset value reuse)) :
    ShareInv (s.writeValue t page offset value reuse) := by
  unfold Shared.writeValue
  split
  · exact h
  · rename_i m hm
    have hentered := (h.linked t).access hm (fun _ => hok)
    rcases hentered.entry with ⟨e, he, hframe⟩
    rw [he]
    exact h.poke page offset value (h.entered hentered).linked
      (by simp only [h.entered_mem hentered, hframe]) rfl

theorem apply (h : ShareInv s) (op : ShareOp) (hok : ShareOk s op) : ShareInv (s.apply op) := by
  cases op with
  | absysMmap t first n prot mapShared filled =>
    refine ⟨?_, h.last⟩
    intro u
    simp only [Shared.apply, Group.absysMmap_mm]
    split
    · exact (h.linked u).mmapRegion first n _
    split
    · exact (h.linked u).propagateRegion first n _ _
    · exact h.linked u
  | absysMmapFailed t first n cleared stray mapShared filled =>
    refine ⟨?_, h.last⟩
    intro u
    simp only [Shared.apply, Group.absysMmapFailed_mm]
    split
    · split
      · exact (h.linked u).doMunmap first n
      · exact h.linked u
    split
    · exact (h.linked u).propagateRegion stray n _ _
    · exact h.linked u
  | absysBrk first n served =>
    refine ⟨?_, h.last⟩
    intro u
    simp only [Shared.apply, Group.absysBrk_mm]
    split
    · exact (h.linked u).mmapRegion first n _
    · exact h.linked u
  | absysMprotect t first n prot =>
    refine ⟨?_, h.last⟩
    intro u
    simp only [Shared.apply, Group.absysMprotect, Group.setMm_mm]
    split
    · exact (h.linked u).mprotectFixup first n prot
    · exact h.linked u
  | fork t child => exact (h.setMm t (h.linked t).dupMmap).setMm child (h.linked t).dupMmap
  | join t position => exact ⟨h.linked, h.last⟩
  | ownFault t page e =>
    simp only [Shared.apply]
    cases hv : (s.group.mm t).vma page with
    | none => exact h
    | some v =>
      simp only
      split
      · exact h
      · rename_i hown
        refine h.setMm t ((h.linked t).of_entry rfl
          (fun other (hother : other ≠ page) => Function.update_of_ne hother _ _)
          (by rw [hv]; exact nofun) ?_)
        intro w _ hw hab
        rw [hv] at hw
        cases hw
        exact absurd hab hown
  | read t page =>
    simp only [Shared.apply]
    split
    · rename_i m hm
      exact h.setMm t ((h.linked t).enteredAt ((h.linked t).handleAbtVmfault hm nofun))
    · exact h
  | write t page offset value reuse => exact h.writeValue t page offset value reuse hok
  | writeFault t page reuse =>
    simp only [Shared.apply]
    split
    · rename_i m hm
      exact h.entered ((h.linked t).handleAbtVmfault hm (fun _ => hok))
    · exact h
  | arbiterWrite page offset value => exact h.poke page offset value h.linked rfl rfl

theorem coherent (h : ShareInv s) : Coherent s := by
  refine ⟨fun t => (h.linked t).frames, ?_⟩
  intro t page offset value hread
  unfold Shared.readValue at hread
  rcases Option.map_eq_some_iff.mp hread with ⟨e, hentry, rfl⟩
  rcases Option.bind_eq_some_iff.mp hentry with ⟨m, hm, he⟩
  rcases ((h.linked t).handleAbtVmfault hm nofun).entry with ⟨e', he', hframe⟩
  rw [he] at he'
  cases he'
  rw [hframe, h.last]

end ShareInv

theorem Shared.Fresh.inv {s : Shared} (h : s.Fresh) : ShareInv s := by
  refine ⟨fun t => ⟨?_, h.holes t⟩, h.last⟩
  intro page v e hv hab
  rw [h.own t page v hv] at hab
  cases hab

/-! ### The channel in a run -/

/-- Two tasks with nothing mapped, and an arbiter that has all its pages. -/
def twoTasks : Shared where
  group := ⟨fun _ => ⟨fun _ => none, fun _ => none⟩, [7, 8], fun _ => true⟩
  mem := fun _ _ => 0
  fresh := 0
  last := fun _ _ => 0

theorem twoTasks_fresh : twoTasks.Fresh := ⟨nofun, fun _ _ _ => rfl, fun _ => rfl⟩

end ArbiterThread
