import ArbiterThread.Malloc.Section

/-!
# Units

The allocator seen from outside: which regions it has, with which labels, and
which system calls it has made. All the work on bins and chunks is invisible
here. A request for new memory either leaves this view as it is or adds one
region to it, by moving the break or by mapping an area; a release may give one
back.

A property of views that allows these steps is therefore kept by every
call. This is how page protections are followed through the allocator.

## Main definitions

* `Region`, `View`, `State.view`: What is seen from outside.
* `State.Wf`: Units and `malloc_state`s are only used once made.
* `NewUnit`: The view after a new unit was obtained.
* `MallocOk`: If a request needs a new unit, then a given property holds there.
* `Seen`, `Releases`: A property of views, and that releases keep it.

## Theorems

* `Frame.view`: Work on bins and chunks is invisible.
* `Served.mallocAlloc`: What a request for a new unit does to the view.
* `Seen.ablibMalloc`, `Seen.sections`: Properties that are kept.
-/

namespace ArbiterThread

open Exec

variable {K α β : Type}

/-! ### The view -/

structure Region where
  unit : Nat
  addr : Nat
  length : Nat
  label : Label

structure View (K : Type) where
  clients : List ClientDesc
  kern : K
  curbrk : Nat
  nextUnit : Nat
  regions : List Region

def State.region (s : State K) (u : Nat) : Region :=
  ⟨u, (s.units u).addr, (s.units u).length, (s.mstates (s.units u).unitAv).label⟩

def State.view (s : State K) : View K :=
  ⟨s.clients, s.kern, s.curbrk, s.nextUnit, s.ustateList.map s.region⟩

/-- One more region. -/
def View.addRegion (v : View K) (addr length : Nat) (L : Label) : View K :=
  { v with
    nextUnit := v.nextUnit + 1
    regions := ⟨v.nextUnit, addr, length, L⟩ :: v.regions }

/-- Units and `malloc_state`s are only used once made, and there are no units
    before the first `malloc_state`. -/
structure State.Wf (s : State K) : Prop where
  units : ∀ u ∈ s.ustateList, u < s.nextUnit ∧ (s.units u).unitAv < s.nextMstate
  avs : ∀ av ∈ s.mstateList, av < s.nextMstate
  start : s.mstateList = [] → s.ustateList = []

theorem State.view_congr {s s' : State K} (hclients : s'.clients = s.clients)
    (hkern : s'.kern = s.kern) (hbrk : s'.curbrk = s.curbrk) (hnext : s'.nextUnit = s.nextUnit)
    (hlist : s'.ustateList = s.ustateList)
    (hregion : ∀ u ∈ s.ustateList, s'.region u = s.region u) : s'.view = s.view := by
  unfold State.view
  rw [hclients, hkern, hbrk, hnext, hlist, List.map_congr_left hregion]

/-- Work on bins and chunks is invisible. -/
theorem Frame.region {s s' : State K} (h : Frame s s') (u : Nat) : s'.region u = s.region u := by
  have haddr : (s'.units u).addr = (s.units u).addr := by rw [h.unit u]
  have hlength : (s'.units u).length = (s.units u).length := by rw [h.unit u]
  have hav : (s'.units u).unitAv = (s.units u).unitAv := by rw [h.unit u]
  unfold State.region
  rw [haddr, hlength, hav, h.mstate]

theorem Frame.view {s s' : State K} (h : Frame s s') : s'.view = s.view := by
  apply State.view_congr
  · rw [h.rest]
  · rw [h.rest]
  · rw [h.rest]
  · rw [h.rest]
  · rw [h.rest]
  · exact fun u _ => h.region u

theorem Frame.wf {s s' : State K} (h : Frame s s') (hs : s.Wf) : s'.Wf := by
  have hlist : s'.ustateList = s.ustateList := by rw [h.rest]
  have hmstates : s'.mstateList = s.mstateList := by rw [h.rest]
  have hnext : s'.nextUnit = s.nextUnit := by rw [h.rest]
  have hav : s'.nextMstate = s.nextMstate := by rw [h.rest]
  refine ⟨?_, ?_, ?_⟩
  · intro u hu
    rw [hlist] at hu
    rw [hnext, hav, h.unit u]
    exact hs.units u hu
  · intro av hmem
    rw [hmstates] at hmem
    rw [hav]
    exact hs.avs av hmem
  · rw [hmstates, hlist]
    exact hs.start

/-! ### A request up to `__malloc_alloc` -/

/-- The `malloc_state` of a request is there, the lock is held, and the units that
    refer to it have the label. -/
structure Ready (L : Label) (v : View K) (av : Nat) (s : State K) : Prop where
  wf : s.Wf
  view : s.view = v
  locked : s.locked = true
  made : av < s.nextMstate
  mine : ∀ u ∈ s.ustateList, (s.units u).unitAv = av → (s.mstates av).label = L

/-- It has the label, unless it was never used. -/
def Entered (L : Label) (v : View K) (av : Nat) (s : State K) : Prop :=
  Ready L v av s ∧
    ((s.mstates av).maxFast ≠ 0 → (s.mstates av).label = L ∧ s.mstateList ≠ [])

/-- It has the label, and is not the first one about to be used. -/
def Served (L : Label) (v : View K) (av : Nat) (s : State K) : Prop :=
  Ready L v av s ∧ (s.mstates av).label = L ∧ s.mstateList ≠ []

section

variable {L : Label} {v : View K} {av : Nat} {s s' : State K}

theorem Ready.frame (hs : Ready L v av s) (h : Frame s s') : Ready L v av s' := by
  refine ⟨h.wf hs.wf, h.view.trans hs.view, h.outside.locked.trans hs.locked, ?_, ?_⟩
  · rw [h.rest]
    exact hs.made
  · intro u hu hav
    have hlist : s'.ustateList = s.ustateList := by rw [h.rest]
    rw [hlist] at hu
    rw [h.unit u] at hav
    rw [h.mstate]
    exact hs.mine u hu hav

theorem Ready.framed (hs : Ready L v av s) {x : HeapM K α} (hx : Framed x) :
    wp x (fun _ s' => Ready L v av s') (fun _ _ => True) s :=
  wp_mono (hx s) (fun _ _ hf => hs.frame hf) (fun _ _ _ => trivial)

theorem Served.frame (hs : Served L v av s) (h : Frame s s') : Served L v av s' := by
  have hlist : s'.mstateList = s.mstateList := by rw [h.rest]
  refine ⟨hs.1.frame h, ?_, ?_⟩
  · rw [h.mstate]
    exact hs.2.1
  · rw [hlist]
    exact hs.2.2

theorem Served.framed (hs : Served L v av s) {x : HeapM K α} (hx : Framed x) :
    wp x (fun _ s' => Served L v av s') (fun _ _ => True) s :=
  wp_mono (hx s) (fun _ _ hf => hs.frame hf) (fun _ _ _ => trivial)

end

/-- The lock is taken, and there is a `malloc_state` for the label. -/
theorem wp_mallocEnter {s : State K} (hs : s.Wf) (L : Label) :
    wp (mallocEnter (s.mstateList.find? fun m => decide ((s.mstates m).label = L)))
      (fun av s' => Entered L s.view av s') (fun _ _ => True) s := by
  unfold mallocEnter
  rw [wp_bind, wp_mallocLock]
  split
  · trivial
  cases hfind : s.mstateList.find? fun m => decide ((s.mstates m).label = L) with
  | some av =>
    have hlabel := List.find?_some hfind
    have hmem := List.mem_of_find?_eq_some hfind
    rw [wp_pure]
    have hlabel : (s.mstates av).label = L := of_decide_eq_true hlabel
    exact ⟨⟨⟨hs.units, hs.avs, hs.start⟩, rfl, rfl, hs.avs av hmem, fun _ _ _ => hlabel⟩,
      fun _ => ⟨hlabel, List.ne_nil_of_mem hmem⟩⟩
  | none =>
    simp only [newMstate, wp_bind, wp_get, wp_ite, wp_set, wp_pure, wp_throw]
    split
    · -- the new one is behind all that units refer to
      have hold : ∀ u ∈ s.ustateList, (s.units u).unitAv ≠ s.nextMstate :=
        fun u hu => (hs.units u hu).2.ne
      refine ⟨⟨⟨?_, ?_, hs.start⟩, ?_, rfl, Nat.lt_succ_self _, ?_⟩, ?_⟩
      · exact fun u hu => ⟨(hs.units u hu).1, Nat.lt_succ_of_lt (hs.units u hu).2⟩
      · exact fun av hav => Nat.lt_succ_of_lt (hs.avs av hav)
      · refine State.view_congr rfl rfl rfl rfl rfl (fun u hu => ?_)
        simp only [State.region, Function.update_of_ne (hold u hu)]
      · exact fun u hu hav => absurd hav (hold u hu)
      · simp only [Function.update_self, Mstate.zero, ne_eq, not_true_eq_false, false_implies]
    · trivial

theorem State.region_setMstate (s : State K) (av u : Nat) {f : Mstate → Mstate}
    (hlabel : (s.units u).unitAv = av → (f (s.mstates av)).label = (s.mstates av).label) :
    ({ s with mstates := Function.update s.mstates av (f (s.mstates av)) } : State K).region u =
      s.region u := by
  unfold State.region
  by_cases hav : (s.units u).unitAv = av
  · simp only [hav, Function.update_self, hlabel hav]
  · simp only [Function.update_of_ne hav]

/-- Changing a `malloc_state` besides its label is invisible. -/
theorem State.view_setMstate (s : State K) (av : Nat) {f : Mstate → Mstate}
    (hlabel : ∀ u ∈ s.ustateList, (s.units u).unitAv = av →
      (f (s.mstates av)).label = (s.mstates av).label) :
    ({ s with mstates := Function.update s.mstates av (f (s.mstates av)) } : State K).view =
      s.view :=
  State.view_congr rfl rfl rfl rfl rfl (fun u hu => s.region_setMstate av u (hlabel u hu))

theorem Ready.setMstate {L : Label} {v : View K} {av : Nat} {s : State K} (hs : Ready L v av s)
    {f : Mstate → Mstate} (hlabel : ∀ m, (f m).label = m.label) :
    Ready L v av { s with mstates := Function.update s.mstates av (f (s.mstates av)) } := by
  refine ⟨⟨hs.wf.units, hs.wf.avs, hs.wf.start⟩, ?_, hs.locked, hs.made, ?_⟩
  · rw [State.view_setMstate s av (fun _ _ _ => hlabel _), hs.view]
  · intro u hu hav
    simp only [Function.update_self]
    rw [hlabel]
    exact hs.mine u hu hav

/-- The first use of a `malloc_state`. -/
theorem Ready.mallocConsolidate {L : Label} {v : View K} {av : Nat} {s : State K}
    (hs : Ready L v av s) (hfresh : (s.mstates av).maxFast = 0) :
    wp (mallocConsolidate av) (fun _ s' => Ready L v av s' ∧ s'.mstateList ≠ [])
      (fun _ _ => True) s := by
  -- before the very first one there are no units that `abheapInit` could lose
  have hinit : wp (if s.mstateList = [] then abheapInit else pure () : HeapM K Unit)
      (fun _ s' => Ready L v av s') (fun _ _ => True) s := by
    rw [wp_ite]
    split
    · rename_i hempty
      have hlist := hs.wf.start hempty
      simp only [abheapInit, wp_modify]
      refine ⟨⟨by simp, by simp, fun _ => rfl⟩, ?_, hs.locked, hs.made, by simp⟩
      rw [← hs.view]
      exact State.view_congr rfl rfl rfl rfl hlist.symm (by simp [hlist])
    · rw [wp_pure]
      exact hs
  simp only [ArbiterThread.mallocConsolidate, wp_bind, wp_getMstate]
  rw [if_neg (not_not.mpr hfresh), wp_bind, wp_get, wp_bind]
  refine wp_mono hinit (fun _ s1 h1 => ?_) (fun _ _ _ => trivial)
  rw [mallocInitState, wp_bind]
  refine wp_mono (h1.framed (framed_initBins av _)) (fun _ s2 h2 => ?_) (fun _ _ _ => trivial)
  simp only [ArbiterThread.setMstate, wp_bind, wp_modify]
  have h3 := h2.setMstate (f := fun m =>
    { m with
      nMmapsMax := 65536
      mmapThreshold := unitSize
      maxFast := request2size 64 + m.maxFast % 4
      ustateList := []
      pagesize := 4096 }) (fun _ => rfl)
  have hne : s2.mstateList ++ [av] ≠ [] :=
    List.append_ne_nil_of_right_ne_nil _ (List.cons_ne_nil _ _)
  refine ⟨⟨⟨h3.wf.units, ?_, fun hempty => absurd hempty hne⟩, h3.view, h3.locked, h3.made,
    h3.mine⟩, hne⟩
  intro av' hmem
  rcases List.mem_append.mp hmem with hmem | hmem
  · exact h3.wf.avs av' hmem
  · rw [List.mem_singleton.mp hmem]
    exact h3.made

/-- Giving a `malloc_state` the label that the units referring to it have. -/
theorem Ready.setLabel {L : Label} {v : View K} {av : Nat} {s : State K} (hs : Ready L v av s)
    (hne : s.mstateList ≠ []) :
    Served L v av
      { s with mstates := Function.update s.mstates av { s.mstates av with label := L } } := by
  refine ⟨⟨⟨hs.wf.units, hs.wf.avs, hs.wf.start⟩, ?_, hs.locked, hs.made, ?_⟩, ?_, hne⟩
  · rw [State.view_setMstate (f := fun m => { m with label := L }) s av
      (fun u hu hav => (hs.mine u hu hav).symm), hs.view]
  · intro u hu hav
    simp only [Function.update_self]
  · simp only [Function.update_self]

/-- Serving from the bins and tops changes no unit. -/
theorem Entered.mallocServe {L : Label} {v : View K} {av : Nat} {s : State K}
    (hs : Entered L v av s) (nb : Nat) :
    wp (mallocServe av nb L) (fun _ s' => Served L v av s') (fun _ _ => True) s := by
  unfold ArbiterThread.mallocServe
  rw [wp_bind, wp_getMstate]
  -- a `malloc_state` that was used before, or one that has to be set up first
  by_cases hany : haveAnychunks (s.mstates av)
  · have hne : (s.mstates av).maxFast ≠ 0 := by
      unfold haveAnychunks at hany
      omega
    have hserved : Served L v av s := ⟨hs.1, hs.2 hne⟩
    rw [if_pos hany, wp_bind]
    refine wp_mono (hserved.framed (framed_searchBins av nb)) ?_ (fun _ _ _ => trivial)
    intro found s1 h1
    cases found with
    | some mem =>
      rw [wp_pure]
      exact h1
    | none => exact h1.framed (framed_mallocTop av nb)
  · have hlabel : wp (if (s.mstates av).maxFast = 0 then do
          mallocConsolidate av
          setMstate av fun m => { m with label := L }
        else pure () : HeapM K Unit) (fun _ s' => Served L v av s') (fun _ _ => True) s := by
      rw [wp_ite]
      split
      · rename_i hfresh
        rw [wp_bind]
        refine wp_mono (hs.1.mallocConsolidate hfresh) (fun _ s1 h1 => ?_) (fun _ _ _ => trivial)
        rw [setMstate, wp_modify]
        exact h1.1.setLabel h1.2
      · rename_i hused
        rw [wp_pure]
        exact ⟨hs.1, hs.2 hused⟩
    rw [if_neg hany, wp_bind]
    refine wp_mono hlabel (fun _ s1 h1 => ?_) (fun _ _ _ => trivial)
    exact h1.framed (framed_mallocTop av nb)

/-! ### New units -/

/-- The request is served by a mapped area of its own. -/
def TakesMmap (s : State K) (av nb : Nat) : Prop :=
  let m := s.mstates av
  m.mmapThreshold ≤ nb ∧ m.nMmaps < m.nMmapsMax ∧ nb < mmapSize m nb ∧
    getUnmappedArea s.units s.mmappedUstateList (mmapSize m nb) ≠ morecoreFailure

instance (s : State K) (av nb : Nat) : Decidable (TakesMmap s av nb) :=
  inferInstanceAs (Decidable (_ ∧ _))

/-- The view after an area was mapped. -/
def View.mmapped (ops : KernelOps K) (pid mm size : Nat) (L : Label) (v : View K) : View K :=
  { v.addRegion mm size L with
    kern := protLoop ops pid mm size L v.clients (ops.absysMmap v.kern pid mm size .protRW).2 }

/-- The break, which is asked for the first time it is used. -/
def View.oldBrk (ops : KernelOps K) (pid : Nat) (v : View K) : Nat × K :=
  if v.curbrk = 0 then ops.absysBrk v.kern pid 0 else (v.curbrk, v.kern)

/-- The break moved by one unit. -/
def View.newBrk (ops : KernelOps K) (pid : Nat) (v : View K) : Nat × K :=
  ops.absysBrk (v.oldBrk ops pid).2 pid ((v.oldBrk ops pid).1 + unitSize)

/-- The tasks are those there were. -/
theorem View.oops_brk (ops : KernelOps K) (pid : Nat) (v : View K) :
    ops.oops (v.oldBrk ops pid).2 = ops.oops v.kern ∧
      ops.oops (v.newBrk ops pid).2 = ops.oops v.kern := by
  have hold : ops.oops (v.oldBrk ops pid).2 = ops.oops v.kern := by
    unfold View.oldBrk
    split
    · exact ops.oops_brk ..
    · rfl
  exact ⟨hold, (ops.oops_brk ..).trans hold⟩

/-- The view after a unit was obtained by moving the break. Protections are only
    set if the request fits into it. -/
def View.sbrked (ops : KernelOps K) (pid nb : Nat) (L : Label) (v : View K) : View K :=
  { v.addRegion (v.oldBrk ops pid).1 unitSize L with
    kern :=
      if nb + minSize ≤ unitTopSize then
        protLoop ops pid (v.oldBrk ops pid).1 unitTopSize L v.clients (v.newBrk ops pid).2
      else (v.newBrk ops pid).2
    curbrk := (v.newBrk ops pid).1 }

/-- The view after a request for `nb` bytes got a new unit in state `s`. -/
inductive NewUnit (ops : KernelOps K) (pid nb av : Nat) (L : Label) (s : State K) : View K → Prop
  | mmap (size mm : Nat) (takes : TakesMmap s av nb) (hsize : size = mmapSize (s.mstates av) nb)
      (hmm : mm = getUnmappedArea s.units s.mmappedUstateList size)
      (granted : (ops.absysMmap s.kern pid mm size .protRW).1 = mm)
      (live : TasksLive ops pid s) :
      NewUnit ops pid nb av L s (s.view.mmapped ops pid mm size L)
  | sbrk (takes : ¬ TakesMmap s av nb)
      (first : s.curbrk = 0 → (s.view.oldBrk ops pid).1 = channelAddr)
      (room : (s.view.oldBrk ops pid).1 + unitSize < wordSize)
      (granted : (s.view.oldBrk ops pid).1 + unitSize ≤ (s.view.newBrk ops pid).1)
      (live : ops.oops s.kern pid = false ∧
        (nb + minSize ≤ unitTopSize → protKills ops pid s.kern s.clients = false)) :
      NewUnit ops pid nb av L s (s.view.sbrked ops pid nb L)

/-! ### Obtaining one -/

/-- The state after a unit was made and put on the list. -/
def State.addUnit (s : State K) (unit : Ustate) : State K :=
  { s with
    units := Function.update s.units s.nextUnit unit
    nextUnit := s.nextUnit + 1
    ustateList := s.nextUnit :: s.ustateList }

theorem State.Wf.addUnit {s : State K} (hs : s.Wf) (hne : s.mstateList ≠ []) {unit : Ustate}
    (hav : unit.unitAv < s.nextMstate) : (s.addUnit unit).Wf := by
  refine ⟨?_, hs.avs, fun hempty => absurd hempty hne⟩
  intro u hu
  rcases List.mem_cons.mp hu with rfl | hold
  · simp only [State.addUnit, Function.update_self]
    exact ⟨Nat.lt_succ_self _, hav⟩
  · have hu' := hs.units u hold
    simp only [State.addUnit, Function.update_of_ne hu'.1.ne]
    exact ⟨Nat.lt_succ_of_lt hu'.1, hu'.2⟩

theorem State.view_addUnit {s : State K} (hs : s.Wf) (unit : Ustate) :
    (s.addUnit unit).view =
      s.view.addRegion unit.addr unit.length (s.mstates unit.unitAv).label := by
  have hold : ∀ u ∈ s.ustateList, (s.addUnit unit).region u = s.region u := by
    intro u hu
    simp only [State.region, State.addUnit, Function.update_of_ne (hs.units u hu).1.ne]
  have hnew : (s.addUnit unit).region s.nextUnit =
      ⟨s.nextUnit, unit.addr, unit.length, (s.mstates unit.unitAv).label⟩ := by
    simp only [State.region, State.addUnit, Function.update_self]
  simp only [State.view, View.addRegion]
  rw [← List.map_congr_left hold, ← hnew]
  rfl

section

variable {L : Label} {v : View K} {av : Nat} {s : State K}

theorem Served.addUnit (hs : Served L v av s) (top addr length : Nat) :
    Served L (v.addRegion addr length L) av
      (s.addUnit ⟨top, addr, length, av⟩) := by
  refine ⟨⟨hs.1.wf.addUnit hs.2.2 hs.1.made, ?_, hs.1.locked, hs.1.made, fun _ _ _ => hs.2.1⟩,
    hs.2⟩
  rw [State.view_addUnit hs.1.wf, hs.1.view, hs.2.1]

theorem Served.setMstate (hs : Served L v av s) {f : Mstate → Mstate}
    (hlabel : ∀ m, (f m).label = m.label) :
    Served L v av { s with mstates := Function.update s.mstates av (f (s.mstates av)) } := by
  refine ⟨hs.1.setMstate hlabel, ?_, hs.2.2⟩
  simp only [Function.update_self]
  rw [hlabel]
  exact hs.2.1

theorem Served.setKern (hs : Served L v av s) (k : K) :
    Served L { v with kern := k } av { s with kern := k } := by
  have hview := hs.1.view
  subst hview
  exact ⟨⟨⟨hs.1.wf.units, hs.1.wf.avs, hs.1.wf.start⟩, rfl, hs.1.locked, hs.1.made, hs.1.mine⟩,
    hs.2⟩

theorem Served.setBrk (hs : Served L v av s) (b : Nat) :
    Served L { v with curbrk := b } av { s with curbrk := b } := by
  have hview := hs.1.view
  subst hview
  exact ⟨⟨⟨hs.1.wf.units, hs.1.wf.avs, hs.1.wf.start⟩, rfl, hs.1.locked, hs.1.made, hs.1.mine⟩,
    hs.2⟩

theorem Served.setMmapped (hs : Served L v av s) (l : List Nat) :
    Served L v av { s with mmappedUstateList := l } :=
  ⟨⟨⟨hs.1.wf.units, hs.1.wf.avs, hs.1.wf.start⟩, hs.1.view, hs.1.locked, hs.1.made, hs.1.mine⟩,
    hs.2⟩

theorem Served.protUpdate (hs : Served L v av s) (ops : KernelOps K) (pid p size : Nat) :
    wp (protUpdate ops pid p size L)
      (fun _ s' => Served L { v with kern := protLoop ops pid p size L v.clients v.kern } av s' ∧
        protKills ops pid v.kern v.clients = false)
      (fun _ _ => True) s := by
  have hview := hs.1.view
  subst hview
  rw [wp_protUpdate]
  split
  · trivial
  · exact ⟨hs.setKern _, Bool.eq_false_of_not_eq_true ‹_›⟩

end

theorem wp_insertMmappedUnit (unit : Nat) (s : State K) :
    wp (insertMmappedUnit unit) (fun _ s' => ∃ l, s' = { s with mmappedUstateList := l })
      (fun _ _ => True) s := by
  unfold insertMmappedUnit
  rw [wp_bind, wp_get]
  split
  · rw [wp_ite, wp_ite]
    split
    · exact (wp_set ..).mpr ⟨_, rfl⟩
    split
    · exact (wp_throw ..).mpr trivial
    split
    · exact (wp_set ..).mpr ⟨_, rfl⟩
    · exact (wp_pure ..).mpr ⟨s.mmappedUstateList, rfl⟩
  · exact (wp_set ..).mpr ⟨_, rfl⟩


/-- The mmap branch adds one unit, or is not taken. -/
theorem Served.mallocMmap (ops : KernelOps K) (pid nb : Nat) {L : Label} {v : View K} {av : Nat}
    {s : State K} (hs : Served L v av s) :
    wp (mallocMmap ops pid nb av L)
      (fun r s' => match r with
        | some _ => s'.Wf ∧ NewUnit ops pid nb av L s s'.view
        | none => s' = s ∧ ¬ TakesMmap s av nb)
      (fun _ _ => True) s := by
  unfold ArbiterThread.mallocMmap
  rw [wp_bind, wp_getMstate]
  -- each test of the branch that fails leaves everything as it was
  by_cases hthreshold : (s.mstates av).mmapThreshold ≤ nb ∧
    (s.mstates av).nMmaps < (s.mstates av).nMmapsMax ∧ nb < mmapSize (s.mstates av) nb
  case neg =>
    rw [if_neg hthreshold, wp_pure]
    exact ⟨rfl, fun h => hthreshold ⟨h.1, h.2.1, h.2.2.1⟩⟩
  rw [if_pos hthreshold, wp_bind, wp_get]
  by_cases hmm : getUnmappedArea s.units s.mmappedUstateList (mmapSize (s.mstates av) nb) ≠
    morecoreFailure
  case neg =>
    rw [if_neg hmm, wp_pure]
    exact ⟨rfl, fun h => hmm h.2.2.2⟩
  have htakes : TakesMmap s av nb := ⟨hthreshold.1, hthreshold.2.1, hthreshold.2.2, hmm⟩
  set size := mmapSize (s.mstates av) nb
  set mm := getUnmappedArea s.units s.mmappedUstateList size
  rw [if_pos hmm, wp_bind]
  -- the bytes of the new unit are written before the kernel is asked for it
  refine wp_mono (framed_mmapChunk _ _ s) (fun p s1 hf => ?_) (fun _ _ _ => trivial)
  have h1 := hs.frame hf
  have hkern : s1.kern = s.kern := by rw [hf.rest]
  rw [wp_bind]
  refine wp_absys_of (fun hthere => ?_) (fun _ => trivial)
  rw [wp_bind, wp_check]
  split
  case isFalse => trivial
  rename_i hgranted
  simp only [unitInitState, wp_bind, wp_get, wp_set, wp_pure, wp_modify]
  refine wp_mono (wp_insertMmappedUnit _ _) (fun _ s2 h2 => ?_) (fun _ _ _ => trivial)
  obtain ⟨l, rfl⟩ := h2
  rw [ArbiterThread.setMstate, wp_modify]
  have h2 := (h1.setKern (ops.absysMmap s1.kern pid mm size .protRW).2).addUnit mm mm size
  have h3 := (h2.setMmapped l).setMstate (f := countMmapped size) (fun _ => rfl)
  refine wp_mono (h3.protUpdate ops pid _ _) (fun _ s4 h4 => ?_) (fun _ _ _ => trivial)
  obtain ⟨h4, hlive⟩ := h4
  have hsame : protKills ops pid (ops.absysMmap s1.kern pid mm size .protRW).2 v.clients =
      protKills ops pid s.kern s.clients := by
    rw [protKills_congr (ops.oops_mmap ..), hkern, ← hs.1.view]
    rfl
  refine ⟨h4.1.wf, ?_⟩
  rw [h4.1.view, ← hs.1.view, hkern]
  exact .mmap _ _ htakes rfl rfl (hkern ▸ hgranted) ⟨hkern ▸ hthere, hsame.symm.trans hlive⟩

theorem wp_initBreak (ops : KernelOps K) (pid : Nat) (s : State K) :
    wp (initBreak ops pid)
      (fun ready s' => ready = true →
        s' = { s with
          kern := (s.view.oldBrk ops pid).2
          curbrk := (s.view.oldBrk ops pid).1 } ∧
        (s.curbrk = 0 → (s.view.oldBrk ops pid).1 = channelAddr))
      (fun _ _ => True) s := by
  unfold initBreak
  rw [wp_bind, wp_get]
  by_cases hfirst : s.curbrk = 0
  · have hold : s.view.oldBrk ops pid = ops.absysBrk s.kern pid 0 := if_pos hfirst
    rw [if_pos hfirst, hold]
    simp only [wp_bind, wp_ablibBrk, wp_get, wp_pure, wp_check, Nat.not_lt_zero, if_false,
      Int.lt_irrefl]
    split
    · trivial
    split
    · rename_i hstart
      exact fun _ => ⟨trivial, fun _ => hstart⟩
    · trivial
  · have hold : s.view.oldBrk ops pid = (s.curbrk, s.kern) := if_neg hfirst
    rw [if_neg hfirst, hold, wp_pure]
    exact fun _ => ⟨rfl, fun h => absurd h hfirst⟩

/-- If the break moved then by a unit, from where it was. -/
theorem wp_ablibSbrk (ops : KernelOps K) (pid : Nat) (s : State K) :
    wp (ablibSbrk ops pid unitSize)
      (fun r s' => r ≠ morecoreFailure → r = (s.view.oldBrk ops pid).1 ∧
        s' = { s with
          kern := (s.view.newBrk ops pid).2
          curbrk := (s.view.newBrk ops pid).1 } ∧
        (s.curbrk = 0 → r = channelAddr) ∧ r + unitSize < wordSize ∧
        r + unitSize ≤ (s.view.newBrk ops pid).1 ∧ ops.oops s.kern pid = false)
      (fun _ _ => True) s := by
  unfold ablibSbrk
  rw [wp_bind]
  refine wp_mono (wp_initBreak ops pid s) (fun ready s1 h1 => ?_) (fun _ _ _ => trivial)
  -- the break is asked for before it is moved
  cases ready with
  | false =>
    rw [if_neg Bool.false_ne_true, wp_pure]
    exact fun h => absurd rfl h
  | true =>
    obtain ⟨rfl, hfirst⟩ := h1 rfl
    have hunit : unitSize ≠ 0 := by decide
    rw [if_pos rfl, wp_bind, wp_get, if_neg hunit, wp_bind, wp_check, if_pos rfl]
    have hsame := (s.view.oops_brk ops pid).1
    generalize hbrk : s.view.oldBrk ops pid = old at hfirst hsame
    have hnew : s.view.newBrk ops pid = ops.absysBrk old.2 pid (old.1 + unitSize) := by
      rw [View.newBrk, hbrk]
    rw [hnew]
    by_cases hwrap : (old.1 + unitSize) % wordSize < old.1
    · rw [if_pos hwrap, wp_pure]
      exact fun h => absurd rfl h
    rw [if_neg hwrap]
    have hroom : old.1 + unitSize < wordSize := by
      unfold unitSize wordSize at *
      omega
    rw [wp_bind, wp_ablibBrk]
    split
    · trivial
    rename_i hthere
    rw [wp_pure]
    by_cases hshort : (ops.absysBrk old.2 pid (old.1 + unitSize)).1 < old.1 + unitSize
    · rw [if_pos hshort, if_pos (by decide)]
      exact fun h => absurd rfl h
    · rw [if_neg hshort, if_neg (by decide)]
      refine fun _ => ⟨rfl, rfl, hfirst, hroom, Nat.le_of_not_lt hshort, ?_⟩
      exact (congrFun hsame pid).symm.trans (Bool.eq_false_of_not_eq_true hthere)

/-- The fenceposts are behind the head of the unit top. -/
theorem wp_fencepost {fst : Nat} (hroom : fst + unitSize < wordSize) (s : State K) :
    wp (fencepost fst) (fun _ s' => Frame s s' ∧ sizeOfHead (s'.mem.load32 (fst + 4)) = unitTopSize)
      (fun _ _ => True) s := by
  have hpost : ∀ off, off < unitSize → chunkAtOffset fst off = fst + off := by
    intro off hoff
    exact Nat.mod_eq_of_lt (by omega)
  have hfirst := hpost unitTopSize (by decide)
  have hsecond := hpost (unitTopSize + 4) (by decide)
  have hbehind : 0 < unitTopSize := by decide
  have hhead : wp (fencepost fst : HeapM K Unit)
      (fun _ s' => sizeOfHead (s'.mem.load32 (fst + 4)) = unitTopSize) (fun _ _ => True) s := by
    unfold fencepost setHead
    rw [wp_bind, hfirst, hsecond]
    refine wp_store_of _ _ _ (fun _ => ?_) trivial
    rw [wp_bind]
    refine wp_store_of _ _ _ (fun _ => ?_) trivial
    refine wp_store_of _ _ _ (fun _ => ?_) trivial
    rw [Mem.load32_store32_of_disjoint _ _ _ _ (by omega),
      Mem.load32_store32_of_disjoint _ _ _ _ (by unfold unitTopSize; omega),
      Mem.load32_store32_self _ _ _ (by decide)]
    simp only [sizeOfHead, withInuse, unitTopSize]
  exact wp_mono (wp_and (framed_fencepost fst s) hhead) (fun _ _ h => h) (fun _ _ _ => trivial)

/-- The sbrk branch adds one unit. -/
theorem Served.mallocSbrk (ops : KernelOps K) (pid nb : Nat) {L : Label} {v : View K} {av : Nat}
    {s : State K} (hs : Served L v av s) (htakes : ¬ TakesMmap s av nb) :
    wp (mallocSbrk ops pid nb av L) (fun _ s' => s'.Wf ∧ NewUnit ops pid nb av L s s'.view)
      (fun _ _ => True) s := by
  have hview := hs.1.view
  subst hview
  unfold ArbiterThread.mallocSbrk
  rw [wp_bind, wp_getMstate, wp_bind, wp_check]
  split
  case isFalse => trivial
  rw [wp_bind]
  refine wp_mono (wp_ablibSbrk ops pid s) (fun fst s1 h1 => ?_) (fun _ _ _ => trivial)
  rw [wp_bind, wp_check]
  split
  case isFalse => trivial
  rename_i hfst
  obtain ⟨hold, rfl, hfirst, hroom, hgranted, hthere⟩ := h1 hfst
  -- the records are written one after the other, whatever the kernel answered
  have h1 := (hs.setKern (s.view.newBrk ops pid).2).setBrk (s.view.newBrk ops pid).1
  have h2 := h1.setMstate (f := fun m =>
    { m with sbrkedMem := (m.sbrkedMem + unitSize) % wordSize }) (fun _ => rfl)
  simp only [ArbiterThread.setMstate, unitInitState, wp_bind, wp_modify, wp_check]
  split
  case isFalse => trivial
  simp only [wp_get, wp_set, wp_pure]
  have h3 := (h2.setMstate (f := fun m => { m with ustateList := s.nextUnit :: m.ustateList })
    (fun _ => rfl)).addUnit fst fst unitSize
  refine wp_mono (wp_fencepost hroom _) (fun _ s4 h4 => ?_) (fun _ _ _ => trivial)
  obtain ⟨hf, hsize⟩ := h4
  have h5 := (h3.frame hf).setMstate (f := countSbrked) (fun _ => rfl)
  simp only [chunksize, headOf, wp_bind, wp_load, wp_pure]
  split
  case isFalse => trivial
  rw [hsize]
  have hnew := fun hlive => NewUnit.sbrk (L := L) htakes (hold ▸ hfirst) (hold ▸ hroom)
    (hold ▸ hgranted) ⟨hthere, hlive⟩
  unfold View.sbrked at hnew
  -- a request that does not fit leaves the unit behind, without protections
  by_cases hfits : nb + minSize ≤ unitTopSize
  · rw [if_pos hfits] at hnew ⊢
    rw [wp_bind]
    refine wp_mono (h5.framed (framed_setUnitTop _ _)) (fun _ s6 h6 => ?_) (fun _ _ _ => trivial)
    rw [wp_bind]
    refine wp_mono (h6.framed (framed_setHead _ _)) (fun _ s7 h7 => ?_) (fun _ _ _ => trivial)
    rw [wp_bind]
    refine wp_mono (h7.framed (framed_setHead _ _)) (fun _ s8 h8 => ?_) (fun _ _ _ => trivial)
    rw [wp_bind]
    refine wp_mono (h8.framed (framed_setFoot _ _)) (fun _ s9 h9 => ?_) (fun _ _ _ => trivial)
    rw [wp_bind]
    refine wp_mono (h9.protUpdate ops pid _ _) (fun _ s10 h10 => ?_) (fun _ _ _ => trivial)
    rw [wp_pure]
    obtain ⟨h10, hlive⟩ := h10
    have hsame : protKills ops pid (s.view.newBrk ops pid).2 s.clients =
        protKills ops pid s.kern s.clients := protKills_congr (s.view.oops_brk ops pid).2 pid _
    refine ⟨h10.1.wf, ?_⟩
    rw [h10.1.view, hold]
    exact hnew (fun _ => hsame.symm.trans hlive)
  · rw [if_neg hfits] at hnew ⊢
    rw [wp_pure]
    refine ⟨h5.1.wf, ?_⟩
    rw [h5.1.view, hold]
    exact hnew (fun hno => absurd hno hfits)

/-! ### Requests -/

/-- The recursive call is made with the lock held, so it does not return. -/
theorem ablibMallocStep_blocks (ops : KernelOps K) (retry : Nat → Nat → Label → HeapM K Nat)
    (pid : Nat) {bytes : Nat} (L : Label) (hbytes : bytes ≠ 0) {s : State K}
    (hlocked : s.locked = true) :
    wp (ablibMallocStep ops retry pid bytes L) (fun _ _ => False) (fun _ _ => True) s := by
  simp only [ablibMallocStep, lookupMstateByLabel, mallocEnter, wp_bind, wp_get, wp_pure]
  rw [if_neg hbytes]
  simp only [wp_bind, wp_mallocLock, hlocked, if_true]

theorem sixteen_le_request2size (bytes : Nat) : 16 ≤ request2size bytes := by
  unfold request2size minSize
  split
  · exact le_rfl
  · omega

/-- With fastbin chunks pending `__malloc_alloc` does not return, and without it
    gets a new unit. -/
theorem Served.mallocAlloc (ops : KernelOps K) (retry : Nat → Nat → Label → HeapM K Nat)
    (pid : Nat) {nb : Nat} {L : Label} {v : View K} {av : Nat} {s : State K}
    (hs : Served L v av s) (hnb : 16 ≤ nb) :
    wp (mallocAlloc ops (ablibMallocStep ops retry) pid nb av L)
      (fun _ s' => s'.Wf ∧ ¬ haveFastchunks (s.mstates av) ∧ NewUnit ops pid nb av L s s'.view)
      (fun _ _ => True) s := by
  unfold ArbiterThread.mallocAlloc
  rw [wp_bind, wp_getMstate]
  -- with fastbin chunks the function calls itself, and blocks on the lock
  by_cases hpending : haveFastchunks (s.mstates av)
  · have hne := maxFast_ne_zero_of_haveFastchunks hpending
    rw [if_pos hpending, wp_bind, wp_check]
    split
    case isFalse => trivial
    rw [wp_bind]
    refine wp_mono (frame_mallocConsolidate s av hne) (fun _ s1 hf => ?_) (fun _ _ _ => trivial)
    have hlocked := hf.outside.locked.trans hs.1.locked
    exact wp_imp (ablibMallocStep_blocks ops retry pid L (by omega) hlocked)
      (fun _ _ h => h.elim)
  · rw [if_neg hpending, wp_bind]
    refine wp_mono (hs.mallocMmap ops pid nb) (fun mem s1 h1 => ?_) (fun _ _ _ => trivial)
    cases mem with
    | some mem =>
      rw [wp_pure]
      exact ⟨h1.1, hpending, h1.2⟩
    | none =>
      obtain ⟨rfl, htakes⟩ := h1
      exact wp_imp (hs.mallocSbrk ops pid nb htakes) (fun _ _ h => ⟨h.1, hpending, h.2⟩)

/-- If the request gets as far as a new unit, then `P` of the chunk size, the
    `malloc_state` and the state in which it does. -/
def MallocOk (P : Nat → Nat → State K → Prop) (bytes : Nat) (L : Label) (s : State K) : Prop :=
  bytes = 0 ∨ requestOutOfRange bytes ∨
    AtAlloc bytes L
      (fun av s' => ¬ haveFastchunks (s'.mstates av) → P (request2size bytes) av s') s

/-- A well-formed state with a property of its view. -/
def Seen (I : View K → Prop) (s : State K) : Prop := s.Wf ∧ I s.view

theorem Seen.locked {I : View K → Prop} {s : State K} (hs : Seen I s) (b : Bool) :
    Seen I { s with locked := b } :=
  ⟨⟨hs.1.units, hs.1.avs, hs.1.start⟩, hs.2⟩

/-- A property of views that a new unit keeps where `P` holds is kept by a
    request that meets the condition. -/
theorem Seen.ablibMalloc {ops : KernelOps K} {I : View K → Prop} {pid : Nat} {L : Label}
    {P : Nat → Nat → State K → Prop}
    (hnew : ∀ nb av s v, I s.view → P nb av s → NewUnit ops pid nb av L s v → I v) (bytes : Nat)
    {s : State K} (hs : Seen I s) (hok : MallocOk P bytes L s) :
    Ends (Seen I) (fun _ => True) (ablibMalloc ops pid bytes L) s := by
  change wp (ablibMallocStep ops (ablibMallocStep ops (ablibMallocAux ops 0)) pid bytes L)
    (fun _ s' => Seen I s') (fun _ _ => True) s
  unfold ablibMallocStep
  simp only [lookupMstateByLabel, wp_bind, wp_get, wp_pure, wp_ite]
  split
  · exact hs
  rename_i hbytes
  by_cases hrange : requestOutOfRange bytes
  · simp only [hrange, if_true]
    refine wp_mono (wp_mallocEnter hs.1 L) (fun av s1 h1 => ⟨h1.1.wf, ?_⟩) (fun _ _ _ => trivial)
    rw [h1.1.view]
    exact hs.2
  have halloc := (hok.resolve_left hbytes).resolve_left hrange
  rw [atAlloc_iff] at halloc
  refine wp_mono (wp_and (wp_mallocEnter hs.1 L) halloc) (fun av s1 h1 => ?_)
    (fun _ _ _ => trivial)
  simp only [hrange, if_false]
  rw [mallocBody, wp_bind]
  refine wp_mono (wp_and (h1.1.mallocServe (request2size bytes)) h1.2) (fun found s2 h2 => ?_)
    (fun _ _ _ => trivial)
  -- up to here the units are as before
  have hsame : I s2.view := by
    rw [h2.1.1.view]
    exact hs.2
  have hunlock : ∀ s3 : State K, Seen I s3 → wp (mallocUnlock : HeapM K Unit)
      (fun _ s' => Seen I s') (fun _ _ => True) s3 := by
    intro s3 h3
    rw [wp_mallocUnlock]
    split
    · exact h3.locked false
    · trivial
  cases found with
  | some mem =>
    rw [wp_pure]
    exact hunlock s2 ⟨h2.1.1.wf, hsame⟩
  | none =>
    refine wp_mono (h2.1.mallocAlloc ops _ pid (sixteen_le_request2size bytes))
      (fun mem s3 h3 => ?_) (fun _ _ _ => trivial)
    exact hunlock s3 ⟨h3.1, hnew _ av s2 _ hsame (h2.2 rfl h3.2.1) h3.2.2⟩

/-! ### Releases -/

/-- The property is kept when an area is unmapped, whichever one, and at most a
    region is given up. -/
def Releases (ops : KernelOps K) (I : View K → Prop) : Prop :=
  ∀ v pid addr size regions, I v → regions.Sublist v.regions →
    I { v with kern := ops.absysMunmap v.kern pid addr size, regions := regions }

theorem Seen.freeMmapped {ops : KernelOps K} {I : View K → Prop} (hfree : Releases ops I)
    (pid av u p head : Nat) {s : State K} (hs : Seen I s) :
    Ends (Seen I) (fun _ => True) (freeMmapped ops pid av u p head) s := by
  unfold Ends ArbiterThread.freeMmapped prevSize
  rw [wp_bind]
  refine wp_load_of _ _ _ (fun _ => ?_) trivial
  simp only [setMstate, listDelete, wp_bind, wp_modify, wp_get, wp_ite, wp_pure, wp_throw]
  refine wp_absys_of (fun _ => ?_) (fun _ => trivial)
  split
  case isFalse => trivial
  split
  case isFalse => trivial
  refine ⟨⟨fun v hv => hs.1.units v (List.mem_of_mem_erase hv), hs.1.avs, ?_⟩, ?_⟩
  · intro hempty
    simp only [hs.1.start hempty, List.erase_nil]
  · set size := (sizeOfHead head + s.mem.load32 p) % wordSize
    have hregion := fun v => s.region_setMstate av v (f := fun m =>
      { m with
        nMmaps := m.nMmaps - 1
        mmappedMem := (m.mmappedMem + (wordSize - size)) % wordSize }) (fun _ => rfl)
    have hsub := (List.erase_sublist (a := u) (l := s.ustateList)).map s.region
    rw [← List.map_congr_left (fun v _ => hregion v)] at hsub
    exact hfree s.view pid _ _ _ hs.2 hsub

/-- Between two sections and inside one the same is known. -/
theorem Seen.sections {ops : KernelOps K} {I : View K → Prop} (hfree : Releases ops I) :
    Sections ops (Seen I) (Seen I) (fun _ => True) where
  fault := fun _ _ => trivial
  frame := fun _ _ hf hs => ⟨hf.wf hs.1, hf.view ▸ hs.2⟩
  frame_rest := fun _ _ hf hs => ⟨hf.wf hs.1, hf.view ▸ hs.2⟩
  lock := fun _ hs _ => hs.locked true
  deadlock := fun _ _ _ => trivial
  unlock := fun _ hs _ => hs.locked false
  badUnlock := fun _ _ _ => trivial
  freeMmapped := fun _ pid av u p head hs => hs.freeMmapped hfree pid av u p head

end ArbiterThread
