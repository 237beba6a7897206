import ArbiterThread.Malloc.Service

/-!
# Requests that Fail

A request that cannot be satisfied should return `NULL` and leave everything as it was. That
is so for requests that are empty or too large. Once a request gets as far as
`__malloc_alloc` there is no way to fail like that: whatever goes wrong there is an assertion,
or is noticed when the unit is already there. So a request that gets that far is
handled as it should be exactly if it succeeds.

## Main definitions

* `LeftAlone`: What a failed request has to leave alone.

## Theorems

* `Served.granted`: If `__malloc_alloc` returns, then it was granted what it asked for.
* `request_fails_clean_iff`: When a request returns, and leaves everything alone if it returns
  `NULL`.
-/

namespace ArbiterThread

open Exec

variable {K : Type}

/-- The break, the lists of units, the units and statistics of each `malloc_state`, and what
    the kernel knows are the same. A new `malloc_state` has no units. -/
structure LeftAlone (s s' : State K) : Prop where
  curbrk : s'.curbrk = s.curbrk
  list : s'.ustateList = s.ustateList
  mmapped : s'.mmappedUstateList = s.mmappedUstateList
  counts : ∀ av < s.nextMstate, (s'.mstates av).counts = (s.mstates av).counts
  newborn : ∀ av, s.nextMstate ≤ av → av < s'.nextMstate →
    (s'.mstates av).counts = Mstate.zero.counts
  kern : s'.kern = s.kern

section

variable {m₀ : Mem} {s s' : State K} {h : Heap} {av nb bytes : Nat} {L : Label} {v : View K}

theorem Onward.leftAlone (ho : Onward s s') (hview : s'.view = s.view) : LeftAlone s s' :=
  ⟨congrArg View.curbrk hview, ho.list, ho.mmapped, ho.counts, ho.newborn,
    congrArg View.kern hview⟩

/-- The insertion of a unit that belongs behind the tail does not return. -/
theorem wp_insertMmappedUnit_behind (unit : Nat)
    (hbehind : ¬ NotBehind s.units s.mmappedUstateList (s.units unit).addr) :
    wp (insertMmappedUnit unit) (fun _ _ => False) (fun _ _ => True) s := by
  unfold NotBehind at hbehind
  push Not at hbehind
  obtain ⟨head, hhead, tail, htail, hafter, hend⟩ := hbehind
  unfold insertMmappedUnit
  rw [wp_bind, wp_get]
  obtain ⟨rest, hlist⟩ := List.head?_eq_some_iff.mp hhead
  obtain ⟨front, hfront⟩ := List.getLast?_eq_some_iff.mp htail
  have hrev : s.mmappedUstateList.reverse = tail :: front.reverse := by
    rw [hfront, List.reverse_append, List.reverse_singleton, List.singleton_append]
  rw [hrev, hlist]
  dsimp only
  rw [if_neg (by omega), if_pos hend, wp_throw]
  trivial

/-- The break was aligned if `mallocSbrk` returns. -/
theorem wp_mallocSbrk_aligned (ops : KernelOps K) (pid : Nat) :
    wp (mallocSbrk ops pid nb av L) (fun _ _ => (s.view.oldBrk ops pid).1 % 8 = 0)
      (fun _ _ => True) s := by
  unfold mallocSbrk
  rw [wp_bind, wp_getMstate, wp_bind, wp_check]
  split
  case isFalse => trivial
  rw [wp_bind]
  refine wp_imp (wp_ablibSbrk ops pid s) (fun r s₁ h₁ => ?_)
  rw [wp_bind, wp_check]
  split
  case isFalse => trivial
  rename_i hr
  rw [wp_bind, wp_setMstate, wp_bind, wp_check]
  split
  case isFalse => trivial
  rename_i halign
  have hold : (s.view.oldBrk ops pid).1 % 8 = 0 := by
    rw [← (h₁ hr).1]
    unfold chunk2mem wordSize at halign
    omega
  exact wp_of_forall (fun _ _ => hold) (fun _ _ => trivial)

/-- If `__malloc_alloc` returns, then a mapped unit does not belong behind the tail of the
    list, and the break was aligned. -/
theorem Arena.mallocAlloc_placed (a : Arena m₀ s h) (ops : KernelOps K)
    (retry : Nat → Nat → Label → HeapM K Nat) (pid : Nat) (hav : av ∈ s.mstateList) :
    wp (ArbiterThread.mallocAlloc ops retry pid nb av L)
      (fun _ _ => haveFastchunks (s.mstates av) ∨
        if TakesMmap s av nb then NotBehind s.units s.mmappedUstateList (areaFor s av nb)
        else (s.view.oldBrk ops pid).1 % 8 = 0) (fun _ _ => True) s := by
  unfold ArbiterThread.mallocAlloc
  rw [wp_bind, wp_getMstate]
  by_cases hfast : haveFastchunks (s.mstates av)
  · rw [if_pos hfast]
    exact wp_of_forall (fun _ _ => .inl hfast) (fun _ _ => trivial)
  rw [if_neg hfast, wp_bind]
  by_cases htakes : TakesMmap s av nb
  · rw [if_pos htakes]
    have hready := a.ready av hav
    obtain ⟨hwhole, hlarge, hword, -⟩ := mmapSize_of_takes hready.2.1 hready.2.2 htakes
    have halign : areaFor s av nb % 4096 = 0 :=
      getUnmappedArea_aligned s.units s.mmappedUstateList (fun u hu => (a.mmapped u hu).2) hwhole
        (by unfold unitSize at hlarge; omega) hword
    refine wp_mallocMmap_of ops pid nb av L htakes rfl (rfl : areaFor s av nb = _) (by omega)
      (fun _ _ => trivial) (fun _ _ _ => trivial) (fun _ _ => trivial) (fun _ _ => ?_)
    by_cases hplaced : NotBehind s.units s.mmappedUstateList (areaFor s av nb)
    · refine wp_of_forall (fun _ _ _ => ?_) (fun _ _ => trivial)
      rw [wp_pure]
      exact .inr hplaced
    · refine wp_imp (wp_insertMmappedUnit_behind s.nextUnit ?_) (fun _ _ hno => hno.elim)
      rwa [a.notBehind_addMapped]
  · rw [if_neg htakes]
    refine wp_mallocMmap_none ops pid L htakes ?_
    exact wp_imp (wp_mallocSbrk_aligned ops pid) (fun _ _ h8 => .inr h8)

/-- If `__malloc_alloc` returns, then it was granted what it asked for. The protections of
    a unit that has no room for the request are not set. -/
theorem Served.granted (hs : Served L v av s) (ops : KernelOps K)
    (retry : Nat → Nat → Label → HeapM K Nat) (pid : Nat) (a : Arena m₀ s h)
    (hav : av ∈ s.mstateList) (hnb : 16 ≤ nb) :
    wp (ArbiterThread.mallocAlloc ops (ablibMallocStep ops retry) pid nb av L)
      (fun _ _ => TakesMmap s av nb ∨ nb + minSize ≤ unitTopSize → AllocGranted ops pid nb av s)
      (fun _ _ => True) s := by
  refine wp_mono (wp_and (hs.mallocAlloc ops retry pid hnb) (a.mallocAlloc_placed ops _ pid hav))
    (fun _ s' hpost => ?_) (fun _ _ he => he.1)
  obtain ⟨⟨-, hfast, hnew⟩, hplaced⟩ := hpost
  have hplaced := hplaced.resolve_left hfast
  refine fun hfits => ⟨hfast, ?_⟩
  generalize s'.view = v' at hnew
  cases hnew with
  | mmap size mm htakes hsize hmm hgranted hlive =>
    rw [if_pos htakes] at hplaced ⊢
    subst hsize hmm
    exact ⟨hgranted, hplaced, hlive⟩
  | sbrk htakes hfirst hroom hgranted hlive =>
    rw [if_neg htakes] at hplaced ⊢
    exact ⟨hfirst, hplaced, hroom, hgranted, hlive.1, hlive.2 (hfits.resolve_left htakes)⟩

/-- The state in which `mallocEnter` leaves the units. -/
theorem Arena.enter_leftAlone (a : Arena m₀ s h) (hcan : CanEnter L s) :
    wp (ArbiterThread.mallocEnter
      (s.mstateList.find? fun m => decide ((s.mstates m).label = L)))
      (fun _ s' => LeftAlone s s') (fun _ _ => False) s := by
  have honward := a.mallocEnter (E := fun _ _ => False) (Q := fun _ s' => Onward s s') L (.inl hcan)
    (fun av hr => hr.onward)
    (fun hlimit =>
      (({ s with locked := true } : State K).widened_withMstate hlimit).onward.of_locked)
  refine wp_mono (wp_and honward (wp_mallocEnter a.wf L)) (fun av s' hpost => ?_)
    (fun _ _ he => he.1)
  exact hpost.1.leftAlone hpost.2.1.view

/-- Where the units for it are free, `__malloc_alloc` returns and leaves everything alone if it
    returns `NULL` exactly if it does not return `NULL`. -/
theorem Admitted.failure_iff (hr : Admitted m₀ s L av s' h) (hs : Served L v av s')
    (ops : KernelOps K) (pid : Nat) (retry : Nat → Nat → Label → HeapM K Nat) (hnb : 16 ≤ nb)
    (h8 : nb % 8 = 0) (hroom : ¬ haveFastchunks (s'.mstates av) → RoomFor ops pid nb av s') :
    wp (mallocAlloc ops (ablibMallocStep ops retry) pid nb av L)
        (fun mem t => t.locked = true ∧ (mem = 0 → LeftAlone s { t with locked := false }))
        (fun _ _ => False) s' ↔
      AllocGranted ops pid nb av s' ∧ (TakesMmap s' av nb ∨ nb + minSize ≤ unitTopSize) := by
  constructor
  · intro hends
    have hobtain := hr.arena.mallocAlloc ops retry pid hr.listed hr.locked hnb h8 hroom (L := L)
      (E := fun _ _ => True) (.inr fun _ _ => trivial)
    have hgranted := hs.granted ops retry pid hr.arena hr.listed hnb
    obtain ⟨mem, t, -, ⟨-, hfail⟩, ⟨-, h', ho⟩, hgranted⟩ := exists_ok (wp_mono
      (wp_and hends (wp_and hobtain hgranted)) (fun _ _ hpost => hpost) (fun _ _ he => he.1))
    have hfits : TakesMmap s' av nb ∨ nb + minSize ≤ unitTopSize := by
      cases ho with
      | mapped _ unit => exact .inl unit.takes
      | sbrked _ unit =>
        refine .inr ?_
        rcases unit.block with ⟨-, hzero⟩ | ⟨hfits, -⟩
        · -- the unit is on the list
          have hlist := (hfail hzero).list
          have hgrown := unit.grown.list
          change t.ustateList = _ at hlist
          rw [hgrown, hr.onward.list] at hlist
          exact absurd hlist (List.cons_ne_self _ _)
        · exact hfits
    exact ⟨hgranted hfits, hfits⟩
  · rintro ⟨hgranted, hfits⟩
    refine wp_imp (hr.arena.mallocAlloc ops retry pid hr.listed hr.locked hnb h8 hroom (L := L)
      (E := fun _ _ => False) (.inl hgranted)) (fun mem t hpost => ?_)
    obtain ⟨-, h', ho⟩ := hpost
    refine ⟨ho.locked.trans hr.locked, fun hzero => ?_⟩
    cases ho with
    | mapped _ unit =>
      have hmem := unit.block
      omega
    | sbrked htakes unit =>
      have hfits := hfits.resolve_left htakes
      rcases unit.block with ⟨hno, -⟩ | ⟨-, p, hp, -⟩
      · omega
      · omega

/-- When a request returns, and leaves everything alone if it returns `NULL`. -/
theorem Arena.failure_iff (a : Arena m₀ s h) (ops : KernelOps K) (pid : Nat)
    (hok : MallocOk (RoomFor ops pid) bytes L s) :
    wp (ArbiterThread.ablibMalloc ops pid bytes L) (fun mem s' => mem = 0 → LeftAlone s s')
        (fun _ _ => False) s ↔
      bytes = 0 ∨ CanEnter L s ∧ (requestOutOfRange bytes ∨
        AtAlloc bytes L (fun av s' => AllocGranted ops pid (request2size bytes) av s' ∧
          (TakesMmap s' av (request2size bytes) ∨
            request2size bytes + minSize ≤ unitTopSize)) s) := by
  obtain ⟨hnb, h8, -, -⟩ := request2size_spec bytes
  by_cases hbytes : bytes = 0
  · refine ⟨fun _ => .inl hbytes, fun _ => ?_⟩
    change wp (ablibMallocStep ops (ablibMallocStep ops (ablibMallocAux ops 0)) pid bytes L) _ _ s
    unfold ablibMallocStep
    simp only [lookupMstateByLabel, wp_bind, wp_get, wp_pure, if_pos hbytes]
    exact fun _ => (Onward.refl s).leftAlone rfl
  by_cases hrange : requestOutOfRange bytes
  · -- the lock stays taken, but nothing else is done
    have hstart : wp (ArbiterThread.ablibMalloc ops pid bytes L)
        (fun mem s' => mem = 0 → LeftAlone s s') (fun _ _ => False) s ↔
        wp (ArbiterThread.mallocEnter
          (s.mstateList.find? fun m => decide ((s.mstates m).label = L)))
          (fun _ s' => (0 : Nat) = 0 → LeftAlone s s') (fun _ _ => False) s := by
      change wp (ablibMallocStep ops (ablibMallocStep ops (ablibMallocAux ops 0)) pid bytes L)
        _ _ s ↔ _
      unfold ablibMallocStep
      simp only [lookupMstateByLabel, wp_bind, wp_get, wp_pure, if_neg hbytes, if_pos hrange]
    rw [hstart]
    constructor
    · exact fun hwp => .inr ⟨canEnter_of_wp hwp, .inl hrange⟩
    · intro hcond
      have hcan := (hcond.resolve_left hbytes).1
      exact wp_imp (a.enter_leftAlone hcan) (fun _ _ hsame _ => hsame)
  have hD := (hok.resolve_left hbytes).resolve_left hrange
  rw [a.ablibMalloc_iff ops pid hbytes hrange hD (fun mem t hroom hzero => absurd hzero hroom.1)
    (fun av s₂ h₂ hr hs hfree => hr.failure_iff hs ops pid _ hnb h8 hfree)]
  exact ⟨fun hcond => .inr ⟨hcond.1, .inr hcond.2⟩, fun hcond =>
    ⟨(hcond.resolve_left hbytes).1, (hcond.resolve_left hbytes).2.resolve_left hrange⟩⟩

end

/-- In every state of a run, and for every request whose units are free, the request returns and
    leaves everything alone if it returns `NULL` exactly if it is empty, or can take the lock
    and either is too large or does not get as far as `__malloc_alloc` unless it is granted a
    unit there that it fits into. -/
theorem request_fails_clean_iff {ops : KernelOps K} {s : State K} {live : List Grant}
    (hrun : HeapRun ops (HeapOk ops False) s live) (pid bytes : Nat) (L : Label)
    (hok : MallocOk (RoomFor ops pid) bytes L s) :
    wp (ablibMalloc ops pid bytes L) (fun mem s' => mem = 0 → LeftAlone s s')
        (fun _ _ => False) s ↔
      bytes = 0 ∨ CanEnter L s ∧ (requestOutOfRange bytes ∨
        AtAlloc bytes L (fun av s' => AllocGranted ops pid (request2size bytes) av s' ∧
          (TakesMmap s' av (request2size bytes) ∨
            request2size bytes + minSize ≤ unitTopSize)) s) := by
  obtain ⟨h, i⟩ := hrun.sound
  exact i.arena.failure_iff ops pid hok

/-- A unit and a block are there, and a request is too large. -/
theorem failure_too_large :
    ∃ s live, HeapRun generousKernel (HeapOk generousKernel False) s live ∧ s.ustateList = [0] ∧
      wp (ablibMalloc generousKernel 1 0xFFFFFFFF (fun _ => 0)) (fun mem _ => mem = 0)
        (fun _ _ => False) s ∧
      wp (ablibMalloc generousKernel 1 0xFFFFFFFF (fun _ => 0))
        (fun mem s' => mem = 0 → LeftAlone s s') (fun _ _ => False) s := by
  have hok : RequestOk (RoomFor generousKernel 1) 100 (fun _ => 0) (State.start () []) := by
    decide +kernel
  have hall : wp (ablibMalloc generousKernel 1 100 (fun _ => 0)) (fun _ s => s.ustateList = [0] ∧
      CanEnter (fun _ => 0) s ∧ wp (ablibMalloc generousKernel 1 0xFFFFFFFF (fun _ => 0))
        (fun mem _ => mem = 0) (fun _ _ => False) s)
      (fun _ _ => False) (State.start () []) := by decide +kernel
  obtain ⟨mem, s, live, hrun, hunit, henter, hnull⟩ := HeapRun.first hok hall
  exact ⟨s, live, hrun, hunit, hnull, (request_fails_clean_iff hrun 1 0xFFFFFFFF (fun _ => 0)
    (.inr (.inl (by decide)))).mpr (.inr ⟨henter, .inl (by decide)⟩)⟩

/-- A request that a unit has no room for fails with the unit obtained. -/
theorem failure_keeps_unit :
    HeapRun generousKernel (fun _ _ => True) (State.start () []) [] ∧
      wp (ablibMalloc generousKernel 1 40925 (fun _ => 0))
        (fun mem s' => mem = 0 ∧ s'.ustateList ≠ [] ∧ s'.curbrk ≠ 0) (fun _ _ => False)
        (State.start () []) ∧
      ¬ wp (ablibMalloc generousKernel 1 40925 (fun _ => 0))
        (fun mem s' => mem = 0 → LeftAlone (State.start () []) s') (fun _ _ => False)
        (State.start () []) := by
  have hfails : wp (ablibMalloc generousKernel 1 40925 (fun _ => 0))
      (fun mem s' => mem = 0 ∧ s'.ustateList ≠ [] ∧ s'.curbrk ≠ 0) (fun _ _ => False)
      (State.start () []) := by decide +kernel
  refine ⟨.start () [], hfails, fun hsame => ?_⟩
  obtain ⟨mem, s', -, hpost⟩ := exists_ok (wp_mono (wp_and hfails hsame) (fun _ _ hpost => hpost)
    (fun _ _ he => he.1))
  exact hpost.1.2.1 (hpost.2 hpost.1.1).list

end ArbiterThread
