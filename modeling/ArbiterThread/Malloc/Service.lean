import ArbiterThread.Malloc.Walk

/-!
# What a Request Gets

What a call is owed by the allocator: a request for less than a unit is served while the
channel heap can be extended, a block from `ablib_calloc` is clear, and a block that is
resized keeps its contents and its label.

None of the three holds without a condition. A request may be too large for what is left of
a new unit between its fenceposts. A mapped unit is not cleared, and has what was written
to its place before. And a resized block that has to move goes to a unit of the label that
the call names.

## Main definitions

* `CanExtend`, `HasRoom`: The premise and the outcome of a request that is served.
* `StaysFree`: A call meets no defect and leaves a range out of all units.
* `ResizeMeets`, `MovesWithin`: What resizing a block must do, and when it does.

## Theorems

* `Arena.ablibMalloc_iff`: When a request ends as it should.
* `small_request_served_iff`: When a request for less than a unit is served.
* `HeapRun.untouched`: What was never in a unit is 0.
* `calloc_clear_in_run`: When a block is clear.
* `realloc_meets`: When a block is resized as it should be.
-/

namespace ArbiterThread

open Exec Rings

variable {K : Type}

/-- The channel heap can be extended by one unit. -/
def CanExtend (ops : KernelOps K) (pid : Nat) (s : State K) : Prop :=
  SbrkGranted ops pid s ∧ FreeRange s (s.view.oldBrk ops pid).1 unitSize

/-- A block with room for what was asked for, by its size field and inside a unit. -/
def HasRoom (bytes mem : Nat) (s : State K) : Prop :=
  mem ≠ 0 ∧ bytes + 4 ≤ sizeAt s.mem (mem2chunk mem) ∧
    ∃ u ∈ s.ustateList, (s.units u).addr ≤ mem ∧ mem + bytes ≤ (s.units u).stop

section

variable {m₀ : Mem} {s s' : State K} {h h' : Heap} {av nb bytes : Nat} {L : Label}
variable {E : Fault → State K → Prop}

theorem Body.hasRoom (b : Body m₀ s h) {p : Nat} (hp : h.size p ≠ 0) (huse : h.use p ≠ .raw)
    (hroom : bytes + 4 ≤ h.size p) : HasRoom bytes (p + 8) s := by
  have hb := b.tidy.tiling.bounds hp
  have hchunk : mem2chunk (p + 8) = p := by
    unfold mem2chunk wordSize
    omega
  refine ⟨by omega, ?_, ?_⟩
  · rw [hchunk]
    unfold sizeAt
    rwa [b.holds.head hp huse, b.tidy.tiling.sizeOfHead hp]
  · obtain ⟨hbase, hlo, hhi⟩ := b.tidy.tiling.place hp
    obtain ⟨hu, hunit⟩ := b.tracks.unit hbase
    refine ⟨h.unit p, hu, ?_⟩
    simp only [hunit, Ustate.stop, Heap.next, Heap.fence, unitTopSize, unitSize] at hhi ⊢
    omega

theorem Handed.hasRoom {p : Nat} (hh : Handed h h' av nb p) (b : Body m₀ s' h')
    (hbytes : bytes + 4 ≤ nb) : HasRoom bytes (p + 8) s' := by
  obtain ⟨z, u, hlive, hz, -⟩ := hh.live
  have hp : h'.live p = some (z, u, 0) := by
    rw [hlive, Function.update_self]
  obtain ⟨hsize, huse, rfl, -⟩ := Heap.live_eq_some.mp hp
  refine b.hasRoom hsize ?_ (by omega)
  rw [huse]
  decide

/-- A request that is served has its room, and one that is not has changed no unit top. -/
theorem Admitted.mallocServe_room (hr : Admitted m₀ s L av s' h) (hnb : 16 ≤ nb)
    (h8 : nb % 8 = 0) (hbytes : bytes + 4 ≤ nb) :
    wp (ArbiterThread.mallocServe av nb L) (fun found t => t.locked = true ∧
      match found with
      | none => ∃ h', Admitted m₀ s L av t h'
      | some mem => HasRoom bytes mem t) E s' := by
  rw [wp_mallocServe_iff]
  refine wp_imp (hr.mallocBins hnb h8 (E := E)) (fun found t ht => ?_)
  obtain ⟨h', hr', hcase⟩ := ht
  cases found with
  | some mem =>
    obtain ⟨p, rfl, hh⟩ := hcase
    exact ⟨hr'.locked, hh.hasRoom hr'.arena.rep.body hbytes⟩
  | none =>
    have hav := hr'.arena.active hr'.listed
    dsimp only
    unfold mallocTop
    rw [wp_bind, wp_getMstate]
    -- the unit tops are tried from the oldest unit on
    have hcut : wp (useUnitTop nb (t.mstates av).ustateList.reverse) (fun found t' =>
        match found with
        | none => t' = t
        | some mem => HasRoom bytes mem t') E t := by
      have b := hr'.arena.rep.body
      refine hr'.arena.rep.useUnitTop hr'.arena.settled hnb h8 rfl (fun t' h'' p _ r' hs' hh => ?_)
        _ (fun u hu => (b.tracks.mstate hav).units u (List.mem_reverse.mp hu))
        (fun u _ height _ => ?_)
      · exact hh.hasRoom r'.body hbytes
      · -- the unit top keeps its size field
        have hroom : HasRoom bytes (h'.top u + 8) t :=
          b.hasRoom (by omega) (hr'.arena.settled.use (by omega) id).2 (by omega)
        obtain ⟨hne, hsize, v, hv, hplace⟩ := hroom
        obtain ⟨haddr, hlength⟩ := t.moveTop_extent u (h'.top u + nb) v
        refine ⟨hne, hsize, v, hv, ?_⟩
        unfold Ustate.stop at hplace ⊢
        rwa [haddr, hlength]
    refine wp_mono (wp_and hcut (framed_useUnitTop nb _ t)) (fun found t' ht' => ?_)
      (fun _ _ he => he.1)
    obtain ⟨hcase', hf⟩ := ht'
    refine ⟨hf.outside.locked.trans hr'.locked, ?_⟩
    cases found with
    | none =>
      subst hcase'
      exact ⟨h', hr'⟩
    | some mem => exact hcase'

/-! ### Requests below the size of a unit -/

/-- The units are where they were, and so is the break. -/
theorem CanExtend.admitted {ops : KernelOps K} {pid : Nat} (hext : CanExtend ops pid s)
    (hview : s'.view = s.view) (hr : Admitted m₀ s L av s' h) : CanExtend ops pid s' := by
  have hbrk : s'.curbrk = s.curbrk := congrArg View.curbrk hview
  obtain ⟨hgrant, hlo, hhi, hmiss⟩ := hext
  refine ⟨?_, ?_⟩
  · unfold SbrkGranted TasksLive
    rw [hview, hbrk, show s'.kern = s.kern from congrArg View.kern hview,
      show s'.clients = s.clients from congrArg View.clients hview]
    exact hgrant
  · rw [hview]
    refine ⟨hlo, hhi, fun u hu => ?_⟩
    rw [hr.onward.list] at hu
    have hunit := hr.onward.unit u
    have hm := hmiss u hu
    unfold Misses Ustate.stop at hm ⊢
    rw [hunit.1, hunit.2.1]
    exact hm

/-- `__malloc_alloc` for a chunk that is smaller than a unit gets one, and the chunk is cut
    from it if it fits in front of the fenceposts. -/
theorem Admitted.mallocAlloc_iff (hr : Admitted m₀ s L av s' h) (ops : KernelOps K) (pid : Nat)
    (retry : Nat → Nat → Label → HeapM K Nat) (hnb : 16 ≤ nb) (h8 : nb % 8 = 0)
    (hlt : nb < unitSize) (hbytes : bytes + 4 ≤ nb) (hext : CanExtend ops pid s') :
    wp (mallocAlloc ops (ablibMallocStep ops retry) pid nb av L)
        (fun mem t => t.locked = true ∧ HasRoom bytes mem t) (fun _ _ => False) s' ↔
      ¬ haveFastchunks (s'.mstates av) ∧ nb + minSize ≤ unitTopSize := by
  -- below the threshold no unit is mapped
  have hno : ¬ TakesMmap s' av nb := by
    rintro ⟨hthreshold, -⟩
    rw [(hr.arena.ready av hr.listed).2.2] at hthreshold
    omega
  have hroom : ¬ haveFastchunks (s'.mstates av) → RoomFor ops pid nb av s' := by
    intro _
    unfold RoomFor
    rw [if_neg hno]
    exact hext.2
  constructor
  · intro hserved
    have halloc := hr.arena.mallocAlloc ops retry pid hr.listed hr.locked hnb h8 hroom (L := L)
      (E := fun _ _ => True) (.inr fun _ _ => trivial)
    obtain ⟨mem, t, -, ⟨-, hmem⟩, hfast, h', ho⟩ :=
      exists_ok (wp_mono (wp_and hserved halloc) (fun _ _ hpost => hpost) (fun _ _ he => he.1))
    refine ⟨hfast, ?_⟩
    cases ho with
    | mapped _ unit => exact absurd unit.takes hno
    | sbrked _ unit =>
      rcases unit.block with ⟨-, hzero⟩ | ⟨hfits, -⟩
      · exact absurd hzero hmem.1
      · exact hfits
  · rintro ⟨hfast, hfits⟩
    refine wp_imp (hr.arena.mallocAlloc ops retry pid hr.listed hr.locked hnb h8 hroom (L := L)
      (E := fun _ _ => False) (.inl ⟨hfast, ?_⟩)) (fun mem t hpost => ?_)
    · rw [if_neg hno]
      exact hext.1
    · obtain ⟨-, h', ho⟩ := hpost
      refine ⟨ho.locked.trans hr.locked, ?_⟩
      cases ho with
      | mapped _ unit => exact absurd unit.takes hno
      | sbrked _ unit =>
        rcases unit.block with ⟨hcon, -⟩ | ⟨-, p, rfl, -, hp⟩
        · omega
        · obtain ⟨hsize, huse, hz, -⟩ := Heap.live_eq_some.mp hp
          refine unit.grown.arena.rep.body.hasRoom hsize ?_ (by omega)
          rw [huse]
          decide

/-- A request that does not stop at the lock and finds a `malloc_state` or makes one. -/
theorem canEnter_of_wp {Q : Nat → State K → Prop}
    (hwp : wp (mallocEnter (s.mstateList.find? fun m => decide ((s.mstates m).label = L))) Q
      (fun _ _ => False) s) : CanEnter L s := by
  unfold mallocEnter at hwp
  rw [wp_bind, wp_mallocLock] at hwp
  split at hwp
  · exact hwp.elim
  · rename_i hlocked
    refine ⟨by simpa using hlocked, fun hnone => ?_⟩
    rw [hnone] at hwp
    dsimp only at hwp
    rw [wp_newMstate] at hwp
    split at hwp
    · assumption
    · exact hwp.elim

theorem wp_unlock_iff {Q : State K → Prop} :
    wp mallocUnlock (fun _ s' => Q s') (fun _ _ => False) s ↔
      s.locked = true ∧ Q { s with locked := false } := by
  rw [wp_mallocUnlock]
  by_cases hlocked : s.locked = true
  · rw [if_pos hlocked]
    exact ⟨fun hQ => ⟨hlocked, hQ⟩, fun hQ => hQ.2⟩
  · rw [if_neg hlocked]
    exact ⟨False.elim, fun hQ => hlocked hQ.1⟩

/-- When a request that is neither empty nor too large ends as it should. One that is served
    from the units there are does, and the rest is up to `__malloc_alloc`. -/
theorem Arena.ablibMalloc_iff (a : Arena m₀ s h) (ops : KernelOps K) (pid : Nat)
    (hbytes : bytes ≠ 0) (hrange : ¬ requestOutOfRange bytes) {Q : Nat → State K → Prop}
    {C D : Nat → State K → Prop} (hD : AtAlloc bytes L D s)
    (hserved : ∀ mem t, HasRoom bytes mem t → Q mem { t with locked := false })
    (halloc : ∀ av s₂ h₂, Admitted m₀ s L av s₂ h₂ → Served L s.view av s₂ → D av s₂ →
      (wp (ArbiterThread.mallocAlloc ops (ablibMallocStep ops (ablibMallocAux ops 0)) pid
          (request2size bytes) av L)
          (fun mem t => t.locked = true ∧ Q mem { t with locked := false }) (fun _ _ => False) s₂ ↔
        C av s₂)) :
    wp (ArbiterThread.ablibMalloc ops pid bytes L) Q (fun _ _ => False) s ↔
      CanEnter L s ∧ AtAlloc bytes L C s := by
  obtain ⟨hnb, h8, hpad, -⟩ := request2size_spec bytes
  -- what is known when the request gets to `__malloc_alloc`
  have hview : wp (ArbiterThread.mallocEnter
      (s.mstateList.find? fun m => decide ((s.mstates m).label = L)))
      (fun av s₁ => wp (ArbiterThread.mallocServe av (request2size bytes) L)
        (fun _ s₂ => Served L s.view av s₂) (fun _ _ => True) s₁) (fun _ _ => True) s :=
    wp_imp (wp_mallocEnter a.wf L) (fun av s₁ he => he.mallocServe _)
  have hserve : CanEnter L s → wp (ArbiterThread.mallocEnter
      (s.mstateList.find? fun m => decide ((s.mstates m).label = L)))
      (fun av s₁ => wp (ArbiterThread.mallocServe av (request2size bytes) L)
        (fun found s₂ => s₂.locked = true ∧
          match found with
          | none => ∃ h', Admitted m₀ s L av s₂ h'
          | some mem => HasRoom bytes mem s₂) (fun _ _ => False) s₁) (fun _ _ => False) s :=
    fun hcan => a.admit L _ (.inl hcan) (C := fun _ _ => True)
      (wp_of_forall (fun _ _ => trivial) (fun _ _ => trivial))
      (fun av s₁ hr _ => hr.mallocServe_room hnb h8 hpad)
      (fun av s₁ hr => ⟨hr.locked, h, hr⟩)
  change wp (ablibMallocStep ops (ablibMallocStep ops (ablibMallocAux ops 0)) pid bytes L) _ _ s ↔ _
  unfold ablibMallocStep
  rw [atAlloc_iff] at hD ⊢
  simp only [lookupMstateByLabel, wp_bind, wp_get, wp_pure, if_neg hbytes, if_neg hrange,
    mallocBody, wp_unlock_iff]
  constructor
  · intro hends
    have hcan := canEnter_of_wp hends
    refine ⟨hcan, wp_mono (wp_and hends (wp_and (hserve hcan) (wp_and hview hD)))
      (fun av s₁ h₁ => ?_) (fun _ _ _ => trivial)⟩
    refine wp_mono (wp_and h₁.1 (wp_and h₁.2.1 (wp_and h₁.2.2.1 h₁.2.2.2)))
      (fun found s₂ h₂ => ?_) (fun _ _ _ => trivial)
    rintro rfl
    obtain ⟨hends, ⟨-, h', hr⟩, hview, hD⟩ := h₂
    exact (halloc av s₂ h' hr hview (hD rfl)).mp hends
  · rintro ⟨hcan, hat⟩
    refine wp_mono (wp_and (hserve hcan) (wp_and hat (wp_and hview hD))) (fun av s₁ h₁ => ?_)
      (fun _ _ he => he.1)
    refine wp_mono (wp_and h₁.1 (wp_and h₁.2.1 (wp_and h₁.2.2.1 h₁.2.2.2)))
      (fun found s₂ h₂ => ?_) (fun _ _ he => he.1)
    cases found with
    | some mem =>
      rw [wp_pure]
      exact ⟨h₂.1.1, hserved mem s₂ h₂.1.2⟩
    | none =>
      obtain ⟨⟨-, h', hr⟩, hC, hview, hD⟩ := h₂
      exact (halloc av s₂ h' hr hview (hD rfl)).mpr (hC rfl)

theorem Arena.serves_iff (a : Arena m₀ s h) (ops : KernelOps K) (pid : Nat) (hbytes : bytes ≠ 0)
    (hlt : request2size bytes < unitSize) (hext : CanExtend ops pid s) :
    wp (ArbiterThread.ablibMalloc ops pid bytes L) (fun mem s' => HasRoom bytes mem s')
        (fun _ _ => False) s ↔
      CanEnter L s ∧ AtAlloc bytes L (fun av s' => ¬ haveFastchunks (s'.mstates av) ∧
        request2size bytes + minSize ≤ unitTopSize) s := by
  obtain ⟨hnb, h8, hpad, -⟩ := request2size_spec bytes
  have hrange : ¬ requestOutOfRange bytes := by
    unfold requestOutOfRange
    unfold unitSize at hlt
    omega
  refine a.ablibMalloc_iff ops pid hbytes hrange (D := fun _ _ => True)
    (wp_of_forall (fun _ _ _ => trivial) (fun _ _ => trivial)) (fun _ _ hroom => hroom)
    (fun av s₂ h₂ hr hv _ => ?_)
  exact hr.mallocAlloc_iff ops pid _ hnb h8 hlt hpad (hext.admitted hv.1.view hr)

end

instance decidableHasRoom (bytes mem : Nat) (s : State K) : Decidable (HasRoom bytes mem s) :=
  inferInstanceAs (Decidable (_ ∧ _ ∧ _))

instance decidableCanExtend (ops : KernelOps K) (pid : Nat) (s : State K) :
    Decidable (CanExtend ops pid s) := by
  unfold CanExtend SbrkGranted
  infer_instance

/-- While the channel heap can be extended by one unit, a request for a chunk that is smaller
    than a unit is served exactly if the lock is free, and, should it get as far as
    `__malloc_alloc`, fast chunks are not marked as pending and the chunk fits in front of the
    fenceposts with a minimal chunk behind it. -/
theorem small_request_served_iff {ops : KernelOps K} {s : State K} {live : List Grant}
    (hrun : HeapRun ops (HeapOk ops False) s live) (pid bytes : Nat) (L : Label)
    (hbytes : 0 < bytes) (hlt : request2size bytes < unitSize) (hext : CanExtend ops pid s) :
    wp (ablibMalloc ops pid bytes L) (fun mem s' => HasRoom bytes mem s') (fun _ _ => False) s ↔
      CanEnter L s ∧ AtAlloc bytes L (fun av s' => ¬ haveFastchunks (s'.mstates av) ∧
        request2size bytes + minSize ≤ unitTopSize) s := by
  obtain ⟨h, i⟩ := hrun.sound
  exact i.arena.serves_iff ops pid hbytes.ne' hlt hext

/-- The largest request that a new unit has room for, where the unit there is has none. -/
theorem small_request_served_second :
    ∃ s live, HeapRun generousKernel (HeapOk generousKernel False) s live ∧ s.ustateList = [0] ∧
      wp (ablibMalloc generousKernel 1 40924 (fun _ => 0)) (fun mem s' => HasRoom 40924 mem s')
        (fun _ _ => False) s := by
  have hok : RequestOk (RoomFor generousKernel 1) 100 (fun _ => 0) (State.start () []) := by
    decide +kernel
  have hall : wp (ablibMalloc generousKernel 1 100 (fun _ => 0)) (fun _ s => s.ustateList = [0] ∧
      CanExtend generousKernel 1 s ∧ CanEnter (fun _ => 0) s ∧
      AtAlloc 40924 (fun _ => 0) (fun av s' => ¬ haveFastchunks (s'.mstates av) ∧
        request2size 40924 + minSize ≤ unitTopSize) s)
      (fun _ _ => False) (State.start () []) := by decide +kernel
  obtain ⟨mem, s, live, hrun, hunit, hext, hserved⟩ := HeapRun.first hok hall
  exact ⟨s, live, hrun, hunit, (small_request_served_iff hrun 1 40924 (fun _ => 0) (by decide)
    (by decide) hext).mpr hserved⟩

/-- One byte more, and the request gets nothing although a unit was obtained for it. -/
theorem small_request_not_served :
    HeapRun generousKernel (fun _ _ => True) (State.start () []) [] ∧
      (∀ av i, ((State.start () []).mstates av).fastbins i = 0) ∧
      request2size 40925 < unitSize ∧ CanExtend generousKernel 1 (State.start () []) ∧
      wp (ablibMalloc generousKernel 1 40925 (fun _ => 0))
        (fun mem s' => mem = 0 ∧ s'.ustateList = [0]) (fun _ _ => False) (State.start () []) ∧
      ¬ wp (ablibMalloc generousKernel 1 40925 (fun _ => 0)) (fun mem s' => HasRoom 40925 mem s')
        (fun _ _ => False) (State.start () []) := by
  exact ⟨.start () [], fun _ _ => rfl, by decide, by decide, by decide +kernel,
    by decide +kernel⟩

/-! ### Cleared blocks -/

/-- A mapped block is clear if its area was when the unit was obtained, and any other block
    is cleared. -/
theorem Arena.calloc_clear {m₀ : Mem} {s : State K} {h : Heap} (a : Arena m₀ s h)
    (ops : KernelOps K) (pid n e : Nat) (L : Label) {P : Nat → Nat → State K → Prop}
    (hP : ∀ nb av s, P nb av s → RoomFor ops pid nb av s)
    (hzero : ∀ nb av s₂, P nb av s₂ → TakesMmap s₂ av nb →
      (∀ y, FreeRange s y 1 → s₂.mem y = s.mem y) →
      ∀ x, areaFor s₂ av nb + 8 ≤ x → x < areaFor s₂ av nb + 8 + n * e →
        channelAddr ≤ x → x < channelEnd → s₂.mem x = 0)
    (hok : n * e < wordSize → RequestOk P (n * e) L s) :
    wp (ArbiterThread.ablibCalloc ops pid n e L)
      (fun mem s' => mem ≠ 0 → ∀ x, mem ≤ x → x < mem + n * e → s'.mem x = 0)
      (fun _ _ => True) s := by
  refine wp_imp (a.ablibCalloc ops pid hP hok (.inr fun _ _ => trivial))
    (fun mem s' hpost => ?_)
  obtain ⟨-, hzero, -⟩ | ⟨hlt, h', hs, hclear⟩ := hpost
  · exact fun hmem => absurd hzero hmem
  intro hmem x hlo hhi
  obtain ⟨⟨k, hk, ho⟩, -⟩ := hs.block hmem
  have hpad := (request2size_spec (n * e)).2.2.1
  have hchannel := ho.channel hs.carries.arena
  cases ho with
  | chunk p z u k hp hlive hroom hlabel => exact hclear p z u k hp hlive x hlo hhi
  | lone u hu hu0 hp hroom hlabel =>
    obtain ⟨av, s₂, harea, htakes, haddr, hlength, hkept, hsame⟩ := hs.origin u hu hu0 hp
    dsimp only at hp hroom hchannel
    rw [hsame x hlo (by omega)]
    exact hzero _ av s₂ harea htakes hkept x (by omega) (by omega) (by omega) (by omega)

/-- A call meets no defect, and no unit is in the range after it. -/
def StaysFree (ops : KernelOps K) (first len : Nat) (c : Call) (s : State K) : Prop :=
  HeapOk ops False c s ∧
    wp (c.run ops) (fun _ s' => FreeRange s' first len) (fun _ _ => True) s

/-- If the request takes a mapped unit, then the bytes of it that will be handed out lie in
    the range. -/
def AreaWithin (first len bytes nb av : Nat) (s : State K) : Prop :=
  TakesMmap s av nb → first ≤ areaFor s av nb + 8 ∧ areaFor s av nb + 8 + bytes ≤ first + len

instance (first len bytes nb av : Nat) (s : State K) :
    Decidable (AreaWithin first len bytes nb av s) :=
  inferInstanceAs (Decidable (_ → _))

theorem HeapRun.staysFree {ops : KernelOps K} {s : State K} {live : List Grant} {first len : Nat}
    (hrun : HeapRun ops (StaysFree ops first len) s live) :
    HeapRun ops (HeapOk ops False) s live := by
  induction hrun with
  | start kern clients => exact .start kern clients
  | call c _ honest ok ret ih => exact .call c ih honest ok.1 ret
  | write g m _ hg hm ih => exact .write g m ih hg hm

/-- Where no unit has ever been, nothing was written. -/
theorem HeapRun.untouched {ops : KernelOps K} {s : State K} {live : List Grant} {first len x : Nat}
    (hrun : HeapRun ops (StaysFree ops first len) s live) (hfirst : first ≤ x)
    (hlast : x < first + len) (hlo : channelAddr ≤ x) (hhi : x < channelEnd) :
    FreeRange s x 1 ∧ s.mem x = 0 := by
  induction hrun with
  | start kern clients => exact ⟨⟨hlo, hhi, fun u hu => absurd hu List.not_mem_nil⟩, rfl⟩
  | call c run honest ok ret ih =>
    obtain ⟨h, i⟩ := run.staysFree.sound
    have hfree := (wp_run ok.2 ret).byte hfirst hlast
    have hsame := (wp_run (i.call ops c honest ok.1 (.inr fun _ _ => trivial)) ret).1
    exact ⟨hfree, (hsame x ih.1 hfree).trans ih.2⟩
  | write g m run hg hm ih =>
    obtain ⟨h, i⟩ := run.staysFree.sound
    exact ⟨ih.1, ((i.write hg hm).1 x ih.1 ih.1).trans ih.2⟩

/-- Nothing is returned if the product does not fit into a word. A block that is returned is
    clear if it is not mapped, or is put where no unit has ever been. -/
theorem calloc_clear_in_run {ops : KernelOps K} {s : State K} {live : List Grant} {first len : Nat}
    (hrun : HeapRun ops (StaysFree ops first len) s live) (pid n e : Nat) (L : Label) :
    (wordSize ≤ n * e → wp (ablibCalloc ops pid n e L) (fun mem s' => mem = 0 ∧ s' = s)
      (fun _ _ => False) s) ∧
    ((n * e < wordSize → RequestOk (fun nb av s => RoomFor ops pid nb av s ∧
        AreaWithin first len (n * e) nb av s) (n * e) L s) →
      wp (ablibCalloc ops pid n e L)
        (fun mem s' => mem ≠ 0 → ∀ x, mem ≤ x → x < mem + n * e → s'.mem x = 0)
        (fun _ _ => True) s) := by
  refine ⟨fun hwraps => ?_, fun hok => ?_⟩
  · unfold ablibCalloc
    rw [if_pos ((calloc_overflow_iff n e).mpr hwraps), wp_pure]
    exact ⟨rfl, rfl⟩
  · obtain ⟨h, i⟩ := hrun.staysFree.sound
    refine i.arena.calloc_clear ops pid n e L (fun _ _ _ hP => hP.1)
      (fun nb av s₂ hP htakes hsame x hlo hhi hlow hhigh => ?_) hok
    have hin := hP.2 htakes
    obtain ⟨hfree, hzero⟩ := hrun.untouched (x := x) (by omega) (by omega) hlow hhigh
    rw [hsame x hfree]
    exact hzero

set_option synthInstance.maxSize 4000 in
/-- A block that was written to is released and handed out again, and a unit is mapped below
    one that was written to. -/
theorem calloc_clear_in_run_recycled :
    ∃ s live, HeapRun generousKernel (StaysFree generousKernel 0x9ffe6008 50000) s live ∧
      s.mem 0x80000010 = 1 ∧
      wp (ablibCalloc generousKernel 1 10 10 (fun _ => 0)) (fun mem s' => mem = 0x80000008 ∧
        ∀ x, mem ≤ x → x < mem + 10 * 10 → s'.mem x = 0) (fun _ _ => False) s ∧
      wp (ablibCalloc generousKernel 1 1 50000 (fun _ => 0)) (fun mem s' => mem = 0x9ffe6008 ∧
        ∀ x, mem ≤ x → x < mem + 1 * 50000 → s'.mem x = 0) (fun _ _ => False) s := by
  let L : Label := fun _ => 0
  let small : Call := .malloc 1 100 L
  let large : Call := .malloc 1 50000 L
  let release : Call := .free 1 0x80000008
  let dirty (s : State Unit) : State Unit := (s.put 0x80000010 1).put 0x9fff3008 1
  have hok : RequestOk (RoomFor generousKernel 1) 100 L (State.start () []) := by decide +kernel
  -- two small blocks and a large one; two are written to, the first is given back
  have hall : wp (small.run generousKernel) (fun mem s1 => mem = 0x80000008 ∧
      FreeRange s1 0x9ffe6008 50000 ∧ RequestOk (RoomFor generousKernel 1) 100 L s1 ∧
      wp (small.run generousKernel) (fun mem s2 => mem = 0x80000070 ∧
        FreeRange s2 0x9ffe6008 50000 ∧ RequestOk (RoomFor generousKernel 1) 50000 L s2 ∧
        wp (large.run generousKernel) (fun mem s3 => mem = 0x9fff3008 ∧
          FreeRange s3 0x9ffe6008 50000 ∧ ¬ AtFence (dirty s3) 0x80000008 ∧
          wp (release.run generousKernel) (fun _ s4 =>
            FreeRange s4 0x9ffe6008 50000 ∧ s4.mem 0x80000010 = 1 ∧
            (wp (ablibCalloc generousKernel 1 10 10 L) (fun mem _ => mem = 0x80000008)
                (fun _ _ => False) s4 ∧
              RequestOk (fun nb av s => RoomFor generousKernel 1 nb av s ∧
                AreaWithin 0x9ffe6008 50000 (10 * 10) nb av s) (10 * 10) L s4) ∧
            wp (ablibCalloc generousKernel 1 1 50000 L) (fun mem _ => mem = 0x9ffe6008)
                (fun _ _ => False) s4 ∧
              RequestOk (fun nb av s => RoomFor generousKernel 1 nb av s ∧
                AreaWithin 0x9ffe6008 50000 (1 * 50000) nb av s) (1 * 50000) L s4)
            (fun _ _ => False) (dirty s3)) (fun _ _ => False) s2) (fun _ _ => False) s1)
      (fun _ _ => False) (State.start () []) := by decide +kernel
  obtain ⟨_, s1, h1, rfl, hfree1, hok1, hall⟩ := exists_ok hall
  obtain ⟨_, s2, h2, rfl, hfree2, hok2, hall⟩ := exists_ok hall
  obtain ⟨_, s3, h3, rfl, hfree3, hend, hall⟩ := exists_ok hall
  obtain ⟨_, s4, h4, hfree4, hdirty, hrecycled, hmapped⟩ := exists_ok hall
  have hrun : HeapRun generousKernel (StaysFree generousKernel 0x9ffe6008 50000) s3 _ :=
    .call large (.call small (.call small (.start () []) trivial ⟨hok, wp_of_ok h1 hfree1⟩ h1)
      trivial ⟨hok1, wp_of_ok h2 hfree2⟩ h2) trivial ⟨hok2, wp_of_ok h3 hfree3⟩ h3
  simp only [large, small, Call.grants, addGrant_of_ne (show (0x80000008 : Nat) ≠ 0 by omega),
    addGrant_of_ne (show (0x80000070 : Nat) ≠ 0 by omega),
    addGrant_of_ne (show (0x9fff3008 : Nat) ≠ 0 by omega)] at hrun
  -- the writes stay inside of their blocks
  have hput : ∀ (a : Nat) (s : State Unit) (g : Grant) (x : Nat), g.mem ≤ a →
      a + 4 ≤ g.mem + g.bytes → x < g.mem ∨ g.mem + g.bytes ≤ x →
      (s.put a 1).mem x = s.mem x := fun a s g x hlo hhi hx => State.put_mem _ _ (by omega)
  have hfirst := HeapRun.write ⟨0x80000008, 100, L⟩ (s3.put 0x80000010 1).mem hrun (by simp)
    (fun x hx => hput _ _ ⟨0x80000008, 100, L⟩ x (by decide) (by decide) hx)
  have hsecond := HeapRun.write ⟨0x9fff3008, 50000, L⟩ (dirty s3).mem hfirst (by simp)
    (fun x hx => hput _ (s3.put 0x80000010 1) ⟨0x9fff3008, 50000, L⟩ x (by decide) (by decide) hx)
  have hlast := HeapRun.call release hsecond
    (.inr ⟨⟨0x80000008, 100, L⟩, by simp, rfl⟩) ⟨.inr hend, wp_of_ok h4 hfree4⟩ h4
  have hclear : ∀ n e addr, addr ≠ 0 → wp (ablibCalloc generousKernel 1 n e L)
      (fun mem _ => mem = addr) (fun _ _ => False) s4 ∧
        RequestOk (fun nb av s => RoomFor generousKernel 1 nb av s ∧
          AreaWithin 0x9ffe6008 50000 (n * e) nb av s) (n * e) L s4 →
      wp (ablibCalloc generousKernel 1 n e L) (fun mem s' => mem = addr ∧
        ∀ x, mem ≤ x → x < mem + n * e → s'.mem x = 0) (fun _ _ => False) s4 := by
    rintro n e addr hne ⟨haddr, hreq⟩
    refine wp_mono (wp_and haddr ((calloc_clear_in_run hlast 1 n e L).2 fun _ => hreq))
      (fun mem s' hpost => ⟨hpost.1, hpost.2 ?_⟩) (fun _ _ he => he.1)
    rwa [hpost.1]
  exact ⟨s4, _, hlast, hdirty, hclear _ _ _ (by decide) hrecycled, hclear _ _ _ (by decide) hmapped⟩

/-- A mapped area that was released and is handed out again has the bytes that were written
    to it before. -/
theorem calloc_not_clear :
    ∃ s live, HeapRun generousKernel (fun _ _ => True) s live ∧
      wp (ablibCalloc generousKernel 1 1 50000 (fun _ => 0))
        (fun mem s' => mem ≠ 0 ∧ s'.mem mem ≠ 0) (fun _ _ => False) s := by
  let L : Label := fun _ => 0
  let request : Call := .malloc 1 50000 L
  let release : Call := .free 1 0x9fff3008
  have hall : wp (request.run generousKernel) (fun mem s1 => mem = 0x9fff3008 ∧
      wp (release.run generousKernel) (fun _ s2 =>
        wp (ablibCalloc generousKernel 1 1 50000 L) (fun mem s3 => mem ≠ 0 ∧ s3.mem mem ≠ 0)
          (fun _ _ => False) s2) (fun _ _ => False) (s1.put 0x9fff3008 1))
      (fun _ _ => False) (State.start () []) := by decide +kernel
  obtain ⟨_, s1, h1, rfl, hall⟩ := exists_ok hall
  obtain ⟨_, s2, h2, hall⟩ := exists_ok hall
  have hrun : HeapRun generousKernel (fun _ _ => True) s1 _ :=
    .call request (.start () []) trivial trivial h1
  simp only [request, Call.grants, addGrant_of_ne (show (0x9fff3008 : Nat) ≠ 0 by omega)] at hrun
  have hwrite := HeapRun.write ⟨0x9fff3008, 50000, L⟩ (s1.put 0x9fff3008 1).mem hrun
    (List.mem_singleton_self _) (fun x hx => by
      dsimp only at hx
      simp only [State.put, Mem.store32]
      rw [if_neg (by omega)])
  exact ⟨s2, _, .call release hwrite (.inr ⟨_, List.mem_singleton_self _, rfl⟩) trivial h2, hall⟩

/-! ### Resized blocks -/

/-- What resizing a block must do: a new block has the contents of the old one and is in a
    unit with its label, other blocks keep their contents, and the old block is released
    unless it was returned, or kept if nothing was. -/
structure ResizeMeets (s : State K) (live : List Grant) (g : Grant) (bytes mem : Nat)
    (s' : State K) (h' : Heap) : Prop where
  arena : Arena s'.mem s' h'
  contents : mem ≠ 0 → ∀ i, i < g.bytes → i < bytes → s'.mem (mem + i) = s.mem (g.mem + i)
  inside : mem ≠ 0 → ∀ v ∈ unitAt s g.mem, ∃ u ∈ s'.ustateList, (s'.units u).addr ≤ mem ∧
    mem + bytes ≤ (s'.units u).addr + (s'.units u).length ∧
    (s'.mstates (s'.units u).unitAv).label = (s.mstates (s.units v).unitAv).label
  others : ∀ g' ∈ live, g'.mem ≠ g.mem → s.mem.Agree s'.mem g'.mem (g'.mem + g'.bytes)
  released : mem ≠ 0 → mem ≠ g.mem → ∀ g', Owns s' h' g' → g'.mem ≠ g.mem
  kept : mem = 0 → (∃ n L, g.bytes ≤ n ∧ Owns s' h' ⟨g.mem, n, L⟩) ∧
    s.mem.Agree s'.mem g.mem (g.mem + g.bytes)

/-- A block that is moved is moved for its own label. -/
def MovesWithin (s : State K) (mem bytes : Nat) (L : Label) : Prop :=
  BlockMoves s mem bytes → GetsBlock (request2size bytes - 7) L s →
    ∀ u ∈ unitAt s mem, (s.mstates (s.units u).unitAv).label = L

instance (bytes : Nat) (L : Label) (s : State K) : Decidable (GetsBlock bytes L s) :=
  inferInstanceAs (Decidable (_ ∧ _))

instance (ops : KernelOps K) (pid oldmem nb : Nat) (L : Label) (s : State K) :
    Decidable (MoveClear ops pid oldmem nb L s) :=
  inferInstanceAs (Decidable (_ ∧ (_ → _)))

instance (s : State K) (mem bytes : Nat) (L : Label) : Decidable (MovesWithin s mem bytes L) :=
  inferInstanceAs (Decidable (_ → _ → _))

end ArbiterThread
