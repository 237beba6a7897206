import ArbiterThread.Malloc.Request

/-!
# Releases

`ablib_free` on a heap that is in order. A small chunk goes to the front of its
fastbin, any other chunk is merged with its free neighbours, and a mapped unit is given
back as a whole. In all three cases the other blocks keep their place and their
contents.

The code finds the chunk behind a released one by its size. A chunk that ends at the
fencepost of its unit has none, and the fencepost is then taken for a chunk, or for the
unit top. This is the one thing that must not happen here.

## Main definitions

* `Released`: A chunk is no longer in use.
* `AtFence`: A chunk ends at the fencepost of its unit.
* `Freed`: What a release leaves.

## Theorems

* `Rep.freeFast`, `Rep.freeChunk`: The two ways for a chunk.
* `Arena.unmapped`: The state without a mapped unit.
* `Arena.ablibFree`: A release.
-/

namespace ArbiterThread

open Exec Rings

variable {K : Type}

/-! ### What a caller sees -/

/-- The chunk at `p` is no longer in use. It may be on a fastbin. -/
structure Released (h h' : Heap) (p : Nat) : Prop where
  base : h'.base = h.base
  owner : h'.owner = h.owner
  live : h'.live = Function.update h.live p none
  wasFast : ∀ x, h'.size x ≠ 0 → h'.use x = .fast →
    h.size x = h'.size x ∧ h.unit x = h'.unit x ∧ (h.use x = .fast ∨ x = p)

theorem Released.of_rearranged {h h' : Heap} {p : Nat} (hr : Rearranged (h.setUse p .raw) h') :
    Released h h' p := by
  refine ⟨hr.base, hr.owner, hr.live.trans (Heap.live_loosen (by decide)), fun x hx huse => ?_⟩
  obtain ⟨hsize, hunit, hfast⟩ := hr.wasFast x hx huse
  refine ⟨hsize, hunit, ?_⟩
  by_cases hxp : x = p
  · exact .inr hxp
  · rw [Heap.setUse_use_of_ne _ _ _ hxp] at hfast
    exact .inl hfast

section

variable {m₀ : Mem} {s s' : State K} {h h' : Heap} {p av i x : Nat} {g : Grant}
variable {E : Fault → State K → Prop}

/-- A released chunk that is on a fastbin can be consolidated if it does not end at the
    fencepost. -/
theorem Released.clear (hr : Released h h' p)
    (hclear : ∀ x, h.size x ≠ 0 → h.use x = .fast → h.next x ≠ h.fence (h.unit x))
    (hend : h.next p ≠ h.fence (h.unit p)) :
    ∀ x, h'.size x ≠ 0 → h'.use x = .fast → h'.next x ≠ h'.fence (h'.unit x) := by
  intro x hx huse
  obtain ⟨hsize, hunit, hfrom⟩ := hr.wasFast x hx huse
  have hold : h.next x ≠ h.fence (h.unit x) := by
    rcases hfrom with hfast | rfl
    · exact hclear x (by rw [hsize]; exact hx) hfast
    · exact hend
  simp only [Heap.next, Heap.fence, hsize, hunit, hr.base] at *
  exact hold

/-! ### A small chunk -/

/-- A chunk whose forward link is right goes to the front of its fastbin. -/
theorem Body.putFast (b : Body m₀ s h) (hsize : h.size x = 8 * (i + 2)) (hi : i < 8)
    (huse : h.use x = .live) (hkeep : h.keep x = 0)
    (hlink : fdAt s.mem x = first 0 (h.fasts (h.avOf x) i)) :
    Body m₀ (s.amend (h.avOf x) fun m => { m with fastbins := Function.update m.fastbins i x })
      ((h.setFast (h.avOf x) i (x :: h.fasts (h.avOf x) i)).setUse x .fast) := by
  have hx : h.size x ≠ 0 := by omega
  have hav := b.activeOf hx
  have ht := b.tracks.mstate hav
  generalize hdef : h.avOf x = av at *
  refine ⟨b.tidy.putFast hsize hi huse hkeep hdef, ?_, ?_⟩
  · refine b.tracks.amend rfl rfl rfl (fun av' hne => ?_) Iff.rfl (fun _ => ?_)
    · funext j
      exact Heap.setFast_of_ne h av i _ (fun heq => hne heq.1)
    · refine ⟨ht.made, ?_, ?_, ?_, ?_, ?_⟩
      all_goals rw [State.amend_self]
      · exact ht.maxFast
      · intro j hj
        change Function.update (s.mstates av).fastbins i x j =
          first 0 ((h.setFast av i (x :: h.fasts av i)).fasts av j)
        by_cases hji : j = i
        · rw [hji, Function.update_self, Heap.setFast_self]
          rfl
        · rw [Function.update_of_ne hji, Heap.setFast_of_ne h av i _ (fun heq => hji heq.2)]
          exact ht.fastbins j hj
      · exact ht.units
      · exact ht.binmap
      · exact ht.binmapEnd
  · refine b.holds.setUse (p := x) ⟨rfl, rfl, rfl, rfl⟩ rfl (fun av' j => ?_) b.holds.pending
      (fun _ => b.holds.head hx (by rw [huse]; decide)) (by simp)
    change Thread (fdAt s.mem) 0 ((h.setFast av i (x :: h.fasts av i)).fasts av' j)
    by_cases heq : av' = av ∧ j = i
    · rw [heq.1, heq.2, Heap.setFast_self, Thread.cons_iff]
      exact ⟨hlink, b.holds.fasts av i⟩
    · rw [Heap.setFast_of_ne h av i _ heq]
      exact b.holds.fasts av' j

theorem Rep.freeFast (r : Rep m₀ s h) (hs : h.Settled) (hp : h.size p ≠ 0)
    (huse : h.use p = .live) (hkeep : h.keep p = 0)
    (hsmall : h.size p ≤ (s.mstates (h.avOf p)).maxFast) {Q : Unit → State K → Prop}
    (hQ : ∀ s' h', Rep m₀ s' h' → h'.Settled → Released h h' p → Q () s') :
    wp (freeFast (h.avOf p) p (h.size p)) Q E s := by
  have hav := r.body.activeOf hp
  have ht := r.body.tracks.mstate hav
  have hb := r.body.tidy.tiling.bounds hp
  have hmax := ht.maxFast
  have hi : fastbinIndex (h.size p) < 8 := by
    unfold fastbinIndex
    omega
  have hsize : h.size p = 8 * (fastbinIndex (h.size p) + 2) := by
    unfold fastbinIndex
    omega
  obtain ⟨r₁, hav₁⟩ := r.amendMaxFast hav (f := setFastchunks) (fun _ => ⟨rfl, rfl, rfl⟩) (by
    change (s.mstates (h.avOf p)).maxFast / 4 * 4 + 3 = 72 ∨
      (s.mstates (h.avOf p)).maxFast / 4 * 4 + 3 = 73 ∨
      (s.mstates (h.avOf p)).maxFast / 4 * 4 + 3 = 75
    omega)
  unfold ArbiterThread.freeFast
  rw [wp_bind, wp_setMstate, if_neg (by unfold minSize; omega), wp_bind, wp_getMstate,
    (r₁.body.tracks.mstate hav₁).fastbins _ hi, wp_bind]
  unfold setFd
  refine wp_store_mapped (r₁.body.mapped hp (by omega) (by unfold Heap.next; omega)) ?_
  -- the head of the fastbin goes into the chunk, the chunk into the fastbin
  generalize hfirst : first 0 (h.fasts (h.avOf p) (fastbinIndex (h.size p))) = v
  have r₂ : Rep m₀ ((s.amend (h.avOf p) setFastchunks).put (p + 8) v) h := by
    refine r₁.write hp huse hkeep (fun x hx => ?_)
    change (s.mem.store32 (p + 8) v) x = s.mem x
    unfold Heap.next at hx
    simp only [Mem.store32]
    exact if_neg (by omega)
  have hv : v < 4294967296 := by
    rw [← hfirst]
    cases hl : h.fasts (h.avOf p) (fastbinIndex (h.size p)) with
    | nil => simp [first]
    | cons y l =>
      have hy := (r.body.tidy.lists.fast (hl ▸ List.mem_cons_self)).1
      have hby := r.body.tidy.tiling.bounds hy
      change y < 4294967296
      omega
  have hlink : fdAt ((s.amend (h.avOf p) setFastchunks).put (p + 8) v).mem p =
      first 0 (h.fasts (h.avOf p) (fastbinIndex (h.size p))) := by
    rw [hfirst]
    exact fdAt_put_fd _ p hv
  have b := r₂.body.putFast hsize hi huse hkeep hlink
  unfold setFastbin
  rw [wp_setMstate]
  refine hQ _ _ (r₂.amend b Iff.rfl rfl) ?_ ⟨rfl, rfl, ?_, fun x hx hfast => ?_⟩
  · have hbut : (h.setFast (h.avOf p) (fastbinIndex (h.size p))
        (p :: h.fasts (h.avOf p) (fastbinIndex (h.size p)))).SettledBut (· = p) :=
      ⟨fun hq _ => hs.use hq (fun hf => hf), hs.top⟩
    refine hbut.setUse ?_ (by decide)
    change h.use p ≠ .top
    rw [huse]
    decide
  · exact Heap.live_loosen (h := h.setFast _ _ _) (by decide)
  · refine ⟨rfl, rfl, ?_⟩
    by_cases hxp : x = p
    · exact .inr hxp
    · rw [Heap.setUse_use_of_ne _ _ _ hxp] at hfast
      exact .inl hfast

/-! ### Merging -/

theorem Rep.freeForward (r : Rep m₀ s h) (hm : h.Merging p) (hn : h.size (h.next p) ≠ 0)
    {Q : Nat → State K → Prop}
    (hQ : ∀ z s' h', s'.mstates = s.mstates → Rep m₀ s' h' → h'.Settled → Merged h h' → Q z s') :
    wp (freeForward (h.avOf p) (h.unit p) p (h.size p) (h.next p) (h.size (h.next p))) Q E s := by
  have hb := r.body.tidy.tiling.bounds hm.size
  have hbn := r.body.tidy.tiling.bounds hn
  have hsum : (h.size p + h.size (h.next p)) % wordSize = h.size p + h.size (h.next p) := by
    unfold wordSize
    omega
  unfold ArbiterThread.freeForward
  simp only [wp_bind, wp_getUnit, wp_ite, r.body.unitTop hm.size, wp_pure]
  -- wherever the chunk ends up on the unsorted list
  have hlink : ∀ s' h' z, s'.mstates = s.mstates → Rep m₀ s' h' → Extended h h' p z →
      wp (ArbiterThread.freeLink (h.avOf p) p z) (fun _ s'' => Q z s'') E s' := by
    intro s' h' z hs' r' he
    rw [← he.avOf, ← he.size]
    refine r'.freeLink he.freeable he.use (fun s'' hs'' r'' => ?_)
    exact hQ _ s'' _ (hs''.trans hs') r'' (he.released _).1 (he.released _).2
  by_cases htop : h.next p ≠ h.top (h.unit p)
  · rw [if_pos htop]
    refine r.forwardChunk hm hn htop (fun s' h' hs' r' he => hlink s' h' _ hs' r' he)
      (fun s' h' hs' r' he => ?_)
    rw [hsum]
    exact hlink s' h' _ hs' r' he
  · rw [if_neg htop]
    exact r.forwardTop hm hn (not_not.mp htop) (hQ _)

/-- A chunk that was taken up is merged with its neighbours. -/
theorem Rep.freeBackward (r : Rep m₀ s h) (hp : h.size p ≠ 0) (huse : h.use p = .raw)
    (hs : h.SettledBut (· = p)) (hkeep : h.keep p = 0) (hn : h.size (h.next p) ≠ 0)
    {Q : Nat → State K → Prop}
    (hQ : ∀ z s' h', s'.mstates = s.mstates → Rep m₀ s' h' → h'.Settled → Merged h h' → Q z s') :
    wp (freeBackward (h.avOf p) (h.unit p) p (h.head p) (h.next p) (h.size (h.next p))) Q E s := by
  have hb := r.body.tidy.tiling.bounds hp
  unfold ArbiterThread.freeBackward
  rw [r.body.tidy.tiling.sizeOfHead hp]
  by_cases hflag : h.flag p = true
  · rw [if_pos ((prevInuse_head h hb.2.2.2.1).mpr hflag)]
    exact r.freeForward ⟨hp, huse, hflag, hkeep, hs⟩ hn hQ
  · rw [if_neg (fun hcon => hflag ((prevInuse_head h hb.2.2.2.1).mp hcon))]
    simp only [wp_bind]
    refine r.mergeBack (R := fun q prevsize => wp (ArbiterThread.freeForward (h.avOf p) (h.unit p) q
      ((h.size p + prevsize) % wordSize) (h.next p) (h.size (h.next p))) Q E) hp huse hs
      (Bool.eq_false_iff.mpr hflag) (fun s' h' q hs' r' ha => ?_)
    have hsum : (h.size p + (h'.size q - h.size p)) % wordSize = h'.size q := by
      have hbq := r'.body.tidy.tiling.bounds ha.merging.size
      have hgrown := ha.grown
      unfold wordSize
      omega
    rw [hsum, ← ha.avOf, ← ha.unit, ← ha.behind, ← ha.next]
    refine r'.freeForward ha.merging ?_ (fun z s'' h'' hs'' r'' hset'' hm'' => ?_)
    · rw [ha.next, ha.behind]
      exact hn
    · exact hQ z s'' h'' (hs''.trans hs') r'' hset'' (ha.merged.trans hm'')

theorem Rep.freeChunk (r : Rep m₀ s h) (hs : h.Settled) (hp : h.size p ≠ 0)
    (huse : h.use p = .live) (hkeep : h.keep p = 0) (hend : h.next p ≠ h.fence (h.unit p))
    (hclear : ∀ x, h.size x ≠ 0 → h.use x = .fast → h.next x ≠ h.fence (h.unit x))
    {Q : Unit → State K → Prop}
    (hQ : ∀ s' h', Rep m₀ s' h' → h'.Settled → Released h h' p → Q () s') :
    wp (freeChunk (h.avOf p) (h.unit p) p (h.head p)) Q E s := by
  have hav := r.body.activeOf hp
  have hmax := (r.body.tracks.mstate hav).maxFast
  have hn := (r.body.tidy.tiling.follow hp hend).1
  obtain ⟨r₁, hav₁⟩ := r.amendMaxFast hav (f := setAnychunks) (fun _ => ⟨rfl, rfl, rfl⟩) (by
    change (s.mstates (h.avOf p)).maxFast / 2 * 2 + 1 = 72 ∨
      (s.mstates (h.avOf p)).maxFast / 2 * 2 + 1 = 73 ∨
      (s.mstates (h.avOf p)).maxFast / 2 * 2 + 1 = 75
    omega)
  unfold ArbiterThread.freeChunk
  rw [wp_bind, wp_setMstate, r₁.body.tidy.tiling.sizeOfHead hp, r₁.body.chunkAtOffset hp, wp_bind]
  refine r₁.body.chunksize hn (hs.use hn (fun hf => hf)).2 ?_
  -- the chunk is taken up
  have hne : h.use p ≠ .free ∧ h.use p ≠ .fast := by rw [huse]; decide
  have r₂ : Rep m₀ (s.amend (h.avOf p) setAnychunks) (h.setUse p .raw) :=
    r₁.of_body (r₁.body.loosen hp hne) rfl
  have hset : (h.setUse p .raw).SettledBut (· = p) := by
    have hup := Heap.SettledBut.takeUp (p := p) (k := .raw) hs (by rw [huse]; decide)
    exact hup.mono (by tauto)
  rw [wp_bind]
  refine r₂.freeBackward hp (Heap.setUse_use_self ..) hset hkeep hn
    (fun z s' h' hs' r' hset' hm' => ?_)
  have hrel : Released h h' p := .of_rearranged hm'.toRearranged
  have hav' : Active s' (h.avOf p) := by
    unfold Active
    rw [hs']
    exact hav₁
  rw [wp_bind, wp_getMstate]
  split
  · refine r'.mallocConsolidate hset' hav' (fun i y hy => ?_) (fun s'' h'' _ r'' hset'' hrr => ?_)
    · have hfast := r'.body.tidy.lists.fast hy
      exact hrel.clear hclear hend y hfast.1 hfast.2.1
    · exact hQ s'' h'' r'' hset'' (.of_rearranged (hm'.toRearranged.trans hrr))
  · rw [wp_pure]
    exact hQ s' h' r' hset' hrel

/-! ### A mapped unit -/

theorem Arena.maxFast_le (a : Arena m₀ s h) (av : Nat) : (s.mstates av).maxFast ≤ 75 := by
  by_cases hav : Active s av
  · have hmax := (a.rep.body.tracks.mstate hav).maxFast
    omega
  · rw [not_not.mp hav]
    omega

/-- Beside its statistics a `malloc_state` is as it was. -/
theorem State.unmapUnit_mstate (s : State K) (ops : KernelOps K) (pid u addr length av : Nat) :
    (s.unmapUnit ops pid u addr length).mstates av =
      { s.mstates av with
        nMmaps := ((s.unmapUnit ops pid u addr length).mstates av).nMmaps
        mmappedMem := ((s.unmapUnit ops pid u addr length).mstates av).mmappedMem } := by
  unfold State.unmapUnit
  dsimp only
  by_cases hav : av = (s.units u).unitAv
  · rw [hav, Function.update_self]
  · rw [Function.update_of_ne hav]

/-- The state without a mapped unit. -/
theorem Arena.unmapped (a : Arena m₀ s h) (ops : KernelOps K) (pid addr length : Nat) {u : Nat}
    (hbase : h.base u = 0) : Arena m₀ (s.unmapUnit ops pid u addr length) h := by
  have t := a.rep.body.tracks
  have hfields := s.unmapUnit_mstate ops pid u addr length
  set s' := s.unmapUnit ops pid u addr length
  have hmax : ∀ av, (s'.mstates av).maxFast = (s.mstates av).maxFast := fun av => by
    rw [hfields av]
  have hactive : ∀ {av}, Active s' av → Active s av := fun {av} hav => by
    unfold Active at hav ⊢
    rwa [hmax] at hav
  have herase : ∀ v ∈ s'.ustateList, v ∈ s.ustateList := fun v hv => List.mem_of_mem_erase hv
  -- the records are about the units that are left
  have htracks : Tracks s' h := by
    refine ⟨fun {v} hv => ⟨?_, (t.unit hv).2⟩, fun {v} hv => ?_,
      fun v hv => t.bounded v (herase v hv),
      fun v hv w hw => t.apart v (herase v hv) w (herase w hw), fun {av} hav => ?_, t.limit⟩
    · have hne : v ≠ u := by
        rintro rfl
        exact hv hbase
      exact (List.mem_erase_of_ne hne).mpr (t.unit hv).1
    · have hown := t.owner hv
      unfold Active at hown ⊢
      rwa [hmax]
    · have hold := t.mstate (hactive hav)
      refine ⟨hold.made, ?_, ?_, ?_, ?_, ?_⟩
      all_goals rw [hfields av]
      · exact hold.maxFast
      · exact hold.fastbins
      · exact hold.units
      · exact hold.binmap
      · exact hold.binmapEnd
  refine ⟨⟨⟨a.rep.body.tidy, htracks, a.rep.body.holds⟩, fun hd => ?_⟩, a.settled,
    ⟨fun v hv => a.wf.units v (herase v hv), a.wf.avs, fun hnil => ?_⟩, fun av hav => ?_,
    fun v hv hv0 => ?_, fun v hv => a.mmapped v (List.mem_of_mem_erase hv),
    fun hnil => ⟨congrArg (List.erase · u) (a.blank hnil).1, (a.blank hnil).2⟩, a.clear,
    a.nodup.erase u, fun v hv => a.owned v (herase v hv)⟩
  · exact a.rep.rings ⟨hactive hd.active, hd.lo, hd.hi⟩
  · change s.ustateList.erase u = []
    rw [a.wf.start hnil]
    rfl
  · rw [hfields av]
    exact a.ready av hav
  · exact (a.lone v (herase v hv) hv0).congr rfl rfl (fun _ _ _ => rfl)

/-- The other blocks do not notice. -/
theorem Carries.of_unmapped (a : Arena m₀ s h) (ops : KernelOps K) (pid addr : Nat) {u : Nat}
    (hu : u ∈ s.ustateList) (hbase : h.base u = 0) :
    Carries s h (s.unmapUnit ops pid u addr (s.units u).length) (h.guard 0)
      (· = (s.units u).addr + 8) := by
  refine ⟨(a.guard 0).unmapped ops pid addr _ hbase, fun g hg hne => ?_, fun _ _ _ _ _ _ => rfl,
    fun _ _ _ => rfl, fun hc => hc.unmapped a ops pid addr hu hbase (a.wf.units u hu).2⟩
  cases hg.guard 0 with
  | chunk p z v k hmem hp hroom hlabel =>
    refine .chunk p z v k hmem hp hroom ?_
    rw [State.unmapUnit_mstate]
    exact hlabel
  | lone v hv hv0 hmem hroom hlabel =>
    have hvu : v ≠ u := by
      rintro rfl
      exact hne hmem
    refine .lone v ((List.mem_erase_of_ne hvu).mpr hv) hv0 hmem hroom ?_
    rw [State.unmapUnit_mstate]
    exact hlabel

/-! ### A release -/

/-- The chunk of a block ends at the fencepost of its unit. -/
def AtFence (s : State K) (mem : Nat) : Prop :=
  match unitAt s mem with
  | none => False
  | some u =>
      chunkAtOffset (mem2chunk mem) (sizeOfHead (s.mem.load32 (mem2chunk mem + 4))) =
        (s.units u).addr + unitTopSize

instance (s : State K) (mem : Nat) : Decidable (AtFence s mem) := by
  unfold AtFence
  cases unitAt s mem <;> infer_instance

/-- Nothing stops the release: the lock is free, the address is in a unit, and if the
    header says that the unit is mapped, then it is in the list of those and the task it
    is unmapped from is there. -/
def FreeGranted (ops : KernelOps K) (pid : Nat) (s : State K) (mem : Nat) : Prop :=
  s.locked = false ∧
    match unitAt s mem with
    | none => False
    | some u => isMmapped (s.mem.load32 (mem2chunk mem + 4)) →
        u ∈ s.mmappedUstateList ∧ ops.oops s.kern pid = false

/-- What a release leaves: the other blocks, and all units but one that is mapped for the
    block. -/
structure Freed (s : State K) (h : Heap) (mem : Nat) (s' : State K) (h' : Heap) : Prop where
  carries : Carries s h s' h' (· = mem)
  gone : ∀ g, Owns s' h' g → g.mem ≠ mem
  units : ∀ x, FreeRange s' x 1 → FreeRange s x 1 ∨ ∃ u ∈ s.ustateList, h.base u = 0 ∧
    mem = (s.units u).addr + 8 ∧ (s.units u).addr ≤ x ∧
      x < (s.units u).addr + (s.units u).length
  unlocked : s'.locked = false

/-- The unit of a chunk in use is found. -/
theorem Arena.unitAt_live (a : Arena m₀ s h) {z u k : Nat} (hp : h.live p = some (z, u, k)) :
    unitAt s (p + 8) = some u := by
  obtain ⟨hu, hunit, -, hlo, hhi, hz⟩ := a.live_bounds hp
  refine a.rep.body.tracks.unitAt_listed hu ?_ ?_
  · rw [hunit]
    dsimp only
    omega
  · rw [hunit]
    simp only [unitSize, unitTopSize] at hhi ⊢
    omega

theorem Arena.mem2chunk_live (a : Arena m₀ s h) {z u k : Nat} (hp : h.live p = some (z, u, k)) :
    mem2chunk (p + 8) = p ∧ s.mem.load32 (p + 4) = h.head p := by
  obtain ⟨hsize, huse, -⟩ := Heap.live_eq_some.mp hp
  have hb := a.rep.body.tidy.tiling.bounds hsize
  refine ⟨?_, a.rep.body.holds.head hsize (by rw [huse]; decide)⟩
  unfold mem2chunk wordSize
  omega

/-- Where a chunk in use ends. -/
theorem Arena.atFence_iff (a : Arena m₀ s h) {z u k : Nat} (hp : h.live p = some (z, u, k)) :
    AtFence s (p + 8) ↔ p + z = h.base u + unitTopSize := by
  obtain ⟨-, hunit, -⟩ := a.live_bounds hp
  obtain ⟨hchunk, hhead⟩ := a.mem2chunk_live hp
  obtain ⟨hsize, -, rfl, -⟩ := Heap.live_eq_some.mp hp
  simp only [AtFence, a.unitAt_live hp, hchunk, hhead, hunit]
  rw [a.rep.body.tidy.tiling.sizeOfHead hsize, a.rep.body.chunkAtOffset hsize]
  exact Iff.rfl

/-- Nothing stops the release of a chunk but the lock. -/
theorem Arena.freeGranted (a : Arena m₀ s h) {z u k : Nat} (hp : h.live p = some (z, u, k))
    (ops : KernelOps K) (pid : Nat) (hunlocked : s.locked = false) :
    FreeGranted ops pid s (p + 8) := by
  obtain ⟨hchunk, hhead⟩ := a.mem2chunk_live hp
  obtain ⟨hsize, -⟩ := Heap.live_eq_some.mp hp
  refine ⟨hunlocked, ?_⟩
  rw [a.unitAt_live hp]
  dsimp only
  rw [hchunk, hhead]
  exact fun hmm => absurd hmm (a.rep.body.tidy.tiling.not_isMmapped hsize)

/-- A chunk that was released. -/
theorem Released.freed (hr : Released (h.guard p) h' p) (a : Arena m₀ s h)
    (a' : Arena s.mem s' h') (hf : Frame { s with locked := true } s') (hp : h.live p ≠ none) :
    Freed s h (p + 8) { s' with locked := false } h' := by
  have hc : Carries s h s' h' (· = p + 8) := by
    refine Carries.of_step (q := p) a a' hf.onward.of_locked hr.base hr.owner
      (fun q hq _ => ?_) (fun _ => rfl)
    rw [hr.live, Function.update_of_ne (by omega)]
  refine ⟨hc.outer rfl, fun g hg => ?_, fun x hx => .inl ?_, rfl⟩
  swap
  · exact hf.onward.of_locked.freeRange.mp hx
  cases hg with
  | chunk q z u k hmem hq hroom hlabel =>
    intro hcon
    obtain rfl : q = p := by omega
    rw [hr.live, Function.update_self] at hq
    exact absurd hq (by simp)
  | lone u hu hu0 hmem hroom hlabel =>
    obtain ⟨⟨z, v, k⟩, hlive⟩ := Option.ne_none_iff_exists'.mp hp
    have hlist : s'.ustateList = s.ustateList := hf.onward.list
    rw [hmem]
    change (s'.units u).addr + 8 ≠ p + 8
    rw [(hf.onward.unit u).1]
    exact (a.chunk_ne_lone hlive (hlist ▸ hu) (hr.base ▸ hu0)).symm

/-- The release of a chunk that does not end at the fencepost. -/
theorem Arena.freeChunk (a : Arena m₀ s h) (ops : KernelOps K) (pid : Nat) {z u k : Nat}
    (hp : h.live p = some (z, u, k)) (hend : p + z ≠ h.base u + unitTopSize) :
    wp (if sizeOfHead (h.head p) ≤ (s.mstates (h.owner u)).maxFast then
        freeFast (h.owner u) p (sizeOfHead (h.head p))
      else if isMmapped (h.head p) then freeMmapped ops pid (h.owner u) u p (h.head p)
      else ArbiterThread.freeChunk (h.owner u) u p (h.head p))
      (fun _ s' => s'.locked = true ∧ ∃ h', Freed s h (p + 8) { s' with locked := false } h')
      E { s with locked := true } := by
  obtain ⟨hsize, huse, rfl, rfl, -⟩ := Heap.live_eq_some.mp hp
  have ag : Arena s.mem { s with locked := true } (h.guard p) := (a.guard p).outer rfl
  have r := ag.rep
  have hkeep : (h.guard p).keep p = 0 := if_neg (fun hcon => hcon.2 rfl)
  -- what the two ways have in common
  have hdone : ∀ s', Frame { s with locked := true } s' →
      (∃ h', Rep s.mem s' h' ∧ h'.Settled ∧ Released (h.guard p) h' p) →
      s'.locked = true ∧ ∃ h', Freed s h (p + 8) { s' with locked := false } h' := by
    rintro s' hf ⟨h', r', hset, hrel⟩
    have a' := ag.work hf r' hset hrel.base (hrel.clear ag.clear hend)
    exact ⟨by rw [hf.rest], h', hrel.freed a a' hf (by rw [hp]; exact Option.some_ne_none _)⟩
  rw [a.rep.body.tidy.tiling.sizeOfHead hsize]
  by_cases hsmall : h.size p ≤ (s.mstates (h.owner (h.unit p))).maxFast
  · rw [if_pos hsmall]
    refine wp_mono (wp_and (framed_freeFast _ _ _ _) (r.freeFast ag.settled hsize huse hkeep hsmall
      (Q := fun _ s' => ∃ h', Rep s.mem s' h' ∧ h'.Settled ∧ Released (h.guard p) h' p)
      fun s' h' r' hset hrel => ⟨h', r', hset, hrel⟩))
      (fun _ s' hpost => hdone s' hpost.1 hpost.2) (fun _ _ he => he.2)
  · rw [if_neg hsmall, if_neg (a.rep.body.tidy.tiling.not_isMmapped hsize)]
    refine wp_mono (wp_and (framed_freeChunk _ _ _ _ _) (r.freeChunk ag.settled hsize huse hkeep
      hend ag.clear (Q := fun _ s' => ∃ h', Rep s.mem s' h' ∧ h'.Settled ∧
        Released (h.guard p) h' p) fun s' h' r' hset hrel => ⟨h', r', hset, hrel⟩))
      (fun _ s' hpost => hdone s' hpost.1 hpost.2) (fun _ _ he => he.2)

/-- The release of a chunk. -/
theorem Arena.ablibFree_live (a : Arena m₀ s h) (ops : KernelOps K) (pid : Nat) {z u k : Nat}
    (hp : h.live p = some (z, u, k)) (hok : ¬ AtFence s (p + 8))
    (hE : Safe (s.locked = false) E) :
    wp (ArbiterThread.ablibFree ops pid (p + 8)) (fun _ s' => ∃ h', Freed s h (p + 8) s' h')
      E s := by
  obtain ⟨-, hunit, -⟩ := a.live_bounds hp
  obtain ⟨hchunk, hhead⟩ := a.mem2chunk_live hp
  obtain ⟨hsize, -⟩ := Heap.live_eq_some.mp hp
  rw [a.atFence_iff hp] at hok
  have hthere : mapped s (p + 4) :=
    a.rep.body.mapped hsize (by omega) (by unfold Heap.next; omega)
  refine wp_ablibFree ops pid (by omega) (a.unitAt_live hp) hchunk hthere hhead hE ?_
  rw [hunit]
  refine wp_imp (a.freeChunk ops pid hp hok) (fun _ s' ⟨hlocked, h', hfreed⟩ => ?_)
  rw [wp_mallocUnlock, if_pos hlocked]
  exact ⟨h', hfreed⟩

/-- The unit and the header of a mapped block. -/
theorem Arena.unitAt_lone (a : Arena m₀ s h) {u : Nat} (hu : u ∈ s.ustateList)
    (hu0 : h.base u = 0) :
    unitAt s ((s.units u).addr + 8) = some u ∧
      mem2chunk ((s.units u).addr + 8) = (s.units u).addr := by
  have hlarge := (a.lone u hu hu0).large
  have hbounded := a.rep.body.tracks.bounded u hu
  unfold unitSize at hlarge
  refine ⟨a.rep.body.tracks.unitAt_listed hu (by omega) (by omega), ?_⟩
  unfold mem2chunk wordSize
  omega

/-- A mapped block does not end at a fencepost. -/
theorem Owns.not_atFence (hg : Owns s h g) (a : Arena m₀ s h) (h8 : (g.bytes + 8) % 8 = 0) :
    ¬ AtFence s g.mem := by
  cases hg with
  | chunk p z u k hmem hp hroom hlabel =>
    obtain ⟨hsize, -, rfl, -⟩ := Heap.live_eq_some.mp hp
    have hshape := (a.rep.body.tidy.tiling.shape hsize).2.1
    omega
  | lone u hu hu0 hmem hroom hlabel =>
    have hlone := a.lone u hu hu0
    have hlarge := hlone.large
    have hbounded := a.rep.body.tracks.bounded u hu
    obtain ⟨hat, hchunk⟩ := a.unitAt_lone hu hu0
    rw [hmem]
    simp only [AtFence, hat, hchunk, hlone.head, hlone.head_spec.2]
    unfold unitSize at hlarge
    unfold chunkAtOffset wordSize unitTopSize
    omega

/-- The release of a mapped unit. -/
theorem Arena.ablibFree_lone (a : Arena m₀ s h) (ops : KernelOps K) (pid : Nat) {u : Nat}
    (hu : u ∈ s.ustateList) (hu0 : h.base u = 0)
    (hE : Safe (s.locked = false ∧ u ∈ s.mmappedUstateList ∧ ops.oops s.kern pid = false) E) :
    wp (ArbiterThread.ablibFree ops pid ((s.units u).addr + 8))
      (fun _ s' => ∃ h', Freed s h ((s.units u).addr + 8) s' h') E s := by
  have hlone := a.lone u hu hu0
  have hlarge := hlone.large
  have hlower := hlone.lower
  have hbounded := a.rep.body.tracks.bounded u hu
  have hmax := a.maxFast_le (s.units u).unitAv
  obtain ⟨hmm, hsizeOf⟩ := hlone.head_spec
  simp only [unitSize, channelAddr] at hlarge hlower
  obtain ⟨hat, hchunk⟩ := a.unitAt_lone hu hu0
  have hthere : ∀ x, (s.units u).addr ≤ x → x ≤ (s.units u).addr + 4 → mapped s x := by
    refine fun x hlo hhi => mapped_channel ?_ ?_
    all_goals
      simp only [channelEnd, channelAddr, channelSize]
      omega
  refine wp_ablibFree ops pid (by omega) hat hchunk (hthere _ (by omega) le_rfl) hlone.head
    (hE.mono (·.1)) ?_
  rw [hsizeOf, if_neg (by omega), if_pos hmm]
  have hthere' : mapped { s with locked := true } (s.units u).addr :=
    hthere _ le_rfl (by omega)
  refine wp_freeMmapped ops pid hthere' hu (fun hoops t => ?_) (hE.mono (·.2.1)) ?_
  · exact hE.resolve_left (fun hgrant => Bool.false_ne_true (hgrant.2.2.symm.trans hoops)) _ t
  have hoffset : State.mem { s with locked := true } = s.mem := rfl
  rw [wp_mallocUnlock, if_pos (show State.locked (State.unmapUnit ..) = true from rfl), hsizeOf,
    hoffset, hlone.offset, Nat.add_zero]
  have hc := Carries.of_unmapped a ops pid (chunkBefore (s.units u).addr 0) hu hu0
  refine ⟨h.guard 0, hc.outer rfl, fun g' hg' => ?_, fun x hx => ?_, rfl⟩
  -- a byte that is free now was so before, or belonged to this unit
  swap
  · by_cases hin : (s.units u).addr ≤ x ∧ x < (s.units u).addr + (s.units u).length
    · exact .inr ⟨u, hu, hu0, rfl, hin⟩
    · refine .inl ⟨hx.1, hx.2.1, fun v hv => ?_⟩
      by_cases hvu : v = u
      · subst hvu
        unfold Misses Ustate.stop
        omega
      · exact hx.2.2 v ((List.mem_erase_of_ne hvu).mpr hv)
  cases hg'.of_guard with
  | chunk p z v k hmem' hp _ _ =>
    rw [hmem']
    exact a.chunk_ne_lone hp hu hu0
  | lone v hv hv0 hmem' _ _ =>
    have hv' := (List.Nodup.mem_erase_iff a.nodup).mp hv
    have happart := a.rep.body.tracks.apart v hv'.2 u hu hv'.1
    have hlarge' := (a.lone v hv'.2 hv0).large
    change g'.mem = (s.units v).addr + 8 at hmem'
    unfold unitSize at hlarge'
    omega

/-- A release. -/
theorem Arena.ablibFree (a : Arena m₀ s h) (ops : KernelOps K) (pid : Nat) (hg : Owns s h g)
    (hok : ¬ AtFence s g.mem) (hE : Safe (FreeGranted ops pid s g.mem) E) :
    wp (ArbiterThread.ablibFree ops pid g.mem) (fun _ s' => ∃ h', Freed s h g.mem s' h') E s := by
  cases hg with
  | chunk p z u k hmem hp hroom hlabel =>
    rw [hmem] at hok hE ⊢
    exact a.ablibFree_live ops pid hp hok (hE.mono (·.1))
  | lone u hu hu0 hmem hroom hlabel =>
    rw [hmem] at hE ⊢
    refine a.ablibFree_lone ops pid hu hu0 (hE.mono (fun hgrant => ⟨hgrant.1, ?_⟩))
    have hlone := a.lone u hu hu0
    obtain ⟨hat, hchunk⟩ := a.unitAt_lone hu hu0
    have hgrant := hgrant.2
    rw [hat] at hgrant
    dsimp only at hgrant
    rw [hchunk, hlone.head] at hgrant
    exact hgrant hlone.head_spec.1

end

end ArbiterThread
