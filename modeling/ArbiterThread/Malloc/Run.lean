import ArbiterThread.Malloc.Realloc

/-!
# Runs of the Allocator

Sequences of calls of the four public functions, by clients that keep to the rules: they
release and resize blocks they have, and write to the bytes they asked for.

The blocks a run has handed out are kept beside the state, as they were asked for. What
holds between two calls is that the heap is in order and that each of these blocks is one
of the heap, at least as long, and `HeapRun.sound` says that a call which meets no
defect keeps it that way. Everything else about runs is read off from there.

A call that does not return ends the run.

## Main definitions

* `Call.Honest`, `Call.grants`: The blocks a call may be about, and those there are after it.
* `HeapRun`: The states and blocks that a sequence of calls and writes leads to.
* `HeapOk`: A call meets no defect.
* `Sound`: The heap is in order, and has the blocks.

## Theorems

* `Sound.call`, `Sound.write`: One step of a run.
* `HeapRun.sound`: All states of a run.
* `statistics_right`: The statistics along a run.
* `blocks_apart`: The blocks along a run, and the labels of their units.
-/

namespace ArbiterThread

open Exec

variable {K : Type}

/-! ### Runs -/

/-- A block that is resized or released is one that the client has. -/
def Call.Honest (live : List Grant) : Call → Prop
  | .malloc .. => True
  | .calloc .. => True
  | .realloc _ oldmem _ _ => oldmem = 0 ∨ ∃ g ∈ live, g.mem = oldmem
  | .free _ mem => mem = 0 ∨ ∃ g ∈ live, g.mem = mem

def addGrant (mem bytes : Nat) (L : Label) (live : List Grant) : List Grant :=
  if mem = 0 then live else ⟨mem, bytes, L⟩ :: live

theorem addGrant_of_ne {mem bytes : Nat} {L : Label} {live : List Grant} (hmem : mem ≠ 0) :
    addGrant mem bytes L live = ⟨mem, bytes, L⟩ :: live := if_neg hmem

def dropGrant (mem : Nat) (live : List Grant) : List Grant := live.filter (·.mem ≠ mem)

/-- The blocks there are after a call that returned `mem`, with the bytes and the label they
    were last requested with. -/
def Call.grants (mem : Nat) (live : List Grant) : Call → List Grant
  | .malloc _ bytes L => addGrant mem bytes L live
  | .calloc _ nElements elemSize L => addGrant mem (nElements * elemSize) L live
  | .realloc _ oldmem bytes L =>
      -- a block that cannot be resized is kept
      if mem = 0 ∧ bytes ≠ 0 then live else addGrant mem bytes L (dropGrant oldmem live)
  | .free _ oldmem => dropGrant oldmem live

/-- What a sequence of calls that meet `Ok`, and of writes to the blocks, leads to. -/
inductive HeapRun (ops : KernelOps K) (Ok : Call → State K → Prop) : State K → List Grant → Prop
  | start (kern : K) (clients : List ClientDesc) : HeapRun ops Ok (State.start kern clients) []
  | call (c : Call) {s s' : State K} {live : List Grant} {mem : Nat}
      (run : HeapRun ops Ok s live) (honest : c.Honest live) (ok : Ok c s)
      (ret : c.run ops s = .ok mem s') : HeapRun ops Ok s' (c.grants mem live)
  | write (g : Grant) (m : Mem) {s : State K} {live : List Grant} (run : HeapRun ops Ok s live)
      (hg : g ∈ live) (hm : ∀ x, x < g.mem ∨ g.mem + g.bytes ≤ x → m x = s.mem x) :
      HeapRun ops Ok { s with mem := m } live

/-! ### Calls that meet no defect -/

/-- The label of a block that is resized where it is is the one of the call. -/
def KeepsLabel (oldmem bytes : Nat) (L : Label) (s : State K) : Prop :=
  bytes = 0 ∨ requestOutOfRange bytes ∨ BlockMoves s oldmem bytes ∨
    ∀ u ∈ unitAt s oldmem, (s.mstates (s.units u).unitAv).label = L

/-- A call meets no defect. If `lab`, then it does not resize a block for another label,
    either. -/
def HeapOk (ops : KernelOps K) (lab : Prop) : Call → State K → Prop
  | .malloc pid bytes L, s => RequestOk (RoomFor ops pid) bytes L s
  | .calloc pid nElements elemSize L, s =>
      nElements * elemSize < wordSize → RequestOk (RoomFor ops pid) (nElements * elemSize) L s
  | .realloc pid oldmem bytes L, s =>
      if oldmem = 0 then RequestOk (RoomFor ops pid) bytes L s
      else ResizeOk ops pid (RoomFor ops pid) oldmem bytes L s ∧ (lab → KeepsLabel oldmem bytes L s)
  | .free _ mem, s => mem = 0 ∨ ¬ AtFence s mem

/-- Nothing stops a call. -/
def CallGranted (ops : KernelOps K) : Call → State K → Prop
  | .malloc pid bytes L, s => RequestGranted ops pid bytes L s
  | .calloc pid nElements elemSize L, s =>
      nElements * elemSize < wordSize → RequestGranted ops pid (nElements * elemSize) L s
  | .realloc pid oldmem bytes L, s =>
      if oldmem = 0 then RequestGranted ops pid bytes L s
      else ResizeGranted ops pid oldmem bytes L s
  | .free pid mem, s => mem = 0 ∨ FreeGranted ops pid s mem

instance decidableRequestOk (P : Nat → Nat → State K → Prop) (bytes : Nat) (L : Label)
    (s : State K) [∀ nb av s, Decidable (P nb av s)] : Decidable (RequestOk P bytes L s) := by
  unfold RequestOk MallocOk TopOk AtTop
  infer_instance

/-! ### The invariant -/

/-- The heap is in order and has the blocks, with the labels they were requested with if
    `lab`. -/
structure Sound (lab : Prop) (s : State K) (h : Heap) (live : List Grant) : Prop where
  arena : Arena s.mem s h
  owns : ∀ g ∈ live, ∃ n L, g.bytes ≤ n ∧ (lab → L = g.label) ∧ Owns s h ⟨g.mem, n, L⟩
  apart : live.Pairwise fun g g' => g.mem ≠ g'.mem
  counted : Counted s

section

variable {m₀ m : Mem} {s s' : State K} {h h' : Heap} {g : Grant} {live live' : List Grant}
variable {lab : Prop} {bytes mem : Nat} {L L' : Label} {P : Nat → Nat → State K → Prop}
variable {x : Nat → Prop} {E : Fault → State K → Prop}

/-- The heap before the first request. -/
def Heap.empty : Heap where
  base := fun _ => 0
  top := fun _ => 0
  owner := fun _ => 0
  size := fun _ => 0
  unit := fun _ => 0
  use := fun _ => .live
  flag := fun _ => false
  keep := fun _ => 0
  bins := fun _ _ => []
  fasts := fun _ _ => []
  pending := []

theorem Heap.empty_tidy : Heap.empty.Tidy := by
  have hnone : ∀ {p : Nat} {C : Prop}, Heap.empty.size p ≠ 0 → C := fun hp => absurd rfl hp
  have hbase : ∀ {u : Nat} {C : Prop}, Heap.empty.base u ≠ 0 → C := fun hu => absurd rfl hu
  refine ⟨⟨hbase, hbase, hnone, hnone, hnone, hnone, hbase⟩, ⟨hnone, hnone, hnone⟩, ?_, hnone,
    hnone, hnone⟩
  exact ⟨fun hx => absurd hx List.not_mem_nil, fun _ _ => List.nodup_nil,
    fun hx => absurd hx List.not_mem_nil, hnone, fun hx => absurd hx List.not_mem_nil,
    fun _ _ => List.nodup_nil, fun hx => absurd hx List.not_mem_nil, List.nodup_nil⟩

theorem Arena.start (kern : K) (clients : List ClientDesc) :
    Arena (State.start kern clients).mem (State.start kern clients) Heap.empty := by
  have hnone : ∀ {p : Nat} {C : Prop}, Heap.empty.size p ≠ 0 → C := fun hp => absurd rfl hp
  have hbase : ∀ {u : Nat} {C : Prop}, Heap.empty.base u ≠ 0 → C := fun hu => absurd rfl hu
  have hidle : ∀ {av : Nat} {C : Prop}, Active (State.start kern clients) av → C :=
    fun hav => absurd rfl hav
  have hlist : ∀ {y : Nat} {C : Prop}, y ∈ ([] : List Nat) → C :=
    fun hy => absurd hy List.not_mem_nil
  refine ⟨⟨⟨Heap.empty_tidy, ⟨hbase, hbase, fun _ hu => hlist hu, fun _ hu => hlist hu, hidle,
    Nat.zero_le _⟩, ⟨hnone, hnone, hbase, fun _ _ => Rings.Thread.nil 0, Rings.Thread.nil 0, hnone,
    fun _ _ => rfl⟩⟩,
    fun hd => hidle hd.active⟩, ⟨hnone, hbase⟩,
    ⟨fun _ hu => hlist hu, fun _ hav => hlist hav, fun _ => rfl⟩, fun _ hav => hlist hav,
    fun _ hu => hlist hu, fun _ hu => hlist hu, fun _ => ⟨rfl, fun _ _ _ => rfl⟩,
    fun _ hp => hnone hp,
    List.nodup_nil, fun _ hu => hlist hu⟩

theorem Counted.start (kern : K) (clients : List ClientDesc) :
    Counted (State.start kern clients) :=
  ⟨fun _ hav => absurd hav (Nat.not_lt_zero _), fun _ hav => absurd hav (Nat.not_lt_zero _)⟩

theorem Sound.start (kern : K) (clients : List ClientDesc) :
    Sound lab (State.start kern clients) Heap.empty [] :=
  ⟨.start kern clients, fun _ hg => absurd hg List.not_mem_nil, List.Pairwise.nil,
    .start kern clients⟩

/-- The blocks that a call leaves alone. -/
theorem Sound.carries (i : Sound lab s h live) (hc : Carries s h s' h' x)
    (hsub : live'.Sublist live) (hout : ∀ g ∈ live', ¬ x g.mem) : Sound lab s' h' live' := by
  refine ⟨hc.arena, fun g hg => ?_, i.apart.sublist hsub, hc.counts i.counted⟩
  obtain ⟨n, L, hn, hL, ho⟩ := i.owns g (hsub.subset hg)
  exact ⟨n, L, hn, hL, hc.owns _ ho (hout g hg)⟩

/-- A block that was handed out. -/
theorem Sound.addGrant (i : Sound lab s h live) (hnew : ∀ g ∈ live, g.mem ≠ mem)
    (hblock : mem ≠ 0 → ∃ n L', bytes ≤ n ∧ (lab → L' = L) ∧ Owns s h ⟨mem, n, L'⟩) :
    Sound lab s h (ArbiterThread.addGrant mem bytes L live) := by
  unfold ArbiterThread.addGrant
  split
  · exact i
  · rename_i hmem
    refine ⟨i.arena, fun g hg => ?_, ?_, i.counted⟩
    · rcases List.mem_cons.mp hg with rfl | hg
      · exact hblock hmem
      · exact i.owns g hg
    · exact List.pairwise_cons.mpr ⟨fun g hg hne => hnew g hg hne.symm, i.apart⟩

theorem Sound.supplied (i : Sound lab s h live) (hs : Supplied P s h bytes L mem s' h') :
    Sound lab s' h' (ArbiterThread.addGrant mem bytes L live) := by
  by_cases hmem : mem = 0
  · unfold ArbiterThread.addGrant
    rw [if_pos hmem]
    exact i.carries hs.carries (List.Sublist.refl _) (fun _ _ hx => hx)
  obtain ⟨⟨n, hn, ho⟩, hfresh⟩ := hs.block hmem
  have hpad := (request2size_spec bytes).2.2.1
  refine (i.carries hs.carries (List.Sublist.refl _) (fun _ _ hx => hx)).addGrant
    (fun g hg => ?_) (fun _ => ⟨n, L, by omega, fun _ => rfl, ho⟩)
  obtain ⟨n', L', -, -, ho'⟩ := i.owns g hg
  exact hfresh ⟨g.mem, n', L'⟩ ho'

theorem Sound.freed (i : Sound lab s h live) (hf : Freed s h mem s' h') :
    Sound lab s' h' (dropGrant mem live) := by
  refine i.carries hf.carries List.filter_sublist (fun g hg => ?_)
  have hkeep := (List.mem_filter.mp hg).2
  rwa [decide_eq_true_eq] at hkeep

/-- A block that was resized, or could not be. -/
theorem Sound.resized {n : Nat} {L₀ : Label} (i : Sound lab s h live)
    (hg : Owns s h ⟨g.mem, n, L₀⟩) (hr : Resized s h ⟨g.mem, n, L₀⟩ bytes L' mem s' h')
    (hlab : lab → mem ≠ 0 → L' = L) :
    Sound lab s' h' (if mem = 0 ∧ bytes ≠ 0 then live
      else ArbiterThread.addGrant mem bytes L (dropGrant g.mem live)) := by
  by_cases hzero : mem = 0 ∧ bytes ≠ 0
  · rw [if_pos hzero]
    obtain ⟨hstay, -⟩ := hr.stays hzero.1 hzero.2
    refine ⟨hr.carries.arena, fun g' hg' => ?_, i.apart, hr.carries.counts i.counted⟩
    obtain ⟨n', L', hn', hL', ho⟩ := i.owns g' hg'
    refine ⟨n', L', hn', hL', ?_⟩
    by_cases hmem : g'.mem = g.mem
    · have hsame := ho.unique hg i.arena hmem
      rw [hsame]
      exact hstay
    · exact hr.carries.owns _ ho hmem
  · rw [if_neg hzero]
    have hkept : Sound lab s' h' (dropGrant g.mem live) := by
      refine i.carries hr.carries List.filter_sublist (fun g' hg' => ?_)
      have hkeep := (List.mem_filter.mp hg').2
      rwa [decide_eq_true_eq] at hkeep
    refine hkept.addGrant (fun g' hg' => ?_) (fun hmem => ?_)
    · have hkeep := (List.mem_filter.mp hg').2
      rw [decide_eq_true_eq] at hkeep
      by_cases hmem : mem = g.mem
      · rwa [hmem]
      · obtain ⟨n', L', -, -, ho⟩ := i.owns g' (List.mem_filter.mp hg').1
        exact hr.fresh hmem ⟨g'.mem, n', L'⟩ ho
    · obtain ⟨n', hn', ho⟩ := hr.block hmem
      exact ⟨n', L', hn', fun hl => hlab hl hmem, ho⟩

/-- The label of a block is that of the unit its address is found in. -/
theorem Owns.unit_label (hg : Owns s h g) (a : Arena m₀ s h) {u : Nat}
    (hu : unitAt s g.mem = some u) : (s.mstates (s.units u).unitAv).label = g.label := by
  cases hg with
  | chunk p z v k hmem hp hroom hlabel =>
    rw [hmem, a.unitAt_live hp, Option.some.injEq] at hu
    rw [← hu, (a.live_bounds hp).2.1]
    exact hlabel
  | lone v hv hv0 hmem hroom hlabel =>
    rw [hmem, (a.unitAt_lone hv hv0).1, Option.some.injEq] at hu
    rw [← hu]
    exact hlabel

/-- Nothing is returned for no bytes, or too many. -/
theorem wp_ablibRealloc_none (ops : KernelOps K) (pid : Nat) {oldmem : Nat} (hmem : oldmem ≠ 0)
    (hbytes : bytes = 0 ∨ requestOutOfRange bytes) :
    wp (ablibRealloc ops pid oldmem bytes L) (fun r _ => r = 0) (fun _ _ => True) s := by
  unfold ablibRealloc
  rw [if_neg hmem]
  by_cases hzero : bytes = 0
  · rw [if_pos hzero, wp_bind]
    exact wp_of_forall (fun _ _ => by rw [wp_pure]) (fun _ _ => trivial)
  rw [if_neg hzero, wp_bind]
  refine wp_of_forall (fun _ _ => ?_) (fun _ _ => trivial)
  rw [wp_bind]
  refine wp_of_forall (fun u _ => ?_) (fun _ _ => trivial)
  rw [wp_bind, wp_getUnit, if_pos (hbytes.resolve_left hzero), wp_pure]

/-! ### Steps -/

theorem Sound.malloc (i : Sound lab s h live) (ops : KernelOps K) (pid : Nat)
    (hok : RequestOk (RoomFor ops pid) bytes L s)
    (hE : Safe (RequestGranted ops pid bytes L s) E) :
    wp (ablibMalloc ops pid bytes L) (fun mem s' => Undisturbed s s' ∧
      ∃ h', Sound lab s' h' (ArbiterThread.addGrant mem bytes L live)) E s :=
  wp_imp (i.arena.ablibMalloc ops pid (fun _ _ _ hroom => hroom) hok hE)
    (fun _ _ ⟨h', hs⟩ => ⟨hs.carries.vacant, h', i.supplied hs⟩)

theorem Sound.realloc (i : Sound lab s h live) (ops : KernelOps K) (pid : Nat) (hg : g ∈ live)
    (hok : ResizeOk ops pid (RoomFor ops pid) g.mem bytes L s)
    (hlab : lab → KeepsLabel g.mem bytes L s)
    (hE : Safe (ResizeGranted ops pid g.mem bytes L s) E) :
    wp (ablibRealloc ops pid g.mem bytes L) (fun mem s' => Undisturbed s s' ∧ ∃ h', Sound lab s' h'
      (if mem = 0 ∧ bytes ≠ 0 then live
        else ArbiterThread.addGrant mem bytes L (dropGrant g.mem live))) E s := by
  obtain ⟨n, L₀, -, -, ho⟩ := i.owns g hg
  have hlow : 0x80000000 + 8 ≤ g.mem := (ho.channel i.arena).1
  have hresized := i.arena.ablibRealloc ops pid (fun _ _ _ hroom => hroom) ho hok hE
  have hnone : wp (ablibRealloc ops pid g.mem bytes L)
      (fun mem _ => bytes = 0 ∨ requestOutOfRange bytes → mem = 0) (fun _ _ => True) s := by
    by_cases hcases : bytes = 0 ∨ requestOutOfRange bytes
    · exact wp_imp (wp_ablibRealloc_none ops pid (by omega) hcases) (fun _ _ hz _ => hz)
    · exact wp_of_forall (fun _ _ hcon => absurd hcon hcases) (fun _ _ => trivial)
  refine wp_mono (wp_and hresized hnone) (fun mem s' ⟨⟨_, h', hr⟩, hzero⟩ => ?_)
    (fun _ _ he => he.1)
  refine ⟨hr.carries.vacant, h', i.resized ho hr (fun hl hmem => ?_)⟩
  obtain ⟨u, hu, -⟩ := ho.kind i.arena
  have hlabel := ho.unit_label i.arena hu
  rcases hlab hl with hcase | hcase | hcase | hcase
  · exact absurd (hzero (.inl hcase)) hmem
  · exact absurd (hzero (.inr hcase)) hmem
  · exact if_pos hcase
  · rw [hcase u hu] at hlabel
    unfold resizedLabel
    rw [← hlabel, ite_self]

/-- A client writes to one of its blocks. -/
theorem Sound.write (i : Sound lab s h live) (hg : g ∈ live)
    (hm : ∀ x, x < g.mem ∨ g.mem + g.bytes ≤ x → m x = s.mem x) :
    Undisturbed s { s with mem := m } ∧ ∃ h', Sound lab { s with mem := m } h' live := by
  obtain ⟨n, L, hn, -, ho⟩ := i.owns g hg
  obtain ⟨hc, hself⟩ := ho.carries_write i.arena (m := m) (fun x hx => hm x (by
    dsimp only at hx
    omega))
  refine ⟨hc.vacant, _, hc.arena, fun g' hg' => ?_, i.apart, hc.counts i.counted⟩
  obtain ⟨n', L', hn', hL', ho'⟩ := i.owns g' hg'
  refine ⟨n', L', hn', hL', ?_⟩
  by_cases hmem : g'.mem = g.mem
  · have hsame := ho'.unique ho i.arena hmem
    rw [hsame]
    exact hself
  · exact hc.owns _ ho' hmem

/-- A call that meets no defect. -/
theorem Sound.call (i : Sound lab s h live) (ops : KernelOps K) (c : Call)
    (honest : c.Honest live) (hok : HeapOk ops lab c s) (hE : Safe (CallGranted ops c s) E) :
    wp (c.run ops)
      (fun mem s' => Undisturbed s s' ∧ ∃ h', Sound lab s' h' (c.grants mem live)) E s := by
  -- no live block is at address 0
  have hlow : ∀ g ∈ live, g.mem ≠ 0 := by
    intro g hg hzero
    obtain ⟨n, L, -, -, ho⟩ := i.owns g hg
    have hlow : 0x80000000 + 8 ≤ g.mem := (ho.channel i.arena).1
    omega
  have hdrop : dropGrant 0 live = live :=
    List.filter_eq_self.mpr (fun g hg => decide_eq_true (hlow g hg))
  cases c with
  | malloc pid bytes L => exact i.malloc ops pid hok hE
  | calloc pid n e L =>
    refine wp_imp (i.arena.ablibCalloc ops pid (fun _ _ _ hroom => hroom) hok hE)
      (fun mem s' hpost => ?_)
    obtain ⟨-, rfl, rfl⟩ | ⟨-, h', hs, -⟩ := hpost
    · exact ⟨fun _ _ _ => rfl, h, i⟩
    · exact ⟨hs.carries.vacant, h', i.supplied hs⟩
  | realloc pid oldmem bytes L =>
    change wp (ablibRealloc ops pid oldmem bytes L) _ _ s
    simp only [HeapOk, CallGranted] at hok hE
    by_cases hzero : oldmem = 0
    · subst hzero
      rw [if_pos rfl] at hok hE
      unfold ablibRealloc
      rw [if_pos rfl]
      refine wp_imp (i.malloc ops pid hok hE) (fun mem s' hpost => ?_)
      obtain ⟨hsame, h', i'⟩ := hpost
      refine ⟨hsame, h', ?_⟩
      simp only [Call.grants, hdrop]
      split
      · rename_i hnone
        rwa [ArbiterThread.addGrant, if_pos hnone.1] at i'
      · exact i'
    · rw [if_neg hzero] at hok hE
      obtain ⟨g, hg, rfl⟩ := honest.resolve_left hzero
      exact i.realloc ops pid hg hok.1 hok.2 hE
  | free pid mem =>
    change wp (ablibFree ops pid mem >>= fun _ => pure 0) _ _ s
    rw [wp_bind]
    by_cases hzero : mem = 0
    · subst hzero
      unfold ablibFree
      rw [if_pos rfl, wp_pure, wp_pure]
      refine ⟨fun _ _ _ => rfl, h, ?_⟩
      simp only [Call.grants, hdrop]
      exact i
    · obtain ⟨g, hg, rfl⟩ := honest.resolve_left hzero
      obtain ⟨n, L, -, -, ho⟩ := i.owns g hg
      have hfree := i.arena.ablibFree (g := ⟨g.mem, n, L⟩) ops pid ho (hok.resolve_left hzero)
        (hE.mono fun hgrant => hgrant.resolve_left hzero)
      refine wp_imp hfree (fun _ s' hpost => ?_)
      obtain ⟨h', hf⟩ := hpost
      rw [wp_pure]
      exact ⟨hf.carries.vacant, h', i.freed hf⟩

/-- The heap is in order all along a run. -/
theorem HeapRun.sound {ops : KernelOps K} (hrun : HeapRun ops (HeapOk ops lab) s live) :
    ∃ h, Sound lab s h live := by
  induction hrun with
  | start kern clients => exact ⟨_, .start kern clients⟩
  | call c run honest ok ret ih =>
    obtain ⟨h, i⟩ := ih
    exact (wp_run (i.call ops c honest ok (.inr fun _ _ => trivial)) ret).2
  | write g m run hg hm ih =>
    obtain ⟨h, i⟩ := ih
    exact (i.write hg hm).2

/-- A run of one request. -/
theorem HeapRun.first {ops : KernelOps K} {kern : K} {clients : List ClientDesc} {pid : Nat}
    {Q : Nat → State K → Prop} (hok : HeapOk ops lab (.malloc pid bytes L) (.start kern clients))
    (h : wp (ablibMalloc ops pid bytes L) Q (fun _ _ => False) (.start kern clients)) :
    ∃ mem s live, HeapRun ops (HeapOk ops lab) s live ∧ Q mem s := by
  obtain ⟨mem, s, hret, hQ⟩ := exists_ok h
  exact ⟨mem, s, _, .call (.malloc pid bytes L) (.start kern clients) trivial hok hret, hQ⟩

end

/-! ### Statistics -/

/-- The statistics are right all along a run. -/
theorem statistics_right {ops : KernelOps K} {s : State K} {live : List Grant}
    (hrun : HeapRun ops (HeapOk ops False) s live) : ∀ av < s.nextMstate, CountedAt s av := by
  obtain ⟨h, i⟩ := hrun.sound
  exact i.counted.counts

/-- A run with a mapped unit. -/
theorem statistics_right_mapped :
    ∃ s live, HeapRun generousKernel (HeapOk generousKernel False) s live ∧
      (s.mstates 0).nMmaps = 1 ∧ ∀ av < s.nextMstate, CountedAt s av := by
  have hok : RequestOk (RoomFor generousKernel 1) 0x10000 (fun _ => 0) (State.start () []) := by
    decide +kernel
  have hall : wp (ablibMalloc generousKernel 1 0x10000 (fun _ => 0))
      (fun _ s => (s.mstates 0).nMmaps = 1) (fun _ _ => False) (State.start () []) := by
    decide +kernel
  obtain ⟨mem, s, live, hrun, hone⟩ := HeapRun.first hok hall
  exact ⟨s, live, hrun, hone, statistics_right hrun⟩

set_option synthInstance.maxSize 1000 in
/-- A block of a unit behind the break covers the header of a mapped unit that was there
    before, and what is written there is what is taken off the statistics. -/
theorem statistics_fail :
    ∃ s live, HeapRun generousKernel (fun _ _ => True) s live ∧ 0 < s.nextMstate ∧
      ¬ CountedAt s 0 := by
  let L : Label := fun _ => 0
  let large : Call := .malloc 1 0x1fffaff0 L
  let small : Call := .malloc 1 30000 L
  let release : Call := .free 1 0x80004008
  have hall : wp (large.run generousKernel) (fun mem s1 => mem = 0x80004008 ∧
      wp (small.run generousKernel) (fun mem s2 => mem = 0x80000008 ∧
        wp (release.run generousKernel) (fun _ s3 => 0 < s3.nextMstate ∧
          (s3.mstates 0).mmappedMem ≠ 0 ∧ mappedUnits s3 0 = []) (fun _ _ => False)
          (s2.put 0x80004004 0x2002)) (fun _ _ => False) s1) (fun _ _ => False)
      (State.start () []) := by decide +kernel
  obtain ⟨_, s1, h1, rfl, hall⟩ := exists_ok hall
  obtain ⟨_, s2, h2, rfl, hall⟩ := exists_ok hall
  obtain ⟨_, s3, h3, hmade, hcount, hnone⟩ := exists_ok hall
  have hrun : HeapRun generousKernel (fun _ _ => True) s2 _ :=
    .call small (.call large (.start () []) trivial trivial h1) trivial trivial h2
  have hwrite := HeapRun.write ⟨0x80000008, 30000, L⟩ (s2.put 0x80004004 0x2002).mem hrun
    (List.mem_cons_self ..) (fun x hx => ?_)
  · have hfree := HeapRun.call release hwrite
      (.inr ⟨⟨0x80004008, 0x1fffaff0, L⟩, by simp [small, large, Call.grants, addGrant], rfl⟩)
      trivial h3
    refine ⟨s3, _, hfree, hmade, fun hc => hcount ?_⟩
    rw [hc.mmappedMem, hnone]
    rfl
  · dsimp only at hx
    simp only [State.put, Mem.store32]
    rw [if_neg (by omega)]

/-! ### Blocks -/

/-- The blocks have no byte in common, and each is in a unit of the label it was requested
    with, which is found for all its addresses. -/
structure BlocksApart (s : State K) (live : List Grant) : Prop where
  disjoint : live.Pairwise fun g g' => g.mem + g.bytes ≤ g'.mem ∨ g'.mem + g'.bytes ≤ g.mem
  inside : ∀ g ∈ live, ∃ u ∈ s.ustateList, (s.units u).addr ≤ g.mem ∧
    g.mem + g.bytes ≤ (s.units u).addr + (s.units u).length ∧
    (s.mstates (s.units u).unitAv).label = g.label ∧
    ∀ x, g.mem ≤ x → x < g.mem + g.bytes → unitAt s x = some u

/-- The blocks are apart all along a run. -/
theorem blocks_apart {ops : KernelOps K} {s : State K} {live : List Grant}
    (hrun : HeapRun ops (HeapOk ops True) s live) : BlocksApart s live := by
  obtain ⟨h, i⟩ := hrun.sound
  refine ⟨i.apart.imp_of_mem (fun {g g'} hg hg' hne => ?_), fun g hg => ?_⟩
  · obtain ⟨n, L, hn, -, ho⟩ := i.owns g hg
    obtain ⟨n', L', hn', -, ho'⟩ := i.owns g' hg'
    have hdisj := ho.disjoint ho' i.arena hne
    dsimp only at hdisj
    omega
  · obtain ⟨n, L, hn, hL, ho⟩ := i.owns g hg
    obtain ⟨u, hu, hlo, hhi, hlabel, -⟩ := ho.inside i.arena
    dsimp only at hlo hhi hlabel
    refine ⟨u, hu, by omega, by omega, hlabel.trans (hL trivial), fun x hx hx' => ?_⟩
    exact i.arena.rep.body.tracks.unitAt_listed hu (by omega) (by omega)

/-- Two blocks with different labels. -/
theorem blocks_apart_two :
    ∃ s live, HeapRun generousKernel (HeapOk generousKernel True) s live ∧ live.length = 2 ∧
      BlocksApart s live := by
  let first : Call := .malloc 1 16 (fun _ => 0)
  let second : Call := .malloc 1 100 (fun _ => 1)
  have hok : RequestOk (RoomFor generousKernel 1) 16 (fun _ => 0) (State.start () []) := by
    decide +kernel
  have hall : wp (first.run generousKernel) (fun mem s1 => mem ≠ 0 ∧
      RequestOk (RoomFor generousKernel 1) 100 (fun _ => 1) s1 ∧
      wp (second.run generousKernel) (fun mem _ => mem ≠ 0) (fun _ _ => False) s1)
      (fun _ _ => False) (State.start () []) := by decide +kernel
  obtain ⟨mem1, s1, h1, hmem1, hok1, hall⟩ := exists_ok hall
  obtain ⟨mem2, s2, h2, hmem2⟩ := exists_ok hall
  have hrun : HeapRun generousKernel (HeapOk generousKernel True) s2 _ :=
    .call second (.call first (.start () []) trivial hok h1) trivial hok1 h2
  refine ⟨s2, _, hrun, ?_, blocks_apart hrun⟩
  simp only [second, first, Call.grants, addGrant_of_ne hmem1, addGrant_of_ne hmem2,
    List.length_cons, List.length_nil]

/-- The unit mapped for a large block begins where the unit of the first block does. -/
theorem blocks_apart_fails :
    ∃ s live, HeapRun generousKernel (fun _ _ => True) s live ∧ ¬ BlocksApart s live := by
  let L : Label := fun _ => 0
  let small : Call := .malloc 1 16 L
  let large : Call := .malloc 1 0x1ffff000 L
  have hall : wp (small.run generousKernel) (fun mem s1 => mem = 0x80000008 ∧
      wp (large.run generousKernel) (fun mem _ => mem = 0x80000008) (fun _ _ => False) s1)
      (fun _ _ => False) (State.start () []) := by decide +kernel
  obtain ⟨_, s1, h1, rfl, hall⟩ := exists_ok hall
  obtain ⟨_, s2, h2, rfl⟩ := exists_ok hall
  have hrun : HeapRun generousKernel (fun _ _ => True) s2 _ :=
    .call large (.call small (.start () []) trivial trivial h1) trivial trivial h2
  refine ⟨s2, _, hrun, fun hc => ?_⟩
  have hdisjoint := hc.disjoint
  simp only [large, small, Call.grants, addGrant_of_ne (show (0x80000008 : Nat) ≠ 0 by omega)]
    at hdisjoint
  have hfirst := (List.pairwise_cons.mp hdisjoint).1 _ (List.mem_singleton_self _)
  dsimp only at hfirst
  omega

end ArbiterThread
