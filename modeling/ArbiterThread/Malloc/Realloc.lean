import ArbiterThread.Malloc.Resize

/-!
# Reallocation

`ablib_realloc` on a heap that is in order, for a block there is. The block stays where
it is if it can, and otherwise a new one is requested, the contents copied, and the old
one released. A chunk that is requested and turns out to be the one behind the old one
is joined with it instead.

The other blocks keep their place and their contents. A block that stays has the label
it had, and one that moves has the label of the call.

What can go wrong is what can go wrong with the request and with the release that the
call makes. `ResizeOk` lets the request run first to tell which chunk is released after it,
and `MoveClear` is enough for that and about the state before the call only.

## Main definitions

* `MoveOk`, `MoveClear`, `ResizeOk`: The call meets no defect.
* `ResizeGranted`: Nothing stops the call.
* `Resized`: What a call leaves.

## Theorems

* `wp_copyBlock`: The copy gets to all user bytes.
* `Arena.reallocGrow`, `Arena.reallocMmapped`: A block that is too small.
* `Arena.ablibRealloc`: A call.
* `Arena.moveOk`: What has to be known before the inner request.
-/

namespace ArbiterThread

open Exec Rings

variable {K : Type}

/-! ### Copying -/

section

variable {s : State K} {d src n : Nat} {Q : Unit → State K → Prop}
variable {E : Fault → State K → Prop}

theorem wp_copyBytes (hn : n ≠ 0) (hd : channelAddr ≤ d) (hd' : d + n ≤ channelEnd)
    (hsrc : channelAddr ≤ src) (hsrc' : src + n ≤ channelEnd)
    (hQ : Q () { s with mem := s.mem.copy d src n }) : wp (copyBytes d src n) Q E s := by
  unfold copyBytes
  rw [wp_bind]
  exact wp_bulk hn hsrc hsrc' (wp_bulk hn hd hd' hQ)

/-- The words from the `i`th on are copied. -/
theorem wp_copyWords (m : Mem) {j : Nat} (hd : channelAddr ≤ d) (hsrc : channelAddr ≤ src) :
    ∀ i, d + 4 * (i + j) ≤ channelEnd → src + 4 * (i + j) ≤ channelEnd →
      (d + 4 * (i + j) ≤ src ∨ src + 4 * (i + j) ≤ d) →
      Q () { s with mem := m.copy d src (4 * (i + j)) } →
      wp (copyWords d src (List.range' i j)) Q E { s with mem := m.copy d src (4 * i) } := by
  induction j with
  | zero =>
    intro i _ _ _ hQ
    rw [List.range'_zero, copyWords, wp_pure]
    exact hQ
  | succ j ih =>
    intro i hd' hsrc' hdisj hQ
    rw [List.range'_succ, copyWords, wp_bind]
    refine wp_load_mapped (mapped_channel (by omega) (by omega)) ?_
    rw [wp_bind]
    refine wp_store_mapped (mapped_channel (by omega) (by omega)) ?_
    have hword : (m.copy d src (4 * i)).load32 (src + 4 * i) = m.load32 (src + 4 * i) :=
      Mem.load32_copy_of_disjoint m d src _ _ (by omega)
    have hnext := ih (i + 1) (by omega) (by omega) (by omega)
      (by rwa [Nat.add_right_comm i 1 j, Nat.add_assoc])
    rw [← Mem.copy_store32] at hnext
    simp only [hword]
    exact hnext

/-- All user bytes of a chunk are copied. The unrolled loop gets to all of them,
    because their number of words is odd. -/
theorem wp_copyBlock (h8 : (n + 4) % 8 = 0) (hn : 12 ≤ n) (hd : channelAddr ≤ d)
    (hd' : d + n ≤ channelEnd) (hsrc : channelAddr ≤ src) (hsrc' : src + n ≤ channelEnd)
    (hdisj : d + n ≤ src ∨ src + n ≤ d) (hQ : Q () { s with mem := s.mem.copy d src n }) :
    wp (copyBlock d src (n + 4)) Q E s := by
  have hsize : (n + 4 + (wordSize - 4)) % wordSize = n := by
    simp only [channelEnd, channelAddr, channelSize] at hd'
    unfold wordSize
    omega
  unfold copyBlock
  dsimp only
  rw [hsize, wp_bind, wp_check, if_pos (by omega)]
  -- more than 9 words are copied by `memcpy`, the others one by one
  by_cases hlarge : 9 < n / 4
  · rw [if_pos hlarge]
    exact wp_copyBytes (by omega) hd hd' hsrc hsrc' hQ
  · have hall : 4 * (0 + unrolled (n / 4)) = n := by
      unfold unrolled
      split_ifs <;> omega
    rw [if_neg hlarge, List.range_eq_range']
    have hstart : s.mem.copy d src (4 * 0) = s.mem := by
      funext x
      simp only [Mem.copy]
      rw [if_neg (by omega)]
    have hwords := wp_copyWords (s := s) (Q := Q) (E := E) s.mem hd hsrc 0 (by rw [hall]; exact hd')
      (by rw [hall]; exact hsrc') (by rw [hall]; exact hdisj) (by rw [hall]; exact hQ)
    rwa [hstart] at hwords

end

/-! ### What a call needs and leaves -/

/-- The inner request meets no defect, and neither does the release that follows it: of
    the old block, or of what is left of the two if the new chunk is the one behind. -/
def MoveOk (ops : KernelOps K) (pid : Nat) (P : Nat → Nat → State K → Prop) (oldmem nb : Nat)
    (L : Label) (s : State K) : Prop :=
  RequestOk P (nb - 7) L s ∧
    let next := chunkAtOffset (mem2chunk oldmem)
      (sizeOfHead (s.mem.load32 (mem2chunk oldmem + 4)))
    wp (ablibMalloc ops pid (nb - 7) L) (fun mem s' => mem ≠ 0 →
      ¬ AtFence s' (if mem2chunk mem = next then mem else oldmem)) (fun _ _ => True) s

/-- The first fencepost of its unit is `d` bytes behind the chunk of a block. -/
def FenceBehind (s : State K) (mem d : Nat) : Prop :=
  ∃ u ∈ unitAt s mem, chunkAtOffset (mem2chunk mem)
    (sizeOfHead (s.mem.load32 (mem2chunk mem + 4))) + d = (s.units u).addr + unitTopSize

instance (s : State K) (mem d : Nat) : Decidable (FenceBehind s mem d) :=
  inferInstanceAs (Decidable (∃ u ∈ unitAt s mem, _))

/-- Before the inner request: It meets no defect, and if it gets a block, then the old chunk
    does not end at the fencepost, and neither does one of the requested size behind it. -/
def MoveClear (ops : KernelOps K) (pid oldmem nb : Nat) (L : Label) (s : State K) : Prop :=
  RequestOk (RoomFor ops pid) (nb - 7) L s ∧
    (GetsBlock (nb - 7) L s → ∀ d ∈ [0, nb, nb + 8], ¬ FenceBehind s oldmem d)

/-- The call meets no defect: what it requests and what it releases is not affected. -/
def ResizeOk (ops : KernelOps K) (pid : Nat) (P : Nat → Nat → State K → Prop)
    (oldmem bytes : Nat) (L : Label) (s : State K) : Prop :=
  let nb := request2size bytes
  if bytes = 0 then ¬ AtFence s oldmem
  else requestOutOfRange bytes ∨
    (nb + minSize ≤ sizeOfHead (s.mem.load32 (mem2chunk oldmem + 4)) → ¬ AtFence s oldmem) ∧
      ∀ u ∈ unitAt s oldmem, reallocMoves s u oldmem nb → MoveOk ops pid P oldmem nb L s

/-- Nothing stops the call: the lock is free, and neither the inner request nor the
    release after it is stopped. -/
def ResizeGranted (ops : KernelOps K) (pid oldmem bytes : Nat) (L : Label) (s : State K) : Prop :=
  let nb := request2size bytes
  if bytes = 0 then FreeGranted ops pid s oldmem
  else s.locked = false ∧ (requestOutOfRange bytes ∨
    ∀ u ∈ unitAt s oldmem, reallocMoves s u oldmem nb → RequestGranted ops pid (nb - 7) L s ∧
      wp (ablibMalloc ops pid (nb - 7) L) (fun mem s' => mem ≠ 0 → FreeGranted ops pid s' oldmem)
        (fun _ _ => True) s)

/-- The block cannot be resized where it is. -/
def BlockMoves (s : State K) (mem bytes : Nat) : Prop :=
  ∃ u ∈ unitAt s mem, reallocMoves s u mem (request2size bytes)

instance decidableReallocMoves (s : State K) (u oldmem nb : Nat) :
    Decidable (reallocMoves s u oldmem nb) := by
  unfold reallocMoves
  infer_instance

instance decidableBlockMoves (s : State K) (mem bytes : Nat) : Decidable (BlockMoves s mem bytes) :=
  inferInstanceAs (Decidable (∃ u ∈ unitAt s mem, _))

/-- The label of what a call returns. A block that is resized where it is keeps its own. -/
def resizedLabel (s : State K) (g : Grant) (bytes : Nat) (L : Label) : Label :=
  if BlockMoves s g.mem bytes then L else g.label

/-- What a call leaves, with a label for the new block. The old block is kept if there is
    no new one, and otherwise released unless it is the new one. -/
structure Resized (s : State K) (h : Heap) (g : Grant) (bytes : Nat) (L : Label) (mem : Nat)
    (s' : State K) (h' : Heap) : Prop where
  carries : Carries s h s' h' (· = g.mem)
  stays : mem = 0 → bytes ≠ 0 → Owns s' h' g ∧ s.mem.Agree s'.mem g.mem (g.mem + g.bytes)
  gone : mem ≠ 0 ∨ bytes = 0 → mem ≠ g.mem → ∀ g', Owns s' h' g' → g'.mem ≠ g.mem
  block : mem ≠ 0 → ∃ n, bytes ≤ n ∧ Owns s' h' ⟨mem, n, L⟩
  same : mem ≠ 0 → ∀ i, i < g.bytes → i < bytes → s'.mem (mem + i) = s.mem (g.mem + i)
  fresh : mem ≠ g.mem → ∀ g', Owns s h g' → g'.mem ≠ mem

section

variable {m₀ : Mem} {s s₁ s' : State K} {h h₁ h' : Heap} {g : Grant} {p nb bytes mem : Nat}
variable {L : Label} {P : Nat → Nat → State K → Prop} {x : Nat → Prop}
variable {E : Fault → State K → Prop}

theorem blockMoves_iff {u : Nat} (hu : unitAt s mem = some u) :
    BlockMoves s mem bytes ↔ reallocMoves s u mem (request2size bytes) := by
  unfold BlockMoves
  rw [hu]
  simp only [Option.mem_def, Option.some.injEq, exists_eq_left']

theorem resizedLabel_eq {u : Nat} (hu : unitAt s g.mem = some u) :
    resizedLabel s g bytes L =
      if reallocMoves s u g.mem (request2size bytes) then L else g.label := by
  unfold resizedLabel
  simp only [blockMoves_iff hu]

/-- A block that is where it was, with some of its contents. -/
theorem Carries.resized {n k : Nat} (hc : Carries s h s' h' (· = g.mem)) (hmem : g.mem = p + 8)
    (hblock : Owns s' h' ⟨p + 8, n, L⟩) (hsame : s.mem.Agree s'.mem (p + 8) (p + 8 + k))
    (hn : bytes ≤ n) (hk : ∀ i, i < g.bytes → i < bytes → i < k) :
    Resized s h g bytes L (p + 8) s' h' := by
  refine ⟨hc, fun hzero => absurd hzero (by omega), fun _ hne => absurd hmem.symm hne,
    fun _ => ⟨n, hn, hblock⟩, fun _ i hi hi' => ?_, fun hne => absurd hmem.symm hne⟩
  rw [hmem]
  have := hk i hi hi'
  exact hsame (p + 8 + i) (by omega) (by omega)

/-- A block that was fitted to its new size where it is. -/
theorem Refitted.resized {n k : Nat} (hr : Refitted s h p n k L (· = g.mem) s' h')
    (hmem : g.mem = p + 8) (hn : bytes ≤ n) (hk : ∀ i, i < g.bytes → i < bytes → i < k) :
    Resized s h g bytes L (p + 8) s' h' :=
  hr.carries.resized hmem hr.block hr.same hn hk

/-! ### Staying in place -/

/-- Less of a chunk need be kept. -/
theorem Arena.setKeep (a : Arena m₀ s h) {k : Nat} (hp : h.size p ≠ 0) (hk : k ≤ h.keep p) :
    Arena m₀ s (h.setKeep p k) := by
  have t := a.rep.body.tidy
  have hkept := t.kept hp
  have htidy : (h.setKeep p k).Tidy := by
    refine t.setKeep (by omega) ?_
    by_contra hcon
    push Not at hcon
    have hzero := t.unkept hp hcon.1 hcon.2.1
    exact hcon.2.2 (by omega)
  have hholds : (h.setKeep p k).Holds m₀ s.mem := by
    have hm := a.rep.body.holds
    refine ⟨hm.head, hm.foot, hm.fence, hm.fasts, hm.pending, fun {q} hq => ?_, hm.outside⟩
    intro y hlo hhi
    refine hm.kept hq y hlo ?_
    by_cases hqp : q = p
    · rw [hqp] at hhi ⊢
      simp only [Heap.setKeep, Function.update_self] at hhi
      omega
    · simpa only [Heap.setKeep, Function.update_of_ne hqp] using hhi
  exact ⟨⟨⟨htidy, a.rep.body.tracks.congr rfl rfl rfl rfl, hholds⟩, a.rep.rings⟩,
    ⟨a.settled.use, a.settled.top⟩, a.wf, a.ready, a.lone, a.mmapped, a.blank, a.clear, a.nodup,
    a.owned⟩

/-- The state in which a call works on a chunk in use, of which `k` bytes are to be kept. -/
theorem Arena.forChunk (a : Arena m₀ s h) {z u k : Nat} (hp : h.live p = some (z, u, k)) {n : Nat}
    (hn : n + 4 ≤ z) :
    Arena s.mem { s with locked := true } ((h.guard 0).setKeep p n) ∧
      ((h.guard 0).setKeep p n).live p = some (z, u, n) ∧
      ∀ q, q ≠ p → ((h.guard 0).setKeep p n).live q = (h.guard 0).live q := by
  obtain ⟨hsize, huse, rfl, rfl, -⟩ := Heap.live_eq_some.mp hp
  have hb := a.rep.body.tidy.tiling.bounds hsize
  have hkeep : (h.guard 0).keep p = h.size p - 4 := if_pos ⟨huse, by omega⟩
  have ag := (a.guard 0).setKeep (k := n) hsize (by omega)
  refine ⟨ag.outer rfl, Heap.live_eq_some.mpr ⟨hsize, huse, rfl, rfl, ?_⟩, fun q hq => ?_⟩
  · exact Function.update_self ..
  · simp only [Heap.live, Heap.setKeep, Function.update_of_ne hq]

/-- The block is large enough. -/
theorem Arena.reallocFit (a : Arena m₀ s h) (ops : KernelOps K) (pid : Nat) {z u k : Nat}
    (hp : h.live p = some (z, u, k)) (hnb : 16 ≤ nb) (h8 : nb % 8 = 0) (hle : nb ≤ z)
    (hend : nb + 16 ≤ z → ¬ AtFence s (p + 8)) :
    wp (reallocSplit ops pid nb p z) (fun mem s' => mem = p + 8 ∧
      ∃ n h', nb ≤ n + 4 ∧ Refitted s h p n (nb - 4) (s.mstates (h.owner u)).label (· = p + 8)
        s' h') E { s with locked := true } := by
  obtain ⟨ag, hlive, hothers⟩ := a.forChunk hp (n := nb - 4) (by omega)
  rw [a.atFence_iff hp] at hend
  obtain ⟨hsize, huse, hz, hu, hkeep⟩ := Heap.live_eq_some.mp hlive
  -- the chunk is taken up with as many bytes guarded as are kept
  have hst : Stage s h { s with locked := true } (((h.guard 0).setKeep p (nb - 4)).setUse p .raw)
      p (· = p + 8) := by
    refine ⟨Frame.refl _, ag.rep.of_body (ag.rep.body.loosen hsize (by rw [huse]; decide)) rfl,
      ⟨hsize, Heap.setUse_use_self .., ?_, ag.rep.body.parity hsize (by rw [huse]; decide)⟩,
      ⟨rfl, rfl, fun q hq _ => ?_, ?_⟩⟩
    · exact (ag.settled.takeUp (by rw [huse]; decide)).mono (by tauto)
    · have hqp : q ≠ p := fun heq => hq (by rw [heq])
      rw [Heap.live_loosen (by decide), Function.update_of_ne hqp, hothers q hqp]
    · exact FastsFrom.setUse ((h.guard 0).setKeep p (nb - 4)) p (by decide)
  have hsplit := hst.reallocSplit a ops pid rfl hnb h8 (E := E) (by
    change nb ≤ ((h.guard 0).setKeep p (nb - 4)).size p
    omega) (by
    change ((h.guard 0).setKeep p (nb - 4)).keep p + 4 ≤ nb
    omega) (by
    change nb + 16 ≤ ((h.guard 0).setKeep p (nb - 4)).size p →
      p + ((h.guard 0).setKeep p (nb - 4)).size p ≠
        h.base (((h.guard 0).setKeep p (nb - 4)).unit p) + unitTopSize
    rw [hz, hu]
    exact hend)
  change wp (reallocSplit ops pid nb p (((h.guard 0).setKeep p (nb - 4)).size p))
    (fun mem s' => mem = p + 8 ∧ ∃ n h', nb ≤ n + 4 ∧ Refitted s h p n
      (((h.guard 0).setKeep p (nb - 4)).keep p)
      (s.mstates (h.owner (((h.guard 0).setKeep p (nb - 4)).unit p))).label _ s' h') E _ at hsplit
  rwa [hz, hu, hkeep] at hsplit

/-- The unit top behind a chunk in use, and what the code reads there. -/
theorem Arena.next_top (a : Arena m₀ s h) {z u k : Nat} (hp : h.live p = some (z, u, k))
    (htop : h.next p = (s.units u).unitTop) :
    h.next p = h.top u ∧ sizeOfHead (s.mem.load32 (h.next p + 4)) =
      if h.next p = h.fence u then 4 else h.size (h.next p) := by
  obtain ⟨-, hunit, hu, -⟩ := a.live_bounds hp
  have hsize := a.rep.body.topSize a.settled hu
  have htop' : h.next p = h.top u := by
    rw [htop, hunit]
  unfold topSize at hsize
  rw [← htop, ← htop'] at hsize
  exact ⟨htop', hsize⟩

/-- Something is behind a chunk in use that is not the unit top. -/
theorem Arena.next_chunk (a : Arena m₀ s h) {z u k : Nat} (hp : h.live p = some (z, u, k))
    (htop : h.next p ≠ (s.units u).unitTop) : h.size (h.next p) ≠ 0 := by
  obtain ⟨-, hunit, hu, -⟩ := a.live_bounds hp
  obtain ⟨hsize, huse, -, rfl, -⟩ := Heap.live_eq_some.mp hp
  have t := a.rep.body.tidy
  refine (t.tiling.follow hsize fun hend => htop ?_).1
  rw [hunit]
  dsimp only
  -- the unit top would end at the same place
  by_contra hne
  have hfence : h.top (h.unit p) ≠ h.fence (h.unit p) := fun heq => hne (hend.trans heq.symm)
  obtain ⟨htopsize, htopuse, -, -, htopend⟩ := t.top a.settled hu hfence
  have heq := t.tiling.next_inj hsize htopsize (hend.trans htopend.symm)
  rw [← heq, huse] at htopuse
  exact Use.noConfusion htopuse

/-- What the code reads to tell whether a chunk is in use. -/
theorem Arena.next_free (a : Arena m₀ s h) {q : Nat} (hq : h.size q ≠ 0) :
    s.mem.load32 (q + 4) = h.head q ∧
      mapped s (chunkAtOffset q (s.mem.load32 (q + 4) / 2 * 2) + 4) ∧
      (¬ prevInuse (s.mem.load32 (chunkAtOffset q (s.mem.load32 (q + 4) / 2 * 2) + 4)) →
        h.use q = .free) := by
  have t := a.rep.body.tidy
  have hb := t.tiling.bounds hq
  have hhead := a.rep.body.holds.head hq (a.settled.use hq id).2
  have hflag := Bool.toNat_le (h.flag q)
  have hoff : chunkAtOffset q (s.mem.load32 (q + 4) / 2 * 2) = h.next q := by
    have hsize : s.mem.load32 (q + 4) / 2 * 2 = h.size q := by
      rw [hhead, Heap.head]
      omega
    rw [hsize, a.rep.body.chunkAtOffset hq]
  rw [hoff]
  refine ⟨hhead, a.rep.body.mapped hq (by unfold Heap.next; omega) (by omega), fun hnot => ?_⟩
  by_cases hend : h.next q = h.fence (h.unit q)
  · rw [hend, (a.rep.body.holds.fence (t.tiling.place hq).1).1] at hnot
    exact absurd (by decide) hnot
  · have hn := (t.tiling.follow hq hend).1
    rw [a.rep.body.holds.head hn (a.settled.use hn id).2,
      prevInuse_head h (t.tiling.shape hn).2.1, Bool.not_eq_true] at hnot
    obtain ⟨q', hq', huse, hnext⟩ := t.free_before a.settled hn hnot (fun _ hX => hX.elim)
    rwa [← t.tiling.next_inj hq' hq hnext]

/-- The block grows into the unit top. -/
theorem Arena.reallocTop (a : Arena m₀ s h) {z u k : Nat} (hp : h.live p = some (z, u, k))
    (hn : h.size (h.next p) ≠ 0) (htop : h.next p = h.top u) (h8 : nb % 8 = 0) (hlt : z < nb)
    (hrest : nb + 16 ≤ z + h.size (h.next p)) :
    wp (setHeadSize p nb) (fun _ s₁ => wp (setUnitTop u (p + nb)) (fun _ s₂ =>
      wp (setHead (p + nb) (withInuse (z + h.size (h.next p) - nb))) (fun _ s' =>
        s'.locked = true ∧ ∃ h', Refitted s h p (nb - 4) (z - 4) (s.mstates (h.owner u)).label
          (· = p + 8) { s' with locked := false } h') E s₂) E s₁) E { s with locked := true } := by
  have hz := (a.live_bounds hp).2.2.2.2.2
  obtain ⟨hsize, huse, rfl, rfl, -⟩ := Heap.live_eq_some.mp hp
  obtain ⟨ag, hlive, hothers⟩ := a.forChunk hp (n := h.size p - 4) (by omega)
  have hkeep := (Heap.live_eq_some.mp hlive).2.2.2.2
  have hret : Retains h ((h.guard 0).setKeep p (h.size p - 4)) (· = p + 8) :=
    ⟨rfl, rfl, fun q hq _ => hothers q (fun heq => hq (by rw [heq])),
      fun _ _ hfast => ⟨rfl, rfl, hfast⟩⟩
  refine ag.rep.resizeTop ag.settled hsize huse hn htop h8 hlt hrest
    (fun s' h' hf r hs hr => ⟨by rw [hf.rest], h', ?_⟩)
  have hrefit := hr.refitted a hret rfl hf r hs
  rwa [hkeep] at hrefit

/-- The block grows into the free chunk behind it. -/
theorem Arena.reallocNext (a : Arena m₀ s h) (ops : KernelOps K) (pid : Nat) {z u k : Nat}
    (hp : h.live p = some (z, u, k)) (hn : h.size (h.next p) ≠ 0)
    (hfree : h.use (h.next p) = .free) (h8 : nb % 8 = 0) (hlt : z < nb)
    (hle : nb ≤ z + h.size (h.next p)) :
    wp (unlink (h.next p)) (fun _ s₁ =>
      wp (reallocSplit ops pid nb p (z + h.size (h.next p))) (fun mem s' => mem = p + 8 ∧
        ∃ n h', nb ≤ n + 4 ∧ Refitted s h p n (z - 4) (s.mstates (h.owner u)).label (· = p + 8)
          s' h') E s₁) E { s with locked := true } := by
  have hz := (a.live_bounds hp).2.2.2.2.2
  obtain ⟨hsize, huse, rfl, rfl, -⟩ := Heap.live_eq_some.mp hp
  obtain ⟨ag, hlive, hothers⟩ := a.forChunk hp (n := h.size p - 4) (by omega)
  have hkeep := (Heap.live_eq_some.mp hlive).2.2.2.2
  have hnone : h.live (h.next p) = none :=
    Heap.live_eq_none.mpr (fun _ => by rw [hfree]; decide)
  refine ag.rep.fuseFree ag.settled hsize huse hn hfree (fun s₁ h₁ hf r hfused => ?_)
  have hst : Stage s h s₁ h₁ p (· = p + 8) := by
    refine ⟨hf, r, hfused.resizing, hfused.base, hfused.owner, fun q hq hne => ?_,
      fun q hq hfast => hfused.wasFast q hq hfast⟩
    have hqp : q ≠ p := fun heq => hq (by rw [heq])
    have hqn : q ≠ h.next p := fun heq => hne (heq ▸ hnone)
    rw [hfused.live, Function.update_of_ne hqp]
    exact (Function.update_of_ne hqn _ _).trans (hothers q hqp)
  have hsum : h₁.size p = h.size p + h.size (h.next p) := hfused.size
  have hkeep₁ : h₁.keep p = h.size p - 4 := hfused.keep.trans hkeep
  have hunit₁ : h₁.unit p = h.unit p := hfused.unit
  have hb := a.rep.body.tidy.tiling.bounds hsize
  -- a free chunk does not end at the fencepost
  have hbehind := (a.rep.body.tidy.flags.free hn hfree).1
  obtain ⟨hclear, hsame⟩ := a.rep.body.tidy.tiling.unit_next hn hbehind
  obtain ⟨-, hunitn⟩ := a.rep.body.tidy.tiling.unit_next hsize hn
  have hsplit := hst.reallocSplit a ops pid rfl (show 16 ≤ nb by omega) h8 (E := E)
    (by rw [hsum]; exact hle) (by omega) (by
      intro _
      rw [hunit₁, Heap.next, hsum, Heap.fence, hfused.base]
      rw [hunitn] at hclear
      unfold Heap.next Heap.fence at hclear
      rw [Nat.add_assoc] at hclear
      exact hclear)
  rw [hsum, hkeep₁, hunit₁] at hsplit
  exact hsplit

/-! ### Moving -/

/-- Copying into a block. -/
theorem Owns.copy {n len : Nat} (hnew : Owns s₁ h₁ ⟨mem, n, L⟩) (a : Arena m₀ s₁ h₁)
    (src : Nat) (hn : len ≤ n) :
    Carries s₁ h₁ { s₁ with mem := s₁.mem.copy mem src len } (h₁.guard (mem - 8)) (· = mem) ∧
      Owns { s₁ with mem := s₁.mem.copy mem src len } (h₁.guard (mem - 8)) ⟨mem, n, L⟩ := by
  refine hnew.carries_write a (m := s₁.mem.copy mem src len) (fun y hy => ?_)
  dsimp only at hy
  simp only [Mem.copy]
  rw [if_neg (by omega)]

/-- The unit of a mapped block that is released was there before the request. -/
theorem Supplied.between {b : Nat} (hs : Supplied P s h b L mem s₁ h₁) (a : Arena m₀ s h)
    (hg : Owns s h g) {m : Mem} {h₂ : Heap} (hbase : h₂.base = h₁.base)
    (hfreed : Freed { s₁ with mem := m } h₂ g.mem s' h') : Between s { s₁ with mem := m } s' := by
  intro y hy hy'
  refine (hfreed.units y hy').resolve_right ?_
  rintro ⟨u, hu, hu0, hmem, hlo, hhi⟩
  rw [hbase] at hu0
  have hlarge := (hs.carries.arena.lone u hu hu0).large
  have hlone : Owns s₁ h₁ ⟨g.mem, (s₁.units u).length - 8, _⟩ :=
    .lone u hu hu0 hmem (Nat.sub_add_cancel (by unfold unitSize at hlarge; omega)) rfl
  have hsame := hlone.unique (hs.carries.owns g hg id) hs.carries.arena rfl
  have hbytes : (s₁.units u).length - 8 = g.bytes := congrArg Grant.bytes hsame
  obtain ⟨v, hv, hlo', hhi', -⟩ := hg.inside a
  have hout := hy.outside hv
  unfold unitSize at hlarge
  dsimp only at hmem hlo hhi
  omega

/-- The block was moved: requested, copied, released. -/
theorem Supplied.resized {b n : Nat} (hs : Supplied P s h b L mem s₁ h₁) (a : Arena m₀ s h)
    (hg : Owns s h g) (hmem : mem ≠ 0) (hnew : Owns s₁ h₁ ⟨mem, n, L⟩) (hn : g.bytes ≤ n)
    (hbytes : bytes ≤ n)
    (hfreed : Freed { s₁ with mem := s₁.mem.copy mem g.mem g.bytes } (h₁.guard (mem - 8)) g.mem
      s' h') : Resized s h g bytes L mem s' h' := by
  have hfresh := (hs.block hmem).2
  have hne := hfresh g hg
  obtain ⟨hw, hnew₂⟩ := hnew.copy hs.carries.arena g.mem hn
  have hsame := hfreed.carries.same _ hnew₂ (fun heq => hne heq.symm)
  refine ⟨?_, fun hzero => absurd hzero hmem, fun _ _ => hfreed.gone, fun _ => ⟨n, hbytes, ?_⟩,
    fun _ i hi _ => ?_, fun _ => hfresh⟩
  · have hwrite := hs.carries.write_new hfresh hw (fun _ _ hy => hy)
    have hbase : (h₁.guard (mem - 8)).base = h₁.base := rfl
    exact (hwrite.trans hfreed.carries (hs.between a hg hbase hfreed)).mono
      (fun _ hx => hx.resolve_left id)
  · exact hfreed.carries.owns _ hnew₂ (fun heq => hne heq.symm)
  · rw [hsame (mem + i) (by dsimp only; omega) (by dsimp only; omega)]
    simp only [Mem.copy]
    rw [if_pos (by omega), Nat.add_sub_cancel_left]
    exact hs.carries.same g hg id (g.mem + i) (by omega) (by omega)

/-- A write to another block leaves the header as it is. -/
theorem Owns.header_write (hg : Owns s h g) (a : Arena m₀ s h) {m m₁ : Mem} {q : Nat}
    (a' : Arena m₁ { s with mem := m } (h.guard q)) :
    m.load32 (ArbiterThread.mem2chunk g.mem + 4) =
      s.mem.load32 (ArbiterThread.mem2chunk g.mem + 4) := by
  have hchunk := hg.mem2chunk a
  cases hg with
  | chunk p z u k hmem hp _ _ =>
    obtain rfl : ArbiterThread.mem2chunk g.mem = p := by omega
    have hp' := Heap.guard_live h q (ArbiterThread.mem2chunk g.mem)
    rw [hp, Option.map_some] at hp'
    exact (a'.mem2chunk_live hp').2.trans (a.mem2chunk_live hp).2.symm
  | lone u hu hu0 hmem _ _ =>
    have haddr : ArbiterThread.mem2chunk g.mem = (s.units u).addr := by omega
    rw [haddr]
    exact (a'.lone u hu hu0).head.trans (a.lone u hu hu0).head.symm

/-- The old block is released after its contents were copied to the new one. -/
theorem Supplied.moveFree {b n : Nat} (hs : Supplied P s h b L mem s₁ h₁) (a : Arena m₀ s h)
    (hg : Owns s h g) (ops : KernelOps K) (pid : Nat) (hmem : mem ≠ 0)
    (hnew : Owns s₁ h₁ ⟨mem, n, L⟩) (hn : g.bytes ≤ n) (hbytes : bytes ≤ n)
    (hok : ¬ AtFence s₁ g.mem)
    (hE : Safe (FreeGranted ops pid s₁ g.mem) E) :
    wp (ablibFree ops pid g.mem) (fun _ s' => ∃ h', Resized s h g bytes L mem s' h') E
      { s₁ with mem := s₁.mem.copy mem g.mem g.bytes } := by
  have a₁ := hs.carries.arena
  have hg₁ := hs.carries.owns g hg id
  obtain ⟨hw, -⟩ := hnew.copy a₁ g.mem hn
  have hg₂ := hw.owns g hg₁ ((hs.block hmem).2 g hg)
  have hheader := hg₁.header_write a₁ hw.arena
  refine wp_imp (hw.arena.ablibFree ops pid hg₂ (fun hfence => hok ?_)
    (hE.mono (fun hgrant => ?_)) (E := E)) (fun _ s' h₂ => ?_)
  · unfold AtFence at hfence ⊢
    rwa [hheader] at hfence
  · unfold FreeGranted at hgrant ⊢
    rwa [hheader]
  · obtain ⟨h', hfreed⟩ := h₂
    exact ⟨h', hs.resized a hg hmem hnew hn hbytes hfreed⟩

/-- The new chunk is the one behind the old, and both are joined. -/
theorem Arena.reallocJoin (a : Arena m₀ s h) (ops : KernelOps K) (pid : Nat) {z u k z' u' k' : Nat}
    (hp : h.live p = some (z, u, k)) (hq : h.live (h.next p) = some (z', u', k'))
    (h8 : nb % 8 = 0) (hlt : z < nb) (hle : nb ≤ z') (hend : ¬ AtFence s (h.next p + 8)) :
    wp (reallocSplit ops pid nb p (z + z')) (fun mem s' => mem = p + 8 ∧
      ∃ n h', nb ≤ n + 4 ∧ Refitted s h p n (z - 4) (s.mstates (h.owner u)).label
        (fun mem => mem = p + 8 ∨ mem = h.next p + 8) s' h') E { s with locked := true } := by
  have hz := (a.live_bounds hp).2.2.2.2.2
  rw [a.atFence_iff hq] at hend
  obtain ⟨hsize, huse, rfl, rfl, -⟩ := Heap.live_eq_some.mp hp
  obtain ⟨hn, hnuse, rfl, rfl, -⟩ := Heap.live_eq_some.mp hq
  obtain ⟨-, hunitn⟩ := a.rep.body.tidy.tiling.unit_next hsize hn
  have ag : Arena s.mem { s with locked := true } (h.guard (h.next p)) :=
    (a.guard (h.next p)).outer rfl
  have hkeep : (h.guard (h.next p)).keep p = h.size p - 4 :=
    if_pos ⟨huse, (Heap.next_ne hsize).symm⟩
  -- the new chunk loses its contents, the old one keeps all of its bytes
  have hfused := ag.rep.body.fused (ag.settled.mono (fun _ hX => hX.elim)) hsize huse
    (by change h.use (h.next p) ≠ _; rw [hnuse]; decide)
  have hst : Stage s h { s with locked := true } ((h.guard (h.next p)).fuse p) p
      (fun mem => mem = p + 8 ∨ mem = h.next p + 8) := by
    refine ⟨Frame.refl _, ag.rep.fuse hsize huse hn ?_, hfused.resizing, rfl, rfl,
      fun q hq' hne => ?_, fun q hq' hfast => hfused.wasFast q hq' hfast⟩
    · change h.use (h.next p) ≠ _ ∧ h.use (h.next p) ≠ _
      rw [hnuse]
      decide
    · have hqp : q ≠ p := fun heq => hq' (.inl (by rw [heq]))
      have hqn : q ≠ h.next p := fun heq => hq' (.inr (by rw [heq]))
      have hq0 : q ≠ 0 := fun heq => hne (heq ▸ a.live_zero)
      rw [hfused.live, Function.update_of_ne hqp]
      refine (Function.update_of_ne hqn _ _).trans ?_
      rw [Heap.guard_live, Heap.guard_live]
      simp only [hqn, hq0, if_false]
  have hsum : ((h.guard (h.next p)).fuse p).size p = h.size p + h.size (h.next p) := hfused.size
  have hkeep' : ((h.guard (h.next p)).fuse p).keep p = h.size p - 4 := hkeep
  have hsplit := hst.reallocSplit a ops pid (.inl rfl) (show 16 ≤ nb by omega) h8 (E := E)
    (by rw [hsum]; omega) (by omega) (by
      intro _
      rw [Heap.next, hsum]
      rw [hunitn] at hend
      unfold Heap.next at hend
      rw [Nat.add_assoc] at hend
      exact hend)
  rw [hsum, hkeep'] at hsplit
  exact hsplit

/-- A block whose room is that of a chunk is one. -/
theorem Owns.chunk_of (hg : Owns s h g) (a : Arena m₀ s h) (hmem : g.mem = p + 8)
    (h8 : (g.bytes + 4) % 8 = 0) :
    ∃ u k, h.live p = some (g.bytes + 4, u, k) ∧ (s.mstates (h.owner u)).label = g.label := by
  cases hg with
  | chunk q z u k hmem' hq hroom hlabel =>
    obtain rfl : q = p := by omega
    rw [hroom]
    exact ⟨u, k, hq, hlabel⟩
  | lone u hu hu0 hmem' hroom hlabel =>
    have hwhole := (a.lone u hu hu0).whole
    omega

theorem request2size_moved (hnb : 16 ≤ nb) (h8 : nb % 8 = 0) : request2size (nb - 7) = nb := by
  unfold request2size minSize
  split_ifs <;> omega

/-- No new block was found, and the old one is kept. -/
theorem Supplied.kept {b : Nat} (hs : Supplied P s h b L 0 s₁ h₁) (hg : Owns s h g)
    (hbytes : bytes ≠ 0) : Resized s h g bytes L 0 s₁ h₁ :=
  ⟨hs.carries.mono (fun _ hx => hx.elim),
    fun _ _ => ⟨hs.carries.owns g hg id, hs.carries.same g hg id⟩,
    fun hcases => absurd rfl (hcases.resolve_right hbytes), fun hne => absurd rfl hne,
    fun hne => absurd rfl hne, fun _ g' hg' hmem => by
      have hchannel := (hs.carries.owns g' hg' id).channel hs.carries.arena
      unfold channelAddr at hchannel
      omega⟩

/-- The block was joined with the new one. -/
theorem Supplied.joined {b n k mem' : Nat} (hs : Supplied P s h b L mem s₁ h₁) (hg : Owns s h g)
    (hmem : mem ≠ 0) (hgmem : g.mem = p + 8)
    (hr : Refitted s₁ h₁ p n k L (fun m => m = p + 8 ∨ m = mem) s' h')
    (hbytes : bytes ≤ n) (hk : k = g.bytes) (hmem' : mem' = p + 8) :
    Resized s h g bytes L mem' s' h' := by
  subst hmem'
  have hfresh := (hs.block hmem).2
  have hx : ∀ g', Owns s h g' → g'.mem ≠ g.mem → ¬ (g'.mem = p + 8 ∨ g'.mem = mem) := by
    rintro g' hg' hne (heq | heq)
    · exact hne (heq.trans hgmem.symm)
    · exact hfresh g' hg' heq
  have hc : Carries s h s' h' (· = g.mem) := by
    refine ⟨hr.carries.arena, fun g' hg' hne => ?_, fun g' hg' hne y hlo hhi => ?_,
      hs.carries.vacant.trans hr.carries.vacant (fun y _ hy => hr.units y hy),
      fun hc => hr.carries.counts (hs.carries.counts hc)⟩
    · exact hr.carries.owns g' (hs.carries.owns g' hg' id) (hx g' hg' hne)
    · rw [hr.carries.same g' (hs.carries.owns g' hg' id) (hx g' hg' hne) y hlo hhi]
      exact hs.carries.same g' hg' id y hlo hhi
  have hsame : s.mem.Agree s'.mem (p + 8) (p + 8 + k) := by
    intro y hlo hhi
    rw [hr.same y hlo hhi]
    exact hs.carries.same g hg id y (by omega) (by omega)
  exact hc.resized hgmem hr.block hsame hbytes (fun i hi _ => by omega)

/-- The chunk behind a chunk in use, if a block begins there. -/
theorem Owns.behind {n z u k : Nat} (hnew : Owns s h ⟨mem, n, L⟩) (a : Arena m₀ s h)
    (hp : h.live p = some (z, u, k)) (hnext : ArbiterThread.mem2chunk mem = h.next p) :
    mem = h.next p + 8 ∧ (s.mstates (h.owner u)).label = L ∧
      ∃ k', h.live (h.next p) = some (n + 4, u, k') := by
  have hchunk := hnew.mem2chunk a
  obtain ⟨hsize, -, hz, hu, -⟩ := Heap.live_eq_some.mp hp
  cases hnew with
  | lone v hv hv0 hmem _ _ =>
    -- nothing else is mapped where a unit cut into chunks is
    have happart := a.chunk_lone hp hv hv0
    have hlarge := (a.lone v hv hv0).large
    unfold Heap.next at hnext
    unfold unitSize at hlarge
    dsimp only at hmem hchunk
    omega
  | chunk q z' u' k' hmem hq hroom hlabel =>
    dsimp only at hmem hroom hchunk hlabel
    obtain rfl : q = h.next p := by omega
    obtain ⟨hqsize, -, -, hu', -⟩ := Heap.live_eq_some.mp hq
    obtain rfl : u' = u := by
      rw [← hu', ← hu]
      exact (a.rep.body.tidy.tiling.unit_next hsize hqsize).2
    rw [hroom]
    exact ⟨hmem, hlabel, k', hq⟩

/-- The new chunk is the one behind the old one. -/
theorem Supplied.reallocBehind {b n u k : Nat} (hs : Supplied P s h b L mem s₁ h₁)
    (hg : Owns s h g) (ops : KernelOps K) (pid : Nat) (hmem : mem ≠ 0)
    (hnew : Owns s₁ h₁ ⟨mem, n, L⟩) (hp : h₁.live p = some (g.bytes + 4, u, k))
    (hgmem : g.mem = p + 8) (hnext : ArbiterThread.mem2chunk mem = h₁.next p) (h8 : nb % 8 = 0)
    (hlt : g.bytes + 4 < nb) (hn : nb ≤ n + 4) (hbytes : bytes + 4 ≤ nb)
    (hend : ¬ AtFence s₁ mem) :
    wp (reallocSplit ops pid nb p ((sizeOfHead (s₁.mem.load32 (ArbiterThread.mem2chunk mem + 4)) +
      (g.bytes + 4)) % wordSize)) (fun m s' => m ≠ 0 ∧ ∃ h', Resized s h g bytes L m s' h') E
      { s₁ with locked := true } := by
  have a₁ := hs.carries.arena
  obtain ⟨hmem', hlabel, k', hq⟩ := hnew.behind a₁ hp hnext
  have hsum : (sizeOfHead (s₁.mem.load32 (ArbiterThread.mem2chunk mem + 4)) + (g.bytes + 4)) %
      wordSize = g.bytes + 4 + (n + 4) := by
    obtain ⟨hqsize, -, hqsz, -⟩ := Heap.live_eq_some.mp hq
    have hb := a₁.rep.body.tidy.tiling.bounds hqsize
    rw [hnext, (a₁.mem2chunk_live hq).2, a₁.rep.body.tidy.tiling.sizeOfHead hqsize, hqsz]
    unfold wordSize
    omega
  rw [hsum]
  refine wp_imp (a₁.reallocJoin ops pid hp hq h8 hlt hn (by rwa [← hmem']) (E := E))
    (fun m s' hpost => ?_)
  obtain ⟨rfl, n', h', hn', hr⟩ := hpost
  rw [hlabel, ← hmem'] at hr
  exact ⟨by omega, h', hs.joined hg hmem hgmem hr (by omega) (Nat.add_sub_cancel ..) rfl⟩

/-- The new chunk is elsewhere. -/
theorem Supplied.reallocAway {b n u k : Nat} (hs : Supplied P s h b L mem s₁ h₁)
    (a : Arena m₀ s h) (hg : Owns s h g) (ops : KernelOps K) (pid : Nat) (hmem : mem ≠ 0)
    (hnew : Owns s₁ h₁ ⟨mem, n, L⟩) (hp : h₁.live p = some (g.bytes + 4, u, k))
    (hgmem : g.mem = p + 8) (h8 : (g.bytes + 4) % 8 = 0) (hfree : s₁.locked = false)
    (hn : g.bytes ≤ n) (hbytes : bytes ≤ n) (hend : ¬ AtFence s₁ g.mem) :
    wp (do
        copyBlock mem g.mem (g.bytes + 4)
        mallocUnlock
        ArbiterThread.ablibFree ops pid g.mem
        pure (chunk2mem (ArbiterThread.mem2chunk mem)))
      (fun m s' => m ≠ 0 ∧ ∃ h', Resized s h g bytes L m s' h') E { s₁ with locked := true } := by
  have a₁ := hs.carries.arena
  have hg₁ := hs.carries.owns g hg id
  have hdisj := hg₁.disjoint hnew a₁ ((hs.block hmem).2 g hg)
  have hgchannel := hg₁.channel a₁
  have hchannel := hnew.channel a₁
  have hz := (a₁.live_bounds hp).2.2.2.2.2
  have hchunk := hnew.mem2chunk a₁
  dsimp only at hdisj hchannel hchunk
  -- the address goes to the chunk and back
  have hback : chunk2mem (ArbiterThread.mem2chunk mem) = mem := by
    simp only [channelEnd, channelAddr, channelSize] at hchannel
    unfold chunk2mem wordSize
    omega
  rw [wp_bind]
  refine wp_copyBlock h8 (by omega) (by omega) (by omega) (by omega) (by omega) (by omega) ?_
  rw [wp_bind, wp_mallocUnlock, if_pos rfl, wp_bind, hback]
  change wp _ _ E { s₁ with mem := s₁.mem.copy mem g.mem g.bytes, locked := false }
  rw [← hfree]
  refine wp_imp (hs.moveFree a hg ops pid hmem hnew hn hbytes hend
    (.inl (hgmem ▸ a₁.freeGranted hp ops pid hfree)) (E := E)) (fun _ s' hpost => ?_)
  rw [wp_pure]
  exact ⟨hmem, hpost⟩

/-- A chunk whose block has to move. -/
theorem Arena.reallocCopy (a : Arena m₀ s h) (ops : KernelOps K) (pid : Nat)
    (hP : ∀ nb av s, P nb av s → RoomFor ops pid nb av s) {z u k : Nat}
    (hp : h.live p = some (z, u, k)) (hunlocked : s.locked = false) (hbytes : bytes ≠ 0)
    (hlt : z < request2size bytes) (hok : MoveOk ops pid P (p + 8) (request2size bytes) L s)
    (hE : Safe (RequestGranted ops pid (request2size bytes - 7) L s) E) :
    wp (ArbiterThread.reallocCopy ops pid (p + 8) (request2size bytes) p z (h.next p) L)
      (fun mem s' => (mem ≠ 0 ↔ GetsBlock (request2size bytes - 7) L s) ∧
        ∃ h', Resized s h ⟨p + 8, z - 4, (s.mstates (h.owner u)).label⟩ bytes L mem s' h') E
      { s with locked := true } := by
  obtain ⟨hmin, h8, hroom, -⟩ := request2size_spec bytes
  set nb := request2size bytes with hnb
  set g : Grant := ⟨p + 8, z - 4, (s.mstates (h.owner u)).label⟩ with hgdef
  have hz := (a.live_bounds hp).2.2.2.2.2
  obtain ⟨hchunk, hhead⟩ := a.mem2chunk_live hp
  obtain ⟨hsize, -, hsz, -⟩ := Heap.live_eq_some.mp hp
  have hz8 := (a.rep.body.tidy.tiling.shape hsize).2.1
  have hgz : g.bytes + 4 = z := Nat.sub_add_cancel (by omega)
  have hg : Owns s h g := .chunk p z u k rfl hp hgz rfl
  obtain ⟨hreq, hrelease⟩ := hok
  rw [hchunk, hhead, a.rep.body.tidy.tiling.sizeOfHead hsize, a.rep.body.chunkAtOffset hsize]
    at hrelease
  unfold ArbiterThread.reallocCopy
  rw [wp_bind, wp_mallocUnlock, if_pos rfl]
  change wp _ _ E { s with locked := false }
  rw [← hunlocked, wp_bind]
  refine wp_mono (wp_and (a.ablibMalloc ops pid hP hreq hE)
    (wp_and (a.ablibMalloc_gets ops pid hP (by omega) hreq) hrelease)) (fun newmem s₁ hpost => ?_)
    (fun _ _ he => he.1)
  obtain ⟨⟨h₁, hs⟩, hgets, hfence⟩ := hpost
  have hlocked : s₁.locked = true → requestOutOfRange (nb - 7) := fun hcon =>
    (hs.locked hcon).resolve_left (by rw [hunlocked]; decide)
  rw [wp_ite]
  by_cases hzero : newmem = 0
  · rw [if_pos hzero, wp_pure]
    subst hzero
    exact ⟨hgets, h₁, hs.kept hg hbytes⟩
  have hfence := hfence hzero
  have hgets := hgets.mp hzero
  obtain ⟨⟨n, hn, hnew⟩, -⟩ := hs.block hzero
  rw [request2size_moved hmin h8] at hn
  have a₁ := hs.carries.arena
  have hchannel := hnew.channel a₁
  have hfree : s₁.locked = false := by
    rw [← Bool.not_eq_true]
    exact fun hcon => hgets.1 (hlocked hcon)
  rw [if_neg hzero, wp_bind, wp_mallocLock, if_neg (by rw [hfree]; decide), wp_bind]
  have hnewchunk := hnew.mem2chunk a₁
  dsimp only at hnewchunk hchannel
  unfold chunksize headOf
  rw [wp_bind]
  refine wp_load_mapped (mapped_channel (by omega) (by omega)) ?_
  rw [wp_pure]
  -- the old block is a chunk still
  obtain ⟨u₁, k₁, hp₁, hlabel⟩ := (hs.carries.owns g hg id).chunk_of a₁ (p := p) rfl (by omega)
  have hnext : h.next p = h₁.next p := by
    obtain ⟨-, -, hsz₁, -⟩ := Heap.live_eq_some.mp hp₁
    unfold Heap.next
    omega
  rw [hnext] at hfence ⊢
  have hdone : ∀ m s', m ≠ 0 ∧ (∃ h', Resized s h g bytes L m s' h') →
      (m ≠ 0 ↔ GetsBlock (nb - 7) L s) ∧ ∃ h', Resized s h g bytes L m s' h' :=
    fun m s' hpost => ⟨⟨fun _ => hgets, fun _ => hpost.1⟩, hpost.2⟩
  rw [← hgz]
  by_cases hjoin : mem2chunk newmem = h₁.next p
  · rw [if_pos hjoin] at hfence ⊢
    exact wp_imp (hs.reallocBehind hg ops pid hzero hnew hp₁ rfl hjoin h8 (by omega) hn
      (by omega) hfence (E := E)) hdone
  · rw [if_neg hjoin] at hfence ⊢
    exact wp_imp (hs.reallocAway a hg ops pid hzero hnew hp₁ rfl (by omega) hfree (by omega)
      (by omega) hfence (E := E)) hdone

/-- A mapped block is large enough. -/
theorem Arena.reallocStay (a : Arena m₀ s h) (hg : Owns s h g) (hbytes : bytes ≤ g.bytes) :
    Resized s h g bytes g.label g.mem s h := by
  have hchannel := hg.channel a
  unfold channelAddr at hchannel
  exact ⟨Carries.refl a.fresh _, fun hzero => absurd hzero (by omega),
    fun _ hne => absurd rfl hne, fun _ => ⟨g.bytes, hbytes, hg⟩, fun _ _ _ _ => rfl,
    fun hne => absurd rfl hne⟩

/-- When a mapped block has to move. -/
theorem Arena.reallocMoves_lone (a : Arena m₀ s h) {u : Nat} (hu : u ∈ s.ustateList)
    (hu0 : h.base u = 0) (nb : Nat) :
    reallocMoves s u ((s.units u).addr + 8) nb ↔
      (s.units u).length ≠ ((nb + 0 + 4 + (4096 - 1)) % wordSize / 4096 * 4096 +
        (wordSize - 0)) % wordSize ∧ (s.units u).length < nb + 4 := by
  have hlone := a.lone u hu hu0
  unfold reallocMoves
  dsimp only
  rw [(a.unitAt_lone hu hu0).2, hlone.head, if_pos hlone.head_spec.1, hlone.head_spec.2,
    hlone.offset, (a.ready _ (a.owned u hu)).2.1]

/-- A mapped block that has to move. -/
theorem Arena.reallocRemap (a : Arena m₀ s h) (ops : KernelOps K) (pid : Nat)
    (hP : ∀ nb av s, P nb av s → RoomFor ops pid nb av s) (hg : Owns s h g)
    (hwhole : (g.bytes + 8) % 4096 = 0) (hunlocked : s.locked = false) (hbytes : bytes ≠ 0)
    (hlt : g.bytes + 4 < request2size bytes)
    (hok : MoveOk ops pid P g.mem (request2size bytes) L s)
    (hE : Safe (RequestGranted ops pid (request2size bytes - 7) L s ∧
      wp (ArbiterThread.ablibMalloc ops pid (request2size bytes - 7) L)
        (fun mem s' => mem ≠ 0 → FreeGranted ops pid s' g.mem) (fun _ _ => True) s) E) :
    wp (do
        mallocUnlock
        let newmem ← ArbiterThread.ablibMalloc ops pid (request2size bytes - 7) L
        if newmem ≠ 0 then do
          copyBytes newmem g.mem ((g.bytes + 8 + (wordSize - 8)) % wordSize)
          ArbiterThread.ablibFree ops pid g.mem
          pure newmem
        else pure newmem)
      (fun mem s' => (mem ≠ 0 ↔ GetsBlock (request2size bytes - 7) L s) ∧
        ∃ h', Resized s h g bytes L mem s' h') E { s with locked := true } := by
  obtain ⟨hmin, h8, hpad, -⟩ := request2size_spec bytes
  rw [wp_bind, wp_mallocUnlock, if_pos rfl]
  change wp _ _ E { s with locked := false }
  rw [← hunlocked, wp_bind]
  refine wp_mono (wp_and (a.ablibMalloc ops pid hP hok.1 (hE.mono (·.1)))
    (wp_and (a.ablibMalloc_gets ops pid hP (by omega) hok.1) (hE.mono (·.2)).wp))
    (fun newmem s₁ hpost => ?_) (fun _ _ he => he.1)
  obtain ⟨⟨h₁, hs⟩, hgets, hgrant⟩ := hpost
  rw [wp_ite]
  -- without a new block the old one is kept
  by_cases hzero : newmem ≠ 0
  swap
  · rw [if_neg hzero, wp_pure]
    rw [not_not] at hzero
    subst hzero
    exact ⟨hgets, h₁, hs.kept hg hbytes⟩
  rw [if_pos hzero, wp_bind]
  have a₁ := hs.carries.arena
  obtain ⟨⟨n, hn, hnew⟩, -⟩ := hs.block hzero
  rw [request2size_moved hmin h8] at hn
  have hg₁ := hs.carries.owns g hg id
  have hchannel := hnew.channel a₁
  have hgchannel := hg₁.channel a₁
  have hlength : (g.bytes + 8 + (wordSize - 8)) % wordSize = g.bytes := by
    simp only [channelEnd, channelAddr, channelSize] at hgchannel
    unfold wordSize
    omega
  dsimp only at hchannel
  rw [hlength]
  refine wp_copyBytes (by omega) (by omega) (by omega) (by omega) (by omega) ?_
  rw [wp_bind]
  refine wp_imp (hs.moveFree a hg ops pid hzero hnew (by omega) (show bytes ≤ n by omega)
    (hg₁.not_atFence a₁ (by omega)) (hgrant.mono (fun hC => hC hzero)) (E := E))
    (fun _ s' hpost => ?_)
  rw [wp_pure]
  exact ⟨hgets, hpost⟩

/-- A mapped block stays in its pages, or has to move. -/
theorem Arena.reallocMmapped (a : Arena m₀ s h) (ops : KernelOps K) (pid : Nat)
    (hP : ∀ nb av s, P nb av s → RoomFor ops pid nb av s) {u : Nat} (hu : u ∈ s.ustateList)
    (hu0 : h.base u = 0) (hg : Owns s h g) (hmem : g.mem = (s.units u).addr + 8)
    (hroom : g.bytes + 8 = (s.units u).length) (hunlocked : s.locked = false) (hbytes : bytes ≠ 0)
    (hrange : ¬ requestOutOfRange bytes)
    (hok : reallocMoves s u g.mem (request2size bytes) →
      MoveOk ops pid P g.mem (request2size bytes) L s)
    (hE : Safe (reallocMoves s u g.mem (request2size bytes) →
      RequestGranted ops pid (request2size bytes - 7) L s ∧
        wp (ArbiterThread.ablibMalloc ops pid (request2size bytes - 7) L)
          (fun mem s' => mem ≠ 0 → FreeGranted ops pid s' g.mem) (fun _ _ => True) s) E) :
    wp (ArbiterThread.reallocMmapped ops pid g.mem (request2size bytes) (s.units u).unitAv
      (s.units u).addr (s.units u).length L)
      (fun mem s' => (reallocMoves s u g.mem (request2size bytes) →
          (mem ≠ 0 ↔ GetsBlock (request2size bytes - 7) L s)) ∧ ∃ h', Resized s h g bytes
        (if reallocMoves s u g.mem (request2size bytes) then L else g.label) mem s' h') E
      { s with locked := true } := by
  obtain ⟨-, -, hpad, hmax⟩ := request2size_spec bytes
  have hlone := a.lone u hu hu0
  have hlarge := hlone.large
  have hwhole := hlone.whole
  have hlower := hlone.lower
  have hbounded := a.rep.body.tracks.bounded u hu
  have hmoves := a.reallocMoves_lone hu hu0 (request2size bytes)
  rw [← hmem] at hmoves
  unfold requestOutOfRange at hrange
  simp only [unitSize, channelAddr] at hlarge hlower
  unfold ArbiterThread.reallocMmapped prevSize
  rw [wp_bind]
  refine wp_load_mapped (mapped_channel ?_ ?_) ?_
  · unfold channelAddr
    omega
  · simp only [channelEnd, channelAddr, channelSize]
    omega
  rw [wp_bind, wp_getMstate]
  change wp (if (s.units u).length = ((request2size bytes + s.mem.load32 (s.units u).addr + 4 +
    ((s.mstates (s.units u).unitAv).pagesize - 1)) % wordSize /
      (s.mstates (s.units u).unitAv).pagesize * (s.mstates (s.units u).unitAv).pagesize +
    (wordSize - s.mem.load32 (s.units u).addr)) % wordSize then _ else _) _ E _
  rw [hlone.offset, (a.ready _ (a.owned u hu)).2.1]
  -- where it is, the block needs neither a new label nor a byte changed
  have hstay : ¬ reallocMoves s u g.mem (request2size bytes) → bytes ≤ g.bytes →
      wp (mallocUnlock >>= fun _ => pure g.mem) (fun mem s' =>
        (reallocMoves s u g.mem (request2size bytes) →
          (mem ≠ 0 ↔ GetsBlock (request2size bytes - 7) L s)) ∧ ∃ h', Resized s h g bytes
        (if reallocMoves s u g.mem (request2size bytes) then L else g.label) mem s' h') E
        { s with locked := true } := by
    intro hno hfit
    rw [wp_bind, wp_mallocUnlock, if_pos rfl, wp_pure, if_neg hno]
    change _ ∧ ∃ h', Resized s h g bytes g.label g.mem { s with locked := false } h'
    rw [← hunlocked]
    exact ⟨fun hC => absurd hC hno, h, a.reallocStay hg hfit⟩
  -- as many pages as before
  by_cases hpages : (s.units u).length = ((request2size bytes + 0 + 4 + (4096 - 1)) % wordSize /
      4096 * 4096 + (wordSize - 0)) % wordSize
  · rw [if_pos hpages]
    refine hstay (fun hC => (hmoves.mp hC).1 hpages) ?_
    unfold wordSize at hpages
    omega
  rw [if_neg hpages]
  -- fewer pages, which are not given back
  by_cases hfits : request2size bytes + 4 ≤ (s.units u).length
  · rw [if_pos hfits]
    exact hstay (fun hC => by have := (hmoves.mp hC).2; omega) (by omega)
  have hyes := hmoves.mpr ⟨hpages, by omega⟩
  rw [if_neg hfits, if_pos hyes, ← hroom]
  exact wp_imp (a.reallocRemap ops pid hP hg (by omega) hunlocked hbytes (by omega) (hok hyes)
    (hE.mono (fun hgrant => hgrant hyes)) (E := E)) (fun _ _ hpost => ⟨fun _ => hpost.1, hpost.2⟩)

/-- When a chunk that is too small has to move. -/
theorem Arena.reallocMoves_chunk (a : Arena m₀ s h) {z u k : Nat}
    (hp : h.live p = some (z, u, k)) (hlt : z < nb) :
    reallocMoves s u (p + 8) nb ↔
      ¬ (h.next p = (s.units u).unitTop ∧
        nb + minSize ≤ (z + sizeOfHead (s.mem.load32 (h.next p + 4))) % wordSize) ∧
      ¬ (h.next p ≠ (s.units u).unitTop ∧
        ¬ prevInuse (s.mem.load32 (chunkAtOffset (h.next p)
          (s.mem.load32 (h.next p + 4) / 2 * 2) + 4)) ∧
        nb ≤ (z + sizeOfHead (s.mem.load32 (h.next p + 4))) % wordSize) := by
  obtain ⟨hchunk, hhead⟩ := a.mem2chunk_live hp
  obtain ⟨hsize, -, rfl, -⟩ := Heap.live_eq_some.mp hp
  have t := a.rep.body.tidy.tiling
  unfold reallocMoves
  dsimp only
  rw [hchunk, hhead, if_neg (t.not_isMmapped hsize), t.sizeOfHead hsize,
    a.rep.body.chunkAtOffset hsize]
  exact ⟨fun hC => hC.2, fun hC => ⟨hlt, hC⟩⟩

/-- The code makes the unit top behind the block part of it. -/
theorem Arena.reallocIntoTop (a : Arena m₀ s h) {z u k : Nat} (hp : h.live p = some (z, u, k))
    (htop : h.next p = (s.units u).unitTop) (h8 : nb % 8 = 0) (hlt : z < nb)
    (hfits : nb + minSize ≤ (z + sizeOfHead (s.mem.load32 (h.next p + 4))) % wordSize) :
    wp (do
        setHeadSize p nb
        setUnitTop u (chunkAtOffset p nb)
        setHead (chunkAtOffset p nb)
          (withInuse ((z + sizeOfHead (s.mem.load32 (h.next p + 4))) % wordSize - nb))
        mallocUnlock
        pure (chunk2mem p))
      (fun mem s' => mem = p + 8 ∧ ∃ h', Refitted s h p (nb - 4) (z - 4)
        (s.mstates (h.owner u)).label (· = p + 8) s' h') E { s with locked := true } := by
  obtain ⟨htop', hvalue⟩ := a.next_top hp htop
  obtain ⟨hsize, -, hz, hunit, -⟩ := Heap.live_eq_some.mp hp
  have t := a.rep.body.tidy.tiling
  have hb := t.bounds hsize
  have hnext : h.next p = p + h.size p := rfl
  -- the unit top is not the fencepost, which is too small
  have hne : h.next p ≠ h.fence u := by
    intro heq
    rw [hvalue, if_pos heq] at hfits
    unfold minSize wordSize at hfits
    omega
  rw [if_neg hne] at hvalue
  have hn : h.size (h.next p) ≠ 0 := by
    rw [← hunit] at hne
    exact (t.follow hsize hne).1
  have hbn := t.bounds hn
  have hsum : (z + sizeOfHead (s.mem.load32 (h.next p + 4))) % wordSize =
      z + h.size (h.next p) := by
    rw [hvalue]
    unfold wordSize
    omega
  rw [hsum] at hfits ⊢
  have hoff : chunkAtOffset p nb = p + nb := by
    unfold chunkAtOffset wordSize
    unfold minSize at hfits
    omega
  rw [wp_bind, hoff, a.rep.body.chunk2mem hsize]
  refine wp_imp (a.reallocTop hp hn htop' h8 hlt hfits (E := E)) (fun _ s₁ hpost => ?_)
  rw [wp_bind]
  refine wp_imp hpost (fun _ s₂ hpost => ?_)
  rw [wp_bind]
  refine wp_imp hpost (fun _ s₃ hpost => ?_)
  obtain ⟨hlocked, h', hr⟩ := hpost
  rw [wp_bind, wp_mallocUnlock, if_pos hlocked, wp_pure]
  exact ⟨rfl, h', hr⟩

/-- A chunk that is too small grows into what is behind it, or has to move. -/
theorem Arena.reallocGrow (a : Arena m₀ s h) (ops : KernelOps K) (pid : Nat)
    (hP : ∀ nb av s, P nb av s → RoomFor ops pid nb av s) {z u k : Nat}
    (hp : h.live p = some (z, u, k)) (hunlocked : s.locked = false) (hbytes : bytes ≠ 0)
    (hlt : z < request2size bytes)
    (hok : reallocMoves s u (p + 8) (request2size bytes) →
      MoveOk ops pid P (p + 8) (request2size bytes) L s)
    (hE : Safe (reallocMoves s u (p + 8) (request2size bytes) →
      RequestGranted ops pid (request2size bytes - 7) L s) E) :
    wp (ArbiterThread.reallocGrow ops pid (p + 8) (request2size bytes) u p z L)
      (fun mem s' => (reallocMoves s u (p + 8) (request2size bytes) →
          (mem ≠ 0 ↔ GetsBlock (request2size bytes - 7) L s)) ∧
        ∃ h', Resized s h ⟨p + 8, z - 4, (s.mstates (h.owner u)).label⟩ bytes
        (if reallocMoves s u (p + 8) (request2size bytes) then L else (s.mstates (h.owner u)).label)
        mem s' h') E { s with locked := true } := by
  obtain ⟨hmin, h8, hpad, -⟩ := request2size_spec bytes
  have hmoves := a.reallocMoves_chunk hp hlt
  obtain ⟨hsize, -, hz, -⟩ := Heap.live_eq_some.mp hp
  have t := a.rep.body.tidy.tiling
  have hb := t.bounds hsize
  have hoff : chunkAtOffset p z = h.next p := hz ▸ a.rep.body.chunkAtOffset hsize
  have hthere : ∀ x, p ≤ x → x ≤ h.next p + 8 → mapped { s with locked := true } x :=
    fun x hlo hhi => a.rep.body.mapped hsize hlo hhi
  have hcopy : reallocMoves s u (p + 8) (request2size bytes) →
      wp (ArbiterThread.reallocCopy ops pid (p + 8) (request2size bytes) p z (h.next p) L)
        (fun mem s' => (reallocMoves s u (p + 8) (request2size bytes) →
            (mem ≠ 0 ↔ GetsBlock (request2size bytes - 7) L s)) ∧
          ∃ h', Resized s h ⟨p + 8, z - 4, (s.mstates (h.owner u)).label⟩ bytes
          (if reallocMoves s u (p + 8) (request2size bytes) then L
            else (s.mstates (h.owner u)).label) mem s' h') E { s with locked := true } := by
    intro hyes
    rw [if_pos hyes]
    exact wp_imp (a.reallocCopy ops pid hP hp hunlocked hbytes hlt (hok hyes)
      (hE.mono (fun hC => hC hyes))) (fun _ _ hpost => ⟨fun _ => hpost.1, hpost.2⟩)
  -- in place the block keeps its label
  have hstay : ∀ mem s', ¬ reallocMoves s u (p + 8) (request2size bytes) →
      (mem = p + 8 ∧ ∃ n h', request2size bytes ≤ n + 4 ∧ Refitted s h p n (z - 4)
        (s.mstates (h.owner u)).label (· = p + 8) s' h') →
      (reallocMoves s u (p + 8) (request2size bytes) →
        (mem ≠ 0 ↔ GetsBlock (request2size bytes - 7) L s)) ∧
      ∃ h', Resized s h ⟨p + 8, z - 4, (s.mstates (h.owner u)).label⟩ bytes
        (if reallocMoves s u (p + 8) (request2size bytes) then L
          else (s.mstates (h.owner u)).label) mem s' h' := by
    rintro _ s' hno ⟨rfl, n, h', hn, hr⟩
    rw [if_neg hno]
    exact ⟨fun hC => absurd hC hno, h', hr.resized rfl (by omega) (fun i hi _ => hi)⟩
  unfold ArbiterThread.reallocGrow
  rw [wp_bind, wp_getUnit, wp_bind]
  simp only [hoff]
  unfold chunksize headOf
  rw [wp_bind]
  refine wp_load_mapped (hthere _ (by unfold Heap.next; omega) (by omega)) ?_
  rw [wp_pure]
  change wp (if h.next p = (s.units u).unitTop ∧ request2size bytes + minSize ≤
    (z + sizeOfHead (s.mem.load32 (h.next p + 4))) % wordSize then _ else _) _ E _
  -- the unit top is behind it
  by_cases htop : h.next p = (s.units u).unitTop ∧ request2size bytes + minSize ≤
      (z + sizeOfHead (s.mem.load32 (h.next p + 4))) % wordSize
  · rw [if_pos htop]
    refine wp_imp (a.reallocIntoTop hp htop.1 h8 hlt htop.2 (E := E)) (fun mem s' hpost => ?_)
    obtain ⟨hmem, h', hr⟩ := hpost
    exact hstay mem s' (fun hC => (hmoves.mp hC).1 htop) ⟨hmem, _, h', by omega, hr⟩
  rw [if_neg htop]
  by_cases hnext : h.next p ≠ (s.units u).unitTop
  swap
  · rw [if_neg hnext]
    exact hcopy (hmoves.mpr ⟨htop, fun hC => hnext hC.1⟩)
  have hn := a.next_chunk hp hnext
  have hbn := t.bounds hn
  obtain ⟨hnhead, hnthere, hnfree⟩ := a.next_free hn
  have hsum : (z + sizeOfHead (s.mem.load32 (h.next p + 4))) % wordSize =
      z + h.size (h.next p) := by
    rw [hnhead, t.sizeOfHead hn]
    unfold wordSize
    omega
  rw [if_pos hnext, wp_bind]
  unfold inuse inuseBitAtOffset headOf
  rw [wp_bind]
  refine wp_load_mapped (hthere _ (by unfold Heap.next; omega) (by omega)) ?_
  rw [wp_bind]
  refine wp_load_mapped hnthere ?_
  rw [wp_pure]
  dsimp only
  rw [hsum] at hmoves htop ⊢
  -- a chunk is behind it, which has to be free and large enough
  split
  · rename_i hboth
    rw [decide_eq_true_eq] at hboth
    rw [wp_bind]
    refine wp_imp (a.reallocNext ops pid hp hn (hnfree hboth.1) h8 hlt hboth.2 (E := E))
      (fun _ s₁ hpost => ?_)
    exact wp_imp hpost (fun mem s' hpost =>
      hstay mem s' (fun hC => (hmoves.mp hC).2 ⟨hnext, hboth⟩) hpost)
  · rename_i hboth
    rw [decide_eq_true_eq] at hboth
    exact hcopy (hmoves.mpr ⟨htop, fun hC => hboth hC.2⟩)

/-- A block is a chunk, or has a mapped unit of its own. -/
theorem Owns.kind (hg : Owns s h g) (a : Arena m₀ s h) :
    ∃ u, unitAt s g.mem = some u ∧
      ((∃ p z k, h.live p = some (z, u, k) ∧
          g = ⟨p + 8, z - 4, (s.mstates (h.owner u)).label⟩) ∨
        (u ∈ s.ustateList ∧ h.base u = 0 ∧ g.mem = (s.units u).addr + 8 ∧
          g.bytes + 8 = (s.units u).length)) := by
  cases hg with
  | chunk p z u k hmem hp hroom hlabel =>
    refine ⟨u, ?_, .inl ⟨p, z, k, hp, ?_⟩⟩
    · rw [hmem]
      exact a.unitAt_live hp
    · obtain ⟨mem, bytes, label⟩ := g
      dsimp only at hmem hroom hlabel
      rw [hmem, ← hroom, hlabel, Nat.add_sub_cancel]
  | lone u hu hu0 hmem hroom hlabel =>
    refine ⟨u, ?_, .inr ⟨hu, hu0, hmem, hroom⟩⟩
    rw [hmem]
    exact (a.unitAt_lone hu hu0).1

/-- A call for a block there is. One that has to move does if the request gets a block. -/
theorem Arena.ablibRealloc (a : Arena m₀ s h) (ops : KernelOps K) (pid : Nat)
    (hP : ∀ nb av s, P nb av s → RoomFor ops pid nb av s) (hg : Owns s h g)
    (hok : ResizeOk ops pid P g.mem bytes L s)
    (hE : Safe (ResizeGranted ops pid g.mem bytes L s) E) :
    wp (ArbiterThread.ablibRealloc ops pid g.mem bytes L)
      (fun mem s' => (bytes ≠ 0 → BlockMoves s g.mem bytes →
          (mem ≠ 0 ↔ GetsBlock (request2size bytes - 7) L s)) ∧
        ∃ h', Resized s h g bytes (resizedLabel s g bytes L) mem s' h') E s := by
  have hchannel := hg.channel a
  have hlow : 0x80000000 + 8 ≤ g.mem := hchannel.1
  unfold ResizeOk at hok
  unfold ResizeGranted at hE
  dsimp only at hok hE
  unfold ArbiterThread.ablibRealloc
  rw [if_neg (by omega)]
  -- a size of 0 releases the block
  by_cases hbytes : bytes = 0
  · rw [if_pos hbytes] at hok hE ⊢
    rw [wp_bind]
    refine wp_imp (a.ablibFree ops pid hg hok hE) (fun _ s' hpost => ?_)
    obtain ⟨h', hfreed⟩ := hpost
    rw [wp_pure]
    refine ⟨fun hne => absurd hbytes hne, h', hfreed.carries, fun _ hne => absurd hbytes hne,
      fun _ _ => hfreed.gone, fun hne => absurd rfl hne, fun hne => absurd rfl hne,
      fun _ g' hg' => ?_⟩
    have hlow' := (hg'.channel a).1
    unfold channelAddr at hlow'
    omega
  rw [if_neg hbytes] at hok hE ⊢
  rw [wp_bind, wp_mallocLock]
  split
  · rename_i hlocked
    exact (hE.mono (·.1)).resolve_left (by rw [hlocked]; decide) _ _
  rename_i hlocked
  rw [Bool.not_eq_true] at hlocked
  have hE := hE.mono (·.2)
  obtain ⟨u, hat, hkind⟩ := hg.kind a
  rw [wp_bind, wp_lookupUstateByMem,
    show unitAt { s with locked := true } g.mem = some u from hat]
  change wp (getUnit u >>= _) _ E _
  rw [wp_bind, wp_getUnit]
  -- the lock is kept, and nothing else happens
  by_cases hrange : requestOutOfRange bytes
  · rw [if_pos hrange, wp_pure]
    refine ⟨fun _ _ => ⟨fun hne => absurd rfl hne, fun hgets => absurd ?_ hgets.1⟩, h,
      (Carries.refl a.fresh _).outer rfl, fun _ _ => ⟨?_, fun _ _ _ => rfl⟩,
      fun hcases => absurd rfl (hcases.resolve_right hbytes), fun hne => absurd rfl hne,
      fun hne => absurd rfl hne, fun _ g' hg' => ?_⟩
    · have hpad := (request2size_spec bytes).2.1
      have hpad' := (request2size_spec bytes).2.2.1
      unfold requestOutOfRange at hrange ⊢
      omega
    · have hlocked : Carries s h { s with locked := true } h (fun _ => False) :=
        (Carries.refl a.fresh _).outer rfl
      exact hlocked.owns g hg id
    · have hlow' := (hg'.channel a).1
      unfold channelAddr at hlow'
      omega
  rw [if_neg hrange, resizedLabel_eq hat, blockMoves_iff hat]
  simp only [ne_eq, hbytes, not_false_eq_true, true_implies]
  obtain ⟨hshrink, hmove⟩ := hok.resolve_left hrange
  have hmove := hmove u hat
  have hE := hE.mono (fun hC => hC.resolve_left hrange u hat)
  have hmem2 := hg.mem2chunk a
  unfold headOf
  rw [wp_bind]
  refine wp_load_mapped (mapped_channel (by omega) (by omega)) ?_
  change wp (if isMmapped (s.mem.load32 (mem2chunk g.mem + 4)) then _ else _) _ E _
  -- the flag in its header says which kind of block it is
  rcases hkind with ⟨p, z, k, hp, rfl⟩ | ⟨hu, hu0, hmem, hroom⟩
  · obtain ⟨hchunk, hhead⟩ := a.mem2chunk_live hp
    obtain ⟨hsize, -, rfl, -⟩ := Heap.live_eq_some.mp hp
    have t := a.rep.body.tidy.tiling
    obtain ⟨hmin, h8, hpad, -⟩ := request2size_spec bytes
    dsimp only at hshrink hmove hE hat hmem2 ⊢
    rw [hchunk, hhead, t.sizeOfHead hsize] at hshrink
    rw [hchunk, hhead, if_neg (t.not_isMmapped hsize), t.sizeOfHead hsize]
    by_cases hfits : request2size bytes ≤ h.size p
    · rw [if_pos hfits]
      refine wp_imp (a.reallocFit ops pid hp hmin h8 hfits hshrink (E := E))
        (fun mem s' hpost => ?_)
      obtain ⟨rfl, n, h', hn, hr⟩ := hpost
      have hno : ¬ reallocMoves s u (p + 8) (request2size bytes) := by
        unfold reallocMoves
        dsimp only
        rw [hchunk, hhead, if_neg (t.not_isMmapped hsize), t.sizeOfHead hsize]
        exact fun hC => absurd hC.1 (by omega)
      rw [if_neg hno]
      exact ⟨fun hC => absurd hC hno, h', hr.resized rfl (by omega) (fun i _ hi => by omega)⟩
    · rw [if_neg hfits]
      exact a.reallocGrow ops pid hP hp hlocked hbytes (by omega) hmove
        (hE.mono (fun hC hyes => (hC hyes).1))
  · have hlone := a.lone u hu hu0
    have hchunk : mem2chunk g.mem = (s.units u).addr := by omega
    rw [hchunk, hlone.head, if_pos hlone.head_spec.1, hlone.head_spec.2]
    exact a.reallocMmapped ops pid hP hu hu0 hg hmem hroom hlocked hbytes hrange hmove hE

/-! ### Before the inner request -/

/-- The first fencepost of the unit is `d` bytes behind the block's chunk. -/
theorem Arena.fenceBehind_iff (a : Arena m₀ s h) {z u k d : Nat}
    (hp : h.live p = some (z, u, k)) :
    FenceBehind s (p + 8) d ↔ p + z + d = h.base u + unitTopSize := by
  obtain ⟨-, hunit, -⟩ := a.live_bounds hp
  obtain ⟨hchunk, hhead⟩ := a.mem2chunk_live hp
  obtain ⟨hsize, -, rfl, -⟩ := Heap.live_eq_some.mp hp
  simp only [FenceBehind, a.unitAt_live hp, Option.mem_def, Option.some.injEq, exists_eq_left',
    hchunk, hhead, hunit]
  rw [a.rep.body.tidy.tiling.sizeOfHead hsize, a.rep.body.chunkAtOffset hsize]
  exact Iff.rfl

/-- A chunk in use stays where it is in its unit. -/
theorem Supplied.chunk_unit {b z u k : Nat} (hs : Supplied P s h b L mem s₁ h₁)
    (a : Arena m₀ s h) (hp : h.live p = some (z, u, k)) :
    ∃ k₁, h₁.live p = some (z, u, k₁) ∧ h₁.base u = h.base u := by
  have a₁ := hs.carries.arena
  obtain ⟨hu, hunit, -, hlo, hhi, hz⟩ := a.live_bounds hp
  obtain ⟨hsize, -, hsz, -⟩ := Heap.live_eq_some.mp hp
  have hz8 := (a.rep.body.tidy.tiling.shape hsize).2.1
  have hg : Owns s h ⟨p + 8, z - 4, _⟩ := .chunk p z u k rfl hp (Nat.sub_add_cancel (by omega)) rfl
  obtain ⟨u₁, k₁, hp₁, -⟩ := (hs.carries.owns _ hg id).chunk_of a₁ (p := p) rfl (by
    dsimp only
    omega)
  obtain ⟨hu₁, haddr, hlength⟩ := hs.units u hu
  rw [hunit] at haddr hlength
  dsimp only at haddr hlength hp₁
  have hat : unitAt s₁ (p + 8) = some u := by
    refine a₁.rep.body.tracks.unitAt_listed hu₁ (by omega) ?_
    rw [haddr, hlength]
    simp only [unitSize, unitTopSize] at hhi ⊢
    omega
  obtain rfl : u₁ = u := Option.some.inj ((a₁.unitAt_live hp₁).symm.trans hat)
  rw [(a₁.live_bounds hp₁).2.1] at haddr
  refine ⟨k₁, ?_, haddr⟩
  rw [hp₁, Nat.sub_add_cancel (by omega)]

/-- A block that does not fit into a unit is mapped by itself. -/
theorem Owns.large_not_atFence (hg : Owns s h g) (a : Arena m₀ s h)
    (hlarge : unitTopSize < g.bytes + 4) : ¬ AtFence s g.mem := by
  cases hg with
  | chunk p z u k hmem hp hroom hlabel =>
    obtain ⟨-, -, -, hlo, hhi, -⟩ := a.live_bounds hp
    omega
  | lone u hu hu0 hmem hroom hlabel =>
    have hwhole := (a.lone u hu hu0).whole
    exact (Owns.lone u hu hu0 hmem hroom hlabel).not_atFence a (by omega)

/-- What is known before the inner request is enough: A chunk behind the old one is as large
    as requested, or larger by 8 bytes. -/
theorem Arena.moveOk (a : Arena m₀ s h) (ops : KernelOps K) (pid : Nat) (hg : Owns s h g)
    (hmin : 16 ≤ nb) (h8 : nb % 8 = 0) {u : Nat} (hu : unitAt s g.mem = some u)
    (hmoves : reallocMoves s u g.mem nb) (hclear : MoveClear ops pid g.mem nb L s) :
    MoveOk ops pid (RoomFor ops pid) g.mem nb L s := by
  refine ⟨hclear.1, wp_mono (wp_and (a.ablibMalloc ops pid (fun _ _ _ hroom => hroom) hclear.1
    (.inr fun _ _ => trivial)) (a.ablibMalloc_gets ops pid (fun _ _ _ hroom => hroom) (by omega)
    hclear.1)) (fun mem s₁ hpost hmem => ?_) (fun _ _ he => he.1)⟩
  obtain ⟨⟨h₁, hs⟩, hgets⟩ := hpost
  have hfar := hclear.2 (hgets.mp hmem)
  have a₁ := hs.carries.arena
  have hg₁ := hs.carries.owns g hg id
  obtain ⟨⟨n, hn, hnew⟩, -⟩ := hs.block hmem
  have hsnug := hs.snug
  rw [request2size_moved hmin h8] at hn hsnug
  cases hg with
  | chunk p z v k hgmem hp hroom _ =>
    obtain ⟨k₁, hp₁, hbase⟩ := hs.chunk_unit a hp
    obtain ⟨hchunk, hhead⟩ := a.mem2chunk_live hp
    obtain ⟨hsize, -, hsz, -⟩ := Heap.live_eq_some.mp hp
    have hnext : h.next p = h₁.next p := by
      obtain ⟨-, -, hsz₁, -⟩ := Heap.live_eq_some.mp hp₁
      unfold Heap.next
      omega
    simp only [hgmem, a.fenceBehind_iff hp, List.mem_cons, List.not_mem_nil, or_false,
      forall_eq_or_imp, forall_eq] at hfar
    rw [hgmem, hchunk, hhead, a.rep.body.tidy.tiling.sizeOfHead hsize,
      a.rep.body.chunkAtOffset hsize, hnext]
    -- the new chunk is the one behind the old, or not
    split
    · rename_i hjoin
      obtain ⟨hmem', -, k', hq⟩ := hnew.behind a₁ hp₁ hjoin
      obtain ⟨hqsize, -, hqz, -⟩ := Heap.live_eq_some.mp hq
      have hq8 := (a₁.rep.body.tidy.tiling.shape hqsize).2.1
      have hlt := hsnug _ _ _ _ hmem' hq
      rw [hmem', a₁.atFence_iff hq, hbase, ← hnext, Heap.next, hsz]
      omega
    · rw [a₁.atFence_iff hp₁, hbase]
      exact hfar.1
  | lone v hv hv0 hgmem hroom _ =>
    have hlarge := (a.lone v hv hv0).large
    have hwhole := (a.lone v hv hv0).whole
    rw [hgmem, (a.unitAt_lone hv hv0).1, Option.some.injEq] at hu
    rw [hgmem, ← hu, a.reallocMoves_lone hv hv0] at hmoves
    -- a block that outgrew a mapped unit is too large for a fencepost to be at its end
    have hlt := hmoves.2
    unfold unitSize at hlarge
    split
    · exact hnew.large_not_atFence a₁ (by dsimp only; unfold unitTopSize; omega)
    · exact hg₁.not_atFence a₁ (by omega)

end

end ArbiterThread
