import ArbiterThread.Malloc.Steps

/-!
# Bins in Memory

Taking a chunk out of its bin and putting one in, in the orders in which the
code writes the links.

The nodes of all bins are at least eight bytes apart, headers included, so their
link words never overlap and a store to one link is visible in no other. With
that, what a sequence of stores does to the bins follows from the rules for
circular lists, whichever order the stores come in.

## Main definitions

* `Node`: A bin header, or a chunk whose words are used as links.
* `Heap.take`, `Heap.bin`: A chunk out of a bin, and into one.

## Theorems

* `node_apart`: Nodes are apart.
* `Rep.removed`, `Rep.linked`: Bins after links were changed.
* `Rep.unlink`: Taking a chunk out of its bin.
-/

namespace ArbiterThread

open Exec Rings

variable {K : Type}

/-! ### Reading and writing words -/

theorem load32_put_self (s : State K) (a : Nat) {v : Nat} (hv : v < 4294967296) :
    (s.put a v).mem.load32 a = v :=
  Mem.load32_store32_self _ _ _ hv

theorem load32_put_of_disjoint (s : State K) {a b : Nat} (v : Nat) (h : b + 4 ≤ a ∨ a + 4 ≤ b) :
    (s.put a v).mem.load32 b = s.mem.load32 b :=
  Mem.load32_store32_of_disjoint _ _ _ _ h

section

variable {m₀ : Mem} {s : State K} {h : Heap} {E : Fault → State K → Prop}

/-- The words of a chunk, and the one behind its end, can be accessed. -/
theorem Body.mapped (b : Body m₀ s h) {p a : Nat} (hp : h.size p ≠ 0) (hlo : p ≤ a)
    (hhi : a ≤ h.next p + 8) : mapped s a := by
  have hb := b.tidy.tiling.bounds hp
  simp only [ArbiterThread.mapped, wordSize, channelAddr, channelSize]
  unfold Heap.next at hhi
  omega

theorem wp_load_mapped {a : Nat} {Q : Nat → State K → Prop} (ha : mapped s a)
    (hQ : Q (s.mem.load32 a) s) : wp (load a) Q E s := by
  rw [wp_load, if_pos ha]
  exact hQ

theorem wp_store_mapped {a v : Nat} {Q : Unit → State K → Prop} (ha : mapped s a)
    (hQ : Q () (s.put a v)) : wp (store a v) Q E s := by
  rw [wp_store, if_pos ha]
  exact hQ

/-- Reading the size field of a chunk with an intact header. -/
theorem Body.headOf (b : Body m₀ s h) {p : Nat} {Q : Nat → State K → Prop} (hp : h.size p ≠ 0)
    (huse : h.use p ≠ .raw) (hQ : Q (h.head p) s) : wp (headOf p) Q E s := by
  refine wp_load_mapped (b.mapped hp (by omega) (by unfold Heap.next; omega)) ?_
  rw [b.holds.head hp huse]
  exact hQ

/-- A size field without its flags is the size. -/
theorem Heap.Tiling.sizeOfHead (t : h.Tiling) {p : Nat} (hp : h.size p ≠ 0) :
    sizeOfHead (h.head p) = h.size p := by
  have hb := t.bounds hp
  have hf := Bool.toNat_le (h.flag p)
  unfold ArbiterThread.sizeOfHead Heap.head
  omega

/-- A chunk does not look like a block that is mapped by itself. -/
theorem Heap.Tiling.not_isMmapped (t : h.Tiling) {p : Nat} (hp : h.size p ≠ 0) :
    ¬ isMmapped (h.head p) := by
  have hb := t.bounds hp
  have hf := Bool.toNat_le (h.flag p)
  unfold isMmapped Heap.head
  omega

theorem Body.chunksize (b : Body m₀ s h) {p : Nat} {Q : Nat → State K → Prop} (hp : h.size p ≠ 0)
    (huse : h.use p ≠ .raw) (hQ : Q (h.size p) s) : wp (chunksize p) Q E s := by
  rw [ArbiterThread.chunksize, wp_bind]
  refine b.headOf hp huse ?_
  rw [wp_pure, b.tidy.tiling.sizeOfHead hp]
  exact hQ

/-- Writing a loose word. -/
theorem Body.store (b : Body m₀ s h) {a v : Nat} {Q : Unit → State K → Prop} (hl : Loose s h a)
    (hQ : Body m₀ (s.put a v) h → Q () (s.put a v)) : wp (store a v) Q E s :=
  wp_store_mapped (hl.mapped b) (hQ (b.put hl v))

end

theorem prevInuse_head (h : Heap) {p : Nat} (h8 : h.size p % 8 = 0) :
    prevInuse (h.head p) ↔ h.flag p = true := by
  unfold prevInuse Heap.head
  cases h.flag p with
  | true =>
    simp only [Bool.toNat_true, iff_true]
    omega
  | false =>
    simp only [Bool.toNat_false, Nat.add_zero, reduceCtorEq, iff_false]
    omega

/-! ### Nodes -/

/-- A bin header, or a chunk. -/
inductive Node (s : State K) (h : Heap) (x : Nat) : Prop
  | chunk (size : h.size x ≠ 0)
  | header (av i : Nat) (is : Header s av i) (eq : x = binAt av i)

section

variable {m₀ : Mem} {s : State K} {h : Heap} {x y : Nat}

theorem Node.aligned (b : Body m₀ s h) (hx : Node s h x) :
    x + 16 ≤ 0xA0000000 ∧ (0x80000000 ≤ x ∨ x + 16 ≤ 0x80000000) := by
  rcases hx with hx | ⟨av, i, hd, rfl⟩
  · have hb := b.tidy.tiling.bounds hx
    omega
  · have hb := b.tracks.header_bounds hd
    omega

/-- Different nodes are at least eight bytes apart. -/
theorem node_apart (b : Body m₀ s h) (hx : Node s h x) (hy : Node s h y) (hne : x ≠ y) :
    x + 8 ≤ y ∨ y + 8 ≤ x := by
  rcases hx with hx | ⟨av, i, hd, rfl⟩
  · have hbx := b.tidy.tiling.bounds hx
    rcases hy with hy | ⟨av', j, hd', rfl⟩
    · have hapart := b.tidy.tiling.apart_of_ne hx hy hne
      have hby := b.tidy.tiling.bounds hy
      unfold Heap.next at hapart
      omega
    · have hby := b.tracks.header_bounds hd'
      omega
  · have hbx := b.tracks.header_bounds hd
    rcases hy with hy | ⟨av', j, hd', rfl⟩
    · have hby := b.tidy.tiling.bounds hy
      omega
    · have hi := hd.hi
      have hj := hd'.hi
      simp only [binAt, privateBase, mstateStride] at *
      omega

theorem binAt_inj {av av' i j : Nat} (hi : i < 96) (hj : j < 96)
    (heq : binAt av i = binAt av' j) : av = av' ∧ i = j := by
  simp only [binAt, privateBase, mstateStride] at heq
  omega

theorem Node.mapped (b : Body m₀ s h) (hx : Node s h x) :
    ArbiterThread.mapped s (x + 8) ∧ ArbiterThread.mapped s (x + 12) := by
  rcases hx with hx | ⟨av, i, hd, rfl⟩
  · have hb := b.tidy.tiling.bounds hx
    exact ⟨b.mapped hx (by omega) (by unfold Heap.next; omega),
      b.mapped hx (by omega) (by unfold Heap.next; omega)⟩
  · exact ⟨(Loose.header av i hd (.inl rfl)).mapped b, (Loose.header av i hd (.inr rfl)).mapped b⟩

theorem Node.fdOf (b : Body m₀ s h) (hx : Node s h x) {Q : Nat → State K → Prop}
    {E : Fault → State K → Prop} (hQ : Q (fdAt s.mem x) s) : wp (fdOf x) Q E s :=
  wp_load_mapped (hx.mapped b).1 hQ

theorem Node.bkOf (b : Body m₀ s h) (hx : Node s h x) {Q : Nat → State K → Prop}
    {E : Fault → State K → Prop} (hQ : Q (bkAt s.mem x) s) : wp (bkOf x) Q E s :=
  wp_load_mapped (hx.mapped b).2 hQ

/-! What a store to a link is to the links of nodes. -/

theorem fdAt_put_fd (s : State K) (x : Nat) {v : Nat} (hv : v < 4294967296) :
    fdAt (s.put (x + 8) v).mem x = v :=
  load32_put_self s _ hv

theorem bkAt_put_bk (s : State K) (x : Nat) {v : Nat} (hv : v < 4294967296) :
    bkAt (s.put (x + 12) v).mem x = v :=
  load32_put_self s _ hv

theorem fdAt_put_fd_of_ne (s : State K) (v : Nat) (h : x + 8 ≤ y ∨ y + 8 ≤ x) :
    fdAt (s.put (y + 8) v).mem x = fdAt s.mem x :=
  load32_put_of_disjoint s v (by omega)

theorem bkAt_put_bk_of_ne (s : State K) (v : Nat) (h : x + 8 ≤ y ∨ y + 8 ≤ x) :
    bkAt (s.put (y + 12) v).mem x = bkAt s.mem x :=
  load32_put_of_disjoint s v (by omega)

theorem fdAt_put_bk (s : State K) (v : Nat) (h : x = y ∨ x + 8 ≤ y ∨ y + 8 ≤ x) :
    fdAt (s.put (y + 12) v).mem x = fdAt s.mem x :=
  load32_put_of_disjoint s v (by omega)

theorem bkAt_put_fd (s : State K) (v : Nat) (h : x = y ∨ x + 8 ≤ y ∨ y + 8 ≤ x) :
    bkAt (s.put (y + 8) v).mem x = bkAt s.mem x :=
  load32_put_of_disjoint s v (by omega)

end

/-! ### Members -/

section

variable {m₀ : Mem} {s : State K} {h : Heap} {x av i : Nat}

/-- The index of a large size: four bins for each power of two. -/
theorem mallocLargebinIndex_eq {sz : Nat} (h : 256 ≤ sz) (h' : sz < 65536 * 256) :
    ∃ m q, m < 16 ∧ q < 4 ∧ (q + 4) * 2 ^ (m + 6) ≤ sz ∧ sz < (q + 5) * 2 ^ (m + 6) ∧
      mallocLargebinIndex sz = 32 + 4 * m + q := by
  have hx : sz / 256 ≠ 0 := by omega
  have hlog : Nat.log2 (sz / 256) < 16 := by
    rw [Nat.log2_lt hx]
    omega
  have hlo := Nat.log2_self_le hx
  have hhi := Nat.lt_log2_self (n := sz / 256)
  simp only [mallocLargebinIndex, nBins]
  rw [if_neg (by omega)]
  -- with `m` the logarithm, the size lies between 4 and 8 times `2 ^ (m + 6)`
  generalize Nat.log2 (sz / 256) = m at *
  have hpos : 0 < 2 ^ (m + 6) := Nat.two_pow_pos _
  have h256 : 2 ^ m * 256 = 4 * 2 ^ (m + 6) := by ring
  have h512 : 2 ^ (m + 1) * 256 = 8 * 2 ^ (m + 6) := by ring
  have hq4 : 4 ≤ sz / 2 ^ (m + 6) := by
    rw [Nat.le_div_iff_mul_le hpos]
    omega
  have hq8 : sz / 2 ^ (m + 6) < 8 := by
    rw [Nat.div_lt_iff_lt_mul hpos]
    omega
  refine ⟨m, sz / 2 ^ (m + 6) - 4, hlog, by omega, ?_, ?_, by omega⟩
  · rw [show sz / 2 ^ (m + 6) - 4 + 4 = sz / 2 ^ (m + 6) by omega]
    exact Nat.div_mul_le_self _ _
  · rw [show sz / 2 ^ (m + 6) - 4 + 5 = sz / 2 ^ (m + 6) + 1 by omega]
    exact (Nat.div_lt_iff_lt_mul hpos).mp (Nat.lt_succ_self _)

theorem mallocLargebinIndex_lt {sz : Nat} (h : 256 ≤ sz) :
    32 ≤ mallocLargebinIndex sz ∧ mallocLargebinIndex sz < 96 := by
  by_cases hbig : sz < 65536 * 256
  · rcases mallocLargebinIndex_eq h hbig with ⟨m, q, hm, hq, -, -, heq⟩
    omega
  · simp only [mallocLargebinIndex, nBins]
    rw [if_pos (by omega)]
    omega

/-- Larger chunks do not go into lower bins. -/
theorem mallocLargebinIndex_mono {a c : Nat} (ha : 256 ≤ a) (hac : a ≤ c) :
    mallocLargebinIndex a ≤ mallocLargebinIndex c := by
  by_cases hbig : c < 65536 * 256
  · rcases mallocLargebinIndex_eq ha (by omega) with ⟨m, q, -, hq, hlo, hhi, heq⟩
    rcases mallocLargebinIndex_eq (ha.trans hac) hbig with ⟨m', q', -, hq', hlo', hhi', heq'⟩
    rw [heq, heq']
    rcases Nat.lt_trichotomy m m' with hm | rfl | hm
    · omega
    · have hpos : 0 < 2 ^ (m + 6) := Nat.two_pow_pos _
      have hqq : (q + 4) * 2 ^ (m + 6) < (q' + 5) * 2 ^ (m + 6) := by omega
      have := Nat.lt_of_mul_lt_mul_right hqq
      omega
    · exfalso
      have hpow : 2 ^ (m' + 1 + 6) ≤ 2 ^ (m + 6) := Nat.pow_le_pow_right (by decide) (by omega)
      have htwo : 2 ^ (m' + 1 + 6) = 2 * 2 ^ (m' + 6) := by ring
      have h1 : (q' + 5) * 2 ^ (m' + 6) ≤ 8 * 2 ^ (m' + 6) := Nat.mul_le_mul_right _ (by omega)
      have h2 : 4 * 2 ^ (m + 6) ≤ (q + 4) * 2 ^ (m + 6) := Nat.mul_le_mul_right _ (by omega)
      omega
  · have hlt := mallocLargebinIndex_lt ha
    have hcap : mallocLargebinIndex c = 95 := by
      simp only [mallocLargebinIndex, nBins]
      rw [if_pos (by omega)]
    omega

theorem binIndex_small {sz : Nat} (hsz : inSmallbinRange sz) : binIndex sz = sz / 8 := if_pos hsz

theorem binIndex_large {sz : Nat} (hsz : ¬ inSmallbinRange sz) :
    binIndex sz = mallocLargebinIndex sz :=
  if_neg hsz

theorem binIndex_bounds {sz : Nat} (h : 16 ≤ sz) : 2 ≤ binIndex sz ∧ binIndex sz < 96 := by
  by_cases hsmall : inSmallbinRange sz
  · rw [binIndex_small hsmall]
    unfold inSmallbinRange at hsmall
    omega
  · rw [binIndex_large hsmall]
    have hb := mallocLargebinIndex_lt (Nat.le_of_not_lt hsmall)
    omega

/-- A chunk in a higher bin is larger. -/
theorem le_of_binIndex_lt {a c : Nat} (hlt : binIndex a < binIndex c) : a ≤ c := by
  by_contra hca
  by_cases ha : inSmallbinRange a
  · have hc : inSmallbinRange c := by
      unfold inSmallbinRange at *
      omega
    rw [binIndex_small ha, binIndex_small hc] at hlt
    omega
  · by_cases hc : inSmallbinRange c
    · rw [binIndex_large ha, binIndex_small hc] at hlt
      have hb := mallocLargebinIndex_lt (Nat.le_of_not_lt ha)
      unfold inSmallbinRange at hc
      omega
    · rw [binIndex_large ha, binIndex_large hc] at hlt
      have hmono := mallocLargebinIndex_mono (Nat.le_of_not_lt hc) (Nat.le_of_not_le hca)
      omega

/-- A bin that has a member is one of those there are. -/
theorem Body.header (b : Body m₀ s h) (hx : x ∈ h.bins av i) : Header s av i := by
  have hbin := b.tidy.lists.bin hx
  have hb := b.tidy.tiling.bounds hbin.1
  have hidx := binIndex_bounds (show 16 ≤ h.size x by omega)
  have hactive := b.tracks.owner (b.tidy.tiling.place hbin.1).1
  change Active s (h.avOf x) at hactive
  rw [hbin.2.2.1] at hactive
  refine ⟨hactive, ?_, ?_⟩
  · omega
  · omega

theorem Body.node (b : Body m₀ s h) (hd : Header s av i) (hx : x ∈ binAt av i :: h.bins av i) :
    Node s h x := by
  rcases List.mem_cons.mp hx with rfl | hx
  · exact .header av i hd rfl
  · exact .chunk (b.tidy.lists.bin hx).1

/-- A link word of a node of a bin can be written. -/
theorem Body.loose (b : Body m₀ s h) (hd : Header s av i) (hx : x ∈ binAt av i :: h.bins av i) :
    Loose s h (x + 8) ∧ Loose s h (x + 12) := by
  rcases List.mem_cons.mp hx with rfl | hx
  · exact ⟨.header av i hd (.inl rfl), .header av i hd (.inr rfl)⟩
  · have hbin := b.tidy.lists.bin hx
    exact ⟨.link x hbin.1 (.inl hbin.2.1) (.inl rfl), .link x hbin.1 (.inl hbin.2.1) (.inr rfl)⟩

theorem Body.header_notMem (b : Body m₀ s h) (hd : Header s av i) (av' j : Nat) :
    binAt av i ∉ h.bins av' j := by
  intro hx
  have hb := b.tidy.tiling.bounds (b.tidy.lists.bin hx).1
  have hb' := b.tracks.header_bounds hd
  omega

theorem Body.nodup (b : Body m₀ s h) (hd : Header s av i) : (binAt av i :: h.bins av i).Nodup :=
  List.nodup_cons.mpr ⟨b.header_notMem hd av i, b.tidy.lists.bin_nodup av i⟩

/-- Different bins have no node in common. -/
theorem Body.bin_eq (b : Body m₀ s h) {av' j : Nat} (hd : Header s av i) (hd' : Header s av' j)
    (hx : x ∈ binAt av i :: h.bins av i) (hx' : x ∈ binAt av' j :: h.bins av' j) :
    av' = av ∧ j = i := by
  rcases List.mem_cons.mp hx with rfl | hx
  · rcases List.mem_cons.mp hx' with heq | hx'
    · have h' := binAt_inj hd.hi hd'.hi heq
      exact ⟨h'.1.symm, h'.2.symm⟩
    · exact absurd hx' (b.header_notMem hd av' j)
  · rcases List.mem_cons.mp hx' with rfl | hx'
    · exact absurd hx (b.header_notMem hd' av i)
    · exact b.tidy.lists.bin_unique hx hx'

end

/-! ### Changing links -/

/-- A chunk out of its bin, which keeps the members `l`. -/
def Heap.take (h : Heap) (av i : Nat) (l : List Nat) (x : Nat) : Heap :=
  (h.setBin av i l).setUse x .held

/-- A chunk into a bin, which then has the members `l`. -/
def Heap.bin (h : Heap) (av i : Nat) (l : List Nat) (x : Nat) : Heap :=
  (h.setBin av i l).setUse x .free

section

variable {m₀ : Mem} {s s' : State K} {h : Heap} {x y z av i : Nat} {l₁ l₂ pre post : List Nat}

theorem Header.congr (heq : s'.mstates = s.mstates) {av i : Nat} (hd : Header s' av i) :
    Header s av i := by
  refine ⟨?_, hd.lo, hd.hi⟩
  have hactive := hd.active
  unfold Active at *
  rw [← heq]
  exact hactive

theorem Header.put {av i : Nat} (hd : Header s av i) (a v : Nat) : Header (s.put a v) av i :=
  ⟨hd.active, hd.lo, hd.hi⟩

theorem Node.congr (heq : s'.mstates = s.mstates) (hx : Node s h x) : Node s' h x := by
  rcases hx with hx | ⟨av, i, hd, rfl⟩
  · exact .chunk hx
  · exact .header av i (hd.congr heq.symm) rfl

theorem Node.put (hx : Node s h x) (a v : Nat) : Node (s.put a v) h x :=
  Node.congr (show (s.put a v).mstates = s.mstates from rfl) hx

/-- The bins after the links of one bin were changed. -/
theorem Rep.of_ring {h' : Heap} (b₀ : Body m₀ s h) (b : Body m₀ s' h')
    (heq : s'.mstates = s.mstates) (hd : Header s av i)
    (hrings : ∀ {av' j}, Header s av' j → ¬ (av' = av ∧ j = i) → RingAt s.mem h av' j)
    (hbins : ∀ {av' j}, ¬ (av' = av ∧ j = i) → h'.bins av' j = h.bins av' j)
    (hring : RingAt s'.mem h' av i)
    (hlinks : ∀ a, Node s h a → a ∉ binAt av i :: h.bins av i →
      (h.size a ≠ 0 → h.use a = .free) →
      fdAt s'.mem a = fdAt s.mem a ∧ bkAt s'.mem a = bkAt s.mem a) : Rep m₀ s' h' := by
  refine ⟨b, fun {av' j} hd' => ?_⟩
  replace hd' := hd'.congr heq
  -- the links of the other bins are not among those that changed
  by_cases hsame : av' = av ∧ j = i
  · rcases hsame with ⟨rfl, rfl⟩
    exact hring
  · unfold RingAt
    rw [hbins hsame]
    have hkeep : ∀ a ∈ binAt av' j :: h.bins av' j,
        fdAt s'.mem a = fdAt s.mem a ∧ bkAt s'.mem a = bkAt s.mem a := by
      intro a ha
      refine hlinks a (b₀.node hd' ha) (fun hin => hsame (b₀.bin_eq hd hd' hin ha)) ?_
      intro hsize
      rcases List.mem_cons.mp ha with rfl | ha
      · have hb := b₀.tracks.header_bounds hd'
        have hb' := b₀.tidy.tiling.bounds hsize
        omega
      · exact (b₀.tidy.lists.bin ha).2.1
    exact (hrings hd' hsame).congr (fun a ha => (hkeep a ha).1) (fun a ha => (hkeep a ha).2)

/-- Two nodes are the same, or apart. -/
theorem node_cases (b : Body m₀ s h) (hx : Node s h x) (hy : Node s h y) :
    x = y ∨ x + 8 ≤ y ∨ y + 8 ≤ x := by
  by_cases hxy : x = y
  · exact .inl hxy
  · exact .inr (node_apart b hx hy hxy)

/-- The two stores that take a chunk out of its bin. -/
theorem Rep.removed (r : Rep m₀ s h) (hbin : h.bins av i = l₁ ++ x :: l₂) :
    Rep m₀ ((s.put (fdAt s.mem x + 12) (bkAt s.mem x)).put (bkAt s.mem x + 8) (fdAt s.mem x))
      (h.take av i (l₁ ++ l₂) x) := by
  have hmem : x ∈ h.bins av i := by
    rw [hbin]
    exact List.mem_append_right _ List.mem_cons_self
  have hd := r.body.header hmem
  have hring := r.rings hd
  have hx : x ∈ binAt av i :: h.bins av i := List.mem_cons_of_mem _ hmem
  have hfdn := hring.fd_mem hx
  have hbkn := hring.bk_mem hx
  have nfd := r.body.node hd hfdn
  have nbk := r.body.node hd hbkn
  have hfdlt := (nfd.aligned r.body).1
  have hbklt := (nbk.aligned r.body).1
  have b1 := r.body.put (r.body.loose hd hfdn).2 (bkAt s.mem x)
  have b2 := b1.put (b1.loose (hd.put _ _) hbkn).1 (fdAt s.mem x)
  -- the two stores change one link each, of the neighbours on either side
  have hfd : ∀ a, Node s h a → a ≠ bkAt s.mem x →
      fdAt ((s.put (fdAt s.mem x + 12) (bkAt s.mem x)).put (bkAt s.mem x + 8)
        (fdAt s.mem x)).mem a = fdAt s.mem a := by
    intro a ha hne
    rw [fdAt_put_fd_of_ne _ _ (node_apart r.body ha nbk hne),
      fdAt_put_bk _ _ (node_cases r.body ha nfd)]
  have hbk : ∀ a, Node s h a → a ≠ fdAt s.mem x →
      bkAt ((s.put (fdAt s.mem x + 12) (bkAt s.mem x)).put (bkAt s.mem x + 8)
        (fdAt s.mem x)).mem a = bkAt s.mem a := by
    intro a ha hne
    rw [bkAt_put_fd _ _ (node_cases r.body ha nbk),
      bkAt_put_bk_of_ne _ _ (node_apart r.body ha nfd hne)]
  refine Rep.of_ring r.body (b2.take hbin) rfl hd (fun hd' _ => r.rings hd')
    (fun hne => Heap.setBin_of_ne h av i _ hne) ?_ ?_
  · have hnd := r.body.nodup hd
    have hnode : ∀ a ∈ binAt av i :: (l₁ ++ l₂), Node s h a := by
      intro a ha
      refine r.body.node hd ?_
      rw [hbin]
      rcases List.mem_cons.mp ha with rfl | ha
      · exact List.mem_cons_self
      · rcases List.mem_append.mp ha with ha | ha
        · exact List.mem_cons_of_mem _ (List.mem_append_left _ ha)
        · exact List.mem_cons_of_mem _ (List.mem_append_right _ (List.mem_cons_of_mem _ ha))
    unfold RingAt at hring ⊢
    change Ring _ _ _ ((h.setBin av i (l₁ ++ l₂)).bins av i)
    rw [hbin] at hring hnd
    rw [Heap.setBin_self]
    refine hring.remove hnd ?_ ?_ (fun a ha => hfd a (hnode a ha)) (fun a ha => hbk a (hnode a ha))
    · exact fdAt_put_fd _ _ (by omega)
    · rw [bkAt_put_fd _ _ (node_cases r.body nfd nbk)]
      exact bkAt_put_bk _ _ (by omega)
  · intro a ha hout _
    exact ⟨hfd a ha (fun heq => hout (heq ▸ hbkn)), hbk a ha (fun heq => hout (heq ▸ hfdn))⟩

/-! ### Putting a chunk in -/

/-- The links of `x` and its new neighbours `y` and `z`. -/
def State.link (s : State K) (x y z : Nat) : State K :=
  (((s.put (x + 12) y).put (x + 8) z).put (y + 8) x).put (z + 12) x

theorem State.put_comm (s : State K) {a c : Nat} (v w : Nat) (h : c + 4 ≤ a ∨ a + 4 ≤ c) :
    (s.put a v).put c w = (s.put c w).put a v := by
  unfold State.put
  rw [Mem.store32_comm _ _ _ _ _ h]

/-- The order in which `__malloc_consolidate` makes the same stores. -/
theorem State.link_comm (s : State K) {p y z : Nat} (w : Nat) (hy : p + 8 ≤ y ∨ y + 8 ≤ p)
    (hz : p + 8 ≤ z ∨ z + 8 ≤ p) :
    ((((s.put (y + 8) p).put (z + 12) p).put (p + 4) w).put (p + 12) y).put (p + 8) z =
      (s.link p y z).put (p + 4) w := by
  unfold State.link
  rw [State.put_comm _ w y (by omega), State.put_comm _ w z (by omega),
    State.put_comm (s.put (y + 8) p) p y (by omega), State.put_comm s p y (by omega),
    State.put_comm ((s.put (p + 12) y).put (y + 8) p) p z (by omega),
    State.put_comm (s.put (p + 12) y) p z (by omega)]

/-- The links after linking `x`. -/
theorem fdAt_link (b : Body m₀ s h) (hx : Node s h x) (hy : Node s h y) (hz : Node s h z)
    {a : Nat} (ha : Node s h a) :
    fdAt (s.link x y z).mem a = if a = y then x else if a = x then z else fdAt s.mem a := by
  have hxlt := (hx.aligned b).1
  have hzlt := (hz.aligned b).1
  unfold State.link
  rw [fdAt_put_bk _ _ (node_cases b ha hz)]
  by_cases hay : a = y
  · rw [if_pos hay, hay]
    exact fdAt_put_fd _ _ (by omega)
  · rw [if_neg hay, fdAt_put_fd_of_ne _ _ (node_apart b ha hy hay)]
    by_cases hax : a = x
    · rw [if_pos hax, hax]
      exact fdAt_put_fd _ _ (by omega)
    · rw [if_neg hax, fdAt_put_fd_of_ne _ _ (node_apart b ha hx hax),
        fdAt_put_bk _ _ (node_cases b ha hx)]

theorem bkAt_link (b : Body m₀ s h) (hx : Node s h x) (hy : Node s h y) (hz : Node s h z)
    {a : Nat} (ha : Node s h a) :
    bkAt (s.link x y z).mem a = if a = z then x else if a = x then y else bkAt s.mem a := by
  have hxlt := (hx.aligned b).1
  have hylt := (hy.aligned b).1
  unfold State.link
  by_cases haz : a = z
  · rw [if_pos haz, haz]
    exact bkAt_put_bk _ _ (by omega)
  · rw [if_neg haz, bkAt_put_bk_of_ne _ _ (node_apart b ha hz haz),
      bkAt_put_fd _ _ (node_cases b ha hy), bkAt_put_fd _ _ (node_cases b ha hx)]
    by_cases hax : a = x
    · rw [if_pos hax, hax]
      exact bkAt_put_bk _ _ (by omega)
    · rw [if_neg hax, bkAt_put_bk_of_ne _ _ (node_apart b ha hx hax)]

/-- The bins after `x` was linked between two neighbours, and perhaps words were
    written that are not links. -/
theorem Rep.linked (b₀ : Body m₀ s h) (hd : Header s av i) (hbin : h.bins av i = l₁ ++ l₂)
    (hrings : ∀ {av' j}, Header s av' j → ¬ (av' = av ∧ j = i) → RingAt s.mem h av' j)
    (hring : RingAt s.mem h av i ∨ h.bins av i = [])
    (hy : binAt av i :: l₁ = pre ++ [y]) (hz : l₂ ++ [binAt av i] = z :: post)
    (hsize : h.size x ≠ 0) (huse : h.use x ≠ .free)
    (b : Body m₀ s' (h.bin av i (l₁ ++ x :: l₂) x)) (heq : s'.mstates = s.mstates)
    (hsame : ∀ a, Node s h a → fdAt s'.mem a = fdAt (s.link x y z).mem a ∧
      bkAt s'.mem a = bkAt (s.link x y z).mem a) :
    Rep m₀ s' (h.bin av i (l₁ ++ x :: l₂) x) := by
  have hyin := mem_of_left hbin hy
  have hzin := mem_of_right hbin hz
  have nx : Node s h x := .chunk hsize
  have ny := b₀.node hd hyin
  have nz := b₀.node hd hzin
  -- the new chunk is not in the ring yet
  have hnode : ∀ a ∈ binAt av i :: h.bins av i, a ≠ x := by
    rintro a ha rfl
    rcases List.mem_cons.mp ha with heq | ha
    · have hb := b₀.tracks.header_bounds hd
      have hb' := b₀.tidy.tiling.bounds hsize
      omega
    · exact huse (b₀.tidy.lists.bin ha).2.1
  have hxy := (hnode y hyin).symm
  have hxz := (hnode z hzin).symm
  have hfd : ∀ a, Node s h a → fdAt s'.mem a =
      if a = y then x else if a = x then z else fdAt s.mem a :=
    fun a ha => (hsame a ha).1.trans (fdAt_link b₀ nx ny nz ha)
  have hbk : ∀ a, Node s h a → bkAt s'.mem a =
      if a = z then x else if a = x then y else bkAt s.mem a :=
    fun a ha => (hsame a ha).2.trans (bkAt_link b₀ nx ny nz ha)
  have hfdy : fdAt s'.mem y = x := by rw [hfd y ny, if_pos rfl]
  have hfdx : fdAt s'.mem x = z := by rw [hfd x nx, if_neg hxy, if_pos rfl]
  have hbkz : bkAt s'.mem z = x := by rw [hbk z nz, if_pos rfl]
  have hbkx : bkAt s'.mem x = y := by rw [hbk x nx, if_neg hxz, if_pos rfl]
  refine Rep.of_ring b₀ b heq hd hrings (fun hne => Heap.setBin_of_ne h av i _ hne) ?_ ?_
  · unfold RingAt
    change Ring _ _ _ ((h.setBin av i (l₁ ++ x :: l₂)).bins av i)
    rw [Heap.setBin_self]
    rcases hring with hring | hnil
    · have hnd := b₀.nodup hd
      unfold RingAt at hring
      rw [hbin] at hring hnd
      rw [hbin] at hnode
      refine hring.insert hnd hy hz hfdy hbkx hfdx hbkz (fun a ha hay => ?_) (fun a ha haz => ?_)
      · rw [hfd a (b₀.node hd (hbin ▸ ha)), if_neg hay, if_neg (hnode a ha)]
      · rw [hbk a (b₀.node hd (hbin ▸ ha)), if_neg haz, if_neg (hnode a ha)]
    · -- an empty bin needs nothing of its old links
      rw [hbin, List.append_eq_nil_iff] at hnil
      rcases hnil with ⟨rfl, rfl⟩
      rw [List.nil_append] at hz
      have hyb : y = binAt av i := by
        have hlast := congrArg List.getLast? hy
        simpa using hlast.symm
      have hzb : z = binAt av i := (List.cons.inj hz).1.symm
      subst hyb
      rw [hzb] at hfdx hbkz
      exact List.isChain_cons_cons.mpr ⟨⟨hfdy, hbkx⟩, List.isChain_pair.mpr ⟨hfdx, hbkz⟩⟩
  · intro a ha hout hfree
    have hax : a ≠ x := by
      rintro rfl
      exact huse (hfree hsize)
    have hay : a ≠ y := by
      rintro rfl
      exact hout hyin
    have haz : a ≠ z := by
      rintro rfl
      exact hout hzin
    rw [hfd a ha, hbk a ha, if_neg hay, if_neg hax, if_neg haz, if_neg hax]
    exact ⟨rfl, rfl⟩

/-- Size fields and footers are not links. -/
theorem links_put (b : Body m₀ s h) {p a : Nat} (hp : h.size p ≠ 0) (v : Nat)
    (hat : a = p + 4 ∨ a = h.next p) (hx : Node s h x) :
    fdAt (s.put a v).mem x = fdAt s.mem x ∧ bkAt (s.put a v).mem x = bkAt s.mem x := by
  have hbp := b.tidy.tiling.bounds hp
  have hsep : x + 16 ≤ a ∨ a + 4 ≤ x + 8 := by
    rcases hx with hx | ⟨av, i, hd, rfl⟩
    · have hbx := b.tidy.tiling.bounds hx
      by_cases hxp : x = p
      · subst hxp
        unfold Heap.next at hat
        omega
      · have hapart := b.tidy.tiling.apart_of_ne hx hp hxp
        unfold Heap.next at *
        omega
    · have hb := b.tracks.header_bounds hd
      unfold Heap.next at hat
      omega
  exact ⟨load32_put_of_disjoint s v (by omega), load32_put_of_disjoint s v (by omega)⟩

variable {E : Fault → State K → Prop} {Q : Unit → State K → Prop}

/-- `unlink`. Its check does not fail. -/
theorem Rep.unlink (r : Rep m₀ s h) (hbin : h.bins av i = l₁ ++ x :: l₂)
    (hQ : ∀ s', s'.mstates = s.mstates → Rep m₀ s' (h.take av i (l₁ ++ l₂) x) → Q () s') :
    wp (unlink x) Q E s := by
  have hmem : x ∈ h.bins av i := by
    rw [hbin]
    exact List.mem_append_right _ List.mem_cons_self
  have hd := r.body.header hmem
  have hring := r.rings hd
  have hx : x ∈ binAt av i :: h.bins av i := List.mem_cons_of_mem _ hmem
  have hfdn := hring.fd_mem hx
  have hbkn := hring.bk_mem hx
  have hcheck := hring.neighbours hmem
  have nx := r.body.node hd hx
  -- the check compares the links of the two neighbours, which lead back to `x`
  unfold ArbiterThread.unlink
  rw [wp_bind]
  refine nx.fdOf r.body ?_
  rw [wp_bind]
  refine nx.bkOf r.body ?_
  rw [wp_bind]
  refine (r.body.node hd hfdn).bkOf r.body ?_
  rw [wp_bind]
  refine (r.body.node hd hbkn).fdOf r.body ?_
  rw [if_neg (by simp only [hcheck, ne_eq, not_true_eq_false, or_self, not_false_eq_true]), wp_bind]
  refine r.body.store (r.body.loose hd hfdn).2 (fun b1 => ?_)
  refine b1.store (b1.loose (hd.put _ _) hbkn).1 (fun _ => ?_)
  exact hQ _ rfl (r.removed hbin)

end

/-! ### The unsorted list -/

/-- What is known of a chunk that becomes free: no free chunk before it, and a
    chunk behind it that is not free and says so. -/
structure Heap.Freeable (h : Heap) (p : Nat) : Prop where
  size : h.size p ≠ 0
  flag : h.flag p = true
  keep : h.keep p = 0
  next : h.size (h.next p) ≠ 0 ∧ h.flag (h.next p) = false ∧ h.use (h.next p) ≠ .free ∧
    h.use (h.next p) ≠ .top

section

variable {m₀ : Mem} {s : State K} {h : Heap} {p y z av i : Nat} {l₁ l₂ pre post : List Nat}
variable {E : Fault → State K → Prop} {Q : Unit → State K → Prop}

theorem withInuse_of_mod {n : Nat} (h8 : n % 8 = 0) : withInuse n = n + 1 := by
  unfold withInuse
  omega

theorem Body.chunkAtOffset (b : Body m₀ s h) (hp : h.size p ≠ 0) :
    chunkAtOffset p (h.size p) = h.next p := by
  have hb := b.tidy.tiling.bounds hp
  unfold ArbiterThread.chunkAtOffset wordSize Heap.next
  omega

theorem Body.activeOf (b : Body m₀ s h) (hp : h.size p ≠ 0) : Active s (h.avOf p) :=
  b.tracks.owner (b.tidy.tiling.place hp).1

/-- A raw chunk linked into a bin, with its size field and footer. -/
theorem Rep.linkedRaw (b : Body m₀ s h) (hd : Header s av i) (hbin : h.bins av i = l₁ ++ l₂)
    (hrings : ∀ {av' j}, Header s av' j → ¬ (av' = av ∧ j = i) → RingAt s.mem h av' j)
    (hring : RingAt s.mem h av i ∨ h.bins av i = [])
    (hy : binAt av i :: l₁ = pre ++ [y]) (hz : l₂ ++ [binAt av i] = z :: post)
    (hf : h.Freeable p) (huse : h.use p = .raw) (hav : h.avOf p = av)
    (hi : i = 1 ∨ i = binIndex (h.size p)) :
    Rep m₀ (((s.link p y z).put (p + 4) (h.size p + 1)).put (h.next p) (h.size p))
      (h.bin av i (l₁ ++ p :: l₂) p) := by
  have hb := b.tidy.tiling.bounds hf.size
  have hnext : h.next p = p + h.size p := rfl
  have hkeep := hf.keep
  have hyin := mem_of_left hbin hy
  have hzin := mem_of_right hbin hz
  -- none of the six stores disturbs the rest of the heap
  have b1 := b.put (.own p hf.size huse (.inr (by omega)) (by omega) : Loose s h (p + 12)) y
  have b2 := b1.put (.own p hf.size huse (.inr (by omega)) (by omega) : Loose _ h (p + 8)) z
  have b3 := b2.put (b2.loose ((hd.put _ _).put _ _) hyin).1 p
  have b4 := b3.put (b3.loose (((hd.put _ _).put _ _).put _ _) hzin).2 p
  have b5 := b4.put (.own p hf.size huse (.inl rfl) (by omega) : Loose _ h (p + 4)) (h.size p + 1)
  have b6 := b5.put (.own p hf.size huse (.inr (by omega)) (by omega) : Loose _ h (h.next p))
    (h.size p)
  refine Rep.linked b hd hbin hrings hring hy hz hf.size (by rw [huse]; decide) ?_ rfl ?_
  · refine b6.bin hf.size (.inr huse) hf.flag hf.keep hf.next hav hi hbin ?_ ?_
    · rw [load32_put_of_disjoint _ _ (by omega)]
      exact load32_put_self _ _ (by omega)
    · exact load32_put_self _ _ (by omega)
  · intro a ha
    have ha4 := (((ha.put (p + 12) y).put (p + 8) z).put (y + 8) p).put (z + 12) p
    have hfoot := links_put b5 hf.size (h.size p) (.inr rfl) (ha4.put _ _)
    have hhead := links_put b4 hf.size (h.size p + 1) (.inl rfl) ha4
    exact ⟨hfoot.1.trans hhead.1, hfoot.2.trans hhead.2⟩

/-- The front of the unsorted list. -/
theorem Rep.linkFront (r : Rep m₀ s h) (hf : h.Freeable p) (huse : h.use p = .raw) :
    Rep m₀ (((s.link p (unsortedChunks (h.avOf p)) (fdAt s.mem (unsortedChunks (h.avOf p)))).put
        (p + 4) (h.size p + 1)).put (h.next p) (h.size p))
      (h.bin (h.avOf p) 1 (p :: h.bins (h.avOf p) 1) p) := by
  have hd : Header s (h.avOf p) 1 := ⟨r.body.activeOf hf.size, by decide, by decide⟩
  rcases exists_cons (h.bins (h.avOf p) 1) (binAt (h.avOf p) 1) with ⟨z, post, hz⟩
  have hz' : fdAt s.mem (unsortedChunks (h.avOf p)) = z := (r.rings hd).fd_header hz
  rw [hz']
  exact Rep.linkedRaw r.body hd (List.nil_append _).symm (fun hd' _ => r.rings hd')
    (.inl (r.rings hd)) (List.nil_append _).symm hz hf huse rfl (.inl rfl)

theorem Rep.freeLink (r : Rep m₀ s h) (hf : h.Freeable p) (huse : h.use p = .raw)
    (hQ : ∀ s', s'.mstates = s.mstates →
      Rep m₀ s' (h.bin (h.avOf p) 1 (p :: h.bins (h.avOf p) 1) p) → Q () s') :
    wp (freeLink (h.avOf p) p (h.size p)) Q E s := by
  have hd : Header s (h.avOf p) 1 := ⟨r.body.activeOf hf.size, by decide, by decide⟩
  have hb := r.body.tidy.tiling.bounds hf.size
  have hnext : h.next p = p + h.size p := rfl
  have hkeep := hf.keep
  have hfwd := (r.rings hd).fd_mem List.mem_cons_self
  have nhdr : Node s h (unsortedChunks (h.avOf p)) := .header _ _ hd rfl
  -- the code writes both links of the chunk before those of its neighbours
  unfold ArbiterThread.freeLink
  rw [wp_bind]
  refine nhdr.fdOf r.body ?_
  rw [wp_bind]
  refine r.body.store (.own p hf.size huse (.inr (by omega)) (by omega)) (fun b1 => ?_)
  rw [wp_bind]
  refine b1.store (.own p hf.size huse (.inr (by omega)) (by omega)) (fun b2 => ?_)
  rw [wp_bind]
  refine b2.store (.header _ _ ((hd.put _ _).put _ _) (.inl rfl)) (fun b3 => ?_)
  rw [wp_bind]
  refine b3.store (b3.loose (((hd.put _ _).put _ _).put _ _) hfwd).2 (fun b4 => ?_)
  rw [wp_bind, withInuse_of_mod hb.2.2.2.1]
  refine b4.store (.own p hf.size huse (.inl rfl) (by omega)) (fun b5 => ?_)
  unfold setFoot setPrevSize
  rw [r.body.chunkAtOffset hf.size]
  refine b5.store (.own p hf.size huse (.inr (by omega)) (by omega)) (fun _ => ?_)
  exact hQ _ rfl (r.linkFront hf huse)

theorem Rep.consolidateLink (r : Rep m₀ s h) (hf : h.Freeable p) (huse : h.use p = .raw)
    (hQ : ∀ s', s'.mstates = s.mstates →
      Rep m₀ s' (h.bin (h.avOf p) 1 (p :: h.bins (h.avOf p) 1) p) → Q () s') :
    wp (consolidateLink (h.avOf p) p (h.size p)) Q E s := by
  have hd : Header s (h.avOf p) 1 := ⟨r.body.activeOf hf.size, by decide, by decide⟩
  have hb := r.body.tidy.tiling.bounds hf.size
  have hnext : h.next p = p + h.size p := rfl
  have hkeep := hf.keep
  have hfwd := (r.rings hd).fd_mem List.mem_cons_self
  have nhdr : Node s h (unsortedChunks (h.avOf p)) := .header _ _ hd rfl
  have nfwd : Node s h (fdAt s.mem (unsortedChunks (h.avOf p))) := r.body.node hd hfwd
  have np : Node s h p := .chunk hf.size
  have hhb := r.body.tracks.header_bounds hd
  have hphdr : p ≠ unsortedChunks (h.avOf p) := by
    unfold unsortedChunks
    omega
  have hpfwd : p ≠ fdAt s.mem (unsortedChunks (h.avOf p)) := by
    intro heq
    rcases List.mem_cons.mp hfwd with hcon | hin
    · exact hphdr (heq.trans hcon)
    · have hfree := (r.body.tidy.lists.bin hin).2.1
      change h.use (fdAt s.mem (unsortedChunks (h.avOf p))) = .free at hfree
      rw [← heq, huse] at hfree
      simp at hfree
  unfold ArbiterThread.consolidateLink
  rw [wp_bind]
  refine nhdr.fdOf r.body ?_
  rw [wp_bind]
  refine r.body.store (.header _ _ hd (.inl rfl)) (fun b1 => ?_)
  rw [wp_bind]
  refine b1.store (b1.loose (hd.put _ _) hfwd).2 (fun b2 => ?_)
  rw [wp_bind, withInuse_of_mod hb.2.2.2.1]
  refine b2.store (.own p hf.size huse (.inl rfl) (by omega)) (fun b3 => ?_)
  rw [wp_bind]
  refine b3.store (.own p hf.size huse (.inr (by omega)) (by omega)) (fun b4 => ?_)
  rw [wp_bind]
  refine b4.store (.own p hf.size huse (.inr (by omega)) (by omega)) (fun b5 => ?_)
  unfold setFoot setPrevSize
  rw [r.body.chunkAtOffset hf.size]
  refine b5.store (.own p hf.size huse (.inr (by omega)) (by omega)) (fun _ => ?_)
  -- the same stores as in `freeLink`, in another order
  have hfinal := r.linkFront hf huse
  rw [← State.link_comm s _ (node_apart r.body np nhdr hphdr) (node_apart r.body np nfwd hpfwd)]
    at hfinal
  exact hQ _ rfl hfinal

/-- A chunk that was just taken out of its bin, put into another one. -/
theorem Rep.linkBetween (r : Rep m₀ s h) (hd : Header s av i) (hbin : h.bins av i = l₁ ++ l₂)
    (hy : binAt av i :: l₁ = pre ++ [y]) (hz : l₂ ++ [binAt av i] = z :: post)
    (hf : h.Freeable p) (huse : h.use p = .held) (hav : h.avOf p = av)
    (hi : i = 1 ∨ i = binIndex (h.size p))
    (hQ : ∀ s', s'.mstates = s.mstates → Rep m₀ s' (h.bin av i (l₁ ++ p :: l₂) p) → Q () s') :
    wp (linkBetween p y z) Q E s := by
  have hb := r.body.tidy.tiling.bounds hf.size
  have hyin := mem_of_left hbin hy
  have hzin := mem_of_right hbin hz
  have ny := r.body.node hd hyin
  have nz := r.body.node hd hzin
  unfold ArbiterThread.linkBetween
  rw [wp_bind]
  refine r.body.store (.link p hf.size (.inr huse) (.inr rfl)) (fun b1 => ?_)
  rw [wp_bind]
  refine b1.store (.link p hf.size (.inr huse) (.inl rfl)) (fun b2 => ?_)
  rw [wp_bind]
  refine b2.store (b2.loose ((hd.put _ _).put _ _) hzin).2 (fun b3 => ?_)
  refine b3.store (b3.loose (((hd.put _ _).put _ _).put _ _) hyin).1 (fun b4 => ?_)
  -- its header and foot were right already, since it was free before
  refine hQ _ rfl (Rep.linked r.body hd hbin (fun hd' _ => r.rings hd') (.inl (r.rings hd)) hy hz
    hf.size (by rw [huse]; decide) ?_ rfl ?_)
  · refine b4.bin hf.size (.inl huse) hf.flag hf.keep hf.next hav hi hbin ?_ ?_
    · rw [b4.holds.head hf.size (by rw [huse]; decide), Heap.head, hf.flag]
      rfl
    · exact b4.holds.foot hf.size (.inr huse)
  · intro a _
    have hyz := node_cases r.body ny nz
    unfold State.link
    rw [State.put_comm _ p p (by omega)]
    exact ⟨rfl, rfl⟩

/-! ### Steps that leave the bins alone -/

theorem Rep.of_body {h' : Heap} (r : Rep m₀ s h) (b : Body m₀ s h') (hbins : h'.bins = h.bins) :
    Rep m₀ s h' := by
  refine ⟨b, fun hd => ?_⟩
  unfold RingAt
  rw [hbins]
  exact r.rings hd

/-- Writing a size field or a footer. -/
theorem Rep.put {h' : Heap} {a v : Nat} (r : Rep m₀ s h) (hp : h.size p ≠ 0)
    (hat : a = p + 4 ∨ a = h.next p) (b : Body m₀ (s.put a v) h') (hbins : h'.bins = h.bins) :
    Rep m₀ (s.put a v) h' := by
  refine ⟨b, fun {av i} hd => ?_⟩
  have hd' : Header s av i := ⟨hd.active, hd.lo, hd.hi⟩
  have hlinks := fun a ha => links_put r.body hp v hat (r.body.node hd' (x := a) ha)
  unfold RingAt
  rw [hbins]
  exact (r.rings hd').congr (fun a ha => (hlinks a ha).1) (fun a ha => (hlinks a ha).2)

end

end ArbiterThread
