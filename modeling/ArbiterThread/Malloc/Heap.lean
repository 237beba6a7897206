import ArbiterThread.Malloc.Alloc

/-!
# The Heap in the Abstract

What the arbiter's allocator is about, without a memory: units cut into
chunks, and lists of the chunks that are not in use.

A chunk is known by the address it begins at, and has a size, something the
allocator does with it at the moment, and one flag about the chunk before it.
Between two calls every chunk is live, on a fastbin, free on a bin, or the unit
top. Inside a call chunks are also `held`, taken out of their bin with an intact
header, and `raw`, where nothing is known about the header any more. Joining,
splitting and moving chunks happens to raw chunks only, so each of these steps
has to be looked at once and not once for each place in the code that makes it.

`Tiling` is about extents and `Flags` about the use bits, and most steps concern
only one of the two. The unit top is a chunk like any other here, so giving a
piece of it away is a split, and merging a chunk into it is a join.

## Main definitions

* `Use`, `Heap`: The abstract heap.
* `Heap.Tiling`: Every unit is tiled by chunks up to its fencepost.
* `Heap.Flags`: The flag of a chunk says whether the chunk before it is free.
* `Heap.join`, `Heap.cleave`: Two raw chunks made one, and one made two.
* `Heap.addUnit`: A new unit.
* `Heap.setUse`, `Heap.setFlag`: Everything but the extent of a chunk.

## Theorems

* `Heap.Tiling.join`, `Heap.Tiling.cleave`, `Heap.Tiling.addUnit`: Steps that keep the
  tiling.
* `Heap.Flags.setUse`, `Heap.Flags.setFlag`, `Heap.Flags.join`, `Heap.Flags.cleave`,
  `Heap.Flags.addUnit`: Steps that keep the flags.
-/

namespace ArbiterThread

/-- What the allocator does with a chunk. -/
inductive Use where
  /-- handed out -/
  | live
  /-- on a fastbin -/
  | fast
  /-- on a bin -/
  | free
  /-- the unit top -/
  | top
  /-- taken out of its bin, with its header as it was there -/
  | held
  /-- being worked on -/
  | raw
deriving DecidableEq, Repr

/-- Units cut into chunks, and the lists of chunks that are not in use. -/
structure Heap where
  /-- the first address of a unit, 0 if it is not one that is cut into chunks -/
  base : Nat → Nat
  top : Nat → Nat
  owner : Nat → Nat
  /-- the size of the chunk that begins here, 0 if none does -/
  size : Nat → Nat
  unit : Nat → Nat
  use : Nat → Use
  /-- `PREV_INUSE` -/
  flag : Nat → Bool
  /-- how many of the user bytes have not been touched since the call began -/
  keep : Nat → Nat
  bins : Nat → Nat → List Nat
  fasts : Nat → Nat → List Nat
  /-- the rest of a fastbin that is being consolidated -/
  pending : List Nat

namespace Heap

/-- The first of the two fenceposts. -/
def fence (h : Heap) (u : Nat) : Nat := h.base u + unitTopSize

/-- The size field of a chunk. -/
def head (h : Heap) (p : Nat) : Nat := h.size p + (h.flag p).toNat

/-- The chunk behind a chunk, if it is not the last one. -/
def next (h : Heap) (p : Nat) : Nat := p + h.size p

/-- The `malloc_state` of the unit a chunk is in. -/
def avOf (h : Heap) (p : Nat) : Nat := h.owner (h.unit p)

/-! ### Tiling -/

/-- Every unit is tiled by chunks up to its fencepost. -/
structure Tiling (h : Heap) : Prop where
  inside : ∀ {u}, h.base u ≠ 0 →
    0x80000000 ≤ h.base u ∧ h.base u + 40960 ≤ 0xA0000000 ∧ h.base u % 8 = 0
  arenas : ∀ {u v}, h.base u ≠ 0 → h.base v ≠ 0 → u ≠ v →
    h.base u + 40960 ≤ h.base v ∨ h.base v + 40960 ≤ h.base u
  place : ∀ {p}, h.size p ≠ 0 →
    h.base (h.unit p) ≠ 0 ∧ h.base (h.unit p) ≤ p ∧ h.next p ≤ h.fence (h.unit p)
  shape : ∀ {p}, h.size p ≠ 0 → p % 8 = 0 ∧ h.size p % 8 = 0 ∧ 16 ≤ h.size p
  apart : ∀ {p q}, h.size p ≠ 0 → h.size q ≠ 0 → p < q → h.next p ≤ q
  follow : ∀ {p}, h.size p ≠ 0 → h.next p ≠ h.fence (h.unit p) →
    h.size (h.next p) ≠ 0 ∧ h.unit (h.next p) = h.unit p
  first : ∀ {u}, h.base u ≠ 0 → h.size (h.base u) ≠ 0 ∧ h.unit (h.base u) = u

namespace Tiling

variable {h : Heap}

/-- The numbers a chunk comes with. -/
theorem bounds (t : h.Tiling) {p : Nat} (hp : h.size p ≠ 0) :
    0x80000000 ≤ p ∧ p + h.size p + 16 ≤ 0xA0000000 ∧ p % 8 = 0 ∧ h.size p % 8 = 0 ∧
      16 ≤ h.size p ∧ h.size p ≤ 40944 := by
  have hplace := t.place hp
  have hbase := t.inside hplace.1
  have hshape := t.shape hp
  simp only [fence, next, unitTopSize] at hplace
  omega

theorem apart_of_ne (t : h.Tiling) {p q : Nat} (hp : h.size p ≠ 0) (hq : h.size q ≠ 0)
    (hne : p ≠ q) : h.next p ≤ q ∨ h.next q ≤ p := by
  rcases Nat.lt_or_gt_of_ne hne with hlt | hlt
  · exact .inl (t.apart hp hq hlt)
  · exact .inr (t.apart hq hp hlt)

/-- Units do not share a chunk. -/
theorem unit_eq (t : h.Tiling) {p u : Nat} (hp : h.size p ≠ 0) (hu : h.base u ≠ 0)
    (hlo : h.base u ≤ p) (hhi : p < h.base u + 40960) : h.unit p = u := by
  by_contra hne
  have hplace := t.place hp
  have hbounds := t.bounds hp
  have hdisj := t.arenas hplace.1 hu hne
  simp only [fence, next, unitTopSize] at hplace
  omega

/-- No two chunks end at the same place. -/
theorem next_inj (t : h.Tiling) {p q : Nat} (hp : h.size p ≠ 0) (hq : h.size q ≠ 0)
    (heq : h.next p = h.next q) : p = q := by
  by_contra hne
  have hsp := t.shape hp
  have hsq := t.shape hq
  have hapart := t.apart_of_ne hp hq hne
  simp only [next] at *
  omega

/-- Nothing begins at a fencepost. -/
theorem unit_next (t : h.Tiling) {p : Nat} (hp : h.size p ≠ 0) (hn : h.size (h.next p) ≠ 0) :
    h.next p ≠ h.fence (h.unit p) ∧ h.unit (h.next p) = h.unit p := by
  have hne : h.next p ≠ h.fence (h.unit p) := by
    intro heq
    have hplace := t.place hp
    have hplace' := t.place hn
    have hshape := t.shape hn
    have hunit := t.unit_eq hn hplace.1 (by unfold next; omega) (by
      rw [heq, fence, unitTopSize]
      omega)
    rw [hunit, ← heq] at hplace'
    generalize hq : h.next p = q at *
    unfold next at hplace'
    omega
  exact ⟨hne, (t.follow hp hne).2⟩

end Tiling

/-- Two neighbouring chunks made one. -/
def join (h : Heap) (p : Nat) : Heap :=
  { h with
    size := Function.update (Function.update h.size (h.next p) 0) p
      (h.size p + h.size (h.next p)) }

/-- A chunk cut after `k` bytes. The second part is raw, too. -/
def cleave (h : Heap) (p k : Nat) : Heap :=
  { h with
    size := Function.update (Function.update h.size (p + k) (h.size p - k)) p k
    unit := Function.update h.unit (p + k) (h.unit p)
    use := Function.update h.use (p + k) .raw
    flag := Function.update h.flag (p + k) true
    keep := Function.update h.keep (p + k) 0 }

/-- A new unit, one raw chunk up to its fencepost. -/
def addUnit (h : Heap) (u b av : Nat) : Heap :=
  { h with
    base := Function.update h.base u b
    top := Function.update h.top u b
    owner := Function.update h.owner u av
    size := Function.update h.size b unitTopSize
    unit := Function.update h.unit b u
    use := Function.update h.use b .raw
    flag := Function.update h.flag b true
    keep := Function.update h.keep b 0 }

/-- What a new unit has to be: new, inside the channel heap and apart from the
    others. -/
structure Fits (h : Heap) (u b : Nat) : Prop where
  fresh : h.base u = 0
  lo : 0x80000000 ≤ b
  hi : b + 40960 ≤ 0xA0000000
  aligned : b % 8 = 0
  apart : ∀ v, h.base v ≠ 0 → b + 40960 ≤ h.base v ∨ h.base v + 40960 ≤ b

section

variable {h : Heap} {p q k : Nat}

theorem join_size_self : (h.join p).size p = h.size p + h.size (h.next p) :=
  Function.update_self ..

theorem join_size_next (hp : h.size p ≠ 0) : (h.join p).size (h.next p) = 0 := by
  have hne : h.next p ≠ p := by
    unfold next
    omega
  simp only [join, Function.update_of_ne hne, Function.update_self]

theorem join_size_of_ne (hp : q ≠ p) (hn : q ≠ h.next p) : (h.join p).size q = h.size q := by
  simp only [join, Function.update_of_ne hp, Function.update_of_ne hn]

theorem cleave_size_self : (h.cleave p k).size p = k := Function.update_self ..

theorem cleave_size_rest (hk : k ≠ 0) : (h.cleave p k).size (p + k) = h.size p - k := by
  have hne : p + k ≠ p := by omega
  simp only [cleave, Function.update_of_ne hne, Function.update_self]

theorem cleave_size_of_ne (hp : q ≠ p) (hk : q ≠ p + k) : (h.cleave p k).size q = h.size q := by
  simp only [cleave, Function.update_of_ne hp, Function.update_of_ne hk]

end

namespace Tiling

variable {h : Heap} {p k : Nat}

/-- The sizes after a join. -/
theorem join_cases (hp : h.size p ≠ 0) (q : Nat) (hq : (h.join p).size q ≠ 0) :
    h.size q ≠ 0 ∧ q ≠ h.next p ∧
      (h.join p).next q = if q = p then h.next (h.next p) else h.next q := by
  by_cases hqn : q = h.next p
  · rw [hqn, join_size_next hp] at hq
    exact absurd rfl hq
  by_cases hqp : q = p
  · subst hqp
    refine ⟨hp, hqn, ?_⟩
    rw [if_pos rfl, next, join_size_self]
    simp only [next]
    omega
  · rw [join_size_of_ne hqp hqn] at hq
    refine ⟨hq, hqn, ?_⟩
    rw [if_neg hqp, next, join_size_of_ne hqp hqn]
    rfl

theorem join_keeps {q : Nat} (hp : h.size p ≠ 0) (hq : h.size q ≠ 0) (hqn : q ≠ h.next p) :
    (h.join p).size q ≠ 0 := by
  by_cases hqp : q = p
  · rw [hqp, join_size_self]
    omega
  · rw [join_size_of_ne hqp hqn]
    exact hq

theorem join (t : h.Tiling) (hp : h.size p ≠ 0) (hn : h.size (h.next p) ≠ 0) :
    (h.join p).Tiling := by
  have hunit := (t.unit_next hp hn).2
  have hbp := t.bounds hp
  have hbn := t.bounds hn
  refine ⟨t.inside, t.arenas, ?_, ?_, ?_, ?_, ?_⟩
  · intro q hq
    rcases join_cases hp q hq with ⟨hq, -, hnext⟩
    rw [hnext]
    have hplace := t.place hq
    split
    · rename_i heq
      subst heq
      have hplace' := t.place hn
      rw [hunit] at hplace'
      exact ⟨hplace.1, hplace.2.1, hplace'.2.2⟩
    · exact hplace
  · intro q hq
    have hold := join_cases hp q hq
    have hshape := t.shape hold.1
    by_cases hqp : q = p
    · subst hqp
      rw [join_size_self]
      omega
    · rw [join_size_of_ne hqp hold.2.1]
      exact hshape
  · intro q r hq hr hlt
    have hq' := join_cases hp q hq
    have hr' := join_cases hp r hr
    rw [hq'.2.2]
    have hqr := t.apart hq'.1 hr'.1 hlt
    split
    · rename_i heq
      subst heq
      exact t.apart hn hr'.1 (lt_of_le_of_ne hqr (Ne.symm hr'.2.1))
    · exact hqr
  · intro q hq hend
    have hq' := join_cases hp q hq
    rw [hq'.2.2] at hend ⊢
    split at hend
    · rename_i heq
      subst heq
      rw [if_pos rfl]
      have hfollow := t.follow hn (by rw [hunit]; exact hend)
      refine ⟨join_keeps hp hfollow.1 ?_, hfollow.2.trans hunit⟩
      simp only [next] at *
      omega
    · rename_i hne
      rw [if_neg hne]
      have hfollow := t.follow hq'.1 hend
      refine ⟨join_keeps hp hfollow.1 ?_, hfollow.2⟩
      exact fun heq => hne (t.next_inj hq'.1 hp heq)
  · intro u hu
    have hfirst := t.first hu
    refine ⟨join_keeps hp hfirst.1 ?_, hfirst.2⟩
    -- the first chunk of a unit is not behind another one
    intro heq
    change h.base u = h.next p at heq
    have hplace := t.place hp
    rw [← hunit, ← heq, hfirst.2] at hplace
    simp only [next] at heq
    omega

/-- The sizes after a cut. -/
theorem cleave_cases (hk : 16 ≤ k) (hrest : k + 16 ≤ h.size p) (q : Nat)
    (hq : (h.cleave p k).size q ≠ 0) :
    (q = p ∧ (h.cleave p k).next q = p + k) ∨ (q = p + k ∧ (h.cleave p k).next q = h.next p) ∨
      (q ≠ p ∧ q ≠ p + k ∧ h.size q ≠ 0 ∧ (h.cleave p k).next q = h.next q) := by
  by_cases hqp : q = p
  · left
    rw [hqp, next, cleave_size_self]
    exact ⟨rfl, rfl⟩
  by_cases hqk : q = p + k
  · right
    left
    rw [hqk, next, cleave_size_rest (by omega), next]
    omega
  · right
    right
    rw [cleave_size_of_ne hqp hqk] at hq
    refine ⟨hqp, hqk, hq, ?_⟩
    rw [next, cleave_size_of_ne hqp hqk]
    rfl

/-- Nothing begins inside the chunk that is cut. -/
theorem cleave_keeps (t : h.Tiling) (hp : h.size p ≠ 0) (hk : 16 ≤ k) (hrest : k + 16 ≤ h.size p)
    {q : Nat} (hq : h.size q ≠ 0) : q ≠ p + k ∧ (h.cleave p k).size q ≠ 0 := by
  have hqk : q ≠ p + k := by
    rintro rfl
    have hapart := t.apart hp hq (by omega)
    unfold next at hapart
    omega
  refine ⟨hqk, ?_⟩
  by_cases hqp : q = p
  · rw [hqp, cleave_size_self]
    omega
  · rw [cleave_size_of_ne hqp hqk]
    exact hq

theorem cleave (t : h.Tiling) (hp : h.size p ≠ 0) (hk : 16 ≤ k) (hk8 : k % 8 = 0)
    (hrest : k + 16 ≤ h.size p) : (h.cleave p k).Tiling := by
  have hb := t.bounds hp
  have hcut : (h.cleave p k).size (p + k) ≠ 0 := by
    rw [cleave_size_rest (by omega)]
    omega
  have hunit : ∀ {q}, h.size q ≠ 0 → (h.cleave p k).unit q = h.unit q := by
    intro q hq
    exact Function.update_of_ne (t.cleave_keeps hp hk hrest hq).1 _ _
  have hunit' : (h.cleave p k).unit (p + k) = h.unit p := Function.update_self ..
  have hplace := t.place hp
  refine ⟨t.inside, t.arenas, ?_, ?_, ?_, ?_, ?_⟩
  -- the chunks are the two parts, and those that were there before
  · intro q hq
    rcases cleave_cases hk hrest q hq with ⟨rfl, hn⟩ | ⟨rfl, hn⟩ | ⟨-, -, hq, hn⟩
    · rw [hn, hunit hp]
      refine ⟨hplace.1, hplace.2.1, le_trans ?_ hplace.2.2⟩
      unfold next
      omega
    · rw [hn, hunit']
      exact ⟨hplace.1, le_trans hplace.2.1 (Nat.le_add_right _ _), hplace.2.2⟩
    · rw [hn, hunit hq]
      exact t.place hq
  · intro q hq
    rcases cleave_cases hk hrest q hq with ⟨rfl, -⟩ | ⟨rfl, -⟩ | ⟨hqp, hqk, hq, -⟩
    · rw [cleave_size_self]
      omega
    · rw [cleave_size_rest (by omega)]
      omega
    · rw [cleave_size_of_ne hqp hqk]
      exact t.shape hq
  · intro q r hq hr hlt
    rcases cleave_cases hk hrest q hq with ⟨rfl, hn⟩ | ⟨rfl, hn⟩ | ⟨hqp, -, hq, hn⟩
    · rw [hn]
      rcases cleave_cases hk hrest r hr with ⟨rfl, -⟩ | ⟨rfl, -⟩ | ⟨-, -, hr, -⟩
      · omega
      · exact le_refl _
      · have hapart := t.apart hp hr hlt
        unfold next at hapart
        omega
    · rw [hn]
      rcases cleave_cases hk hrest r hr with ⟨rfl, -⟩ | ⟨rfl, -⟩ | ⟨-, -, hr, -⟩
      · omega
      · omega
      · exact t.apart hp hr (by omega)
    · rw [hn]
      rcases cleave_cases hk hrest r hr with ⟨heq, -⟩ | ⟨rfl, -⟩ | ⟨-, -, hr, -⟩
      · rw [heq] at hlt ⊢
        exact t.apart hq hp hlt
      · have hapart := t.apart_of_ne hq hp hqp
        unfold next at hapart ⊢
        omega
      · exact t.apart hq hr hlt
  · intro q hq hend
    rcases cleave_cases hk hrest q hq with ⟨rfl, hn⟩ | ⟨rfl, hn⟩ | ⟨-, -, hq, hn⟩
    · rw [hn]
      exact ⟨hcut, hunit'.trans (hunit hp).symm⟩
    · rw [hn, hunit'] at hend ⊢
      have hfollow := t.follow hp hend
      exact ⟨(t.cleave_keeps hp hk hrest hfollow.1).2, (hunit hfollow.1).trans hfollow.2⟩
    · rw [hn, hunit hq] at hend ⊢
      have hfollow := t.follow hq hend
      exact ⟨(t.cleave_keeps hp hk hrest hfollow.1).2, (hunit hfollow.1).trans hfollow.2⟩
  · intro u hu
    have hfirst := t.first hu
    exact ⟨(t.cleave_keeps hp hk hrest hfirst.1).2, (hunit hfirst.1).trans hfirst.2⟩

theorem far (t : h.Tiling) {u b : Nat} (hf : h.Fits u b) {q : Nat} (hq : h.size q ≠ 0) :
    q ≠ b ∧ h.unit q ≠ u ∧ (h.next q + 16 ≤ b ∨ b + 40960 ≤ q) := by
  have hplace := t.place hq
  have hshape := t.shape hq
  have hsep := hf.apart _ hplace.1
  have hunit : h.unit q ≠ u := fun heq => hplace.1 (heq ▸ hf.fresh)
  simp only [fence, unitTopSize, next] at *
  refine ⟨?_, hunit, ?_⟩
  all_goals omega

theorem addUnit_cases {u b av q : Nat} (hq : (h.addUnit u b av).size q ≠ 0) :
    q = b ∨ q ≠ b ∧ h.size q ≠ 0 := by
  by_cases hqb : q = b
  · exact .inl hqb
  · simp only [Heap.addUnit, Function.update_of_ne hqb] at hq
    exact .inr ⟨hqb, hq⟩

theorem addUnit (t : h.Tiling) {u b : Nat} (av : Nat) (hf : h.Fits u b) :
    (h.addUnit u b av).Tiling := by
  have hold : ∀ {q}, h.size q ≠ 0 → (h.addUnit u b av).size q = h.size q ∧
      (h.addUnit u b av).unit q = h.unit q := by
    intro q hq
    simp only [Heap.addUnit, Function.update_of_ne (t.far hf hq).1, and_self]
  have hself : (h.addUnit u b av).size b = 40944 ∧ (h.addUnit u b av).unit b = u ∧
      (h.addUnit u b av).base u = b := by
    simp only [Heap.addUnit, Function.update_self, unitTopSize, and_self]
  have hbase : ∀ {v}, v ≠ u → (h.addUnit u b av).base v = h.base v :=
    fun hv => Function.update_of_ne hv _ _
  have hnext : ∀ {q}, h.size q ≠ 0 → (h.addUnit u b av).next q = h.next q := by
    intro q hq
    simp only [next, (hold hq).1]
  have hfence : ∀ {q}, h.size q ≠ 0 →
      (h.addUnit u b av).fence (h.unit q) = h.fence (h.unit q) := by
    intro q hq
    simp only [fence, hbase (t.far hf hq).2.1]
  -- the new unit is one chunk, away from all others
  constructor
  · intro v hv
    by_cases hvu : v = u
    · rw [hvu, hself.2.2]
      exact ⟨hf.lo, hf.hi, hf.aligned⟩
    · rw [hbase hvu] at hv ⊢
      exact t.inside hv
  · intro v w hv hw hne
    by_cases hvu : v = u
    · have hwu : w ≠ u := fun h => hne (hvu.trans h.symm)
      rw [hbase hwu] at hw ⊢
      rw [hvu, hself.2.2]
      exact hf.apart w hw
    · rw [hbase hvu] at hv ⊢
      by_cases hwu : w = u
      · rw [hwu, hself.2.2]
        exact (hf.apart v hv).symm
      · rw [hbase hwu] at hw ⊢
        exact t.arenas hv hw hne
  · intro q hq
    rcases addUnit_cases hq with rfl | ⟨-, hq⟩
    · have hlo := hf.lo
      simp only [fence, next, hself, unitTopSize]
      omega
    · have hplace := t.place hq
      rw [(hold hq).2, hbase (t.far hf hq).2.1, hnext hq, hfence hq]
      exact hplace
  · intro q hq
    rcases addUnit_cases hq with rfl | ⟨-, hq⟩
    · have h8 := hf.aligned
      rw [hself.1]
      omega
    · rw [(hold hq).1]
      exact t.shape hq
  · intro q r hq hr hlt
    rcases addUnit_cases hq with rfl | ⟨-, hq⟩
    · rcases addUnit_cases hr with rfl | ⟨-, hr⟩
      · omega
      · have hr' := t.far hf hr
        have hshape := t.shape hr
        simp only [next, hself.1] at *
        omega
    · rw [hnext hq]
      rcases addUnit_cases hr with heq | ⟨-, hr⟩
      · have hq' := t.far hf hq
        omega
      · exact t.apart hq hr hlt
  · intro q hq hend
    rcases addUnit_cases hq with rfl | ⟨-, hq⟩
    · simp only [next, fence, hself, unitTopSize, ne_eq, not_true_eq_false] at hend
    · rw [hnext hq, (hold hq).2, hfence hq] at hend
      have hfollow := t.follow hq hend
      rw [hnext hq, (hold hq).2, (hold hfollow.1).1, (hold hfollow.1).2]
      exact hfollow
  · intro v hv
    by_cases hvu : v = u
    · rw [hvu, hself.2.2, hself.1, hself.2.1]
      exact ⟨by decide, rfl⟩
    · rw [hbase hvu] at hv ⊢
      have hfirst := t.first hv
      rw [(hold hfirst.1).1, (hold hfirst.1).2]
      exact hfirst

/-- The tiling is a matter of extents. -/
theorem congr (t : h.Tiling) {h' : Heap} (hbase : h'.base = h.base) (hsize : h'.size = h.size)
    (hunit : h'.unit = h.unit) : h'.Tiling := by
  have hnext : h'.next = h.next := by
    funext q
    simp only [next, hsize]
  have hfence : h'.fence = h.fence := by
    funext u
    simp only [fence, hbase]
  constructor
  · rw [hbase]
    exact t.inside
  · rw [hbase]
    exact t.arenas
  · rw [hbase, hsize, hunit, hnext, hfence]
    exact t.place
  · rw [hsize]
    exact t.shape
  · rw [hsize, hnext]
    exact t.apart
  · rw [hsize, hunit, hnext, hfence]
    exact t.follow
  · rw [hbase, hsize, hunit]
    exact t.first

end Tiling

/-! ### Flags -/

def setUse (h : Heap) (p : Nat) (k : Use) : Heap := { h with use := Function.update h.use p k }

def setFlag (h : Heap) (p : Nat) (b : Bool) : Heap :=
  { h with flag := Function.update h.flag p b }

section

variable (h : Heap) (p : Nat) (k : Use) (b : Bool)

@[simp] theorem setUse_use_self : (h.setUse p k).use p = k := Function.update_self ..

theorem setUse_use_of_ne {q : Nat} (hq : q ≠ p) : (h.setUse p k).use q = h.use q :=
  Function.update_of_ne hq _ _

@[simp] theorem setUse_next : (h.setUse p k).next = h.next := rfl

@[simp] theorem setFlag_flag_self : (h.setFlag p b).flag p = b := Function.update_self ..

theorem setFlag_flag_of_ne {q : Nat} (hq : q ≠ p) : (h.setFlag p b).flag q = h.flag q :=
  Function.update_of_ne hq _ _

@[simp] theorem setFlag_next : (h.setFlag p b).next = h.next := rfl

end

/-- The flag of a chunk says whether the chunk before it is free. Two free chunks
    are never neighbours, and a free chunk is never next to the unit top or the
    fencepost. -/
structure Flags (h : Heap) : Prop where
  free : ∀ {p}, h.size p ≠ 0 → h.use p = .free → h.size (h.next p) ≠ 0 ∧
    h.flag (h.next p) = false ∧ h.use (h.next p) ≠ .free ∧ h.use (h.next p) ≠ .top
  inuse : ∀ {p}, h.size p ≠ 0 → h.use p = .live ∨ h.use p = .fast → h.size (h.next p) ≠ 0 →
    h.flag (h.next p) = true
  before : ∀ {q}, h.size q ≠ 0 → h.flag q = false → ∃ p, h.size p ≠ 0 ∧ h.next p = q

theorem next_ne {h : Heap} {p : Nat} (hp : h.size p ≠ 0) : h.next p ≠ p := by
  unfold next
  omega

namespace Flags

variable {h : Heap} {p : Nat} {k : Use}

/-- A change of use. A chunk that becomes free or the unit top has no free chunk
    before it, and the flag behind a chunk that is free or in use is right. -/
theorem setUse (f : h.Flags) (hp : h.size p ≠ 0)
    (hbefore : k = .free ∨ k = .top → h.flag p = true)
    (hfree : k = .free → h.size (h.next p) ≠ 0 ∧ h.flag (h.next p) = false ∧
      h.use (h.next p) ≠ .free ∧ h.use (h.next p) ≠ .top)
    (hinuse : k = .live ∨ k = .fast → h.size (h.next p) ≠ 0 → h.flag (h.next p) = true) :
    (h.setUse p k).Flags := by
  refine ⟨?_, ?_, f.before⟩
  · intro q hq huse
    rw [setUse_next]
    by_cases hqp : q = p
    · subst hqp
      rw [setUse_use_self] at huse
      rw [setUse_use_of_ne h _ k (next_ne hp)]
      exact hfree huse
    · rw [setUse_use_of_ne h p k hqp] at huse
      have hold := f.free hq huse
      refine ⟨hold.1, hold.2.1, ?_⟩
      -- a free chunk before this one keeps it from becoming free or the top
      by_cases hnp : h.next q = p
      · rw [hnp, setUse_use_self]
        rw [hnp] at hold
        have hk : ¬ (k = .free ∨ k = .top) := fun hk => by
          rw [hbefore hk] at hold
          exact Bool.noConfusion hold.2.1
        exact not_or.mp hk
      · rw [setUse_use_of_ne h p k hnp]
        exact hold.2.2
  · intro q hq huse
    rw [setUse_next]
    by_cases hqp : q = p
    · subst hqp
      rw [setUse_use_self] at huse
      exact hinuse huse
    · rw [setUse_use_of_ne h p k hqp] at huse
      exact f.inuse hq huse

/-- Giving up what was known of the chunk behind. -/
theorem loosen (f : h.Flags) (hp : h.size p ≠ 0) (hk : k = .held ∨ k = .raw) :
    (h.setUse p k).Flags := by
  rcases hk with rfl | rfl
  all_goals exact f.setUse hp (by simp) (by simp) (by simp)

/-- The flag behind a chunk of which nothing is known can be either. -/
theorem setFlag (f : h.Flags) (t : h.Tiling) (hp : h.size p ≠ 0)
    (huse : h.use p = .held ∨ h.use p = .raw) (b : Bool) : (h.setFlag (h.next p) b).Flags := by
  have hother : ∀ {q}, h.size q ≠ 0 → h.use q = .free ∨ h.use q = .live ∨ h.use q = .fast →
      h.next q ≠ h.next p := by
    intro q hq hk heq
    rw [t.next_inj hq hp heq] at hk
    rcases huse with huse | huse
    all_goals
      rw [huse] at hk
      simp at hk
  refine ⟨?_, ?_, ?_⟩
  · intro q hq hk
    have hold := f.free hq hk
    rw [setFlag_next, setFlag_flag_of_ne h _ b (hother hq (.inl hk))]
    exact hold
  · intro q hq hk hn
    rw [setFlag_next, setFlag_flag_of_ne h _ b (hother hq (.inr hk))]
    exact f.inuse hq hk hn
  · intro q hq hflag
    by_cases hqp : q = h.next p
    · exact ⟨p, hp, hqp.symm⟩
    · rw [setFlag_flag_of_ne h _ b hqp] at hflag
      exact f.before hq hflag

theorem join (f : h.Flags) (t : h.Tiling) (hp : h.size p ≠ 0) (hn : h.size (h.next p) ≠ 0)
    (huse : h.use p = .raw) : (h.join p).Flags := by
  have hself : h.use p ≠ .free ∧ h.use p ≠ .live ∧ h.use p ≠ .fast := by
    rw [huse]
    decide
  refine ⟨?_, ?_, ?_⟩
  -- neither of the two chunks is free or in use, so the bits stay right
  · intro q hq hk
    change h.use q = .free at hk
    rcases Tiling.join_cases hp q hq with ⟨hq, hqn, hnext⟩
    have hqp : q ≠ p := fun heq => hself.1 (heq ▸ hk)
    rw [if_neg hqp] at hnext
    rw [hnext]
    have hold := f.free hq hk
    exact ⟨Tiling.join_keeps hp hold.1 (fun heq => hqp (t.next_inj hq hp heq)), hold.2⟩
  · intro q hq hk hend
    change h.use q = .live ∨ h.use q = .fast at hk
    rcases Tiling.join_cases hp q hq with ⟨hq, hqn, hnext⟩
    have hqp : q ≠ p := by
      rintro rfl
      exact hk.elim hself.2.1 hself.2.2
    rw [if_neg hqp] at hnext
    rw [hnext] at hend ⊢
    rcases Tiling.join_cases hp _ hend with ⟨hend, -, -⟩
    exact f.inuse hq hk hend
  · intro q hq hflag
    rcases Tiling.join_cases hp q hq with ⟨hq, hqn, -⟩
    rcases f.before hq hflag with ⟨r, hr, hrq⟩
    -- before what was behind the second chunk there is now the joined one
    by_cases hrn : r = h.next p
    · have hpp := Tiling.join_keeps hp hp (next_ne hp).symm
      refine ⟨p, hpp, ?_⟩
      rcases Tiling.join_cases hp p hpp with ⟨-, -, hnext⟩
      rw [hnext, if_pos rfl, ← hrn]
      exact hrq
    · have hrp : r ≠ p := by
        rintro rfl
        exact hqn hrq.symm
      have hr' := Tiling.join_keeps hp hr hrn
      refine ⟨r, hr', ?_⟩
      rcases Tiling.join_cases hp r hr' with ⟨-, -, hnext⟩
      rw [hnext, if_neg hrp]
      exact hrq

theorem cleave (f : h.Flags) (t : h.Tiling) (hp : h.size p ≠ 0) (huse : h.use p = .raw) {k : Nat}
    (hk : 16 ≤ k) (hrest : k + 16 ≤ h.size p) : (h.cleave p k).Flags := by
  have hself : h.use p ≠ .free ∧ h.use p ≠ .live ∧ h.use p ≠ .fast := by
    rw [huse]
    decide
  have hkeep := fun {q} => t.cleave_keeps hp hk hrest (q := q)
  have hraw : (h.cleave p k).use (p + k) = .raw := Function.update_self ..
  have hflagk : (h.cleave p k).flag (p + k) = true := Function.update_self ..
  have hu : ∀ {q}, q ≠ p + k → (h.cleave p k).use q = h.use q ∧ (h.cleave p k).flag q = h.flag q :=
    fun hq => ⟨Function.update_of_ne hq _ _, Function.update_of_ne hq _ _⟩
  refine ⟨?_, ?_, ?_⟩
  · intro q hq hfree
    rcases Tiling.cleave_cases hk hrest q hq with ⟨rfl, -⟩ | ⟨rfl, -⟩ | ⟨-, hqk, hq, hnext⟩
    · rw [(hu (hkeep hp).1).1] at hfree
      exact absurd hfree hself.1
    · rw [hraw] at hfree
      simp at hfree
    · rw [(hu hqk).1] at hfree
      have hold := f.free hq hfree
      have hn := hkeep hold.1
      rw [hnext, (hu hn.1).1, (hu hn.1).2]
      exact ⟨hn.2, hold.2⟩
  · intro q hq hin hend
    rcases Tiling.cleave_cases hk hrest q hq with ⟨rfl, -⟩ | ⟨rfl, -⟩ | ⟨hqp, hqk, hq, hnext⟩
    · rw [(hu (hkeep hp).1).1] at hin
      exact (hin.elim hself.2.1 hself.2.2).elim
    · rw [hraw] at hin
      simp at hin
    · rw [(hu hqk).1] at hin
      rw [hnext] at hend ⊢
      -- the flag before the remainder is set, as for a chunk in use
      by_cases hnk : h.next q = p + k
      · rw [hnk]
        exact hflagk
      rw [(hu hnk).2]
      by_cases hnp : h.next q = p
      · exact f.inuse hq hin (hnp ▸ hp)
      · rw [cleave_size_of_ne hnp hnk] at hend
        exact f.inuse hq hin hend
  · intro q hq hflag
    rcases Tiling.cleave_cases hk hrest q hq with ⟨heq, -⟩ | ⟨rfl, -⟩ | ⟨-, hqk, hq, -⟩
    · rw [heq] at hflag ⊢
      rw [(hu (hkeep hp).1).2] at hflag
      rcases f.before hp hflag with ⟨r, hr, hrq⟩
      have hr' := hkeep hr
      have hrp : r ≠ p := fun h' => next_ne hp (h' ▸ hrq)
      refine ⟨r, hr'.2, ?_⟩
      rw [next, cleave_size_of_ne hrp hr'.1]
      exact hrq
    · rw [hflagk] at hflag
      exact Bool.noConfusion hflag
    · rw [(hu hqk).2] at hflag
      rcases f.before hq hflag with ⟨r, hr, hrq⟩
      have hr' := hkeep hr
      -- the remainder is now the one before the next chunk
      by_cases hrp : r = p
      · refine ⟨p + k, ?_, ?_⟩
        · rw [cleave_size_rest (by omega)]
          omega
        · rw [next, cleave_size_rest (by omega), ← hrq, hrp, next]
          omega
      · refine ⟨r, hr'.2, ?_⟩
        rw [next, cleave_size_of_ne hrp hr'.1]
        exact hrq

theorem addUnit (f : h.Flags) (t : h.Tiling) {u b : Nat} (av : Nat) (hf : h.Fits u b) :
    (h.addUnit u b av).Flags := by
  have hold : ∀ {q}, q ≠ b → (h.addUnit u b av).size q = h.size q ∧
      (h.addUnit u b av).use q = h.use q ∧ (h.addUnit u b av).flag q = h.flag q := by
    intro q hq
    simp only [Heap.addUnit, Function.update_of_ne hq, and_self]
  have hraw : (h.addUnit u b av).use b = .raw := Function.update_self ..
  have hflag : (h.addUnit u b av).flag b = true := Function.update_self ..
  have hnext : ∀ {q}, h.size q ≠ 0 →
      (h.addUnit u b av).next q = h.next q ∧ h.next q ≠ b := by
    intro q hq
    have hfar := t.far hf hq
    refine ⟨by rw [next, (hold hfar.1).1]; rfl, ?_⟩
    have hshape := t.shape hq
    simp only [next] at *
    omega
  -- nothing ends where the new unit starts
  refine ⟨?_, ?_, ?_⟩
  · intro q hq huse
    rcases Tiling.addUnit_cases hq with rfl | ⟨hqb, hq⟩
    · rw [hraw] at huse
      simp at huse
    · rw [(hold hqb).2.1] at huse
      have hn := hnext hq
      rw [hn.1, (hold hn.2).1, (hold hn.2).2.1, (hold hn.2).2.2]
      exact f.free hq huse
  · intro q hq huse hend
    rcases Tiling.addUnit_cases hq with rfl | ⟨hqb, hq⟩
    · rw [hraw] at huse
      simp at huse
    · rw [(hold hqb).2.1] at huse
      have hn := hnext hq
      rw [hn.1, (hold hn.2).1] at hend
      rw [hn.1, (hold hn.2).2.2]
      exact f.inuse hq huse hend
  · intro q hq hfalse
    rcases Tiling.addUnit_cases hq with rfl | ⟨hqb, hq⟩
    · rw [hflag] at hfalse
      exact Bool.noConfusion hfalse
    · rw [(hold hqb).2.2] at hfalse
      rcases f.before hq hfalse with ⟨r, hr, hrq⟩
      refine ⟨r, ?_, (hnext hr).1.trans hrq⟩
      rw [(hold (t.far hf hr).1).1]
      exact hr

end Flags

end Heap

end ArbiterThread
