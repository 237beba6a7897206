import ArbiterThread.Malloc.Heap

/-!
# Bins and Fastbins in the Abstract

The lists of the abstract heap, and the whole of what holds of it.

A free chunk is on exactly one list, either the unsorted one or that of its
size. A fast chunk is on the fastbin of its size, or still pending while its
fastbin is torn down. Chunks that are held or raw are on no list, so cutting and
joining them leaves the lists alone.

`Heap.Tidy` collects the invariants. Each step of the allocator is one of the
steps below, and keeps it.

## Main definitions

* `Heap.Lists`: The bins hold exactly the free chunks, the fastbins fast ones.
* `Heap.Tidy`: Tiling, flags and lists, with the unit tops in their place.

## Theorems

* `Heap.Lists.take`, `Heap.Lists.put`: A chunk leaves a bin, and joins one.
* `Heap.Lists.takeFast`, `Heap.Lists.putFast`, `Heap.Lists.detach`,
  `Heap.Lists.popPending`: The same for fastbins.
-/

namespace ArbiterThread

namespace Heap

/-! ### Lists -/

def setBin (h : Heap) (av i : Nat) (l : List Nat) : Heap :=
  { h with bins := Function.update h.bins av (Function.update (h.bins av) i l) }

def setFast (h : Heap) (av i : Nat) (l : List Nat) : Heap :=
  { h with fasts := Function.update h.fasts av (Function.update (h.fasts av) i l) }

def setPending (h : Heap) (l : List Nat) : Heap := { h with pending := l }

section

variable (h : Heap) (av i : Nat) (l : List Nat)

@[simp] theorem setBin_self : (h.setBin av i l).bins av i = l := by
  simp only [setBin, Function.update_self]

theorem setBin_of_ne {av' j : Nat} (hne : ¬ (av' = av ∧ j = i)) :
    (h.setBin av i l).bins av' j = h.bins av' j := by
  by_cases hav : av' = av
  · subst hav
    have hj : j ≠ i := fun hj => hne ⟨rfl, hj⟩
    simp only [setBin, Function.update_self, Function.update_of_ne hj]
  · simp only [setBin, Function.update_of_ne hav]

@[simp] theorem setFast_self : (h.setFast av i l).fasts av i = l := by
  simp only [setFast, Function.update_self]

theorem setFast_of_ne {av' j : Nat} (hne : ¬ (av' = av ∧ j = i)) :
    (h.setFast av i l).fasts av' j = h.fasts av' j := by
  by_cases hav : av' = av
  · subst hav
    have hj : j ≠ i := fun hj => hne ⟨rfl, hj⟩
    simp only [setFast, Function.update_self, Function.update_of_ne hj]
  · simp only [setFast, Function.update_of_ne hav]

end

/-- The bins hold exactly the free chunks, each in its own bin or on the unsorted
    list, and the fastbins hold fast chunks of their size. -/
structure Lists (h : Heap) : Prop where
  bin : ∀ {x av i}, x ∈ h.bins av i → h.size x ≠ 0 ∧ h.use x = .free ∧ h.avOf x = av ∧
    (i = 1 ∨ i = binIndex (h.size x))
  bin_nodup : ∀ av i, (h.bins av i).Nodup
  bin_inj : ∀ {x av i j}, x ∈ h.bins av i → x ∈ h.bins av j → i = j
  binned : ∀ {x}, h.size x ≠ 0 → h.use x = .free → ∃ i, x ∈ h.bins (h.avOf x) i
  fast : ∀ {x av i}, x ∈ h.fasts av i → h.size x ≠ 0 ∧ h.use x = .fast ∧ h.avOf x = av ∧
    h.size x = 8 * (i + 2) ∧ i < 8
  fast_nodup : ∀ av i, (h.fasts av i).Nodup
  pend : ∀ {x}, x ∈ h.pending → h.size x ≠ 0 ∧ h.use x = .fast ∧ ∀ av i, x ∉ h.fasts av i
  pend_nodup : h.pending.Nodup

namespace Lists

variable {h h' : Heap} {x av i : Nat} {l l₁ l₂ : List Nat}

/-- The lists are a matter of the free and the fast chunks. -/
theorem congr (ls : h.Lists) (hbins : h'.bins = h.bins) (hfasts : h'.fasts = h.fasts)
    (hpending : h'.pending = h.pending)
    (hsame : ∀ {x}, h.size x ≠ 0 → h.use x = .free ∨ h.use x = .fast →
      h'.size x = h.size x ∧ h'.use x = h.use x ∧ h'.avOf x = h.avOf x)
    (hback : ∀ {x}, h'.size x ≠ 0 → h'.use x = .free → h.size x ≠ 0 ∧ h.use x = .free) :
    h'.Lists := by
  -- a chunk on a list is free or fast, and those are as they were
  constructor
  · intro x av i hx
    rw [hbins] at hx
    have hold := ls.bin hx
    have hx' := hsame hold.1 (.inl hold.2.1)
    rw [hx'.1, hx'.2.1, hx'.2.2]
    exact hold
  · rw [hbins]
    exact ls.bin_nodup
  · rw [hbins]
    exact ls.bin_inj
  · intro x hx huse
    have hold := hback hx huse
    rw [hbins, (hsame hold.1 (.inl hold.2)).2.2]
    exact ls.binned hold.1 hold.2
  · intro x av i hx
    rw [hfasts] at hx
    have hold := ls.fast hx
    have hx' := hsame hold.1 (.inr hold.2.1)
    rw [hx'.1, hx'.2.1, hx'.2.2]
    exact hold
  · rw [hfasts]
    exact ls.fast_nodup
  · intro x hx
    rw [hpending] at hx
    have hold := ls.pend hx
    have hx' := hsame hold.1 (.inr hold.2.1)
    rw [hx'.1, hx'.2.1, hfasts]
    exact hold
  · rw [hpending]
    exact ls.pend_nodup

/-- A change of use that does not concern the lists. -/
theorem setUse (ls : h.Lists) {k : Use} (hold : h.use x ≠ .free ∧ h.use x ≠ .fast)
    (hnew : k ≠ .free) : (h.setUse x k).Lists := by
  refine ls.congr rfl rfl rfl ?_ ?_
  · intro y _ hy
    have hne : y ≠ x := by
      rintro rfl
      exact hy.elim hold.1 hold.2
    exact ⟨rfl, setUse_use_of_ne h x k hne, rfl⟩
  · intro y hy huse
    by_cases hne : y = x
    · rw [hne, setUse_use_self] at huse
      exact absurd huse hnew
    · rw [setUse_use_of_ne h x k hne] at huse
      exact ⟨hy, huse⟩

/-- A free chunk is on one list only. -/
theorem bin_unique (ls : h.Lists) {av' j : Nat} (hx : x ∈ h.bins av i) (hx' : x ∈ h.bins av' j) :
    av' = av ∧ j = i := by
  have hav := (ls.bin hx).2.2.1
  have hav' := (ls.bin hx').2.2.1
  rw [hav] at hav'
  subst hav'
  exact ⟨rfl, ls.bin_inj hx' hx⟩

/-- Taking a chunk out of its bin. -/
theorem take (ls : h.Lists) (hbin : h.bins av i = l₁ ++ x :: l₂) :
    ((h.setBin av i (l₁ ++ l₂)).setUse x .held).Lists := by
  have hx : x ∈ h.bins av i := by
    rw [hbin]
    exact List.mem_append_right _ List.mem_cons_self
  have hnd := ls.bin_nodup av i
  rw [hbin] at hnd
  have hout : x ∉ l₁ ++ l₂ := by
    rw [List.nodup_middle, List.nodup_cons] at hnd
    exact hnd.1
  -- what is left on the bins was there, and is not the chunk taken
  have hmem : ∀ {y av' j}, y ∈ (h.setBin av i (l₁ ++ l₂)).bins av' j →
      y ≠ x ∧ y ∈ h.bins av' j := by
    intro y av' j hy
    by_cases heq : av' = av ∧ j = i
    · rcases heq with ⟨rfl, rfl⟩
      rw [setBin_self] at hy
      refine ⟨fun h => hout (h ▸ hy), ?_⟩
      rw [hbin, List.mem_append, List.mem_cons]
      rcases List.mem_append.mp hy with hy | hy
      · exact .inl hy
      · exact .inr (.inr hy)
    · rw [setBin_of_ne h av i _ heq] at hy
      refine ⟨?_, hy⟩
      rintro rfl
      exact heq (ls.bin_unique hx hy)
  have huse : ∀ {y}, y ≠ x → ((h.setBin av i (l₁ ++ l₂)).setUse x .held).use y = h.use y :=
    fun hy => setUse_use_of_ne _ x _ hy
  have hfastx : ∀ {y}, h.use y = .fast → y ≠ x := by
    rintro y hy rfl
    rw [(ls.bin hx).2.1] at hy
    simp at hy
  constructor
  · intro y av' j hy
    rcases hmem hy with ⟨hne, hy⟩
    rw [huse hne]
    exact ls.bin hy
  · intro av' j
    by_cases heq : av' = av ∧ j = i
    · rcases heq with ⟨rfl, rfl⟩
      change ((h.setBin av' j (l₁ ++ l₂)).bins av' j).Nodup
      rw [setBin_self]
      rw [List.nodup_middle, List.nodup_cons] at hnd
      exact hnd.2
    · change ((h.setBin av i (l₁ ++ l₂)).bins av' j).Nodup
      rw [setBin_of_ne h av i _ heq]
      exact ls.bin_nodup av' j
  · intro y av' j j' hy hy'
    exact ls.bin_inj (hmem hy).2 (hmem hy').2
  · intro y hy hfree
    by_cases hne : y = x
    · rw [hne, setUse_use_self] at hfree
      simp at hfree
    · rw [huse hne] at hfree
      rcases ls.binned hy hfree with ⟨j, hj⟩
      refine ⟨j, ?_⟩
      change y ∈ (h.setBin av i (l₁ ++ l₂)).bins (h.avOf y) j
      by_cases heq : h.avOf y = av ∧ j = i
      · rcases heq with ⟨rfl, rfl⟩
        rw [hbin, List.mem_append, List.mem_cons] at hj
        rw [setBin_self, List.mem_append]
        rcases hj with hj | hj | hj
        · exact .inl hj
        · exact absurd hj hne
        · exact .inr hj
      · rw [setBin_of_ne h av i _ heq]
        exact hj
  · intro y av' j hy
    have hold := ls.fast hy
    rw [huse (hfastx hold.2.1)]
    exact hold
  · exact ls.fast_nodup
  · intro y hy
    have hold := ls.pend hy
    rw [huse (hfastx hold.2.1)]
    exact hold
  · exact ls.pend_nodup

/-- Putting a chunk into a bin. -/
theorem put (ls : h.Lists) (hsize : h.size x ≠ 0) (hold : h.use x ≠ .free ∧ h.use x ≠ .fast)
    (hav : h.avOf x = av) (hi : i = 1 ∨ i = binIndex (h.size x)) (hbin : h.bins av i = l₁ ++ l₂) :
    ((h.setBin av i (l₁ ++ x :: l₂)).setUse x .free).Lists := by
  have hout : ∀ av' j, x ∉ h.bins av' j := fun av' j hx => hold.1 (ls.bin hx).2.1
  -- the bins hold what they held, and the chunk
  have hmem : ∀ {y av' j}, y ∈ (h.setBin av i (l₁ ++ x :: l₂)).bins av' j ↔
      y ∈ h.bins av' j ∨ y = x ∧ av' = av ∧ j = i := by
    intro y av' j
    by_cases heq : av' = av ∧ j = i
    · rcases heq with ⟨rfl, rfl⟩
      rw [setBin_self, hbin]
      simp only [List.mem_append, List.mem_cons, and_self, and_true]
      tauto
    · rw [setBin_of_ne h av i _ heq]
      simp only [heq, and_false, or_false]
  have huse : ∀ {y}, y ≠ x → ((h.setBin av i (l₁ ++ x :: l₂)).setUse x .free).use y = h.use y :=
    fun hy => setUse_use_of_ne _ x _ hy
  have hfastx : ∀ {y}, h.use y = .fast → y ≠ x := by
    rintro y hy rfl
    exact hold.2 hy
  constructor
  · intro y av' j hy
    rcases hmem.mp hy with hy | ⟨rfl, rfl, rfl⟩
    · have hne : y ≠ x := fun h => hout av' j (h ▸ hy)
      rw [huse hne]
      exact ls.bin hy
    · rw [setUse_use_self]
      exact ⟨hsize, rfl, hav, hi⟩
  · intro av' j
    change ((h.setBin av i (l₁ ++ x :: l₂)).bins av' j).Nodup
    by_cases heq : av' = av ∧ j = i
    · rcases heq with ⟨rfl, rfl⟩
      have hnd := ls.bin_nodup av' j
      have hx := hout av' j
      rw [hbin] at hnd hx
      rw [setBin_self, List.nodup_middle, List.nodup_cons]
      exact ⟨hx, hnd⟩
    · rw [setBin_of_ne h av i _ heq]
      exact ls.bin_nodup av' j
  · intro y av' j j' hy hy'
    rcases hmem.mp hy with hin | ⟨rfl, rfl, rfl⟩
    · rcases hmem.mp hy' with hin' | ⟨rfl, rfl, rfl⟩
      · exact ls.bin_inj hin hin'
      · exact absurd hin (hout _ _)
    · rcases hmem.mp hy' with hy' | ⟨-, -, rfl⟩
      · exact absurd hy' (hout _ _)
      · rfl
  · intro y hy hfree
    by_cases hne : y = x
    · subst hne
      exact ⟨i, hmem.mpr (.inr ⟨rfl, hav, rfl⟩)⟩
    · rw [huse hne] at hfree
      rcases ls.binned hy hfree with ⟨j, hj⟩
      exact ⟨j, hmem.mpr (.inl hj)⟩
  · intro y av' j hy
    have hy' := ls.fast hy
    rw [huse (hfastx hy'.2.1)]
    exact hy'
  · exact ls.fast_nodup
  · intro y hy
    have hy' := ls.pend hy
    rw [huse (hfastx hy'.2.1)]
    exact hy'
  · exact ls.pend_nodup

/-- Taking the first chunk off a fastbin. -/
theorem takeFast (ls : h.Lists) (hfast : h.fasts av i = x :: l) :
    ((h.setFast av i l).setUse x .live).Lists := by
  have hx : x ∈ h.fasts av i := by
    rw [hfast]
    exact List.mem_cons_self
  have hnd := ls.fast_nodup av i
  rw [hfast, List.nodup_cons] at hnd
  have hx' := ls.fast hx
  have hmem : ∀ {y av' j}, y ∈ (h.setFast av i l).fasts av' j → y ≠ x ∧ y ∈ h.fasts av' j := by
    intro y av' j hy
    by_cases heq : av' = av ∧ j = i
    · rcases heq with ⟨rfl, rfl⟩
      rw [setFast_self] at hy
      refine ⟨fun h => hnd.1 (h ▸ hy), ?_⟩
      rw [hfast]
      exact List.mem_cons_of_mem x hy
    · rw [setFast_of_ne h av i _ heq] at hy
      refine ⟨?_, hy⟩
      -- its unit and its size say which fastbin a chunk is on
      rintro rfl
      have hy' := ls.fast hy
      exact heq ⟨hy'.2.2.1.symm.trans hx'.2.2.1, by omega⟩
  have huse : ∀ {y}, y ≠ x → ((h.setFast av i l).setUse x .live).use y = h.use y :=
    fun hy => setUse_use_of_ne _ x _ hy
  have hfree : ∀ {y}, h.use y = .free → y ≠ x := by
    rintro y hy rfl
    rw [hx'.2.1] at hy
    simp at hy
  constructor
  · intro y av' j hy
    have hold := ls.bin hy
    rw [huse (hfree hold.2.1)]
    exact hold
  · exact ls.bin_nodup
  · exact ls.bin_inj
  · intro y hy hyfree
    by_cases hne : y = x
    · rw [hne, setUse_use_self] at hyfree
      simp at hyfree
    · rw [huse hne] at hyfree
      exact ls.binned hy hyfree
  · intro y av' j hy
    rcases hmem hy with ⟨hne, hy⟩
    rw [huse hne]
    exact ls.fast hy
  · intro av' j
    change ((h.setFast av i l).fasts av' j).Nodup
    by_cases heq : av' = av ∧ j = i
    · rcases heq with ⟨rfl, rfl⟩
      rw [setFast_self]
      exact hnd.2
    · rw [setFast_of_ne h av i _ heq]
      exact ls.fast_nodup av' j
  · intro y hy
    have hold := ls.pend hy
    have hne : y ≠ x := fun h => hold.2.2 av i (h ▸ hx)
    rw [huse hne]
    exact ⟨hold.1, hold.2.1, fun av' j hy => hold.2.2 av' j (hmem hy).2⟩
  · exact ls.pend_nodup

/-- Putting a chunk on the fastbin of its size. -/
theorem putFast (ls : h.Lists) (hsize : h.size x = 8 * (i + 2)) (hi : i < 8)
    (hold : h.use x ≠ .free ∧ h.use x ≠ .fast) (hav : h.avOf x = av) :
    ((h.setFast av i (x :: h.fasts av i)).setUse x .fast).Lists := by
  have hout : ∀ av' j, x ∉ h.fasts av' j := fun av' j hx => hold.2 (ls.fast hx).2.1
  -- the fastbins hold what they held, and the chunk
  have hmem : ∀ {y av' j}, y ∈ (h.setFast av i (x :: h.fasts av i)).fasts av' j ↔
      y ∈ h.fasts av' j ∨ y = x ∧ av' = av ∧ j = i := by
    intro y av' j
    by_cases heq : av' = av ∧ j = i
    · rcases heq with ⟨rfl, rfl⟩
      rw [setFast_self]
      simp only [List.mem_cons, and_self, and_true]
      exact or_comm
    · rw [setFast_of_ne h av i _ heq]
      simp only [heq, and_false, or_false]
  have huse : ∀ {y}, y ≠ x →
      ((h.setFast av i (x :: h.fasts av i)).setUse x .fast).use y = h.use y :=
    fun hy => setUse_use_of_ne _ x _ hy
  have hfree : ∀ {y}, h.use y = .free → y ≠ x := by
    rintro y hy rfl
    exact hold.1 hy
  constructor
  · intro y av' j hy
    have hy' := ls.bin hy
    rw [huse (hfree hy'.2.1)]
    exact hy'
  · exact ls.bin_nodup
  · exact ls.bin_inj
  · intro y hy hyfree
    by_cases hne : y = x
    · rw [hne, setUse_use_self] at hyfree
      simp at hyfree
    · rw [huse hne] at hyfree
      exact ls.binned hy hyfree
  · intro y av' j hy
    rcases hmem.mp hy with hy | ⟨rfl, rfl, rfl⟩
    · have hne : y ≠ x := fun h => hout av' j (h ▸ hy)
      rw [huse hne]
      exact ls.fast hy
    · rw [setUse_use_self]
      change h.size y ≠ 0 ∧ _ ∧ h.avOf y = av' ∧ h.size y = _ ∧ _
      rw [hsize]
      exact ⟨by omega, rfl, hav, rfl, hi⟩
  · intro av' j
    change ((h.setFast av i (x :: h.fasts av i)).fasts av' j).Nodup
    by_cases heq : av' = av ∧ j = i
    · rcases heq with ⟨rfl, rfl⟩
      rw [setFast_self, List.nodup_cons]
      exact ⟨hout av' j, ls.fast_nodup av' j⟩
    · rw [setFast_of_ne h av i _ heq]
      exact ls.fast_nodup av' j
  · intro y hy
    have hy' := ls.pend hy
    have hne : y ≠ x := fun h => hold.2 (h ▸ hy'.2.1)
    rw [huse hne]
    refine ⟨hy'.1, hy'.2.1, fun av' j hin => ?_⟩
    rcases hmem.mp hin with hin | ⟨heq, -, -⟩
    · exact hy'.2.2 av' j hin
    · exact hne heq
  · exact ls.pend_nodup

/-- A whole fastbin becomes pending. -/
theorem detach (ls : h.Lists) (av i : Nat) :
    ((h.setFast av i []).setPending (h.fasts av i)).Lists := by
  -- what is left on the fastbins is on another one than what is pending
  have hmem : ∀ {y av' j}, y ∈ (h.setFast av i []).fasts av' j →
      ¬ (av' = av ∧ j = i) ∧ y ∈ h.fasts av' j := by
    intro y av' j hy
    by_cases heq : av' = av ∧ j = i
    · rcases heq with ⟨rfl, rfl⟩
      rw [setFast_self] at hy
      exact absurd hy List.not_mem_nil
    · rw [setFast_of_ne h av i _ heq] at hy
      exact ⟨heq, hy⟩
  constructor
  · exact ls.bin
  · exact ls.bin_nodup
  · exact ls.bin_inj
  · exact ls.binned
  · intro y av' j hy
    exact ls.fast (hmem hy).2
  · intro av' j
    change ((h.setFast av i []).fasts av' j).Nodup
    by_cases heq : av' = av ∧ j = i
    · rcases heq with ⟨rfl, rfl⟩
      rw [setFast_self]
      exact List.nodup_nil
    · rw [setFast_of_ne h av i _ heq]
      exact ls.fast_nodup av' j
  · intro y hy
    have hold := ls.fast hy
    refine ⟨hold.1, hold.2.1, fun av' j hin => ?_⟩
    rcases hmem hin with ⟨hne, hin⟩
    have hin' := ls.fast hin
    exact hne ⟨hin'.2.2.1.symm.trans hold.2.2.1, by omega⟩
  · exact ls.fast_nodup av i

/-- The first pending chunk is taken up. -/
theorem popPending (ls : h.Lists) (hpending : h.pending = x :: l) :
    ((h.setPending l).setUse x .raw).Lists := by
  have hx : x ∈ h.pending := by
    rw [hpending]
    exact List.mem_cons_self
  have hnd := ls.pend_nodup
  rw [hpending, List.nodup_cons] at hnd
  have hx' := ls.pend hx
  have huse : ∀ {y}, y ≠ x → ((h.setPending l).setUse x .raw).use y = h.use y :=
    fun hy => setUse_use_of_ne _ x _ hy
  -- the chunk is fast, so it is on no bin
  have hfree : ∀ {y}, h.use y = .free → y ≠ x := by
    rintro y hy rfl
    rw [hx'.2.1] at hy
    simp at hy
  constructor
  · intro y av' j hy
    have hold := ls.bin hy
    rw [huse (hfree hold.2.1)]
    exact hold
  · exact ls.bin_nodup
  · exact ls.bin_inj
  · intro y hy hyfree
    by_cases hne : y = x
    · rw [hne, setUse_use_self] at hyfree
      simp at hyfree
    · rw [huse hne] at hyfree
      exact ls.binned hy hyfree
  · intro y av' j hy
    have hold := ls.fast hy
    have hne : y ≠ x := fun h => hx'.2.2 av' j (h ▸ hy)
    rw [huse hne]
    exact hold
  · exact ls.fast_nodup
  · intro y hy
    have hne : y ≠ x := fun h => hnd.1 (h ▸ hy)
    have hin : y ∈ h.pending := by
      rw [hpending]
      exact List.mem_cons_of_mem x hy
    rw [huse hne]
    exact ls.pend hin
  · exact hnd.2

end Lists

/-! ### The whole -/

def setTop (h : Heap) (u t : Nat) : Heap := { h with top := Function.update h.top u t }

def setKeep (h : Heap) (p n : Nat) : Heap := { h with keep := Function.update h.keep p n }

/-- Tiling, flags and lists, the unit tops where the units say and behind all
    other chunks, and the bytes to keep inside live chunks. -/
structure Tidy (h : Heap) : Prop where
  tiling : h.Tiling
  flags : h.Flags
  lists : h.Lists
  tops : ∀ {p}, h.size p ≠ 0 → h.use p = .top →
    h.top (h.unit p) = p ∧ h.next p = h.fence (h.unit p)
  kept : ∀ {p}, h.size p ≠ 0 → h.keep p + 4 ≤ h.size p
  unkept : ∀ {p}, h.size p ≠ 0 → h.use p ≠ .live → h.use p ≠ .raw → h.keep p = 0

namespace Tidy

variable {h : Heap} {p x av i : Nat} {l₁ l₂ l : List Nat}

/-- A change of use only, with what it needs of each part. -/
theorem setUse (t : h.Tidy) {h' : Heap} {k : Use} (hsame : h'.base = h.base ∧ h'.size = h.size ∧
      h'.unit = h.unit ∧ h'.top = h.top ∧ h'.keep = h.keep)
    (huse : h'.use = Function.update h.use p k) (hflags : h'.Flags) (hlists : h'.Lists)
    (htop : k = .top → h.top (h.unit p) = p ∧ h.next p = h.fence (h.unit p))
    (hkeep : k ≠ .live → k ≠ .raw → h.keep p = 0) : h'.Tidy := by
  rcases hsame with ⟨hbase, hsize, hunit, htops, hkept⟩
  have hnext : h'.next = h.next := by
    funext q
    simp only [next, hsize]
  have hfence : h'.fence = h.fence := by
    funext u
    simp only [fence, hbase]
  -- only the chunk itself has another use than before
  refine ⟨t.tiling.congr hbase hsize hunit, hflags, hlists, ?_, ?_, ?_⟩
  · intro q hq hk
    rw [hsize] at hq
    rw [hunit, htops, hnext, hfence]
    rw [huse] at hk
    by_cases hqp : q = p
    · rw [hqp, Function.update_self] at hk
      rw [hqp]
      exact htop hk
    · rw [Function.update_of_ne hqp] at hk
      exact t.tops hq hk
  · rw [hsize, hkept]
    exact t.kept
  · intro q hq hlive hraw
    rw [hsize] at hq
    rw [huse] at hlive hraw
    rw [hkept]
    by_cases hqp : q = p
    · rw [hqp, Function.update_self] at hlive hraw
      rw [hqp]
      exact hkeep hlive hraw
    · rw [Function.update_of_ne hqp] at hlive hraw
      exact t.unkept hq hlive hraw

/-- Taking up a chunk that is on no list. -/
theorem loosen (t : h.Tidy) (hp : h.size p ≠ 0) (huse : h.use p ≠ .free ∧ h.use p ≠ .fast) :
    (h.setUse p .raw).Tidy :=
  t.setUse ⟨rfl, rfl, rfl, rfl, rfl⟩ rfl (t.flags.loosen hp (.inr rfl))
    (t.lists.setUse huse (by decide)) (by simp) (fun _ h => absurd rfl h)

/-- Taking a chunk out of its bin. -/
theorem take (t : h.Tidy) (hbin : h.bins av i = l₁ ++ x :: l₂) :
    ((h.setBin av i (l₁ ++ l₂)).setUse x .held).Tidy := by
  have hmem : x ∈ h.bins av i := by
    rw [hbin]
    exact List.mem_append_right _ List.mem_cons_self
  have hx := t.lists.bin hmem
  refine t.setUse ⟨rfl, rfl, rfl, rfl, rfl⟩ rfl ?_ (t.lists.take hbin) (by simp) ?_
  · have hflags := t.flags.loosen (k := .held) hx.1 (.inl rfl)
    exact ⟨hflags.free, hflags.inuse, hflags.before⟩
  · intro _ _
    exact t.unkept hx.1 (by rw [hx.2.1]; decide) (by rw [hx.2.1]; decide)

/-- Putting a chunk into a bin. -/
theorem put (t : h.Tidy) (hx : h.size x ≠ 0) (huse : h.use x = .held ∨ h.use x = .raw)
    (hflag : h.flag x = true) (hkeep : h.keep x = 0)
    (hnext : h.size (h.next x) ≠ 0 ∧ h.flag (h.next x) = false ∧ h.use (h.next x) ≠ .free ∧
      h.use (h.next x) ≠ .top)
    (hav : h.avOf x = av) (hi : i = 1 ∨ i = binIndex (h.size x)) (hbin : h.bins av i = l₁ ++ l₂) :
    ((h.setBin av i (l₁ ++ x :: l₂)).setUse x .free).Tidy := by
  have hold : h.use x ≠ .free ∧ h.use x ≠ .fast := by
    rcases huse with huse | huse <;> rw [huse] <;> decide
  refine t.setUse ⟨rfl, rfl, rfl, rfl, rfl⟩ rfl ?_ (t.lists.put hx hold hav hi hbin) (by simp)
    (fun _ _ => hkeep)
  have hflags := t.flags.setUse (k := .free) hx (fun _ => hflag) (fun _ => hnext) (by simp)
  exact ⟨hflags.free, hflags.inuse, hflags.before⟩

/-- Handing a chunk out. -/
theorem settle (t : h.Tidy) (hp : h.size p ≠ 0) (huse : h.use p = .held ∨ h.use p = .raw)
    (hnext : h.size (h.next p) ≠ 0 → h.flag (h.next p) = true) : (h.setUse p .live).Tidy := by
  have hold : h.use p ≠ .free ∧ h.use p ≠ .fast := by
    rcases huse with huse | huse <;> rw [huse] <;> decide
  exact t.setUse ⟨rfl, rfl, rfl, rfl, rfl⟩ rfl
    (t.flags.setUse hp (by simp) (by simp) (fun _ => hnext)) (t.lists.setUse hold (by decide))
    (by simp) (fun h => absurd rfl h)

/-- Making a chunk the unit top. -/
theorem settleTop (t : h.Tidy) (hp : h.size p ≠ 0) (huse : h.use p = .raw)
    (hflag : h.flag p = true) (hkeep : h.keep p = 0) (htop : h.top (h.unit p) = p)
    (hend : h.next p = h.fence (h.unit p)) : (h.setUse p .top).Tidy := by
  have hold : h.use p ≠ .free ∧ h.use p ≠ .fast := by
    rw [huse]
    decide
  exact t.setUse ⟨rfl, rfl, rfl, rfl, rfl⟩ rfl
    (t.flags.setUse hp (fun _ => hflag) (by simp) (by simp)) (t.lists.setUse hold (by decide))
    (fun _ => ⟨htop, hend⟩) (fun _ _ => hkeep)

theorem takeFast (t : h.Tidy) (hfast : h.fasts av i = x :: l) :
    ((h.setFast av i l).setUse x .live).Tidy := by
  have hmem : x ∈ h.fasts av i := by
    rw [hfast]
    exact List.mem_cons_self
  have hx := t.lists.fast hmem
  refine t.setUse ⟨rfl, rfl, rfl, rfl, rfl⟩ rfl ?_ (t.lists.takeFast hfast) (by simp)
    (fun h => absurd rfl h)
  have hflags := t.flags.setUse (k := .live) hx.1 (by simp) (by simp)
    (fun _ => t.flags.inuse hx.1 (.inr hx.2.1))
  exact ⟨hflags.free, hflags.inuse, hflags.before⟩

theorem putFast (t : h.Tidy) (hsize : h.size x = 8 * (i + 2)) (hi : i < 8)
    (huse : h.use x = .live) (hkeep : h.keep x = 0) (hav : h.avOf x = av) :
    ((h.setFast av i (x :: h.fasts av i)).setUse x .fast).Tidy := by
  have hold : h.use x ≠ .free ∧ h.use x ≠ .fast := by
    rw [huse]
    decide
  have hx : h.size x ≠ 0 := by omega
  refine t.setUse ⟨rfl, rfl, rfl, rfl, rfl⟩ rfl ?_ (t.lists.putFast hsize hi hold hav) (by simp)
    (fun _ _ => hkeep)
  have hflags := t.flags.setUse (k := .fast) hx (by simp) (by simp)
    (fun _ => t.flags.inuse hx (.inl huse))
  exact ⟨hflags.free, hflags.inuse, hflags.before⟩

theorem popPending (t : h.Tidy) (hpending : h.pending = x :: l) :
    ((h.setPending l).setUse x .raw).Tidy := by
  have hmem : x ∈ h.pending := by
    rw [hpending]
    exact List.mem_cons_self
  have hx := t.lists.pend hmem
  refine t.setUse ⟨rfl, rfl, rfl, rfl, rfl⟩ rfl ?_ (t.lists.popPending hpending) (by simp)
    (fun _ h => absurd rfl h)
  have hflags := t.flags.loosen (k := .raw) hx.1 (.inr rfl)
  exact ⟨hflags.free, hflags.inuse, hflags.before⟩

theorem detach (t : h.Tidy) (av i : Nat) :
    ((h.setFast av i []).setPending (h.fasts av i)).Tidy :=
  ⟨t.tiling.congr rfl rfl rfl, ⟨t.flags.free, t.flags.inuse, t.flags.before⟩,
    t.lists.detach av i, t.tops, t.kept, t.unkept⟩

theorem setFlag (t : h.Tidy) (hp : h.size p ≠ 0) (huse : h.use p = .held ∨ h.use p = .raw)
    (b : Bool) : (h.setFlag (h.next p) b).Tidy := by
  refine ⟨t.tiling.congr rfl rfl rfl, t.flags.setFlag t.tiling hp huse b, ?_, t.tops, t.kept,
    t.unkept⟩
  exact t.lists.congr rfl rfl rfl (fun _ _ => ⟨rfl, rfl, rfl⟩) (fun hx huse => ⟨hx, huse⟩)

/-- The unit top can be moved while no chunk is the unit top. -/
theorem setTop (t : h.Tidy) {u top : Nat}
    (hu : ∀ p, h.size p ≠ 0 → h.unit p = u → h.use p ≠ .top) : (h.setTop u top).Tidy := by
  refine ⟨t.tiling.congr rfl rfl rfl, ⟨t.flags.free, t.flags.inuse, t.flags.before⟩, ?_, ?_,
    t.kept, t.unkept⟩
  · exact t.lists.congr rfl rfl rfl (fun _ _ => ⟨rfl, rfl, rfl⟩) (fun hx huse => ⟨hx, huse⟩)
  · intro p hp huse
    have hne : h.unit p ≠ u := fun heq => hu p hp heq huse
    have hold := t.tops hp huse
    refine ⟨?_, hold.2⟩
    change Function.update h.top u top (h.unit p) = p
    rw [Function.update_of_ne hne]
    exact hold.1

theorem setKeep (t : h.Tidy) {n : Nat} (hn : n + 4 ≤ h.size p)
    (huse : h.use p = .live ∨ h.use p = .raw ∨ n = 0) : (h.setKeep p n).Tidy := by
  refine ⟨t.tiling.congr rfl rfl rfl, ⟨t.flags.free, t.flags.inuse, t.flags.before⟩, ?_, t.tops,
    ?_, ?_⟩
  · exact t.lists.congr rfl rfl rfl (fun _ _ => ⟨rfl, rfl, rfl⟩) (fun hx huse => ⟨hx, huse⟩)
  · intro q hq
    change Function.update h.keep p n q + 4 ≤ h.size q
    by_cases hqp : q = p
    · rw [hqp, Function.update_self]
      exact hn
    · rw [Function.update_of_ne hqp]
      exact t.kept hq
  · intro q hq hlive hraw
    change Function.update h.keep p n q = 0
    by_cases hqp : q = p
    · subst hqp
      rw [Function.update_self]
      exact (huse.resolve_left hlive).resolve_left hraw
    · rw [Function.update_of_ne hqp]
      exact t.unkept hq hlive hraw

/-- Two neighbouring raw chunks made one. -/
theorem join (t : h.Tidy) (hp : h.size p ≠ 0) (hn : h.size (h.next p) ≠ 0)
    (huse : h.use p = .raw) (huse' : h.use (h.next p) = .raw) : (h.join p).Tidy := by
  -- neither of the two is on a list or a top, since both are raw
  have hne : ∀ {q}, h.use q ≠ .raw → q ≠ p ∧ q ≠ h.next p := by
    intro q hq
    refine ⟨?_, ?_⟩
    · rintro rfl
      exact hq huse
    · rintro rfl
      exact hq huse'
  refine ⟨t.tiling.join hp hn, t.flags.join t.tiling hp hn huse, ?_, ?_, ?_, ?_⟩
  · refine t.lists.congr rfl rfl rfl ?_ ?_
    · intro x _ hx
      have hraw : h.use x ≠ .raw := by
        rcases hx with hx | hx <;> rw [hx] <;> decide
      exact ⟨join_size_of_ne (hne hraw).1 (hne hraw).2, rfl, rfl⟩
    · intro x hx hfree
      exact ⟨(Tiling.join_cases hp x hx).1, hfree⟩
  · intro q hq htop
    change h.use q = .top at htop
    have hold := Tiling.join_cases hp q hq
    have hqp := (hne (q := q) (by rw [htop]; decide)).1
    rw [hold.2.2, if_neg hqp]
    exact t.tops hold.1 htop
  · intro q hq
    have hold := Tiling.join_cases hp q hq
    have hkept := t.kept hold.1
    change h.keep q + 4 ≤ _
    by_cases hqp : q = p
    · rw [hqp, join_size_self]
      rw [hqp] at hkept
      omega
    · rw [join_size_of_ne hqp hold.2.1]
      exact hkept
  · intro q hq hlive hraw
    exact t.unkept (Tiling.join_cases hp q hq).1 hlive hraw

/-- A raw chunk cut in two. -/
theorem cleave (t : h.Tidy) {k : Nat} (hp : h.size p ≠ 0) (huse : h.use p = .raw) (hk : 16 ≤ k)
    (hk8 : k % 8 = 0) (hrest : k + 16 ≤ h.size p) (hkeep : h.keep p + 4 ≤ k) :
    (h.cleave p k).Tidy := by
  have hkeeps := fun {q} => t.tiling.cleave_keeps hp hk hrest (q := q)
  have hsame : ∀ {q}, q ≠ p + k → (h.cleave p k).use q = h.use q ∧
      (h.cleave p k).unit q = h.unit q ∧ (h.cleave p k).keep q = h.keep q := by
    intro q hq
    simp only [Heap.cleave, Function.update_of_ne hq, and_self]
  have hraw : (h.cleave p k).use (p + k) = .raw := Function.update_self ..
  have hkeep' : (h.cleave p k).keep (p + k) = 0 := Function.update_self ..
  have hpk := (hkeeps hp).1
  -- the first part, the rest, and the chunks that are as they were
  refine ⟨t.tiling.cleave hp hk hk8 hrest, t.flags.cleave t.tiling hp huse hk hrest, ?_, ?_, ?_, ?_⟩
  · refine t.lists.congr rfl rfl rfl ?_ ?_
    · intro x hx hlist
      have hxk := (hkeeps hx).1
      have hxp : x ≠ p := by
        rintro rfl
        rw [huse] at hlist
        simp at hlist
      refine ⟨cleave_size_of_ne hxp hxk, (hsame hxk).1, ?_⟩
      simp only [avOf, (hsame hxk).2.1]
      rfl
    · intro x hx hfree
      rcases Tiling.cleave_cases hk hrest x hx with ⟨rfl, -⟩ | ⟨rfl, -⟩ | ⟨-, hxk, hx, -⟩
      · rw [(hsame hpk).1, huse] at hfree
        simp at hfree
      · rw [hraw] at hfree
        simp at hfree
      · rw [(hsame hxk).1] at hfree
        exact ⟨hx, hfree⟩
  · intro q hq htop
    rcases Tiling.cleave_cases hk hrest q hq with ⟨rfl, -⟩ | ⟨rfl, -⟩ | ⟨-, hqk, hq, hnext⟩
    · rw [(hsame hpk).1, huse] at htop
      simp at htop
    · rw [hraw] at htop
      simp at htop
    · rw [(hsame hqk).1] at htop
      rw [hnext, (hsame hqk).2.1]
      exact t.tops hq htop
  · intro q hq
    rcases Tiling.cleave_cases hk hrest q hq with ⟨rfl, -⟩ | ⟨rfl, -⟩ | ⟨hqp, hqk, hq, -⟩
    · rw [(hsame hpk).2.2, cleave_size_self]
      exact hkeep
    · rw [hkeep', cleave_size_rest (by omega)]
      omega
    · rw [(hsame hqk).2.2, cleave_size_of_ne hqp hqk]
      exact t.kept hq
  · intro q hq hlive hqraw
    rcases Tiling.cleave_cases hk hrest q hq with ⟨rfl, -⟩ | ⟨rfl, -⟩ | ⟨-, hqk, hq, -⟩
    · rw [(hsame hpk).1] at hqraw
      exact absurd huse hqraw
    · exact hkeep'
    · rw [(hsame hqk).1] at hlive hqraw
      rw [(hsame hqk).2.2]
      exact t.unkept hq hlive hqraw

/-- A new unit with one raw chunk. -/
theorem addUnit (t : h.Tidy) {u b : Nat} (av : Nat) (hf : h.Fits u b) :
    (h.addUnit u b av).Tidy := by
  have hfar := fun {q} => t.tiling.far hf (q := q)
  have hsame : ∀ {q}, q ≠ b → (h.addUnit u b av).size q = h.size q ∧
      (h.addUnit u b av).use q = h.use q ∧ (h.addUnit u b av).unit q = h.unit q ∧
      (h.addUnit u b av).keep q = h.keep q := by
    intro q hq
    simp only [Heap.addUnit, Function.update_of_ne hq, and_self]
  have hraw : (h.addUnit u b av).use b = .raw := Function.update_self ..
  have hkeep : (h.addUnit u b av).keep b = 0 := Function.update_self ..
  have hsize : (h.addUnit u b av).size b = unitTopSize := Function.update_self ..
  -- the new chunk, and those far away from it
  refine ⟨t.tiling.addUnit av hf, t.flags.addUnit t.tiling av hf, ?_, ?_, ?_, ?_⟩
  · refine t.lists.congr rfl rfl rfl ?_ ?_
    · intro x hx _
      have hxb := hsame (hfar hx).1
      refine ⟨hxb.1, hxb.2.1, ?_⟩
      simp only [avOf, hxb.2.2.1]
      exact Function.update_of_ne (hfar hx).2.1 _ _
    · intro x hx hfree
      rcases Tiling.addUnit_cases hx with rfl | ⟨hxb, hx⟩
      · rw [hraw] at hfree
        simp at hfree
      · rw [(hsame hxb).2.1] at hfree
        exact ⟨hx, hfree⟩
  · intro q hq htop
    rcases Tiling.addUnit_cases hq with rfl | ⟨hqb, hq⟩
    · rw [hraw] at htop
      simp at htop
    · rw [(hsame hqb).2.1] at htop
      have hold := t.tops hq htop
      have hu := (hfar hq).2.1
      rw [(hsame hqb).2.2.1]
      refine ⟨(Function.update_of_ne hu _ _).trans hold.1, ?_⟩
      rw [next, (hsame hqb).1, fence]
      change h.next q = Function.update h.base u b (h.unit q) + unitTopSize
      rw [Function.update_of_ne hu]
      exact hold.2
  · intro q hq
    rcases Tiling.addUnit_cases hq with rfl | ⟨hqb, hq⟩
    · rw [hkeep, hsize]
      decide
    · rw [(hsame hqb).1, (hsame hqb).2.2.2]
      exact t.kept hq
  · intro q hq hlive hqraw
    rcases Tiling.addUnit_cases hq with rfl | ⟨hqb, hq⟩
    · exact hkeep
    · rw [(hsame hqb).2.1] at hlive hqraw
      rw [(hsame hqb).2.2.2]
      exact t.unkept hq hlive hqraw

end Tidy

end Heap

end ArbiterThread
