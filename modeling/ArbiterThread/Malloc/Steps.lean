import ArbiterThread.Malloc.Holds

/-!
# Steps on the Heap

The steps of the abstract heap, carried over to the state that represents it.

Most of them do not touch the memory: taking up a chunk, joining two, cutting
one. They become possible when the words they need have been written, and each
says which words these are. The only step that comes with a store of its own is
the change of a flag, because the size field of a chunk that is not being worked
on is never wrong.

`Heap.live` is what a caller of the allocator knows of the heap. None of the
steps changes it but handing a chunk out and taking one back.

## Main definitions

* `Heap.live`: The live chunks, with their sizes and units.
* `Heap.Settled`: The heap as it is between two calls.

## Theorems

* `Body.loosen`, `Body.settle`, `Body.settleTop`, `Body.join`, `Body.cleave`,
  `Body.setFlag`: The steps.
-/

namespace ArbiterThread

open Exec Rings

variable {K : Type}

namespace Heap

/-! ### What a caller knows -/

/-- The live chunks, with their sizes, their units and how much of them is to be
    kept. -/
def live (h : Heap) (p : Nat) : Option (Nat × Nat × Nat) :=
  if h.size p ≠ 0 ∧ h.use p = .live then some (h.size p, h.unit p, h.keep p) else none

/-- The heap as it is between two calls, except for the chunks in `x`. -/
structure SettledBut (h : Heap) (x : Nat → Prop) : Prop where
  use : ∀ {p}, h.size p ≠ 0 → ¬ x p → h.use p ≠ .held ∧ h.use p ≠ .raw
  top : ∀ {u}, h.base u ≠ 0 → h.top u ≠ h.fence u →
    h.size (h.top u) ≠ 0 ∧ h.use (h.top u) = .top ∧ h.unit (h.top u) = u

/-- The heap as it is between two calls. -/
def Settled (h : Heap) : Prop := h.SettledBut (fun _ => False)

variable {h h' : Heap} {p q : Nat}

theorem live_eq_some {z u k : Nat} :
    h.live p = some (z, u, k) ↔
      h.size p ≠ 0 ∧ h.use p = .live ∧ h.size p = z ∧ h.unit p = u ∧ h.keep p = k := by
  unfold live
  split
  · rename_i hl
    simp only [Option.some.injEq, Prod.mk.injEq, hl.1, hl.2, ne_eq, not_false_eq_true, true_and]
  · rename_i hl
    simp only [reduceCtorEq, false_iff]
    exact fun hcon => hl ⟨hcon.1, hcon.2.1⟩

theorem live_eq_none : h.live p = none ↔ h.size p ≠ 0 → h.use p ≠ .live := by
  unfold live
  split
  · rename_i hl
    simp [hl]
  · rename_i hl
    simp only [true_iff]
    exact fun hs hu => hl ⟨hs, hu⟩

/-- Two heaps with the same chunks in use. -/
theorem live_congr (hsame : ∀ q, h.size q ≠ 0 ∧ h.use q = .live ∨ h'.size q ≠ 0 ∧ h'.use q = .live →
    h'.size q = h.size q ∧ h'.use q = h.use q ∧ h'.unit q = h.unit q ∧ h'.keep q = h.keep q) :
    h'.live = h.live := by
  funext q
  by_cases hq : h.size q ≠ 0 ∧ h.use q = .live ∨ h'.size q ≠ 0 ∧ h'.use q = .live
  · rcases hsame q hq with ⟨hs, hu, hun, hk⟩
    unfold live
    rw [hs, hu, hun, hk]
  · unfold live
    rw [if_neg (fun hcon => hq (.inr hcon)), if_neg (fun hcon => hq (.inl hcon))]

theorem live_setUse {k : Use} (hold : h.use p ≠ .live) (hnew : k ≠ .live) :
    (h.setUse p k).live = h.live := by
  refine live_congr (fun q hq => ?_)
  have hqp : q ≠ p := by
    rintro rfl
    rw [setUse_use_self] at hq
    rcases hq with hq | hq
    · exact hold hq.2
    · exact hnew hq.2
  exact ⟨rfl, setUse_use_of_ne h p k hqp, rfl, rfl⟩

/-- Taking a live chunk back. -/
theorem live_loosen {k : Use} (hk : k ≠ .live) :
    (h.setUse p k).live = Function.update h.live p none := by
  funext q
  by_cases hqp : q = p
  · rw [hqp, Function.update_self, live_eq_none, setUse_use_self]
    exact fun _ => hk
  · rw [Function.update_of_ne hqp]
    simp only [live, setUse_use_of_ne h p k hqp]
    rfl

/-- Handing a chunk out. -/
theorem live_settle (hp : h.size p ≠ 0) :
    (h.setUse p .live).live = Function.update h.live p (some (h.size p, h.unit p, h.keep p)) := by
  funext q
  by_cases hqp : q = p
  · rw [hqp, Function.update_self, live_eq_some, setUse_use_self]
    exact ⟨hp, rfl, rfl, rfl, rfl⟩
  · rw [Function.update_of_ne hqp]
    simp only [live, setUse_use_of_ne h p .live hqp]
    rfl

theorem live_join (hp : h.size p ≠ 0) (huse : h.use p = .raw) (huse' : h.use (h.next p) = .raw) :
    (h.join p).live = h.live := by
  refine live_congr (fun q hq => ?_)
  have hlive : h.use q = .live := hq.elim (fun hq => hq.2) (fun hq => hq.2)
  have hqp : q ≠ p := by
    rintro rfl
    rw [huse] at hlive
    simp at hlive
  have hqn : q ≠ h.next p := by
    rintro rfl
    rw [huse'] at hlive
    simp at hlive
  exact ⟨join_size_of_ne hqp hqn, rfl, rfl, rfl⟩

theorem live_cleave (t : h.Tiling) {k : Nat} (hp : h.size p ≠ 0) (huse : h.use p = .raw)
    (hk : 16 ≤ k) (hrest : k + 16 ≤ h.size p) : (h.cleave p k).live = h.live := by
  refine live_congr (fun q hq => ?_)
  have hqk : q ≠ p + k := by
    rcases hq with hq | hq
    · exact (t.cleave_keeps hp hk hrest hq.1).1
    · rintro rfl
      have hraw : (h.cleave p k).use (p + k) = .raw := Function.update_self ..
      rw [hraw] at hq
      simp at hq
  have hsame : (h.cleave p k).use q = h.use q ∧ (h.cleave p k).unit q = h.unit q ∧
      (h.cleave p k).keep q = h.keep q := by
    simp only [cleave, Function.update_of_ne hqk, and_self]
  have hlive : h.use q = .live := by
    rcases hq with hq | hq
    · exact hq.2
    · rw [← hsame.1]
      exact hq.2
  have hqp : q ≠ p := by
    rintro rfl
    rw [huse] at hlive
    simp at hlive
  exact ⟨cleave_size_of_ne hqp hqk, hsame⟩

/-! ### Memory -/

/-- A change of use, with the words it needs. -/
theorem Holds.setUse {m₀ m : Mem} (hm : h.Holds m₀ m) {k : Use}
    (hsame : h'.base = h.base ∧ h'.size = h.size ∧ h'.flag = h.flag ∧ h'.keep = h.keep)
    (huse : h'.use = Function.update h.use p k)
    (hfasts : ∀ av i, Thread (fdAt m) 0 (h'.fasts av i)) (hpending : Thread (fdAt m) 0 h'.pending)
    (hhead : k ≠ .raw → m.load32 (p + 4) = h.head p)
    (hfoot : k = .free ∨ k = .held → m.load32 (h.next p) = h.size p) : h'.Holds m₀ m := by
  rcases hsame with ⟨hbase, hsize, hflag, hkeep⟩
  have hnext : h'.next = h.next := by
    funext q
    simp only [next, hsize]
  have hfence : h'.fence = h.fence := by
    funext u
    simp only [Heap.fence, hbase]
  have hheads : h'.head = h.head := by
    funext q
    simp only [Heap.head, hsize, hflag]
  refine ⟨?_, ?_, ?_, hfasts, hpending, ?_, ?_⟩
  -- the chunk whose use changes, and the others
  · intro q hq hk
    rw [hsize] at hq
    rw [huse] at hk
    rw [hheads]
    by_cases hqp : q = p
    · rw [hqp, Function.update_self] at hk
      rw [hqp]
      exact hhead hk
    · rw [Function.update_of_ne hqp] at hk
      exact hm.head hq hk
  · intro q hq hk
    rw [hsize] at hq ⊢
    rw [huse] at hk
    rw [hnext]
    by_cases hqp : q = p
    · rw [hqp, Function.update_self] at hk
      rw [hqp]
      exact hfoot hk
    · rw [Function.update_of_ne hqp] at hk
      exact hm.foot hq hk
  · rw [hbase, hfence]
    exact hm.fence
  · rw [hsize, hkeep]
    exact hm.kept
  · rw [hbase]
    exact hm.outside

theorem Holds.join {m₀ m : Mem} (hm : h.Holds m₀ m) (hp : h.size p ≠ 0) (huse : h.use p = .raw)
    (huse' : h.use (h.next p) = .raw) : (h.join p).Holds m₀ m := by
  have hne : ∀ {q}, h.use q ≠ .raw → q ≠ p ∧ q ≠ h.next p := by
    intro q hq
    refine ⟨?_, ?_⟩
    · rintro rfl
      exact hq huse
    · rintro rfl
      exact hq huse'
  refine ⟨?_, ?_, hm.fence, hm.fasts, hm.pending, ?_, hm.outside⟩
  · intro q hq hk
    change h.use q ≠ .raw at hk
    have hold := (Tiling.join_cases hp q hq).1
    rw [hm.head hold hk, Heap.head, Heap.head, join_size_of_ne (hne hk).1 (hne hk).2]
    rfl
  · intro q hq hk
    change h.use q = .free ∨ h.use q = .held at hk
    have hraw : h.use q ≠ .raw := by
      rcases hk with hk | hk <;> rw [hk] <;> decide
    have hold := Tiling.join_cases hp q hq
    rw [hold.2.2, if_neg (hne hraw).1, join_size_of_ne (hne hraw).1 (hne hraw).2]
    exact hm.foot hold.1 hk
  · intro q hq
    exact hm.kept (Tiling.join_cases hp q hq).1

theorem Holds.cleave {m₀ m : Mem} (hm : h.Holds m₀ m) (t : h.Tiling) {k : Nat}
    (hp : h.size p ≠ 0) (huse : h.use p = .raw) (hk : 16 ≤ k) (hrest : k + 16 ≤ h.size p) :
    (h.cleave p k).Holds m₀ m := by
  have hsame : ∀ {q}, q ≠ p + k → (h.cleave p k).use q = h.use q ∧
      (h.cleave p k).flag q = h.flag q ∧ (h.cleave p k).keep q = h.keep q := by
    intro q hq
    simp only [Heap.cleave, Function.update_of_ne hq, and_self]
  have hraw : (h.cleave p k).use (p + k) = .raw := Function.update_self ..
  have hkeep : (h.cleave p k).keep (p + k) = 0 := Function.update_self ..
  have hpk := (t.cleave_keeps hp hk hrest hp).1
  refine ⟨?_, ?_, hm.fence, hm.fasts, hm.pending, ?_, hm.outside⟩
  · intro q hq hu
    rcases Tiling.cleave_cases hk hrest q hq with ⟨rfl, -⟩ | ⟨rfl, -⟩ | ⟨hqp, hqk, hq, -⟩
    · rw [(hsame hpk).1] at hu
      exact absurd huse hu
    · exact absurd hraw hu
    · rw [(hsame hqk).1] at hu
      rw [hm.head hq hu, Heap.head, Heap.head, cleave_size_of_ne hqp hqk, (hsame hqk).2.1]
  · intro q hq hu
    rcases Tiling.cleave_cases hk hrest q hq with ⟨rfl, -⟩ | ⟨rfl, -⟩ | ⟨hqp, hqk, hq, hnext⟩
    · rw [(hsame hpk).1, huse] at hu
      simp at hu
    · rw [hraw] at hu
      simp at hu
    · rw [(hsame hqk).1] at hu
      rw [hnext, cleave_size_of_ne hqp hqk]
      exact hm.foot hq hu
  · intro q hq
    rcases Tiling.cleave_cases hk hrest q hq with ⟨rfl, -⟩ | ⟨rfl, -⟩ | ⟨-, hqk, hq, -⟩
    · rw [(hsame hpk).2.2]
      exact hm.kept hp
    · rw [hkeep]
      intro x hlo hhi
      omega
    · rw [(hsame hqk).2.2]
      exact hm.kept hq

end Heap

/-! ### Steps -/

theorem Tracks.congr {s : State K} {h h' : Heap} (t : Tracks s h) (hbase : h'.base = h.base)
    (htop : h'.top = h.top) (howner : h'.owner = h.owner) (hfasts : h'.fasts = h.fasts) :
    Tracks s h' := by
  refine ⟨?_, ?_, t.bounded, t.apart, fun hav => ?_, t.limit⟩
  · rw [hbase, htop, howner]
    exact t.unit
  · rw [hbase, howner]
    exact t.owner
  · have ht := t.mstate hav
    refine ⟨ht.made, ht.maxFast, ?_, ?_, ht.binmap, ht.binmapEnd⟩
    · rw [hfasts]
      exact ht.fastbins
    · rw [hbase, howner]
      exact ht.units

namespace Body

variable {m₀ : Mem} {s : State K} {h : Heap} {p x av i : Nat} {l₁ l₂ : List Nat}

/-- Taking up a chunk that is on no list. -/
theorem loosen (b : Body m₀ s h) (hp : h.size p ≠ 0) (huse : h.use p ≠ .free ∧ h.use p ≠ .fast) :
    Body m₀ s (h.setUse p .raw) :=
  ⟨b.tidy.loosen hp huse, b.tracks.congr rfl rfl rfl rfl,
    b.holds.setUse ⟨rfl, rfl, rfl, rfl⟩ rfl b.holds.fasts b.holds.pending
      (fun hcon => absurd rfl hcon) (by simp)⟩

/-- A chunk that was taken out of its bin. The links may be wrong. -/
theorem take (b : Body m₀ s h) (hbin : h.bins av i = l₁ ++ x :: l₂) :
    Body m₀ s ((h.setBin av i (l₁ ++ l₂)).setUse x .held) := by
  have hmem : x ∈ h.bins av i := by
    rw [hbin]
    exact List.mem_append_right _ List.mem_cons_self
  have hx := b.tidy.lists.bin hmem
  refine ⟨b.tidy.take hbin, b.tracks.congr rfl rfl rfl rfl, ?_⟩
  exact b.holds.setUse ⟨rfl, rfl, rfl, rfl⟩ rfl b.holds.fasts b.holds.pending
    (fun _ => b.holds.head hx.1 (by rw [hx.2.1]; decide)) (fun _ => b.holds.foot hx.1 (.inl hx.2.1))

/-- A chunk whose size field and footer are right becomes free. -/
theorem bin (b : Body m₀ s h) (hx : h.size x ≠ 0) (huse : h.use x = .held ∨ h.use x = .raw)
    (hflag : h.flag x = true) (hkeep : h.keep x = 0)
    (hnext : h.size (h.next x) ≠ 0 ∧ h.flag (h.next x) = false ∧ h.use (h.next x) ≠ .free ∧
      h.use (h.next x) ≠ .top)
    (hav : h.avOf x = av) (hi : i = 1 ∨ i = binIndex (h.size x)) (hbin : h.bins av i = l₁ ++ l₂)
    (hhead : s.mem.load32 (x + 4) = h.size x + 1) (hfoot : s.mem.load32 (h.next x) = h.size x) :
    Body m₀ s ((h.setBin av i (l₁ ++ x :: l₂)).setUse x .free) := by
  refine ⟨b.tidy.put hx huse hflag hkeep hnext hav hi hbin, b.tracks.congr rfl rfl rfl rfl, ?_⟩
  refine b.holds.setUse ⟨rfl, rfl, rfl, rfl⟩ rfl b.holds.fasts b.holds.pending ?_ (fun _ => hfoot)
  intro _
  rw [hhead, Heap.head, hflag]
  rfl

/-- A chunk whose size field is right is handed out. -/
theorem settle (b : Body m₀ s h) (hp : h.size p ≠ 0) (huse : h.use p = .held ∨ h.use p = .raw)
    (hnext : h.size (h.next p) ≠ 0 → h.flag (h.next p) = true)
    (hhead : s.mem.load32 (p + 4) = h.head p) : Body m₀ s (h.setUse p .live) :=
  ⟨b.tidy.settle hp huse hnext, b.tracks.congr rfl rfl rfl rfl,
    b.holds.setUse ⟨rfl, rfl, rfl, rfl⟩ rfl b.holds.fasts b.holds.pending (fun _ => hhead)
      (by simp)⟩

/-- A chunk whose size field is right becomes the unit top. -/
theorem settleTop (b : Body m₀ s h) (hp : h.size p ≠ 0) (huse : h.use p = .raw)
    (hflag : h.flag p = true) (hkeep : h.keep p = 0) (htop : h.top (h.unit p) = p)
    (hend : h.next p = h.fence (h.unit p)) (hhead : s.mem.load32 (p + 4) = h.size p + 1) :
    Body m₀ s (h.setUse p .top) := by
  refine ⟨b.tidy.settleTop hp huse hflag hkeep htop hend, b.tracks.congr rfl rfl rfl rfl, ?_⟩
  refine b.holds.setUse ⟨rfl, rfl, rfl, rfl⟩ rfl b.holds.fasts b.holds.pending ?_ (by simp)
  intro _
  rw [hhead, Heap.head, hflag]
  rfl

theorem join (b : Body m₀ s h) (hp : h.size p ≠ 0) (hn : h.size (h.next p) ≠ 0)
    (huse : h.use p = .raw) (huse' : h.use (h.next p) = .raw) : Body m₀ s (h.join p) :=
  ⟨b.tidy.join hp hn huse huse', b.tracks.congr rfl rfl rfl rfl, b.holds.join hp huse huse'⟩

theorem cleave (b : Body m₀ s h) {k : Nat} (hp : h.size p ≠ 0) (huse : h.use p = .raw)
    (hk : 16 ≤ k) (hk8 : k % 8 = 0) (hrest : k + 16 ≤ h.size p) (hkeep : h.keep p + 4 ≤ k) :
    Body m₀ s (h.cleave p k) :=
  ⟨b.tidy.cleave hp huse hk hk8 hrest hkeep, b.tracks.congr rfl rfl rfl rfl,
    b.holds.cleave b.tidy.tiling hp huse hk hrest⟩

/-- Writing the flag about a chunk that is being worked on. -/
theorem setFlag (b : Body m₀ s h) (hp : h.size p ≠ 0) (huse : h.use p = .held ∨ h.use p = .raw)
    (hn : h.size (h.next p) ≠ 0) (f : Bool) :
    Body m₀ (s.put (h.next p + 4) (h.size (h.next p) + f.toNat)) (h.setFlag (h.next p) f) := by
  have t := b.tidy.tiling
  have hbn := t.bounds hn
  have hf : f.toNat ≤ 1 := Bool.toNat_le f
  refine ⟨b.tidy.setFlag hp huse f, (b.tracks.mem _).congr rfl rfl rfl rfl, ?_⟩
  refine b.holds.congr b.tidy.lists ?_ ?_
  · intro q hq hu
    simp only [State.put]
    by_cases hqn : q = h.next p
    · rw [hqn, Mem.load32_store32_self _ _ _ (by omega), Function.update_self]
    · have hapart := t.apart_of_ne hq hn hqn
      have hbq := t.bounds hq
      have hbp := t.bounds hn
      generalize h.next p = n at *
      unfold Heap.next at hapart
      rw [Mem.load32_store32_of_disjoint _ _ _ _ (by omega), Function.update_of_ne hqn]
      exact b.holds.head hq hu
  · intro x hx
    simp only [State.put, Mem.store32]
    rw [if_neg]
    exact fun hin => Heap.Protected.not_head b.tidy hn hin.1 hin.2 hx

end Body

end ArbiterThread
