import Mathlib.Data.List.Chain
import Mathlib.Data.List.Nodup
import Mathlib.Tactic.Common

/-!
# Lists Threaded Through Nodes

Two kinds of lists whose links are stored in the nodes themselves: a circular
list with links in both directions, closed by a header, and a list with
forward links only, closed by a null node.

The links are two functions on nodes, so nothing here knows about memory. A
program that changes some links gives two new functions, and every rule asks
only where the new functions have to agree with the old ones. That is all a
caller has to read off its stores, in whatever order it made them.

A circular list is a chain in the sense of `List.IsChain`, from the header
through the members and back to the header. Cutting that chain at the place
of an edit leaves two chains the edit does not touch.

## Main definitions

* `Linked`: Two nodes point at each other.
* `Ring`: The circular list of a header and its members.
* `Thread`: A list with forward links, closed by a null node.

## Theorems

* `Ring.congr`: A ring only depends on the links of its nodes.
* `Ring.remove`, `Ring.insert`: The two edits.
* `Ring.fd_mem`, `Ring.bk_mem`, `Ring.neighbours`: Following links.
* `Thread.congr`, `Thread.cons_iff`: The same for threads.
-/

namespace Rings

variable {α : Type} {fd bk fd' bk' : α → α}

/-- The nodes point at each other. -/
def Linked (fd bk : α → α) (x y : α) : Prop := fd x = y ∧ bk y = x

/-- The circular list with header `b` and members `l`, in forward order. -/
def Ring (fd bk : α → α) (b : α) (l : List α) : Prop :=
  (b :: (l ++ [b])).IsChain (Linked fd bk)

/-! ### Ends of lists -/

theorem exists_concat (b : α) (l : List α) : ∃ pre x, b :: l = pre ++ [x] :=
  ⟨_, _, (List.dropLast_append_getLast (List.cons_ne_nil b l)).symm⟩

theorem exists_cons (l : List α) (b : α) : ∃ z post, l ++ [b] = z :: post := by
  cases l with
  | nil => exact ⟨b, [], rfl⟩
  | cons z l => exact ⟨z, l ++ [b], rfl⟩

theorem mem_of_concat {b x : α} {l pre : List α} (h : b :: l = pre ++ [x]) : x ∈ b :: l := by
  rw [h]
  exact List.mem_append_right _ (List.mem_singleton_self x)

theorem mem_of_cons {b z : α} {l post : List α} (h : l ++ [b] = z :: post) : z ∈ b :: l := by
  have hz : z ∈ l ++ [b] := by
    rw [h]
    exact List.mem_cons_self
  rw [List.mem_append, List.mem_singleton] at hz
  exact List.mem_cons.mpr hz.symm

/-- The neighbours of a place in a list that is closed by `b`. -/
theorem mem_of_left {b y : α} {l l₁ l₂ pre : List α} (hl : l = l₁ ++ l₂)
    (hy : b :: l₁ = pre ++ [y]) : y ∈ b :: l := by
  rw [hl]
  rcases List.mem_cons.mp (mem_of_concat hy) with rfl | hmem
  · exact List.mem_cons_self
  · exact List.mem_cons_of_mem _ (List.mem_append_left _ hmem)

theorem mem_of_right {b z : α} {l l₁ l₂ post : List α} (hl : l = l₁ ++ l₂)
    (hz : l₂ ++ [b] = z :: post) : z ∈ b :: l := by
  rw [hl]
  rcases List.mem_cons.mp (mem_of_cons hz) with rfl | hmem
  · exact List.mem_cons_self
  · exact List.mem_cons_of_mem _ (List.mem_append_right _ hmem)

/-! ### Chains of links -/

/-- A chain uses the forward link of every node but the last and the backward
    link of every node but the first. -/
theorem isChain_congr {c : List α} (h : c.IsChain (Linked fd bk))
    (hfd : ∀ x ∈ c.dropLast, fd' x = fd x) (hbk : ∀ x ∈ c.tail, bk' x = bk x) :
    c.IsChain (Linked fd' bk') := by
  induction c with
  | nil => exact .nil
  | cons x c ih =>
    cases c with
    | nil => exact .singleton x
    | cons y c =>
      rw [List.isChain_cons_cons] at h ⊢
      have hx := hfd x List.mem_cons_self
      have hy := hbk y List.mem_cons_self
      refine ⟨⟨hx.trans h.1.1, hy.trans h.1.2⟩, ih h.2 ?_ ?_⟩
      · exact fun a ha => hfd a (List.mem_cons_of_mem x ha)
      · exact fun a ha => hbk a (List.mem_cons_of_mem y ha)

/-- Two neighbours of a ring, and the two chains on either side of them. -/
theorem ring_split {b x z : α} {l₁ l₂ pre post : List α} (hx : b :: l₁ = pre ++ [x])
    (hz : l₂ ++ [b] = z :: post) :
    Ring fd bk b (l₁ ++ l₂) ↔ (pre ++ [x]).IsChain (Linked fd bk) ∧ Linked fd bk x z ∧
      (z :: post).IsChain (Linked fd bk) := by
  have hlist : b :: (l₁ ++ l₂ ++ [b]) = pre ++ x :: z :: post := by
    rw [List.append_assoc, hz, ← List.cons_append, hx]
    simp only [List.append_assoc, List.singleton_append]
  unfold Ring
  rw [hlist, List.isChain_append_cons_cons]

/-- A member, its two neighbours, and the chains on either side of them. -/
theorem ring_split_mem {b x y z : α} {l₁ l₂ pre post : List α} (hx : b :: l₁ = pre ++ [x])
    (hz : l₂ ++ [b] = z :: post) :
    Ring fd bk b (l₁ ++ y :: l₂) ↔ (pre ++ [x]).IsChain (Linked fd bk) ∧ Linked fd bk x y ∧
      Linked fd bk y z ∧ (z :: post).IsChain (Linked fd bk) := by
  have hy : (y :: l₂) ++ [b] = y :: z :: post := by rw [List.cons_append, hz]
  rw [ring_split hx hy, List.isChain_cons_cons]

/-! ### Following links -/

section

variable {b x y z : α} {l l₁ l₂ pre post : List α}

theorem Ring.fd_eq (h : Ring fd bk b (l₁ ++ y :: l₂)) (hz : l₂ ++ [b] = z :: post) : fd y = z := by
  rcases exists_concat b l₁ with ⟨pre, x, hx⟩
  exact ((ring_split_mem hx hz).mp h).2.2.1.1

theorem Ring.bk_eq (h : Ring fd bk b (l₁ ++ y :: l₂)) (hx : b :: l₁ = pre ++ [x]) : bk y = x := by
  rcases exists_cons l₂ b with ⟨z, post, hz⟩
  exact ((ring_split_mem hx hz).mp h).2.1.2

theorem Ring.fd_header (h : Ring fd bk b l) (hz : l ++ [b] = z :: post) : fd b = z := by
  have hb : b :: [] = [] ++ [b] := rfl
  exact ((ring_split hb hz).mp h).2.1.1

theorem Ring.bk_header (h : Ring fd bk b l) (hx : b :: l = pre ++ [x]) : bk b = x := by
  have hb : [] ++ [b] = b :: [] := rfl
  rw [← List.append_nil l] at h
  exact ((ring_split hx hb).mp h).2.1.2

theorem Ring.fd_mem (h : Ring fd bk b l) (hy : y ∈ b :: l) : fd y ∈ b :: l := by
  rcases List.mem_cons.mp hy with rfl | hy
  · rcases exists_cons l y with ⟨z, post, hz⟩
    rw [h.fd_header hz]
    exact mem_of_cons hz
  · rcases List.append_of_mem hy with ⟨l₁, l₂, rfl⟩
    rcases exists_cons l₂ b with ⟨z, post, hz⟩
    rw [h.fd_eq hz]
    rcases List.mem_cons.mp (mem_of_cons hz) with rfl | hmem
    · exact List.mem_cons_self
    · exact List.mem_cons_of_mem _ (List.mem_append_right _ (List.mem_cons_of_mem _ hmem))

theorem Ring.bk_mem (h : Ring fd bk b l) (hy : y ∈ b :: l) : bk y ∈ b :: l := by
  rcases List.mem_cons.mp hy with rfl | hy
  · rcases exists_concat y l with ⟨pre, x, hx⟩
    rw [h.bk_header hx]
    exact mem_of_concat hx
  · rcases List.append_of_mem hy with ⟨l₁, l₂, rfl⟩
    rcases exists_concat b l₁ with ⟨pre, x, hx⟩
    rw [h.bk_eq hx]
    rcases List.mem_cons.mp (mem_of_concat hx) with rfl | hmem
    · exact List.mem_cons_self
    · exact List.mem_cons_of_mem _ (List.mem_append_left _ hmem)

/-- A member is found again from both of its neighbours. -/
theorem Ring.neighbours (h : Ring fd bk b l) (hy : y ∈ l) : bk (fd y) = y ∧ fd (bk y) = y := by
  rcases List.append_of_mem hy with ⟨l₁, l₂, rfl⟩
  rcases exists_concat b l₁ with ⟨pre, x, hx⟩
  rcases exists_cons l₂ b with ⟨z, post, hz⟩
  rcases (ring_split_mem hx hz).mp h with ⟨-, hxy, hyz, -⟩
  rw [hyz.1, hxy.2]
  exact ⟨hyz.2, hxy.1⟩

theorem Ring.bk_header_eq_iff (h : Ring fd bk b l) (hb : b ∉ l) : bk b = b ↔ l = [] := by
  rcases List.eq_nil_or_concat l with rfl | ⟨l', y, rfl⟩
  · exact ⟨fun _ => rfl, fun _ => h.bk_header (List.nil_append [b]).symm⟩
  · rw [List.concat_eq_append] at h hb ⊢
    rw [h.bk_header List.cons_append.symm]
    refine ⟨fun hy => ?_, fun hnil => absurd hnil (by simp)⟩
    exact absurd (hy ▸ List.mem_append_right _ (List.mem_singleton_self _)) hb

/-! ### Edits -/

theorem Ring.congr (h : Ring fd bk b l) (hfd : ∀ a ∈ b :: l, fd' a = fd a)
    (hbk : ∀ a ∈ b :: l, bk' a = bk a) : Ring fd' bk' b l := by
  refine isChain_congr h ?_ ?_
  · intro a ha
    rw [← List.cons_append, List.dropLast_concat] at ha
    exact hfd a ha
  · intro a ha
    rw [List.tail_cons, List.mem_append, List.mem_singleton] at ha
    exact hbk a (List.mem_cons.mpr ha.symm)

/-- The chains on either side of an edit between `x` and `z` use neither the
    forward link of `x` nor the backward link of `z`. -/
theorem sides_congr (hnd : (b :: (l₁ ++ l₂)).Nodup) (hx : b :: l₁ = pre ++ [x])
    (hz : l₂ ++ [b] = z :: post) (h₁ : (pre ++ [x]).IsChain (Linked fd bk))
    (h₂ : (z :: post).IsChain (Linked fd bk))
    (hfd : ∀ a ∈ b :: (l₁ ++ l₂), a ≠ x → fd' a = fd a)
    (hbk : ∀ a ∈ b :: (l₁ ++ l₂), a ≠ z → bk' a = bk a) :
    (pre ++ [x]).IsChain (Linked fd' bk') ∧ (z :: post).IsChain (Linked fd' bk') := by
  have hnd₁ : (pre ++ [x]).Nodup := by
    rw [← hx]
    rw [← List.cons_append] at hnd
    exact hnd.of_append_left
  have hnd₂ : (z :: post).Nodup := by
    rw [← hz]
    rw [List.nodup_cons] at hnd
    rw [List.nodup_append]
    refine ⟨hnd.2.of_append_right, List.nodup_singleton b, ?_⟩
    -- `x` is on the first side only and `z` on the second
    rintro a ha c hc rfl
    rw [List.mem_singleton] at hc
    exact hnd.1 (hc ▸ List.mem_append_right _ ha)
  have hxl₂ : x ∉ l₂ := by
    intro hmem
    rw [← List.cons_append, hx] at hnd
    exact (List.nodup_append.mp hnd).2.2 x (List.mem_append_right _ (List.mem_singleton_self x))
      x hmem rfl
  have hzl₁ : z ∉ l₁ := by
    intro hmem
    rw [List.nodup_cons] at hnd
    rcases List.mem_cons.mp (mem_of_cons hz) with rfl | hz₂
    · exact hnd.1 (List.mem_append_left _ hmem)
    · exact (List.nodup_append.mp hnd.2).2.2 z hmem z hz₂ rfl
  constructor
  · refine isChain_congr h₁ ?_ ?_
    · intro a ha
      rw [List.dropLast_concat] at ha
      refine hfd a ?_ ?_
      · have hmem : a ∈ b :: l₁ := by
          rw [hx]
          exact List.mem_append_left _ ha
        rw [← List.cons_append]
        exact List.mem_append_left _ hmem
      · rintro rfl
        exact (List.nodup_append.mp hnd₁).2.2 a ha a (List.mem_singleton_self a) rfl
    · intro a ha
      rw [← hx, List.tail_cons] at ha
      exact hbk a (List.mem_cons_of_mem _ (List.mem_append_left _ ha)) (fun h => hzl₁ (h ▸ ha))
  · refine isChain_congr h₂ ?_ ?_
    · intro a ha
      rw [← hz, List.dropLast_concat] at ha
      exact hfd a (List.mem_cons_of_mem _ (List.mem_append_right _ ha)) (fun h => hxl₂ (h ▸ ha))
    · intro a ha
      rw [List.tail_cons] at ha
      refine hbk a ?_ ?_
      · have hmem : a ∈ l₂ ++ [b] := by
          rw [hz]
          exact List.mem_cons_of_mem _ ha
        rcases List.mem_append.mp hmem with hmem | hmem
        · exact List.mem_cons_of_mem _ (List.mem_append_right _ hmem)
        · rw [List.mem_singleton.mp hmem]
          exact List.mem_cons_self
      · rintro rfl
        exact (List.nodup_cons.mp hnd₂).1 ha

/-- Taking `y` out: its neighbours point at each other, and nothing else
    changes. -/
theorem Ring.remove (h : Ring fd bk b (l₁ ++ y :: l₂)) (hnd : (b :: (l₁ ++ y :: l₂)).Nodup)
    (hfdy : fd' (bk y) = fd y) (hbky : bk' (fd y) = bk y)
    (hfd : ∀ a ∈ b :: (l₁ ++ l₂), a ≠ bk y → fd' a = fd a)
    (hbk : ∀ a ∈ b :: (l₁ ++ l₂), a ≠ fd y → bk' a = bk a) : Ring fd' bk' b (l₁ ++ l₂) := by
  rcases exists_concat b l₁ with ⟨pre, x, hx⟩
  rcases exists_cons l₂ b with ⟨z, post, hz⟩
  rcases (ring_split_mem hx hz).mp h with ⟨h₁, hxy, hyz, h₂⟩
  rw [hxy.2] at hfdy hbky hfd
  rw [hyz.1] at hfdy hbky hbk
  have hnd' : (b :: (l₁ ++ l₂)).Nodup :=
    hnd.sublist ((List.Sublist.append_left (List.sublist_cons_self y l₂) l₁).cons_cons b)
  have hsides := sides_congr hnd' hx hz h₁ h₂ hfd hbk
  exact (ring_split hx hz).mpr ⟨hsides.1, ⟨hfdy, hbky⟩, hsides.2⟩

/-- Putting `y` between two neighbours `x` and `z`. -/
theorem Ring.insert (h : Ring fd bk b (l₁ ++ l₂)) (hnd : (b :: (l₁ ++ l₂)).Nodup)
    (hx : b :: l₁ = pre ++ [x]) (hz : l₂ ++ [b] = z :: post)
    (hfdx : fd' x = y) (hbky : bk' y = x) (hfdy : fd' y = z) (hbkz : bk' z = y)
    (hfd : ∀ a ∈ b :: (l₁ ++ l₂), a ≠ x → fd' a = fd a)
    (hbk : ∀ a ∈ b :: (l₁ ++ l₂), a ≠ z → bk' a = bk a) : Ring fd' bk' b (l₁ ++ y :: l₂) := by
  rcases (ring_split hx hz).mp h with ⟨h₁, -, h₂⟩
  have hsides := sides_congr hnd hx hz h₁ h₂ hfd hbk
  exact (ring_split_mem hx hz).mpr ⟨hsides.1, ⟨hfdx, hbky⟩, ⟨hfdy, hbkz⟩, hsides.2⟩

end

/-! ### Forward links only -/

/-- The list `l` with forward links, closed by `null`. -/
def Thread (fd : α → α) (null : α) (l : List α) : Prop :=
  (l ++ [null]).IsChain (fun x y => fd x = y)

/-- The first node, which is `null` for the empty list. -/
def first (null : α) (l : List α) : α := l.headD null

theorem Thread.nil (null : α) : Thread fd null [] := .singleton null

theorem Thread.cons_iff {null x : α} {l : List α} :
    Thread fd null (x :: l) ↔ fd x = first null l ∧ Thread fd null l := by
  cases l with
  | nil => simp [Thread, first]
  | cons y l => simp [Thread, first]

theorem Thread.congr {null : α} {l : List α} (h : Thread fd null l)
    (hfd : ∀ x ∈ l, fd' x = fd x) : Thread fd' null l := by
  induction l with
  | nil => exact .nil null
  | cons x l ih =>
    rw [Thread.cons_iff] at h ⊢
    rw [hfd x List.mem_cons_self]
    exact ⟨h.1, ih h.2 (fun a ha => hfd a (List.mem_cons_of_mem x ha))⟩

end Rings
