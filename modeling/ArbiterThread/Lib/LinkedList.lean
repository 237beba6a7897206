import ArbiterThread.Lib.Rings
import Mathlib.Data.List.Perm.Basic
import Mathlib.Data.Option.Basic
import Mathlib.Logic.Function.Basic

/-!
# Doubly Linked Lists with Null Ends

A list whose nodes lie in memory, with a pointer to each neighbour, and a
record of the first node, the last one and their number. The operations work
on pointers one store at a time.

A list with null ends is a ring closed by the null pointer: the record is the
node at null, its `head` is the forward link of null and its `tail` the
backward link. So `Rings` says what a well-formed list is, and an operation is
right when the links it leaves are those of an edited ring. The ends need no
cases of their own.

`fresh` is where the next node is placed. A list that never reuses the place of
a node `Consists` of its nodes; one that does is `Chained`, as long as the next
place is not one of a node it has.

## Main definitions

* `ListNode`, `LinkedList`: A node, and a list with the memory of its nodes.
* `insertHead`, `insertTail`, `insertAfter`, `delEntry`, `locate`: The operations.
* `scan`, `visit`: Loops over the nodes.
* `Consists`: The list is well formed and consists of the nodes given.
* `Chained`: The same for nodes that lie anywhere.
* `Represents`: The data of a well-formed list.

## Theorems

* `Chained.insertHead`, `Chained.insertTail`, `Chained.delEntry`,
  `Consists.insertAfter`: The operations keep lists well formed.
* `Chained.scan`, `Chained.scan_backward`, `Chained.forward`, `Chained.backward`: What the
  loops find.
* `Consists.locate`: A datum that is in the list is found at its first node.
* `Represents.insertHead`, `Represents.delete`: The same for the data.
-/

/-- A node of a list. -/
structure ListNode (α : Type) where
  data : α
  prev : Option Nat
  next : Option Nat

/-- A list, and the memory its nodes are in. -/
structure LinkedList (α : Type) where
  nodes : Nat → ListNode α
  /-- where the next node is placed -/
  fresh : Nat
  head : Option Nat
  tail : Option Nat
  num : Int

namespace LinkedList

open Rings

variable {α : Type}

/-- The list without nodes. -/
def empty (x : α) : LinkedList α where
  nodes := fun _ => ⟨x, none, none⟩
  fresh := 0
  head := none
  tail := none
  num := 0

def setPrev (l : LinkedList α) (p : Nat) (v : Option Nat) : LinkedList α :=
  { l with nodes := Function.update l.nodes p { l.nodes p with prev := v } }

def setNext (l : LinkedList α) (p : Nat) (v : Option Nat) : LinkedList α :=
  { l with nodes := Function.update l.nodes p { l.nodes p with next := v } }

def setHead (l : LinkedList α) (v : Option Nat) : LinkedList α := { l with head := v }

def setTail (l : LinkedList α) (v : Option Nat) : LinkedList α := { l with tail := v }

/-- Set the forward link of a pointer, with the record of the list at null. -/
def setFd (l : LinkedList α) : Option Nat → Option Nat → LinkedList α
  | none, v => l.setHead v
  | some p, v => l.setNext p v

/-- Set the backward link of a pointer. -/
def setBk (l : LinkedList α) : Option Nat → Option Nat → LinkedList α
  | none, v => l.setTail v
  | some p, v => l.setPrev p v

def addNum (l : LinkedList α) (d : Int) : LinkedList α := { l with num := l.num + d }

/-- A new node, at `fresh`. -/
def alloc (l : LinkedList α) (node : ListNode α) : LinkedList α :=
  { l with nodes := Function.update l.nodes l.fresh node, fresh := l.fresh + 1 }

def insertHead (l : LinkedList α) (x : α) : LinkedList α :=
  let new := l.fresh
  let l₁ := l.alloc ⟨x, none, l.head⟩
  let l₂ := match l.head with
    | none => l₁.setTail (some new)
    | some h => l₁.setPrev h (some new)
  (l₂.setHead (some new)).addNum 1

def insertTail (l : LinkedList α) (x : α) : LinkedList α :=
  let new := l.fresh
  let l₁ := l.alloc ⟨x, l.tail, none⟩
  let l₂ := match l.tail with
    | none => l₁.setHead (some new)
    | some t => l₁.setNext t (some new)
  (l₂.setTail (some new)).addNum 1

/-- Link a new node in behind `ptr`, through the node that follows it. Without
    one this is an access through null, and there is no list afterwards. -/
def insertAfter (l : LinkedList α) (ptr : Nat) (x : α) : Option (LinkedList α) :=
  let new := l.fresh
  let l₁ := l.alloc ⟨x, some ptr, (l.nodes ptr).next⟩
  match (l.nodes ptr).next with
  | none => none
  | some n => some (((l₁.setPrev n (some new)).setNext ptr (some new)).addNum 1)

def delEntry (l : LinkedList α) (entry : Nat) : α × LinkedList α :=
  let node := l.nodes entry
  let l₁ := if l.head = some entry then l.setHead node.next else l
  let l₂ := if l.tail = some entry then l₁.setTail node.prev else l₁
  let l₃ := match node.prev with
    | some p => l₂.setNext p node.next
    | none => l₂
  let l₄ := match (l₃.nodes entry).next with
    | some n => l₃.setPrev n (l₃.nodes entry).prev
    | none => l₃
  ((l₄.nodes entry).data, l₄.addNum (-1))

def locateFrom [DecidableEq α] (l : LinkedList α) (x : α) : Nat → Option Nat → Option Nat
  | 0, _ => none
  | _ + 1, none => none
  | fuel + 1, some p =>
      if (l.nodes p).data = x then some p else locateFrom l x fuel (l.nodes p).next

/-- The first node with the datum. No list has more nodes than were made. -/
def locate [DecidableEq α] (l : LinkedList α) (x : α) : Option Nat :=
  locateFrom l x (l.fresh + 1) l.head

/-- The loop over the nodes from `ptr` on that stops at the first one with an
    answer. `none` stands for a loop that has not come to an end. -/
def scan {β : Type} (step : Nat → Option Nat) (answer : Nat → Option β) :
    Nat → Option Nat → Option (Option β)
  | 0, _ => none
  | _ + 1, none => some none
  | fuel + 1, some p =>
      match answer p with
      | some b => some (some b)
      | none => scan step answer fuel (step p)

/-- The nodes a loop visits that goes on to the end. -/
def visit (step : Nat → Option Nat) : Nat → Option Nat → Option (List Nat)
  | 0, _ => none
  | _ + 1, none => some []
  | fuel + 1, some p => (visit step fuel (step p)).map (p :: ·)

/-! ### Lists as rings -/

/-- The forward link of a pointer, with the record of the list at null. -/
def fd (l : LinkedList α) : Option Nat → Option Nat
  | none => l.head
  | some p => (l.nodes p).next

/-- The backward link of a pointer. -/
def bk (l : LinkedList α) : Option Nat → Option Nat
  | none => l.tail
  | some p => (l.nodes p).prev

/-- The list is well formed and consists of the nodes `ps`, in this order. -/
structure Consists (l : LinkedList α) (ps : List Nat) : Prop where
  ring : Ring l.fd l.bk none (ps.map some)
  nodup : ps.Nodup
  num : l.num = ps.length
  made : ∀ p ∈ ps, p < l.fresh

/-- The nodes `ps` are linked in this order, wherever they were placed. -/
structure Chained (l : LinkedList α) (ps : List Nat) : Prop where
  ring : Ring l.fd l.bk none (ps.map some)
  nodup : ps.Nodup
  num : l.num = ps.length

theorem Consists.chained {l : LinkedList α} {ps : List Nat} (h : l.Consists ps) : l.Chained ps :=
  ⟨h.ring, h.nodup, h.num⟩

/-- The list is well formed and `xs` are its data. -/
def Represents (l : LinkedList α) (xs : List α) : Prop :=
  ∃ ps, l.Consists ps ∧ ps.map (fun p => (l.nodes p).data) = xs

theorem represents_empty (x : α) : (empty x).Represents [] := by
  refine ⟨[], ⟨?_, List.nodup_nil, rfl, ?_⟩, rfl⟩
  · exact List.isChain_pair.mpr ⟨rfl, rfl⟩
  · exact fun p hp => absurd hp List.not_mem_nil

variable {l : LinkedList α} {ps : List Nat}

theorem Chained.nodup_ring (h : l.Chained ps) : (none :: ps.map some).Nodup := by
  refine List.nodup_cons.mpr ⟨?_, h.nodup.map (Option.some_injective Nat)⟩
  simp only [List.mem_map, reduceCtorEq, and_false, exists_false, not_false_eq_true]

theorem Consists.fresh_notMem (h : l.Consists ps) : l.fresh ∉ ps :=
  fun hmem => lt_irrefl _ (h.made _ hmem)

/-- No list has more nodes than were made. -/
theorem Consists.length_le (h : l.Consists ps) : ps.length ≤ l.fresh := by
  have hsub : ps ⊆ List.range l.fresh := fun p hp => List.mem_range.mpr (h.made p hp)
  have hle := (List.subperm_of_subset h.nodup hsub).length_le
  rwa [List.length_range] at hle

/-- The first node of the part of a list that starts with `ps`. -/
theorem map_some_append (ps : List Nat) :
    ∃ post, ps.map some ++ [none] = ps.head? :: post := by
  cases ps with
  | nil => exact ⟨[], rfl⟩
  | cons p ps => exact ⟨ps.map some ++ [none], rfl⟩

theorem map_some_concat (ps : List Nat) :
    ∃ pre, none :: ps.map some = pre ++ [ps.getLast?] := by
  rcases List.eq_nil_or_concat ps with rfl | ⟨ps, p, rfl⟩
  · exact ⟨[], rfl⟩
  · refine ⟨none :: ps.map some, ?_⟩
    simp only [List.concat_eq_append, List.map_append, List.map_cons, List.map_nil,
      List.getLast?_append, List.getLast?_singleton, Option.some_or, List.cons_append]

theorem Chained.head (h : l.Chained ps) : l.head = ps.head? := by
  rcases map_some_append ps with ⟨post, hpost⟩
  exact h.ring.fd_header hpost

theorem Chained.tail (h : l.Chained ps) : l.tail = ps.getLast? := by
  rcases map_some_concat ps with ⟨pre, hpre⟩
  exact h.ring.bk_header hpre

section

variable {p : Nat} {l₁ l₂ : List Nat}

theorem Chained.next (h : l.Chained (l₁ ++ p :: l₂)) : (l.nodes p).next = l₂.head? := by
  rcases map_some_append l₂ with ⟨post, hpost⟩
  have hring := h.ring
  rw [List.map_append, List.map_cons] at hring
  exact hring.fd_eq hpost

theorem Chained.prev (h : l.Chained (l₁ ++ p :: l₂)) : (l.nodes p).prev = l₁.getLast? := by
  rcases map_some_concat l₁ with ⟨pre, hpre⟩
  have hring := h.ring
  rw [List.map_append, List.map_cons] at hring
  exact hring.bk_eq hpre

end

/-! ### Stores -/

section

variable (l : LinkedList α) (p q : Nat) (v a : Option Nat) (node : ListNode α)

@[simp] theorem fd_setPrev : (l.setPrev p v).fd a = l.fd a := by
  cases a with
  | none => rfl
  | some q =>
    by_cases hq : q = p
    · simp [fd, setPrev, hq]
    · simp [fd, setPrev, hq]

@[simp] theorem bk_setPrev : (l.setPrev p v).bk a = if a = some p then v else l.bk a := by
  cases a with
  | none => rfl
  | some q =>
    by_cases hq : q = p
    · simp [bk, setPrev, hq]
    · simp [bk, setPrev, hq]

@[simp] theorem fd_setNext : (l.setNext p v).fd a = if a = some p then v else l.fd a := by
  cases a with
  | none => rfl
  | some q =>
    by_cases hq : q = p
    · simp [fd, setNext, hq]
    · simp [fd, setNext, hq]

@[simp] theorem bk_setNext : (l.setNext p v).bk a = l.bk a := by
  cases a with
  | none => rfl
  | some q =>
    by_cases hq : q = p
    · simp [bk, setNext, hq]
    · simp [bk, setNext, hq]

@[simp] theorem fd_alloc :
    (l.alloc node).fd a = if a = some l.fresh then node.next else l.fd a := by
  cases a with
  | none => rfl
  | some q =>
    by_cases hq : q = l.fresh
    · simp [fd, alloc, hq]
    · simp [fd, alloc, hq]

@[simp] theorem bk_alloc :
    (l.alloc node).bk a = if a = some l.fresh then node.prev else l.bk a := by
  cases a with
  | none => rfl
  | some q =>
    by_cases hq : q = l.fresh
    · simp [bk, alloc, hq]
    · simp [bk, alloc, hq]

@[simp] theorem fd_setHead : (l.setHead v).fd a = if a = none then v else l.fd a := by
  cases a with
  | none => rfl
  | some q => rfl

@[simp] theorem bk_setHead : (l.setHead v).bk a = l.bk a := by
  cases a with
  | none => rfl
  | some q => rfl

@[simp] theorem fd_setTail : (l.setTail v).fd a = l.fd a := by
  cases a with
  | none => rfl
  | some q => rfl

@[simp] theorem bk_setTail : (l.setTail v).bk a = if a = none then v else l.bk a := by
  cases a with
  | none => rfl
  | some q => rfl

@[simp] theorem fd_setFd (b : Option Nat) :
    (l.setFd b v).fd a = if a = b then v else l.fd a := by
  cases b with
  | none => exact fd_setHead l v a
  | some p => exact fd_setNext l p v a

@[simp] theorem bk_setFd (b : Option Nat) : (l.setFd b v).bk a = l.bk a := by
  cases b with
  | none => exact bk_setHead l v a
  | some p => exact bk_setNext l p v a

@[simp] theorem fd_setBk (b : Option Nat) : (l.setBk b v).fd a = l.fd a := by
  cases b with
  | none => exact fd_setTail l v a
  | some p => exact fd_setPrev l p v a

@[simp] theorem bk_setBk (b : Option Nat) :
    (l.setBk b v).bk a = if a = b then v else l.bk a := by
  cases b with
  | none => exact bk_setTail l v a
  | some p => exact bk_setPrev l p v a

@[simp] theorem fd_addNum (d : Int) : (l.addNum d).fd a = l.fd a := by
  cases a with
  | none => rfl
  | some q => rfl

@[simp] theorem bk_addNum (d : Int) : (l.addNum d).bk a = l.bk a := by
  cases a with
  | none => rfl
  | some q => rfl

end

/-- The data of all nodes but new ones stay. -/
theorem data_setPrev (l : LinkedList α) (p : Nat) (v : Option Nat) (q : Nat) :
    ((l.setPrev p v).nodes q).data = (l.nodes q).data := by
  by_cases hq : q = p
  · simp [setPrev, hq]
  · simp [setPrev, hq]

theorem data_setNext (l : LinkedList α) (p : Nat) (v : Option Nat) (q : Nat) :
    ((l.setNext p v).nodes q).data = (l.nodes q).data := by
  by_cases hq : q = p
  · simp [setNext, hq]
  · simp [setNext, hq]

theorem data_alloc (l : LinkedList α) (node : ListNode α) (q : Nat) :
    ((l.alloc node).nodes q).data = if q = l.fresh then node.data else (l.nodes q).data := by
  by_cases hq : q = l.fresh
  · simp [alloc, hq]
  · simp [alloc, hq]

/-! ### The operations -/

/-- A node more, between the two parts of a list: what the links of the new
    list have to be. -/
theorem Chained.insert {l' : LinkedList α} {l₁ l₂ : List Nat} (h : l.Chained (l₁ ++ l₂))
    (hnew : l.fresh ∉ l₁ ++ l₂)
    (hfd : ∀ a, l'.fd a = if a = some l.fresh then l₂.head? else
      if a = l₁.getLast? then some l.fresh else l.fd a)
    (hbk : ∀ a, l'.bk a = if a = some l.fresh then l₁.getLast? else
      if a = l₂.head? then some l.fresh else l.bk a)
    (hnum : l'.num = l.num + 1) : l'.Chained (l₁ ++ l.fresh :: l₂) := by
  rcases map_some_concat l₁ with ⟨pre, hpre⟩
  rcases map_some_append l₂ with ⟨post, hpost⟩
  have hring := h.ring
  have hnd := h.nodup_ring
  have hother : ∀ a ∈ none :: (l₁.map some ++ l₂.map some), a ≠ some l.fresh := by
    rintro a ha rfl
    rw [← List.map_append] at ha
    simp only [List.mem_cons, reduceCtorEq, List.mem_map, Option.some.injEq, exists_eq_right,
      false_or] at ha
    exact hnew ha
  rw [List.map_append] at hring hnd
  have hx : l₁.getLast? ≠ some l.fresh := hother _ (mem_of_left rfl hpre)
  have hz : l₂.head? ≠ some l.fresh := hother _ (mem_of_right rfl hpost)
  refine ⟨?_, ?_, ?_⟩
  · rw [List.map_append, List.map_cons]
    apply hring.insert hnd hpre hpost
    · rw [hfd, if_neg hx, if_pos rfl]
    · rw [hbk, if_pos rfl]
    · rw [hfd, if_pos rfl]
    · rw [hbk, if_neg hz, if_pos rfl]
    · intro a ha hne
      rw [hfd, if_neg (hother a ha), if_neg hne]
    · intro a ha hne
      rw [hbk, if_neg (hother a ha), if_neg hne]
  · exact List.nodup_middle.mpr (List.nodup_cons.mpr ⟨hnew, h.nodup⟩)
  · rw [hnum, h.num]
    simp only [List.length_append, List.length_cons]
    omega

theorem Consists.insert {l' : LinkedList α} {l₁ l₂ : List Nat} (h : l.Consists (l₁ ++ l₂))
    (hc : l'.Chained (l₁ ++ l.fresh :: l₂)) (hfresh : l'.fresh = l.fresh + 1) :
    l'.Consists (l₁ ++ l.fresh :: l₂) := by
  refine ⟨hc.ring, hc.nodup, hc.num, fun p hp => ?_⟩
  rw [hfresh]
  rcases List.mem_cons.mp (List.perm_middle.mem_iff.mp hp) with rfl | hp
  · exact Nat.lt_succ_self _
  · exact Nat.lt_succ_of_lt (h.made p hp)

theorem Chained.insertHead (h : l.Chained ps) (hnew : l.fresh ∉ ps) (x : α) :
    (l.insertHead x).Chained (l.fresh :: ps) := by
  have hhead := h.head
  have hsplit : l.Chained ([] ++ ps) := h
  have hne : l.head ≠ some l.fresh := by
    rw [hhead]
    exact fun he => hnew (List.mem_of_mem_head? he)
  refine hsplit.insert hnew ?_ ?_ ?_
  · intro a
    rw [← hhead, List.getLast?_nil]
    unfold LinkedList.insertHead
    cases hcase : l.head with
    | none => grind [fd_alloc, fd_setHead, fd_setTail, fd_addNum]
    | some q => grind [fd_alloc, fd_setHead, fd_setPrev, fd_addNum]
  · intro a
    rw [← hhead, List.getLast?_nil]
    unfold LinkedList.insertHead
    cases hcase : l.head with
    | none => grind [bk_alloc, bk_setHead, bk_setTail, bk_addNum]
    | some q => grind [bk_alloc, bk_setHead, bk_setPrev, bk_addNum]
  · unfold LinkedList.insertHead
    cases l.head with
    | none => rfl
    | some q => rfl

theorem Consists.insertHead (h : l.Consists ps) (x : α) :
    (l.insertHead x).Consists (l.fresh :: ps) := by
  have hsplit : l.Consists ([] ++ ps) := h
  refine hsplit.insert (h.chained.insertHead h.fresh_notMem x) ?_
  unfold LinkedList.insertHead
  cases l.head with
  | none => rfl
  | some q => rfl

theorem Chained.insertTail (h : l.Chained ps) (hnew : l.fresh ∉ ps) (x : α) :
    (l.insertTail x).Chained (ps ++ [l.fresh]) := by
  have htail := h.tail
  have hsplit : l.Chained (ps ++ []) := by rwa [List.append_nil]
  have hne : l.tail ≠ some l.fresh := by
    rw [htail]
    exact fun he => hnew (List.mem_of_getLast? he)
  refine hsplit.insert (by rwa [List.append_nil]) ?_ ?_ ?_
  · intro a
    rw [← htail, List.head?_nil]
    unfold LinkedList.insertTail
    cases hcase : l.tail with
    | none => grind [fd_alloc, fd_setHead, fd_setTail, fd_addNum]
    | some q => grind [fd_alloc, fd_setTail, fd_setNext, fd_addNum]
  · intro a
    rw [← htail, List.head?_nil]
    unfold LinkedList.insertTail
    cases hcase : l.tail with
    | none => grind [bk_alloc, bk_setHead, bk_setTail, bk_addNum]
    | some q => grind [bk_alloc, bk_setTail, bk_setNext, bk_addNum]
  · unfold LinkedList.insertTail
    cases l.tail with
    | none => rfl
    | some q => rfl

/-- The data after a node was made and linked in. -/
theorem data_insertHead (l : LinkedList α) (x : α) (q : Nat) :
    ((l.insertHead x).nodes q).data = if q = l.fresh then x else (l.nodes q).data := by
  unfold LinkedList.insertHead
  cases l.head with
  | none => exact data_alloc l _ q
  | some p => exact (data_setPrev _ p _ q).trans (data_alloc l _ q)

theorem data_insertTail (l : LinkedList α) (x : α) (q : Nat) :
    ((l.insertTail x).nodes q).data = if q = l.fresh then x else (l.nodes q).data := by
  unfold LinkedList.insertTail
  cases l.tail with
  | none => exact data_alloc l _ q
  | some p => exact (data_setNext _ p _ q).trans (data_alloc l _ q)

/-- Behind the last node there is nothing to link through. -/
theorem Consists.insertAfter_last {l₁ : List Nat} {p : Nat} (h : l.Consists (l₁ ++ [p])) (x : α) :
    l.insertAfter p x = none := by
  unfold LinkedList.insertAfter
  rw [h.chained.next]
  rfl

theorem Consists.insertAfter {l₁ l₂ : List Nat} {p n : Nat} (h : l.Consists (l₁ ++ p :: n :: l₂))
    (x : α) :
    ∃ l', l.insertAfter p x = some l' ∧ l'.Consists (l₁ ++ p :: l.fresh :: n :: l₂) ∧
      ∀ q, (l'.nodes q).data = if q = l.fresh then x else (l.nodes q).data := by
  have hnext : (l.nodes p).next = some n := h.chained.next
  have hsplit : l.Consists ((l₁ ++ [p]) ++ n :: l₂) := by
    rwa [List.append_assoc, List.singleton_append]
  have hp : p ≠ l.fresh := (h.made p (by simp)).ne
  have hn : n ≠ l.fresh := (h.made n (by simp)).ne
  refine ⟨(((l.alloc ⟨x, some p, some n⟩).setPrev n (some l.fresh)).setNext p
    (some l.fresh)).addNum 1, ?_, ?_, ?_⟩
  · unfold LinkedList.insertAfter
    rw [hnext]
  · suffices hins : LinkedList.Consists _ ((l₁ ++ [p]) ++ l.fresh :: n :: l₂) by
      rwa [List.append_assoc, List.singleton_append] at hins
    refine hsplit.insert (hsplit.chained.insert hsplit.fresh_notMem ?_ ?_ rfl) rfl
    · intro a
      simp only [fd_addNum, fd_setNext, fd_setPrev, fd_alloc, List.head?_cons,
        List.getLast?_concat]
      grind
    · intro a
      simp only [bk_addNum, bk_setNext, bk_setPrev, bk_alloc, List.head?_cons,
        List.getLast?_concat]
      grind
  · intro q
    have hdata := data_setNext ((l.alloc ⟨x, some p, some n⟩).setPrev n (some l.fresh)) p
      (some l.fresh) q
    rw [data_setPrev, data_alloc] at hdata
    exact hdata

section

variable {l₁ l₂ : List Nat} {p : Nat}

/-- The entry is the first node exactly if it has no predecessor. -/
theorem Chained.head_eq_iff (h : l.Chained (l₁ ++ p :: l₂)) :
    l.head = some p ↔ (l.nodes p).prev = none := by
  have hp : p ∉ l₁ ++ l₂ := (List.nodup_cons.mp (List.nodup_middle.mp h.nodup)).1
  rw [h.head, h.prev]
  cases l₁ with
  | nil => simp
  | cons q l₁ =>
    simp only [List.cons_append, List.head?_cons, Option.some.injEq, List.getLast?_eq_none_iff,
      List.cons_ne_nil, iff_false]
    rintro rfl
    exact hp List.mem_cons_self

/-- The entry is the last node exactly if it has no successor. -/
theorem Chained.tail_eq_iff (h : l.Chained (l₁ ++ p :: l₂)) :
    l.tail = some p ↔ (l.nodes p).next = none := by
  have hp : p ∉ l₁ ++ l₂ := (List.nodup_cons.mp (List.nodup_middle.mp h.nodup)).1
  rw [h.tail, h.next]
  rcases List.eq_nil_or_concat l₂ with rfl | ⟨l₂, q, rfl⟩
  · simp
  · rw [List.concat_eq_append] at hp ⊢
    have hlast : (l₁ ++ p :: (l₂ ++ [q])).getLast? = some q := by
      rw [← List.cons_append, ← List.append_assoc, List.getLast?_concat]
    rw [hlast]
    simp only [Option.some.injEq, List.head?_eq_none_iff, List.append_eq_nil_iff,
      List.cons_ne_nil, and_false, iff_false]
    rintro rfl
    exact hp (by simp)

/-- In a well-formed list the stores of `delEntry` come down to the two links
    of the neighbours, the record of the list being one of them at an end. -/
theorem Chained.delEntry_eq (h : l.Chained (l₁ ++ p :: l₂)) :
    l.delEntry p = ((l.nodes p).data,
      ((l.setFd l₁.getLast? l₂.head?).setBk l₂.head? l₁.getLast?).addNum (-1)) := by
  have hp : p ∉ l₁ ++ l₂ := (List.nodup_cons.mp (List.nodup_middle.mp h.nodup)).1
  have hhead := h.head_eq_iff
  have htail := h.tail_eq_iff
  have hprev : (l.nodes p).prev = l₁.getLast? := h.prev
  have hnext : (l.nodes p).next = l₂.head? := h.next
  have hprev_ne : ∀ q, l₁.getLast? = some q → p ≠ q := by
    rintro q hq rfl
    exact hp (List.mem_append_left _ (List.mem_of_getLast? hq))
  have hnext_ne : ∀ q, l₂.head? = some q → p ≠ q := by
    rintro q hq rfl
    exact hp (List.mem_append_right _ (List.mem_of_mem_head? hq))
  unfold LinkedList.delEntry
  simp only [hhead, htail, hprev, hnext]
  cases hx : l₁.getLast? with
  | none =>
    rw [hx] at hprev
    cases hz : l₂.head? with
    | none =>
      rw [hz] at hnext
      simp [setHead, setTail, setFd, setBk, hnext]
    | some n =>
      rw [hz] at hnext
      simp [setHead, setFd, setBk, hnext, hprev, data_setPrev]
  | some q =>
    rw [hx] at hprev
    have hq := hprev_ne q hx
    cases hz : l₂.head? with
    | none =>
      rw [hz] at hnext
      simp [setTail, setFd, setBk, hnext, setNext, hq]
    | some n =>
      rw [hz] at hnext
      simp [setFd, setBk, hnext, hprev, setNext, data_setPrev, hq]

theorem Chained.delEntry (h : l.Chained (l₁ ++ p :: l₂)) :
    (l.delEntry p).1 = (l.nodes p).data ∧ (l.delEntry p).2.Chained (l₁ ++ l₂) ∧
      ∀ q, ((l.delEntry p).2.nodes q).data = (l.nodes q).data := by
  rw [h.delEntry_eq]
  refine ⟨rfl, ⟨?_, ?_, ?_⟩, ?_⟩
  · have hring := h.ring
    have hnd := h.nodup_ring
    rw [List.map_append, List.map_cons] at hring hnd
    rw [List.map_append]
    have hprev : l.bk (some p) = l₁.getLast? := h.prev
    have hnext : l.fd (some p) = l₂.head? := h.next
    apply hring.remove hnd
    · simp only [fd_addNum, fd_setBk, fd_setFd, hprev, hnext, if_true]
    · simp only [bk_addNum, bk_setBk, hprev, hnext, if_true]
    · intro a _ ha
      rw [hprev] at ha
      simp only [fd_addNum, fd_setBk, fd_setFd, ha, if_false]
    · intro a _ ha
      rw [hnext] at ha
      simp only [bk_addNum, bk_setBk, bk_setFd, ha, if_false]
  · exact (List.nodup_cons.mp (List.nodup_middle.mp h.nodup)).2
  · have hnum := h.num
    rw [List.length_append, List.length_cons] at hnum
    rw [List.length_append]
    cases l₁.getLast? <;> cases l₂.head? <;>
      simp only [setFd, setBk, setHead, setTail, setNext, setPrev, addNum] <;> omega
  · intro q
    cases l₁.getLast? <;> cases l₂.head? <;>
      simp [setFd, setBk, setHead, setTail, addNum, data_setNext, data_setPrev]

theorem Consists.delEntry (h : l.Consists (l₁ ++ p :: l₂)) :
    (l.delEntry p).1 = (l.nodes p).data ∧ (l.delEntry p).2.Consists (l₁ ++ l₂) ∧
      ∀ q, ((l.delEntry p).2.nodes q).data = (l.nodes q).data := by
  obtain ⟨hval, hc, hdata⟩ := h.chained.delEntry
  refine ⟨hval, ⟨hc.ring, hc.nodup, hc.num, fun q hq => ?_⟩, hdata⟩
  have hmade := h.made q (List.perm_middle.mem_iff.mpr (List.mem_cons_of_mem p hq))
  rw [h.chained.delEntry_eq]
  cases l₁.getLast? <;> cases l₂.head? <;> exact hmade

end

/-! ### Loops -/

section

variable {β : Type} {step : Nat → Option Nat} {l₁ l₂ : List Nat}

/-- The loop over a list finds the first answer, with enough turns for all nodes. -/
theorem scan_eq (answer : Nat → Option β)
    (hstep : ∀ l₁ p l₂, ps = l₁ ++ p :: l₂ → step p = l₂.head?) (hps : ps = l₁ ++ l₂) {fuel : Nat}
    (hfuel : l₂.length < fuel) : scan step answer fuel l₂.head? = some (l₂.findSome? answer) := by
  -- The nodes before the current one are only there to find its successor.
  induction l₂ generalizing l₁ fuel with
  | nil =>
    obtain ⟨fuel, rfl⟩ : ∃ k, fuel = k + 1 := ⟨fuel - 1, by simp at hfuel; omega⟩
    rfl
  | cons p l₂ ih =>
    obtain ⟨fuel, rfl⟩ : ∃ k, fuel = k + 1 := ⟨fuel - 1, by simp at hfuel; omega⟩
    have hrest := ih (hps.trans (List.append_cons l₁ p l₂))
      (by simp at hfuel; omega)
    rw [List.head?_cons, scan, hstep l₁ p l₂ hps, List.findSome?_cons]
    cases answer p with
    | some b => rfl
    | none => exact hrest

theorem visit_eq (hstep : ∀ l₁ p l₂, ps = l₁ ++ p :: l₂ → step p = l₂.head?) (hps : ps = l₁ ++ l₂)
    {fuel : Nat} (hfuel : l₂.length < fuel) : visit step fuel l₂.head? = some l₂ := by
  induction l₂ generalizing l₁ fuel with
  | nil =>
    obtain ⟨fuel, rfl⟩ : ∃ k, fuel = k + 1 := ⟨fuel - 1, by simp at hfuel; omega⟩
    rfl
  | cons p l₂ ih =>
    obtain ⟨fuel, rfl⟩ : ∃ k, fuel = k + 1 := ⟨fuel - 1, by simp at hfuel; omega⟩
    have hrest := ih (hps.trans (List.append_cons l₁ p l₂))
      (by simp at hfuel; omega)
    rw [List.head?_cons, visit, hstep l₁ p l₂ hps, hrest]
    rfl

/-- The loop from the first node on. -/
theorem Chained.scan (h : l.Chained ps) (answer : Nat → Option β) {fuel : Nat}
    (hfuel : ps.length < fuel) :
    LinkedList.scan (fun p => (l.nodes p).next) answer fuel l.head =
      some (ps.findSome? answer) := by
  have hall : ps = [] ++ ps := rfl
  rw [h.head]
  exact scan_eq answer (fun l₁ p l₂ hps => (hps ▸ h).next) hall hfuel

theorem Chained.forward (h : l.Chained ps) {fuel : Nat} (hfuel : ps.length < fuel) :
    visit (fun p => (l.nodes p).next) fuel l.head = some ps := by
  have hall : ps = [] ++ ps := rfl
  rw [h.head]
  exact visit_eq (fun l₁ p l₂ hps => (hps ▸ h).next) hall hfuel

/-- Backwards the nodes come in the order of the reversed list. -/
theorem Chained.prev_reverse (h : l.Chained ps) {l₁ l₂ : List Nat} {p : Nat}
    (hps : ps.reverse = l₁ ++ p :: l₂) : (l.nodes p).prev = l₂.head? := by
  have hsplit : ps = l₂.reverse ++ p :: l₁.reverse := by
    rw [← List.reverse_reverse ps, hps]
    simp
  rw [hsplit] at h
  rw [h.prev, List.getLast?_reverse]

theorem Chained.backward (h : l.Chained ps) {fuel : Nat} (hfuel : ps.length < fuel) :
    visit (fun p => (l.nodes p).prev) fuel l.tail = some ps.reverse := by
  have hall : ps.reverse = [] ++ ps.reverse := rfl
  rw [h.tail, ← List.head?_reverse]
  exact visit_eq (fun _ _ _ => h.prev_reverse) hall (by rwa [List.length_reverse])

/-- The loop from the last node on. -/
theorem Chained.scan_backward (h : l.Chained ps) (answer : Nat → Option β) {fuel : Nat}
    (hfuel : ps.length < fuel) :
    LinkedList.scan (fun p => (l.nodes p).prev) answer fuel l.tail =
      some (ps.reverse.findSome? answer) := by
  have hall : ps.reverse = [] ++ ps.reverse := rfl
  rw [h.tail, ← List.head?_reverse]
  exact scan_eq answer (fun _ _ _ => h.prev_reverse) hall (by rwa [List.length_reverse])

end

/-! ### Looking up -/

variable [DecidableEq α]

theorem locateFrom_eq (h : l.Consists ps) (x : α) (l₁ l₂ : List Nat) (hps : ps = l₁ ++ l₂)
    (fuel : Nat) (hfuel : l₂.length < fuel) :
    l.locateFrom x fuel l₂.head? = l₂.find? (fun p => (l.nodes p).data = x) := by
  -- The nodes before the current one are only there to find its successor.
  induction l₂ generalizing l₁ fuel with
  | nil =>
    obtain ⟨fuel, rfl⟩ : ∃ k, fuel = k + 1 := ⟨fuel - 1, by simp at hfuel; omega⟩
    rfl
  | cons p l₂ ih =>
    obtain ⟨fuel, rfl⟩ : ∃ k, fuel = k + 1 := ⟨fuel - 1, by simp at hfuel; omega⟩
    have hnext : (l.nodes p).next = l₂.head? := by
      rw [hps] at h
      exact h.chained.next
    have hrest := ih (l₁ ++ [p]) (by rw [hps, List.append_assoc, List.singleton_append]) fuel
      (by simp at hfuel; omega)
    simp only [List.head?_cons, locateFrom, List.find?_cons, hnext, hrest]
    by_cases hx : (l.nodes p).data = x
    · simp only [hx, if_true, decide_true]
    · simp only [hx, if_false, decide_false]

theorem Consists.locate (h : l.Consists ps) (x : α) :
    l.locate x = ps.find? (fun p => (l.nodes p).data = x) := by
  unfold LinkedList.locate
  rw [h.chained.head]
  exact locateFrom_eq h x [] ps rfl _ (Nat.lt_succ_of_le h.length_le)

/-! ### Data -/

variable {xs : List α}

omit [DecidableEq α] in
theorem Represents.insertHead (h : l.Represents xs) (x : α) :
    (l.insertHead x).Represents (x :: xs) := by
  obtain ⟨ps, hps, rfl⟩ := h
  refine ⟨l.fresh :: ps, hps.insertHead x, ?_⟩
  rw [List.map_cons, data_insertHead, if_pos rfl]
  congr 1
  refine List.map_congr_left fun q hq => ?_
  rw [data_insertHead, if_neg (hps.made q hq).ne]

/-- `locate` and `delEntry`: the first node with the datum goes. -/
theorem Represents.delete (h : l.Represents xs) {x : α} (hx : x ∈ xs) :
    ∃ p, l.locate x = some p ∧ (l.delEntry p).1 = x ∧ (l.delEntry p).2.Represents (xs.erase x) := by
  obtain ⟨ps, hps, rfl⟩ := h
  obtain ⟨q, hq, hqx⟩ := List.mem_map.mp hx
  obtain ⟨p, hp⟩ : ∃ p, ps.find? (fun p => (l.nodes p).data = x) = some p :=
    Option.isSome_iff_exists.mp (List.find?_isSome.mpr ⟨q, hq, decide_eq_true hqx⟩)
  obtain ⟨hpx, l₁, l₂, rfl, hbefore⟩ := List.find?_eq_some_iff_append.mp hp
  have hpx : (l.nodes p).data = x := of_decide_eq_true hpx
  obtain ⟨hval, hcons, hdata⟩ := hps.delEntry
  refine ⟨p, (hps.locate x).trans hp, hval.trans hpx, l₁ ++ l₂, hcons, ?_⟩
  have hnot : x ∉ l₁.map (fun p => (l.nodes p).data) := by
    intro hmem
    obtain ⟨q, hq, hqx⟩ := List.mem_map.mp hmem
    have := hbefore q hq
    simp only [hqx, decide_true, Bool.not_true, Bool.false_eq_true] at this
  simp only [hdata, List.map_append, List.map_cons, hpx]
  rw [List.erase_append_right _ hnot, List.erase_cons_head]

end LinkedList
