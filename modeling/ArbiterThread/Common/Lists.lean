import ArbiterThread.Lib.LinkedList

/-!
# The Lists of the Arbiter

`linked_list.c`, which holds the clients, the `malloc_state`s and the units. The
functions are those of `LinkedList`, with two differences. A new node is placed
where `malloc` places it, which can be where an earlier node was, and the loops
are followed turn by turn, so that coming to an end is part of what is proved.

A sequence of calls is compared with the sequence of the nodes and their data
that it should leave. Between two calls the memory outside the list can change
in any way, the nodes given back included.

## Main definitions

* `initLinkedList`, `listInsertHead`, `listInsertTail`, `listDelEntry`,
  `listRemoveHead`, `listRemoveTail`, `linkedListLocate`, `linkedListLookup`: The
  functions.
* `ListRun`: Sequences of calls.
* `Depicts`: The pointers represent a sequence.

## Theorems

* `ListRun.ordered`: What every call keeps.
* `listRun_depicts`: The pointers represent the sequence the calls should leave.
-/

namespace ArbiterThread

variable {α κ : Type}

/-! ### Functions -/

def initLinkedList (list : LinkedList α) : LinkedList α :=
  { list with
    head := none
    tail := none
    num := 0 }

/-- `list_insert_head`, with the node that `malloc` answers. -/
def listInsertHead (list : LinkedList α) (new : Nat) (data : α) : LinkedList α :=
  LinkedList.insertHead { list with fresh := new } data

/-- `list_insert_tail`, with the node that `malloc` answers. -/
def listInsertTail (list : LinkedList α) (new : Nat) (data : α) : LinkedList α :=
  LinkedList.insertTail { list with fresh := new } data

def listDelEntry (list : LinkedList α) (entry : Nat) : α × LinkedList α := list.delEntry entry

def listRemoveHead (list : LinkedList α) : Option α × LinkedList α :=
  match list.head with
  | some entry => (some (listDelEntry list entry).1, (listDelEntry list entry).2)
  | none => (none, list)

def listRemoveTail (list : LinkedList α) : Option α × LinkedList α :=
  match list.tail with
  | some entry => (some (listDelEntry list entry).1, (listDelEntry list entry).2)
  | none => (none, list)

/-- `linked_list_locate`, followed for `fuel` turns. -/
def linkedListLocate [DecidableEq α] (list : LinkedList α) (data : α) (fuel : Nat) :
    Option (Option Nat) :=
  LinkedList.scan (fun ptr => (list.nodes ptr).next)
    (fun ptr => if (list.nodes ptr).data = data then some ptr else none) fuel list.head

/-- `linked_list_lookup`, followed for `fuel` turns. -/
def linkedListLookup (list : LinkedList α) (key : κ) (cmpf : κ → α → Bool) (fuel : Nat) :
    Option (Option α) :=
  LinkedList.scan (fun ptr => (list.nodes ptr).next)
    (fun ptr => if cmpf key (list.nodes ptr).data then some (list.nodes ptr).data else none) fuel
    list.head

/-! ### Sequences of calls -/

/-- A sequence of calls, with the nodes and data it should leave. -/
inductive ListRun : LinkedList α → List (Nat × α) → Prop
  | init (list : LinkedList α) : ListRun (initLinkedList list) []
  | insertHead {list : LinkedList α} {seq : List (Nat × α)} (new : Nat) (data : α)
      (before : ListRun list seq) (free : new ∉ seq.map Prod.fst) :
      ListRun (listInsertHead list new data) ((new, data) :: seq)
  | insertTail {list : LinkedList α} {seq : List (Nat × α)} (new : Nat) (data : α)
      (before : ListRun list seq) (free : new ∉ seq.map Prod.fst) :
      ListRun (listInsertTail list new data) (seq ++ [(new, data)])
  | delEntry {list : LinkedList α} {seq : List (Nat × α)} (entry : Nat) (before : ListRun list seq)
      (listed : entry ∈ seq.map Prod.fst) :
      ListRun (listDelEntry list entry).2 (seq.filter fun q => q.1 ≠ entry)
  | removeHead {list : LinkedList α} {seq : List (Nat × α)} (before : ListRun list seq) :
      ListRun (listRemoveHead list).2 seq.tail
  | removeTail {list : LinkedList α} {seq : List (Nat × α)} (before : ListRun list seq) :
      ListRun (listRemoveTail list).2 seq.dropLast
  /-- memory that is not part of the list changes -/
  | other {list : LinkedList α} {seq : List (Nat × α)} (nodes : Nat → ListNode α)
      (before : ListRun list seq) (same : ∀ q ∈ seq, nodes q.1 = list.nodes q.1) :
      ListRun { list with nodes := nodes } seq

/-- The pointers represent the sequence: the record and the nodes are as they
    should be, both traversals and both searches find what they should, and a node
    that is taken out gives back its datum. -/
structure Depicts [DecidableEq α] (list : LinkedList α) (seq : List (Nat × α)) : Prop where
  head : list.head = seq.head?.map Prod.fst
  tail : list.tail = seq.getLast?.map Prod.fst
  node : ∀ s₁ p x s₂, seq = s₁ ++ (p, x) :: s₂ → list.nodes p =
    { data := x, prev := s₁.getLast?.map Prod.fst, next := s₂.head?.map Prod.fst }
  num : list.num = seq.length
  forward : ∀ fuel, seq.length < fuel →
    LinkedList.visit (fun p => (list.nodes p).next) fuel list.head = some (seq.map Prod.fst)
  backward : ∀ fuel, seq.length < fuel →
    LinkedList.visit (fun p => (list.nodes p).prev) fuel list.tail =
      some (seq.map Prod.fst).reverse
  locate : ∀ data fuel, seq.length < fuel → linkedListLocate list data fuel =
    some ((seq.find? fun q => q.2 = data).map Prod.fst)
  lookup : ∀ {κ : Type} (key : κ) (cmpf : κ → α → Bool) (fuel : Nat), seq.length < fuel →
    linkedListLookup list key cmpf fuel = some ((seq.find? fun q => cmpf key q.2).map Prod.snd)
  deleted : ∀ p x, (p, x) ∈ seq → (listDelEntry list p).1 = x
  removedHead : (listRemoveHead list).1 = seq.head?.map Prod.snd
  removedTail : (listRemoveTail list).1 = seq.getLast?.map Prod.snd

/-! ### What a call keeps -/

/-- The nodes are linked in the order of the sequence and have its data. -/
structure InOrder (list : LinkedList α) (seq : List (Nat × α)) : Prop where
  chained : list.Chained (seq.map Prod.fst)
  data : ∀ q ∈ seq, (list.nodes q.1).data = q.2

section

variable {list : LinkedList α} {seq s₁ s₂ : List (Nat × α)} {p : Nat} {x : α}

theorem InOrder.delEntry (h : InOrder list (s₁ ++ (p, x) :: s₂)) :
    (listDelEntry list p).1 = x ∧ InOrder (listDelEntry list p).2 (s₁ ++ s₂) := by
  have hc := h.chained
  rw [List.map_append, List.map_cons] at hc
  obtain ⟨hval, hdel, hdata⟩ := hc.delEntry
  refine ⟨hval.trans (h.data (p, x) (by simp)), ?_, fun q hq => ?_⟩
  · rw [List.map_append]
    exact hdel
  · exact (hdata q.1).trans (h.data q (List.perm_middle.mem_iff.mpr (List.mem_cons_of_mem _ hq)))

/-- Leaving out a node leaves the two parts before and behind it. -/
theorem InOrder.filter_ne (h : InOrder list (s₁ ++ (p, x) :: s₂)) :
    ((s₁ ++ (p, x) :: s₂).filter fun q => q.1 ≠ p) = s₁ ++ s₂ := by
  have hnd := h.chained.nodup
  rw [List.map_append, List.map_cons] at hnd
  have hp := (List.nodup_cons.mp (List.nodup_middle.mp hnd)).1
  rw [← List.map_append] at hp
  have hne : ∀ q ∈ s₁ ++ s₂, decide (q.1 ≠ p) = true := by
    intro q hq
    exact decide_eq_true (fun heq => hp (List.mem_map.mpr ⟨q, hq, heq⟩))
  rw [List.filter_append, List.filter_cons_of_neg (by simp), ← List.filter_append]
  exact List.filter_eq_self.mpr hne

theorem InOrder.head (h : InOrder list seq) : list.head = seq.head?.map Prod.fst := by
  rw [h.chained.head, List.head?_map]

theorem InOrder.tail (h : InOrder list seq) : list.tail = seq.getLast?.map Prod.fst := by
  rw [h.chained.tail, List.getLast?_map]

theorem InOrder.removeHead (h : InOrder list seq) :
    (listRemoveHead list).1 = seq.head?.map Prod.snd ∧
      InOrder (listRemoveHead list).2 seq.tail := by
  have hhead := h.head
  unfold listRemoveHead
  cases seq with
  | nil =>
    rw [hhead]
    exact ⟨rfl, h⟩
  | cons q seq =>
    obtain ⟨p, x⟩ := q
    rw [hhead]
    have hsplit : InOrder list ([] ++ (p, x) :: seq) := h
    have hdel := hsplit.delEntry
    exact ⟨congrArg some hdel.1, hdel.2⟩

theorem InOrder.removeTail (h : InOrder list seq) :
    (listRemoveTail list).1 = seq.getLast?.map Prod.snd ∧
      InOrder (listRemoveTail list).2 seq.dropLast := by
  have htail := h.tail
  unfold listRemoveTail
  rcases List.eq_nil_or_concat seq with rfl | ⟨seq, ⟨p, x⟩, rfl⟩
  · rw [htail]
    exact ⟨rfl, h⟩
  · rw [List.concat_eq_append] at h htail ⊢
    rw [List.getLast?_concat] at htail ⊢
    rw [htail, List.dropLast_concat]
    have hdel := h.delEntry
    rw [List.append_nil] at hdel
    exact ⟨congrArg some hdel.1, hdel.2⟩

/-- Every call keeps the nodes in order. -/
theorem ListRun.ordered (h : ListRun list seq) : InOrder list seq := by
  induction h with
  | init list =>
    have hring : Rings.Ring (initLinkedList list).fd (initLinkedList list).bk none [] :=
      List.isChain_cons_cons.mpr ⟨⟨rfl, rfl⟩, List.isChain_singleton _⟩
    exact ⟨⟨hring, List.nodup_nil, rfl⟩, fun q hq => absurd hq List.not_mem_nil⟩
  | @insertHead list seq new data before free ih =>
    have hc : LinkedList.Chained { list with fresh := new } (seq.map Prod.fst) :=
      ⟨ih.chained.ring, ih.chained.nodup, ih.chained.num⟩
    refine ⟨hc.insertHead free data, fun q hq => ?_⟩
    unfold listInsertHead
    rw [LinkedList.data_insertHead]
    rcases List.mem_cons.mp hq with rfl | hq
    · exact if_pos rfl
    · rw [if_neg (fun heq => free (List.mem_map.mpr ⟨q, hq, heq⟩))]
      exact ih.data q hq
  | @insertTail list seq new data before free ih =>
    have hc : LinkedList.Chained { list with fresh := new } (seq.map Prod.fst) :=
      ⟨ih.chained.ring, ih.chained.nodup, ih.chained.num⟩
    refine ⟨?_, fun q hq => ?_⟩
    · rw [List.map_append]
      exact hc.insertTail free data
    · unfold listInsertTail
      rw [LinkedList.data_insertTail]
      rcases List.mem_append.mp hq with hq | hq
      · rw [if_neg (fun heq => free (List.mem_map.mpr ⟨q, hq, heq⟩))]
        exact ih.data q hq
      · rw [List.mem_singleton.mp hq]
        exact if_pos rfl
  | @delEntry list seq entry before listed ih =>
    obtain ⟨⟨p, x⟩, hmem, rfl⟩ := List.mem_map.mp listed
    obtain ⟨s₁, s₂, rfl⟩ := List.append_of_mem hmem
    rw [ih.filter_ne]
    exact ih.delEntry.2
  | removeHead _ ih => exact ih.removeHead.2
  | removeTail _ ih => exact ih.removeTail.2
  | @other list seq nodes before same ih =>
    -- writes to other nodes leave the links of the listed ones
    have hother : ∀ a ∈ none :: (seq.map Prod.fst).map some,
        ({ list with nodes := nodes } : LinkedList α).fd a = list.fd a ∧
          ({ list with nodes := nodes } : LinkedList α).bk a = list.bk a := by
      intro a ha
      rcases List.mem_cons.mp ha with rfl | ha
      · exact ⟨rfl, rfl⟩
      · obtain ⟨p, hp, rfl⟩ := List.mem_map.mp ha
        obtain ⟨q, hq, rfl⟩ := List.mem_map.mp hp
        simp only [LinkedList.fd, LinkedList.bk, same q hq, and_self]
    refine ⟨⟨ih.chained.ring.congr (fun a ha => (hother a ha).1) (fun a ha => (hother a ha).2),
      ih.chained.nodup, ih.chained.num⟩, fun q hq => ?_⟩
    dsimp only
    rw [same q hq]
    exact ih.data q hq

end

/-! ### The pointers and the sequence -/

/-- A search over the nodes is a search over the sequence. -/
theorem findSome_nodes {β : Type} (seq : List (Nat × α)) (c : α → Bool) (f : Nat × α → β)
    (answer : Nat → Option β)
    (hanswer : ∀ q ∈ seq, answer q.1 = if c q.2 then some (f q) else none) :
    (seq.map Prod.fst).findSome? answer = (seq.find? fun q => c q.2).map f := by
  induction seq with
  | nil => rfl
  | cons q seq ih =>
    have hrest := ih (fun q' hq' => hanswer q' (List.mem_cons_of_mem _ hq'))
    rw [List.map_cons, List.findSome?_cons, hanswer q List.mem_cons_self, List.find?_cons]
    cases hc : c q.2 with
    | true => rfl
    | false => exact hrest

/-- After every sequence of calls the pointers represent the sequence the calls
    should leave. -/
theorem listRun_depicts [DecidableEq α] {list : LinkedList α} {seq : List (Nat × α)}
    (h : ListRun list seq) : Depicts list seq := by
  have ho := h.ordered
  have hc := ho.chained
  have hlength : (seq.map Prod.fst).length = seq.length := List.length_map ..
  refine ⟨ho.head, ho.tail, fun s₁ p x s₂ hseq => ?_, ?_, fun fuel hfuel => ?_,
    fun fuel hfuel => ?_, fun data fuel hfuel => ?_, fun key cmpf fuel hfuel => ?_,
    fun p x hmem => ?_, ho.removeHead.1, ho.removeTail.1⟩
  · have hdata : (list.nodes p).data = x := ho.data (p, x) (by rw [hseq]; simp)
    rw [hseq, List.map_append, List.map_cons] at hc
    have hprev := hc.prev
    have hnext := hc.next
    rw [List.getLast?_map] at hprev
    rw [List.head?_map] at hnext
    rw [← hprev, ← hnext, ← hdata]
  · rw [hc.num, hlength]
  · exact hc.forward (by rwa [hlength])
  · exact hc.backward (by rwa [hlength])
  · unfold linkedListLocate
    rw [hc.scan _ (by rwa [hlength])]
    refine congrArg some (findSome_nodes seq (fun y => decide (y = data)) _ _ fun q hq => ?_)
    rw [ho.data q hq]
    simp only [decide_eq_true_eq]
  · unfold linkedListLookup
    rw [hc.scan _ (by rwa [hlength])]
    refine congrArg some (findSome_nodes seq (cmpf key) _ _ fun q hq => ?_)
    rw [ho.data q hq]
  · obtain ⟨s₁, s₂, rfl⟩ := List.append_of_mem hmem
    exact ho.delEntry.1

/-- A list of two whose first node is where one was before. -/
theorem listRun_depicts_reused :
    Depicts (listInsertHead (listRemoveHead (listInsertTail (listInsertTail
      (initLinkedList (LinkedList.empty 0)) 8 5) 24 6)).2 8 7) [(8, 7), (24, 6)] := by
  have hrun : ListRun (listInsertHead (listRemoveHead (listInsertTail (listInsertTail
      (initLinkedList (LinkedList.empty 0)) 8 5) 24 6)).2 8 7) [(8, 7), (24, 6)] :=
    .insertHead 8 7 (.removeHead (.insertTail 24 6 (.insertTail 8 5 (.init _) (by decide))
      (by decide))) (by decide)
  exact listRun_depicts hrun

end ArbiterThread
