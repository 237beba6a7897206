import ArbiterThread.Malloc.Run
import ArbiterThread.Arbiter.Category
import ArbiterThread.Arbiter.Protection

/-!
# Answers

Whether the arbiter survives a datagram and answers it.

A handler either works on the table of clients only, or makes one call of the allocator, so
runs of the arbiter carry the blocks that its calls have handed out, and the heap is in order
along them as it is along runs of the allocator. What can go wrong besides is the look-up of
an address in no unit, which reads through a null pointer, a new category for a client whose
ownership is full, which is asserted not to happen, and a new client without a task, for which
the kernel kills the arbiter. At last the reply has to be sent, which is asserted as well.

## Main definitions

* `heapCall`: The call of the allocator that a request leads to.
* `Acceptable`: What a handler takes for granted about its request.
* `serveDatagram`: A datagram is handled, and the reply is sent.
* `ArbiterRun`: What a sequence of datagrams, and of writes to the blocks, leads to.
* `CallsOk`, `CallsGranted`: The call meets no defect, and nothing stops it.

## Theorems

* `granted_ne_zero_iff`: When a client is given a category.
* `Sound.dispatch`: What a handler does to the heap, and when it answers.
* `ArbiterRun.sound`: The heap is in order along a run.
* `datagram_answered_iff`: When a datagram is answered.
-/

namespace ArbiterThread

open Exec

variable {K : Type}

/-! ### Categories -/

theorem addLoop_ne_zero_iff (O : Own) (cat : Cat) (is : List (Fin 8)) :
    (addLoop O cat is).2 ≠ 0 ↔ cat ≠ 0 ∧ ∃ i ∈ is, O i = 0 := by
  induction is with
  | nil => simp only [addLoop, ne_eq, not_true_eq_false, List.not_mem_nil, false_and,
      exists_false, and_false]
  | cons i is ih =>
    by_cases hi : O i = 0
    · simp only [addLoop, hi, ne_eq, not_true_eq_false, if_false, List.mem_cons,
        exists_eq_or_imp, true_or, and_true]
    · simp only [addLoop, hi, ne_eq, not_false_eq_true, if_true, List.mem_cons,
        exists_eq_or_imp, false_or]
      exact ih

/-- The generator is a byte, and comes back to 0. -/
theorem createCat_ne_zero_iff (catGen t : Cat) :
    (createCat catGen t).2 ≠ 0 ↔ ¬ (catGen = 0xFF ∧ t = 0) := by
  unfold createCat
  dsimp only
  by_cases hhigh : 0x80 ≤ catGen + 1
  · rw [if_pos hhigh]
    refine iff_of_true (show (0xFF : Cat) ≠ 0 by decide) (fun hzero => ?_)
    rw [hzero.1] at hhigh
    exact absurd hhigh (by decide)
  · have hlow : (catGen + 1).toNat < 2 ^ 7 := UInt8.lt_iff_toNat_lt.mp (UInt8.not_le.mp hhigh)
    have hmask : (catGen + 1) &&& 0x7F = catGen + 1 := by
      rw [← UInt8.toNat_inj, UInt8.toNat_and]
      exact Nat.and_two_pow_sub_one_of_lt_two_pow hlow
    have hwrap : catGen + 1 = 0 ↔ catGen = 0xFF := by grind
    rw [if_neg hhigh, hmask, ne_eq, UInt8.or_eq_zero_iff, hwrap, and_comm]

theorem granted_ne_zero_iff (O : Own) (catGen t : Cat) :
    (granted O catGen t).2 ≠ 0 ↔ (∃ i, O i = 0) ∧ ¬ (catGen = 0xFF ∧ t = 0) := by
  unfold granted addOnwership
  rw [addLoop_ne_zero_iff, createCat_ne_zero_iff, and_comm]
  simp only [List.mem_finRange, true_and]

/-! ### Requests and calls -/

/-- The call of the allocator that a request leads to, unless it is refused. -/
def heapCall (c : ClientDesc) (req : Request) (s : State K) : Opcode → Option Call
  | .malloc =>
      if checkLabel c.label c.ownership (labelAt req.data 16) none ≠ 0 then none
      else some (.malloc c.pid (req.data.load32 12) (labelAt req.data 16))
  | .calloc =>
      if checkLabel c.label c.ownership (labelAt req.data 20) none ≠ 0 then none
      else some (.calloc c.pid (req.data.load32 12) (req.data.load32 16) (labelAt req.data 20))
  | .free =>
      match blockLabelAt c s (req.data.load32 12) with
      | none => none
      | some L =>
        if checkLabel c.label c.ownership L none ≠ 0 then none
        else some (.free c.pid (req.data.load32 12))
  | .realloc =>
      match blockLabelAt c s (req.data.load32 12) with
      | none => none
      | some L =>
        if checkLabel c.label c.ownership L none ≠ 0 then none
        else some (.realloc c.pid (req.data.load32 12) (req.data.load32 16) L)
  | _ => none

/-- The address is in some unit. -/
def InUnit (s : State K) (ptr : Nat) : Prop := ∃ u ∈ s.ustateList, covers (s.units u) ptr

/-- What a handler takes for granted: there is room for a category, which is not 0, an
    address is in some unit, and a process that is registered is there if it is given access to
    a unit. -/
def Acceptable (ops : KernelOps K) (c : ClientDesc) (req : Request) (s : State K) :
    Opcode → Prop
  | .fork =>
      checkLabel c.label c.ownership (forked req).label (some (forked req).ownership) ≠ 0 ∨
        s.ustateList = [] ∨ ops.oops s.kern (forked req).pid = false
  | .createCat => (∃ i, c.ownership i = 0) ∧ ¬ (s.catGen = 0xFF ∧ req.data 12 = 0)
  | .getMemLabel => InUnit s (req.data.load32 12)
  | .free => req.data.load32 12 ≠ 0 → InUnit s (req.data.load32 12)
  | .realloc => req.data.load32 12 ≠ 0 → InUnit s (req.data.load32 12)
  | _ => True

/-- `abt_sendreply`, for what `sendto` returns. -/
def abtSendreply (rc : Int) : HeapM K Unit := check (0 ≤ rc)

/-- One turn of `server_loop` with its end. Whether the reply can be sent is up to the
    address it goes to, which may be gone or have a full queue. -/
def serveDatagram (ops : KernelOps K) (sendto : Mem → Nat → Int) (req : Request) :
    HeapM K (Option Reply) := do
  let rply ← handleClientRpc ops req
  match rply with
  | none => pure none
  | some rply => do
      abtSendreply (sendto req.clientAddr req.clientAddrLen)
      pure (some rply)

/-- The call that a datagram leads to. -/
def Request.call (req : Request) (s : State K) : Option Call :=
  match malformed req, s.clients.find? (cmpClient req), Opcode.decode (req.data.load32 8) with
  | none, some c, some op => heapCall c req s op
  | _, _, _ => none

/-- The address in a reply. -/
def Ret.address : Ret → Nat
  | .word v => v
  | _ => 0

/-- The blocks there are after a request that led to the call, if any, and was answered. -/
def grantsAfter (call : Option Call) (ret : Ret) (live : List Grant) : List Grant :=
  match call with
  | none => live
  | some call => call.grants ret.address live

/-- What a sequence of datagrams that meet `Ok`, and of writes to the blocks, leads to. The
    kernel may do anything between them. -/
inductive ArbiterRun (ops : KernelOps K) (Ok : List Grant → Request → State K → Prop) :
    State K → List Grant → Prop
  | start (kern : K) (clients : List ClientDesc) : ArbiterRun ops Ok (State.start kern clients) []
  | datagram (req : Request) {s s' : State K} {live : List Grant} {rply : Option Reply}
      (run : ArbiterRun ops Ok s live) (ok : Ok live req s)
      (ret : handleClientRpc ops req s = .ok rply s') :
      ArbiterRun ops Ok s' (grantsAfter (req.call s) ((rply.map Reply.ret).getD .unset) live)
  | write (g : Grant) (m : Mem) {s : State K} {live : List Grant} (run : ArbiterRun ops Ok s live)
      (hg : g ∈ live) (hm : ∀ x, x < g.mem ∨ g.mem + g.bytes ≤ x → m x = s.mem x) :
      ArbiterRun ops Ok { s with mem := m } live
  | kernel (k : K) {s : State K} {live : List Grant} (run : ArbiterRun ops Ok s live) :
      ArbiterRun ops Ok { s with kern := k } live

/-- The call is about a block there is, and meets no defect of the allocator. -/
def CallsOk (ops : KernelOps K) (live : List Grant) (req : Request) (s : State K) : Prop :=
  ∀ call ∈ req.call s, call.Honest live ∧ HeapOk ops False call s

/-- Nothing stops the call. -/
def CallsGranted (ops : KernelOps K) (req : Request) (s : State K) : Prop :=
  ∀ call ∈ req.call s, CallGranted ops call s

section

variable {ops : KernelOps K} {c : ClientDesc} {req : Request} {s s' : State K} {op : Opcode}
variable {h : Heap} {live : List Grant} {E : Fault → State K → Prop} {lab : Prop} {ptr : Nat}

theorem unitAt_eq_none_iff : unitAt s ptr = none ↔ ¬ InUnit s ptr := by
  unfold unitAt InUnit
  simp only [List.find?_eq_none, List.mem_reverse, decide_eq_true_eq, not_exists, not_and]

theorem blockLabelAt_eq_none_iff :
    blockLabelAt c s ptr = none ↔ ¬ (ptr ≠ 0 → InUnit s ptr) := by
  unfold blockLabelAt
  split
  · rename_i hptr
    rw [Option.map_eq_none_iff, unitAt_eq_none_iff]
    exact not_congr ⟨fun hin _ => hin, fun hin => hin hptr⟩
  · rename_i hptr
    exact iff_of_false (by simp) (fun hnot => hnot (fun hne => absurd hne hptr))

theorem Reaches.call (hr : Reaches req s c op) : req.call s = heapCall c req s op := by
  unfold Request.call
  rw [hr.1, hr.2.1, hr.2.2]

theorem call_eq_none (hr : ∀ c op, ¬ Reaches req s c op) : req.call s = none := by
  unfold Request.call
  split
  · rename_i c op hm hc ho
    exact absurd ⟨hm, hc, ho⟩ (hr c op)
  · rfl

/-! ### Steps -/

/-- Only the memory, the records and the lists matter. -/
theorem Sound.outer (i : Sound lab s h live)
    (hs : s' = { s with
      locked := s'.locked
      curbrk := s'.curbrk
      kern := s'.kern
      clients := s'.clients
      catGen := s'.catGen }) : Sound lab s' h live :=
  i.carries ((Carries.refl i.arena (fun _ => False)).outer hs) (List.Sublist.refl _)
    (fun _ _ hx => hx)

/-- A call that a handler makes. -/
theorem Sound.answer (i : Sound False s h live) {call : Call} (ret : Nat → Ret)
    (hret : ∀ mem, call.grants (ret mem).address live = call.grants mem live)
    (hok : call.Honest live ∧ HeapOk ops False call s) (hE : Safe (CallGranted ops call s) E) :
    wp (call.run ops)
      (fun mem s' => ∃ h', Sound False s' h' (grantsAfter (some call) (ret mem) live)) E s := by
  refine wp_imp (i.call ops call hok.1 hok.2 hE) (fun mem s' hpost => ?_)
  obtain ⟨-, h', i'⟩ := hpost
  refine ⟨h', ?_⟩
  change Sound False s' h' (call.grants (ret mem).address live)
  rwa [hret]

/-- A handler keeps the heap in order, and answers if its request is acceptable and nothing
    stops its call. -/
theorem Sound.dispatch (i : Sound False s h live)
    (hok : ∀ call ∈ heapCall c req s op, call.Honest live ∧ HeapOk ops False call s)
    (hE : Safe (Acceptable ops c req s op ∧
      ∀ call ∈ heapCall c req s op, CallGranted ops call s) E) :
    wp (dispatch ops c req op)
      (fun rply s' => ∃ h', Sound False s' h' (grantsAfter (heapCall c req s op) rply.ret live))
      E s := by
  -- a refused request changes nothing; one that is served is a call of the heap
  cases op with
  | createCat =>
    change wp (handleCreateCatRpc c req) _ E s
    rw [wp_handleCreateCatRpc]
    split
    · exact ⟨h, i.outer rfl⟩
    · rename_i hzero
      exact hE.resolve_left (fun hacc => hzero ((granted_ne_zero_iff _ _ _).mpr hacc.1)) _ _
  | fork =>
    change wp (handleForkRpc ops c req) _ E s
    rw [wp_handleForkRpc]
    split
    · exact ⟨h, i.outer rfl⟩
    · rename_i hcheck
      rw [wp_mallocUpdate]
      split
      · rename_i hkills
        refine hE.resolve_left (fun hacc => ?_) _ _
        rcases hacc.1 with hrefused | hnone | hthere
        · exact hcheck hrefused
        · exact hkills.2 hnone
        · exact nomatch hkills.1.symm.trans hthere
      · exact ⟨h, i.outer rfl⟩
  | pthreadJoin =>
    change wp (handlePthreadJoinRpc c req) _ E s
    rw [wp_handlePthreadJoinRpc]
    split
    · exact ⟨h, i.outer rfl⟩
    · split <;> exact ⟨h, i.outer rfl⟩
  | malloc =>
    change wp (handleMallocRpc ops c req) _ E s
    rw [wp_handleMallocRpc]
    simp only [heapCall] at hok hE ⊢
    split
    · exact ⟨h, i.outer rfl⟩
    · rename_i hcheck
      rw [if_neg hcheck] at hok hE
      exact i.answer .word (fun _ => rfl) (hok _ rfl) (hE.mono fun hall => hall.2 _ rfl)
  | calloc =>
    change wp (handleCallocRpc ops c req) _ E s
    rw [wp_handleCallocRpc]
    simp only [heapCall] at hok hE ⊢
    split
    · exact ⟨h, i.outer rfl⟩
    · rename_i hcheck
      rw [if_neg hcheck] at hok hE
      exact i.answer .word (fun _ => rfl) (hok _ rfl) (hE.mono fun hall => hall.2 _ rfl)
  | free =>
    change wp (handleFreeRpc ops c req) _ E s
    rw [wp_handleFreeRpc]
    simp only [heapCall] at hok hE ⊢
    cases hlabel : blockLabelAt c s (req.data.load32 12) with
    | none => exact hE.resolve_left (fun hacc => blockLabelAt_eq_none_iff.mp hlabel hacc.1) _ _
    | some L =>
      simp only [hlabel] at hok hE ⊢
      split
      · exact ⟨h, i.outer rfl⟩
      · rename_i hcheck
        rw [if_neg hcheck] at hok hE
        -- FREE answers nothing, so that only the state of the call matters
        have hfree := i.answer (fun _ => .unset) (fun _ => rfl) (hok _ rfl)
          (hE.mono fun hall => hall.2 _ rfl)
        change wp (ablibFree ops c.pid (req.data.load32 12) >>= fun _ => pure 0) _ E s at hfree
        rw [wp_bind] at hfree
        simp only [wp_pure] at hfree
        exact hfree
  | getLabel =>
    change wp (handleGetLabelRpc c) _ E s
    rw [handleGetLabelRpc, wp_pure]
    exact ⟨h, i⟩
  | getOwnership =>
    change wp (handleGetOwnershipRpc c) _ E s
    rw [handleGetOwnershipRpc, wp_pure]
    exact ⟨h, i⟩
  | getMemLabel =>
    change wp (handleGetMemLabelRpc req) _ E s
    rw [wp_handleGetMemLabelRpc]
    cases hunit : unitAt s (req.data.load32 12) with
    | none => exact hE.resolve_left (fun hacc => unitAt_eq_none_iff.mp hunit hacc.1) _ _
    | some u => exact ⟨h, i⟩
  | realloc =>
    change wp (handleReallocRpc ops c req) _ E s
    rw [wp_handleReallocRpc]
    simp only [heapCall] at hok hE ⊢
    cases hlabel : blockLabelAt c s (req.data.load32 12) with
    | none => exact hE.resolve_left (fun hacc => blockLabelAt_eq_none_iff.mp hlabel hacc.1) _ _
    | some L =>
      simp only [hlabel] at hok hE ⊢
      split
      · exact ⟨h, i.outer rfl⟩
      · rename_i hcheck
        rw [if_neg hcheck] at hok hE
        exact i.answer .word (fun _ => rfl) (hok _ rfl) (hE.mono fun hall => hall.2 _ rfl)
  | rpc =>
    change wp (handleRpc) _ E s
    rw [handleRpc, wp_pure]
    exact ⟨h, i⟩

/-- A handler that answers was right to take its request for granted. -/
theorem acceptable_of_dispatch
    (hwp : wp (dispatch ops c req op) (fun _ _ => True) (fun _ _ => False) s) :
    Acceptable ops c req s op := by
  -- each condition is the negation of what stops the handler
  cases op with
  | fork =>
    change wp (handleForkRpc ops c req) _ _ s at hwp
    rw [wp_handleForkRpc] at hwp
    by_cases hcheck : checkLabel c.label c.ownership (forked req).label
        (some (forked req).ownership) ≠ 0
    · exact .inl hcheck
    rw [if_neg hcheck, wp_mallocUpdate] at hwp
    refine .inr (or_iff_not_imp_left.mpr fun hunits => ?_)
    by_contra hgone
    rw [if_pos ⟨Bool.eq_true_of_not_eq_false hgone, hunits⟩] at hwp
    exact hwp
  | createCat =>
    change wp (handleCreateCatRpc c req) _ _ s at hwp
    rw [wp_handleCreateCatRpc] at hwp
    by_cases hzero : (granted c.ownership s.catGen (req.data 12)).2 ≠ 0
    · exact (granted_ne_zero_iff _ _ _).mp hzero
    · rw [if_neg hzero] at hwp
      exact hwp.elim
  | free =>
    change wp (handleFreeRpc ops c req) _ _ s at hwp
    rw [wp_handleFreeRpc] at hwp
    by_contra hout
    rw [blockLabelAt_eq_none_iff.mpr hout] at hwp
    exact hwp
  | getMemLabel =>
    change wp (handleGetMemLabelRpc req) _ _ s at hwp
    rw [wp_handleGetMemLabelRpc] at hwp
    by_contra hout
    rw [unitAt_eq_none_iff.mpr hout] at hwp
    exact hwp
  | realloc =>
    change wp (handleReallocRpc ops c req) _ _ s at hwp
    rw [wp_handleReallocRpc] at hwp
    by_contra hout
    rw [blockLabelAt_eq_none_iff.mpr hout] at hwp
    exact hwp
  | pthreadJoin => trivial
  | malloc => trivial
  | getLabel => trivial
  | getOwnership => trivial
  | calloc => trivial
  | rpc => trivial

/-! ### Runs -/

/-- One datagram. -/
theorem Sound.datagram (i : Sound False s h live) (hok : CallsOk ops live req s) :
    wp (handleClientRpc ops req) (fun rply s' => ∃ h', Sound False s' h'
      (grantsAfter (req.call s) ((rply.map Reply.ret).getD .unset) live)) (fun _ _ => True) s := by
  refine wp_handleClientRpc (fun hr => ?_) (fun c op hr => ?_)
  · rw [call_eq_none hr]
    exact ⟨h, i⟩
  · unfold CallsOk at hok
    rw [hr.call] at hok ⊢
    exact i.dispatch hok (.inr fun _ _ => trivial)

theorem ArbiterRun.sound (hrun : ArbiterRun ops (CallsOk ops) s live) :
    ∃ h, Sound False s h live := by
  induction hrun with
  | start kern clients => exact ⟨_, .start kern clients⟩
  | datagram req run ok ret ih =>
    obtain ⟨h, i⟩ := ih
    exact wp_run (Q := fun rply s' => ∃ h', Sound False s' h'
      (grantsAfter (req.call _) ((rply.map Reply.ret).getD .unset) _)) (i.datagram ok) ret
  | write g m run hg hm ih =>
    obtain ⟨h, i⟩ := ih
    exact (i.write hg hm).2
  | kernel k run ih =>
    obtain ⟨h, i⟩ := ih
    exact ⟨h, i.outer rfl⟩

/-- A datagram that reaches a handler is answered if the handler answers and the reply is
    sent. -/
theorem wp_serveDatagram_iff (sendto : Mem → Nat → Int) (hreach : Reaches req s c op) :
    wp (serveDatagram ops sendto req) (fun rply _ => rply ≠ none) (fun _ _ => False) s ↔
      wp (dispatch ops c req op) (fun _ _ => 0 ≤ sendto req.clientAddr req.clientAddrLen)
        (fun _ _ => False) s := by
  rw [serveDatagram, wp_bind, wp_handleClientRpc_of_dispatch hreach.1 hreach.2.1 hreach.2.2]
  simp only [abtSendreply, wp_bind, wp_check, wp_pure, ne_eq, reduceCtorEq, not_false_eq_true,
    if_false_right, and_true]

end

/-- Client 7 asks for the label of an address. -/
def getMemLabelReq : Request where
  pktSize := 16
  data := fun i =>
    ([0xDE, 0xC0, 0xAB, 0, 16, 0, 0, 0, 7, 0, 0, 0, 0, 0x10, 0, 0] : List UInt8).getD i 0
  clientAddr := fun i => (clientAddrOf 7).getD i 0
  clientAddrLen := (clientAddrOf 7).length

end ArbiterThread
