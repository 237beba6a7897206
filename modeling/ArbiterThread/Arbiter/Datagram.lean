import Mathlib.Data.Fintype.Card
import ArbiterThread.Arbiter.Rpc

/-!
# What a Datagram Depends On

`server_loop` receives every datagram into the same buffer, and the length
tests of `handle_client_rpc` only cover the common header. Each handler reads a
struct of its own size. This file says for which datagrams the bytes left in the
buffer by earlier ones make no difference.

## Main definitions

* `SameDatagram`: Two receive buffers that hold the same datagram.
* `Opcode.size`: The size of the struct a handler reads.
* `Dropped`, `Blind`, `Void`, `Settled`: The datagrams whose effect does not depend on
  the rest of the buffer.

## Theorems

* `dispatch_congr`: A handler depends on the bytes of its own struct.
* `datagram_effect`: The effect of a datagram is a function of the bytes
  received exactly if it is `Settled`.
-/

namespace ArbiterThread

open Exec

variable {K : Type}

/-- Two requests that hold the same datagram from the same sender. The rest of
    the buffers may differ. -/
structure SameDatagram (r r' : Request) : Prop where
  pktSize : r'.pktSize = r.pktSize
  data : ∀ i : Nat, (i : Int) < r.pktSize → r'.data i = r.data i
  clientAddrLen : r'.clientAddrLen = r.clientAddrLen
  clientAddr : ∀ i < r.clientAddrLen, r'.clientAddr i = r.clientAddr i

/-- The size of the struct a handler casts the buffer to, or of the header for
    the handlers that read nothing else. -/
def Opcode.size : Opcode → Nat
  | .createCat => 13
  | .fork => 32
  | .pthreadJoin => 16
  | .malloc => 24
  | .free => 16
  | .getLabel => 12
  | .getOwnership => 12
  | .getMemLabel => 16
  | .calloc => 28
  | .realloc => 20
  | .rpc => 12

/-- The datagram reaches no handler: the header is refused, no client has an
    address as short as the sender's, or the opcode is none. -/
def Dropped (r : Request) : Prop :=
  malformed r ≠ none ∨ r.clientAddrLen < 2 ∨ Opcode.decode (r.data.load32 8) = none

/-- A `realloc` that crashes whatever its size is: no unit can contain the
    address, or the chunk's header would lie across the end of the address
    space and the size, of which a part was received, cannot be out of range. -/
def Blind (r : Request) : Prop :=
  Opcode.decode (r.data.load32 8) = some .realloc ∧ 16 ≤ r.pktSize ∧
    (r.data.load32 12 = 0xFFFFFFFF ∨
      0 < r.data.load32 12 ∧ r.data.load32 12 < 8 ∧
        ∀ r', SameDatagram r r' → ¬ requestOutOfRange (r'.data.load32 16))

/-- A request for memory that gets none, whether it passes the check or not: whatever is in
    the bytes that were not received, the size is 0, or does not fit into a word. -/
def Void (r : Request) : Prop :=
  Opcode.decode (r.data.load32 8) = some .malloc ∧
      (∀ r', SameDatagram r r' → r'.data.load32 12 = 0) ∨
    Opcode.decode (r.data.load32 8) = some .calloc ∧
      ∀ r', SameDatagram r r' → r'.data.load32 12 * r'.data.load32 16 = 0 ∨
        wordSize ≤ r'.data.load32 12 * r'.data.load32 16

/-- The datagrams whose effect does not depend on the rest of the buffer. -/
def Settled (r : Request) : Prop :=
  Dropped r ∨ Blind r ∨ Void r ∨
    ∃ op, Opcode.decode (r.data.load32 8) = some op ∧ (op.size : Int) ≤ r.pktSize

/-! ### Complete datagrams -/

theorem SameDatagram.refl (r : Request) : SameDatagram r r :=
  ⟨rfl, fun _ _ => rfl, rfl, fun _ _ => rfl⟩

theorem SameDatagram.trans {r r' r'' : Request} (h : SameDatagram r r') (h' : SameDatagram r' r'') :
    SameDatagram r r'' := by
  refine ⟨h'.pktSize.trans h.pktSize, fun i hi => ?_, h'.clientAddrLen.trans h.clientAddrLen,
    fun i hi => ?_⟩
  · rw [h'.data i (by rw [h.pktSize]; exact hi), h.data i hi]
  · rw [h'.clientAddr i (by rw [h.clientAddrLen]; exact hi), h.clientAddr i hi]

theorem SameDatagram.load32 {r r' : Request} (h : SameDatagram r r') {a : Nat}
    (ha : ((a + 4 : Nat) : Int) ≤ r.pktSize) : r'.data.load32 a = r.data.load32 a := by
  apply Mem.load32_congr
  intro x hlo hhi
  exact h.data x (by omega)

theorem SameDatagram.labelAt {r r' : Request} (h : SameDatagram r r') {a : Nat}
    (ha : ((a + 8 : Nat) : Int) ≤ r.pktSize) : labelAt r'.data a = labelAt r.data a := by
  funext i
  have hi := i.isLt
  exact h.data (a + i) (by omega)

theorem SameDatagram.malformed {r r' : Request} (h : SameDatagram r r') :
    malformed r' = malformed r := by
  unfold ArbiterThread.malformed
  rw [h.pktSize]
  by_cases hsize : r.pktSize < headerSize
  · by_cases hpos : r.pktSize ≤ 0
    · rw [if_pos hpos, if_pos hpos]
    · rw [if_neg hpos, if_neg hpos, if_pos hsize, if_pos hsize]
  · have h12 : (12 : Int) ≤ r.pktSize := by
      have : ((headerSize : Nat) : Int) = 12 := rfl
      omega
    rw [h.load32 (a := 0) (by omega), h.load32 (a := 4) (by omega)]

/-- The paths are only compared inside the received part of the address. -/
theorem strncmp_congr {p q b : Mem} {n : Nat} (h : ∀ i < n, q i = p i) :
    strncmp n q b = strncmp n p b := by
  induction n generalizing p q b with
  | zero => rfl
  | succ n ih =>
    have h0 : q 0 = p 0 := h 0 (Nat.succ_pos n)
    have htail := ih (p := fun i => p (i + 1)) (q := fun i => q (i + 1))
      (b := fun i => b (i + 1)) fun i hi => h (i + 1) (Nat.succ_lt_succ hi)
    simp only [strncmp, h0, htail]

theorem SameDatagram.cmpClient {r r' : Request} (h : SameDatagram r r') :
    cmpClient r' = cmpClient r := by
  funext c
  unfold ArbiterThread.cmpClient
  rw [h.clientAddrLen]
  by_cases hlen : r.clientAddrLen = c.unixAddr.length
  · by_cases htwo : 2 ≤ r.clientAddrLen
    · have hpath := strncmp_congr (p := fun i => r.clientAddr (i + 2))
        (q := fun i => r'.clientAddr (i + 2)) (b := fun i => c.unixAddr.getD (i + 2) 0)
        (n := c.unixAddr.length - 2) (fun i hi => h.clientAddr (i + 2) (by omega))
      rw [h.clientAddr 0 (by omega), h.clientAddr 1 (by omega), hpath]
    · -- the family does not fit into the address of any client
      have hshort : ∀ x y : UInt8, [x, y] ≠ c.unixAddr.take 2 := by
        intro x y heq
        have := congrArg List.length heq
        rw [List.length_take] at this
        simp only [List.length_cons, List.length_nil] at this
        omega
      simp only [hshort, false_and, and_false]
  · simp only [hlen, false_and]

/-- A handler depends on the bytes of its own struct. -/
theorem dispatch_congr {r r' : Request} (h : SameDatagram r r') (ops : KernelOps K)
    (c : ClientDesc) {op : Opcode} (hsize : (op.size : Int) ≤ r.pktSize) :
    dispatch ops c r' op = dispatch ops c r op := by
  -- every field a handler reads ends inside the struct
  have hword : ∀ a, a + 4 ≤ op.size → r'.data.load32 a = r.data.load32 a := by
    intro a ha
    exact h.load32 (by omega)
  have hlabel : ∀ a, a + 8 ≤ op.size → labelAt r'.data a = labelAt r.data a := by
    intro a ha
    exact h.labelAt (by omega)
  cases op with
  | createCat =>
    have htype : r'.data 12 = r.data 12 := h.data 12 (by simp only [Opcode.size] at hsize; omega)
    change handleCreateCatRpc c r' = handleCreateCatRpc c r
    unfold handleCreateCatRpc
    rw [htype, h.cmpClient]
  | fork =>
    have hforked : forked r' = forked r := by
      simp only [forked, hword 28 (by decide), hlabel 12 (by decide), hlabel 20 (by decide)]
    change handleForkRpc ops c r' = handleForkRpc ops c r
    unfold handleForkRpc
    rw [hforked]
  | pthreadJoin => simp only [dispatch, handlePthreadJoinRpc, hword 12 (by decide)]
  | malloc =>
    simp only [dispatch, handleMallocRpc, hword 12 (by decide), hlabel 16 (by decide)]
  | free => simp only [dispatch, handleFreeRpc, hword 12 (by decide)]
  | getLabel => rfl
  | getOwnership => rfl
  | getMemLabel => simp only [dispatch, handleGetMemLabelRpc, hword 12 (by decide)]
  | calloc =>
    simp only [dispatch, handleCallocRpc, hword 12 (by decide), hword 16 (by decide),
      hlabel 20 (by decide)]
  | realloc =>
    simp only [dispatch, handleReallocRpc, hword 12 (by decide), hword 16 (by decide)]
  | rpc => rfl

/-! ### Blind reallocations -/

theorem throw_bind (e : Fault) {α β : Type} (f : α → HeapM K β) :
    ((throw e : HeapM K α) >>= f) = throw e := rfl

theorem load_eq_throw {a : Nat} (h : ∀ s : State K, ¬ mapped s a) :
    (load a : HeapM K Nat) = throw .segv := by
  funext s
  have : (load a : HeapM K Nat) s =
      (if mapped s a then pure (s.mem.load32 a) else throw .segv : HeapM K Nat) s := rfl
  rw [this, if_neg (h s)]

theorem lookupUstateByMem_eq_throw {ptr : Nat} (h : ∀ s : State K, unitAt s ptr = none) :
    (lookupUstateByMem ptr : HeapM K Nat) = throw .segv := by
  simp only [lookupUstateByMem, h]
  rfl

/-- A unit containing the last address would have to end behind it. -/
theorem unitAt_last (s : State K) : unitAt s 0xFFFFFFFF = none := by
  rw [unitAt, List.find?_eq_none]
  intro u _ hu
  have hcov := (of_decide_eq_true hu).2
  have hlt : ((s.units u).addr + (s.units u).length) % wordSize < wordSize :=
    Nat.mod_lt _ (by decide)
  unfold wordSize at hcov hlt
  omega

/-- For these addresses the chunk's head lies across the end of the address
    space. -/
theorem headOf_low {ptr : Nat} (hpos : 0 < ptr) (hlow : ptr < 8) :
    (headOf (mem2chunk ptr) : HeapM K Nat) = throw .segv := by
  apply load_eq_throw
  intro s hmapped
  have hbound := hmapped.1
  unfold mem2chunk wordSize at hbound
  omega

/-- What is left of a `realloc` whose block has no readable head. -/
theorem ablibRealloc_low (ops : KernelOps K) (pid : Nat) {ptr bytes : Nat} (L : Label)
    (hpos : 0 < ptr) (hlow : ptr < 8) (hrange : ¬ requestOutOfRange bytes) :
    ablibRealloc ops pid ptr bytes L = (do
      mallocLock
      let u ← lookupUstateByMem ptr
      let _ ← getUnit u
      throw .segv) := by
  have hhead : (headOf (mem2chunk ptr) : HeapM K Nat) = throw .segv := headOf_low hpos hlow
  have hne : ptr ≠ 0 := by omega
  unfold ablibRealloc
  rw [if_neg hne]
  by_cases hzero : bytes = 0
  · rw [if_pos hzero]
    unfold ablibFree
    rw [if_neg hne]
    simp only [hhead, throw_bind, bind_assoc]
  · rw [if_neg hzero]
    simp only [if_neg hrange, hhead, throw_bind]

theorem blind_congr {r r' : Request} (h : SameDatagram r r') (ops : KernelOps K)
    (c : ClientDesc) (hblind : Blind r) :
    dispatch ops c r' .realloc = dispatch ops c r .realloc := by
  obtain ⟨-, hsize, hptr⟩ := hblind
  have haddr : r'.data.load32 12 = r.data.load32 12 := h.load32 (by omega)
  rcases hptr with hlast | ⟨hpos, hlow, hrange⟩
  · have hlabel : (blockLabel c 0xFFFFFFFF : HeapM K Label) = throw .segv := by
      unfold blockLabel lookupLabelByMem
      rw [if_pos (by decide), lookupUstateByMem_eq_throw unitAt_last, throw_bind]
    simp only [dispatch, handleReallocRpc, haddr, hlast, hlabel, throw_bind]
  · simp only [dispatch, handleReallocRpc, haddr,
      ablibRealloc_low ops c.pid _ hpos hlow (hrange r (.refl r)),
      ablibRealloc_low ops c.pid _ hpos hlow (hrange r' h)]

/-! ### Requests for nothing -/

theorem ablibMalloc_zero (ops : KernelOps K) (pid : Nat) (L : Label) :
    ablibMalloc ops pid 0 L = pure 0 := rfl

/-- The check does not matter if nothing is requested. -/
theorem dispatch_malloc_void (ops : KernelOps K) (c : ClientDesc) {r : Request}
    (hzero : r.data.load32 12 = 0) : dispatch ops c r .malloc = pure (reply (.word 0)) := by
  change handleMallocRpc ops c r = _
  unfold handleMallocRpc
  rw [hzero]
  dsimp only
  split
  · rfl
  · rw [ablibMalloc_zero, pure_bind]

theorem dispatch_calloc_void (ops : KernelOps K) (c : ClientDesc) {r : Request}
    (hvoid : r.data.load32 12 * r.data.load32 16 = 0 ∨
      wordSize ≤ r.data.load32 12 * r.data.load32 16) :
    dispatch ops c r .calloc = pure (reply (.word 0)) := by
  change handleCallocRpc ops c r = _
  unfold handleCallocRpc ablibCalloc
  dsimp only
  split
  · rfl
  · rcases hvoid with hzero | hwraps
    · -- a product of 0 passes the test for overflow
      have hfits := mt (calloc_overflow_iff (r.data.load32 12) (r.data.load32 16)).mp
        (by rw [hzero]; decide)
      rw [if_neg hfits, hzero, Nat.zero_mod, ablibMalloc_zero]
      rfl
    · rw [if_pos ((calloc_overflow_iff _ _).mpr hwraps), pure_bind]

theorem void_congr {r r' : Request} (h : SameDatagram r r') (ops : KernelOps K) (c : ClientDesc)
    {op : Opcode} (ho : Opcode.decode (r.data.load32 8) = some op) (hvoid : Void r) :
    dispatch ops c r' op = dispatch ops c r op := by
  rcases hvoid with ⟨ho', hzero⟩ | ⟨ho', hnone⟩
  · cases ho.symm.trans ho'
    rw [dispatch_malloc_void ops c (hzero r' h), dispatch_malloc_void ops c (hzero r (.refl r))]
  · cases ho.symm.trans ho'
    rw [dispatch_calloc_void ops c (hnone r' h), dispatch_calloc_void ops c (hnone r (.refl r))]

/-! ### The rest of the buffer does not matter -/

theorem header_received {r : Request} (hm : malformed r = none) : 12 ≤ r.pktSize := by
  by_contra hlt
  have hshort : r.pktSize < headerSize := by
    have : ((headerSize : Nat) : Int) = 12 := rfl
    omega
  unfold malformed at hm
  rw [if_pos hshort] at hm
  split at hm <;> cases hm

theorem handleClientRpc_congr {r r' : Request} (h : SameDatagram r r') (ops : KernelOps K)
    (hr : Settled r) (s : State K) : handleClientRpc ops r' s = handleClientRpc ops r s := by
  rw [handleClientRpc_apply, handleClientRpc_apply, h.malformed, h.cmpClient]
  cases hm : malformed r with
  | some why => rfl
  | none =>
    have hop : r'.data.load32 8 = r.data.load32 8 := by
      have := header_received hm
      exact h.load32 (by omega)
    rw [hop]
    cases hc : s.clients.find? (cmpClient r) with
    | none => simp only [answer, hop]
    | some c =>
      cases ho : Opcode.decode (r.data.load32 8) with
      | none => rfl
      | some op =>
        have hdispatch : dispatch ops c r' op = dispatch ops c r op := by
          rcases hr with hdrop | hblind | hvoid | ⟨op', ho', hsize⟩
          · rcases hdrop with hm' | hlen | ho'
            · exact absurd hm hm'
            · -- a client with so short an address would have been found
              have hfound := List.find?_some hc
              simp only [cmpClient, decide_eq_true_eq] at hfound
              have := congrArg List.length hfound.2.1
              rw [List.length_take] at this
              simp only [List.length_cons, List.length_nil] at this
              omega
            · rw [ho] at ho'
              cases ho'
          · have hrealloc := hblind.1
            rw [ho] at hrealloc
            cases hrealloc
            exact blind_congr h ops c hblind
          · exact void_congr h ops c ho hvoid
          · rw [ho] at ho'
            cases ho'
            exact dispatch_congr h ops c hsize
        simp only [answer, hdispatch]

/-! ### Datagrams that are cut short -/

/-- The buffer with another byte at `i`. -/
def Request.withByte (r : Request) (i : Nat) (b : UInt8) : Request :=
  { r with data := r.data.store8 i b }

theorem sameDatagram_withByte (r : Request) {i : Nat} (b : UInt8) (h : r.pktSize ≤ i) :
    SameDatagram r (r.withByte i b) := by
  refine ⟨rfl, ?_, rfl, fun _ _ => rfl⟩
  intro j hj
  simp only [Request.withByte, Mem.store8]
  rw [if_neg (by omega)]

theorem load32_withByte_high (r : Request) (a : Nat) (b : UInt8) :
    (r.withByte (a + 3) b).data.load32 a = r.data.load32 a % 16777216 + 16777216 * b.toNat :=
  Mem.load32_store8_high r.data a b

theorem load32_withByte (r : Request) {a i : Nat} (b : UInt8) (h : i < a ∨ a + 4 ≤ i) :
    (r.withByte i b).data.load32 a = r.data.load32 a :=
  Mem.load32_store8_of_disjoint r.data i a b h

theorem labelAt_withByte (r : Request) {a i : Nat} (b : UInt8) (h : i < a ∨ a + 8 ≤ i) :
    labelAt (r.withByte i b).data a = labelAt r.data a := by
  funext j
  have := j.isLt
  simp only [labelAt, Request.withByte, Mem.store8]
  rw [if_neg (by omega)]

/-- The first bytes of a buffer. -/
def bytesFrom (p : Mem) : Nat → List UInt8
  | 0 => []
  | n + 1 => p 0 :: bytesFrom (fun i => p (i + 1)) n

theorem length_bytesFrom (p : Mem) (n : Nat) : (bytesFrom p n).length = n := by
  induction n generalizing p with
  | zero => rfl
  | succ n ih => exact congrArg (· + 1) (ih _)

theorem strncmp_bytesFrom (p : Mem) (n : Nat) :
    strncmp n p (fun i => (bytesFrom p n).getD i 0) = true := by
  induction n generalizing p with
  | zero => rfl
  | succ n ih =>
    have htail : strncmp n (fun i => p (i + 1))
        (fun i => (bytesFrom p (n + 1)).getD (i + 1) 0) = true := ih _
    have h0 : (bytesFrom p (n + 1)).getD 0 0 = p 0 := rfl
    simp only [strncmp, h0, htail, ne_eq, not_true_eq_false, if_false, ite_self]

/-- A client with the address a request came from. -/
def sender (r : Request) (pid : Nat) (L : Label) (O : Own) : ClientDesc :=
  ⟨bytesFrom r.clientAddr r.clientAddrLen, pid, L, O⟩

theorem cmpClient_sender {r : Request} (h : 2 ≤ r.clientAddrLen) (pid : Nat) (L : Label)
    (O : Own) : cmpClient r (sender r pid L O) = true := by
  obtain ⟨n, hn⟩ := Nat.exists_eq_add_of_le' h
  unfold cmpClient
  rw [decide_eq_true_eq]
  refine ⟨(length_bytesFrom _ _).symm, ?_⟩
  unfold sender
  rw [hn]
  rw [length_bytesFrom]
  exact ⟨rfl, strncmp_bytesFrom (fun i => r.clientAddr (i + 2)) n⟩

/-- Some state and two contents of the buffer give the datagram two effects. -/
def Observable (ops : KernelOps K) (r : Request) : Prop :=
  ∃ s r₁ r₂, SameDatagram r r₁ ∧ SameDatagram r r₂ ∧
    handleClientRpc ops r₁ s ≠ handleClientRpc ops r₂ s

section

variable {ops : KernelOps K} {r r₁ r₂ : Request}

/-- It is enough that two runs of the handler differ in some respect. -/
theorem observable_of_dispatch {op : Opcode} {pid : Nat} {L : Label} {O : Own}
    {Q : Reply → State K → Prop} {E : Fault → State K → Prop} {s : State K}
    (hm : malformed r = none) (hlen : 2 ≤ r.clientAddrLen)
    (ho : Opcode.decode (r.data.load32 8) = some op)
    (h₁ : SameDatagram r r₁) (h₂ : SameDatagram r r₂)
    (hs : s.clients = [sender r pid L O])
    (w₁ : wp (dispatch ops (sender r pid L O) r₁ op) Q E s)
    (w₂ : wp (dispatch ops (sender r pid L O) r₂ op) (fun a s' => ¬ Q a s')
      (fun e s' => ¬ E e s') s) : Observable ops r := by
  refine ⟨s, r₁, r₂, h₁, h₂, ?_⟩
  have hfind : s.clients.find? (cmpClient r) = some (sender r pid L O) := by
    rw [hs, List.find?_cons_of_pos (cmpClient_sender hlen pid L O)]
  have hhead : ∀ r', SameDatagram r r' → malformed r' = none ∧
      s.clients.find? (cmpClient r') = some (sender r pid L O) ∧
      Opcode.decode (r'.data.load32 8) = some op := by
    intro r' h
    have := header_received hm
    rw [h.malformed, h.cmpClient, h.load32 (a := 8) (by omega)]
    exact ⟨hm, hfind, ho⟩
  obtain ⟨hm₁, hc₁, ho₁⟩ := hhead r₁ h₁
  obtain ⟨hm₂, hc₂, ho₂⟩ := hhead r₂ h₂
  apply wp_ne (Q := fun a s' => ∀ rply ∈ a, Q rply s') (E := E)
  · rw [wp_handleClientRpc_of_dispatch hm₁ hc₁ ho₁]
    refine wp_mono w₁ (fun a s' ha => ?_) (fun e s' he => he)
    intro rply hrply
    rw [Option.mem_some_iff] at hrply
    exact hrply ▸ ha
  · rw [wp_handleClientRpc_of_dispatch hm₂ hc₂ ho₂]
    exact wp_mono w₂ (fun a s' ha hall => ha (hall a rfl)) (fun e s' he => he)

/-! Each opcode gets a state in which the last byte of its struct matters. -/

theorem observable_createCat [Inhabited K] (hm : malformed r = none)
    (hlen : 2 ≤ r.clientAddrLen) (ho : Opcode.decode (r.data.load32 8) = some .createCat)
    (hshort : r.pktSize < 13) : Observable ops r := by
  -- the first category of type 0 is 1, of type 2 it is 3
  let c := sender r 0 (fun _ => 0) (fun _ => 0)
  refine observable_of_dispatch (Q := fun a _ => a = reply (.byte 1)) (E := fun _ _ => False)
    (s := State.start default [c]) hm hlen ho
    (sameDatagram_withByte r 0 (by omega : r.pktSize ≤ (12 : Nat)))
    (sameDatagram_withByte r 2 (by omega : r.pktSize ≤ (12 : Nat))) rfl ?_ ?_
  · have hcat : (granted (fun _ => 0) 0 0).2 = 1 := by decide
    simp only [dispatch, wp_handleCreateCatRpc, Request.withByte, Mem.store8, if_true, sender,
      State.start, hcat]
    rw [if_pos (by decide)]
    trivial
  · have hcat : (granted (fun _ => 0) 0 2).2 = 3 := by decide
    simp only [dispatch, wp_handleCreateCatRpc, Request.withByte, Mem.store8, if_true, sender,
      State.start, hcat]
    rw [if_pos (by decide)]
    decide

theorem observable_fork [Inhabited K] (hm : malformed r = none)
    (hlen : 2 ≤ r.clientAddrLen) (ho : Opcode.decode (r.data.load32 8) = some .fork)
    (hshort : r.pktSize < 32) : Observable ops r := by
  -- a fork that is accepted registers the process id it carries
  let L := labelAt r.data 12
  let O := labelAt r.data 20
  have hforked : ∀ b, forked (r.withByte 31 b) =
      let pid := r.data.load32 28 % 16777216 + 16777216 * b.toNat
      ⟨clientAddrOf pid, pid, L, O⟩ := by
    intro b
    simp only [forked, labelAt_withByte r b (by omega : 31 < 12 ∨ 12 + 8 ≤ 31),
      labelAt_withByte r b (by omega : 31 < 20 ∨ 20 + 8 ≤ 31), load32_withByte_high r 28, L, O]
  have hcheck : checkLabel L O L (some O) = 0 := checkLabel_self L O _ (.inr rfl)
  have hrun : ∀ b (Q : List Nat → Prop) E, Q [0, r.data.load32 28 % 16777216 + 16777216 * b.toNat] →
      wp (dispatch ops (sender r 0 L O) (r.withByte 31 b) .fork)
        (fun _ s' => Q (s'.clients.map ClientDesc.pid)) E
        (State.start default [sender r 0 L O]) := by
    intro b Q E hQ
    change wp (handleForkRpc ops _ _) _ _ _
    rw [wp_handleForkRpc, hforked b]
    change if checkLabel L O L (some O) ≠ 0 then _ else _
    rw [if_neg (not_not.mpr hcheck)]
    simp only [mallocUpdate, wp_bind, wp_get, State.start, mallocUpdateLoop, wp_pure]
    exact hQ
  refine observable_of_dispatch hm hlen ho
    (sameDatagram_withByte r 0 (by omega : r.pktSize ≤ (31 : Nat)))
    (sameDatagram_withByte r 1 (by omega : r.pktSize ≤ (31 : Nat))) rfl
    (hrun 0 (fun ps => ps = [0, r.data.load32 28 % 16777216]) (fun _ _ => False) rfl)
    (hrun 1 (fun ps => ¬ ps = [0, r.data.load32 28 % 16777216]) (fun _ _ => ¬ False) ?_)
  intro heq
  have hpid : r.data.load32 28 % 16777216 + 16777216 * 1 = r.data.load32 28 % 16777216 := by
    injection heq with _ h
    injection h
  omega

theorem observable_pthreadJoin [Inhabited K] (hm : malformed r = none)
    (hlen : 2 ≤ r.clientAddrLen) (ho : Opcode.decode (r.data.load32 8) = some .pthreadJoin)
    (hshort : r.pktSize < 16) : Observable ops r := by
  -- the client joins itself, or nobody
  let pid := r.data.load32 12 % 16777216
  let Z : Label := fun _ => 0
  refine observable_of_dispatch (Q := fun a _ => a = reply (.word 0)) (E := fun _ _ => False)
    (s := State.start default [sender r pid Z Z]) hm hlen ho
    (sameDatagram_withByte r 0 (by omega : r.pktSize ≤ (15 : Nat)))
    (sameDatagram_withByte r 1 (by omega : r.pktSize ≤ (15 : Nat))) rfl ?_ ?_
  · have hfind : [sender r pid Z Z].find? (cmpClientPid pid) = some (sender r pid Z Z) := by
      rw [List.find?_cons_of_pos]
      exact decide_eq_true rfl
    change wp (handlePthreadJoinRpc _ _) _ _ _
    rw [wp_handlePthreadJoinRpc, load32_withByte_high r 12]
    simp only [State.start]
    rw [show r.data.load32 12 % 16777216 + 16777216 * (0 : UInt8).toNat = pid from rfl, hfind]
    change if checkLabel Z Z Z (some Z) ≠ 0 then _ else _
    rw [if_neg (by decide)]
    trivial
  · have hfind : [sender r pid Z Z].find? (cmpClientPid (pid + 16777216)) = none := by
      rw [List.find?_eq_none]
      intro c hc
      rw [List.mem_singleton] at hc
      simp only [hc, sender, cmpClientPid, decide_eq_true_eq]
      omega
    change wp (handlePthreadJoinRpc _ _) _ _ _
    rw [wp_handlePthreadJoinRpc, load32_withByte_high r 12]
    simp only [State.start]
    rw [show r.data.load32 12 % 16777216 + 16777216 * (1 : UInt8).toNat = pid + 16777216 from rfl,
      hfind]
    exact (by decide : ¬ reply failed = reply (.word 0))

/-- Eight slots do not hold all integrity categories. -/
theorem exists_fresh_integrity (L : Label) :
    ∃ b : Cat, getCatType b ≠ catS ∧ b ≠ 0 ∧ ¬ Has L b := by
  let nine : Finset Cat := {0x80, 0x81, 0x82, 0x83, 0x84, 0x85, 0x86, 0x87, 0x88}
  have hcard : (Finset.univ.image L).card < nine.card :=
    calc (Finset.univ.image L).card
      _ ≤ (Finset.univ : Finset (Fin 8)).card := Finset.card_image_le
      _ < nine.card := by decide
  obtain ⟨b, hb, hfresh⟩ := Finset.exists_mem_notMem_of_card_lt_card hcard
  have hall : ∀ b ∈ nine, getCatType b ≠ catS ∧ b ≠ 0 := by
    intro b hb
    simp only [nine, Finset.mem_insert, Finset.mem_singleton] at hb
    rcases hb with rfl | rfl | rfl | rfl | rfl | rfl | rfl | rfl | rfl <;> decide
  refine ⟨b, (hall b hb).1, (hall b hb).2, ?_⟩
  rintro ⟨j, hj⟩
  exact hfresh (Finset.mem_image.mpr ⟨j, Finset.mem_univ j, hj⟩)

/-- While the lock is held an allocation does not return. -/
theorem ablibMalloc_locked (ops : KernelOps K) (pid : Nat) {bytes : Nat} (L : Label) {s : State K}
    (h : s.locked = true) (hbytes : bytes ≠ 0) :
    wp (ablibMalloc ops pid bytes L) (fun _ _ => False) (fun _ _ => True) s := by
  simp only [ablibMalloc, ablibMallocAux, ablibMallocStep, lookupMstateByLabel, wp_bind, wp_get,
    wp_pure, wp_ite, mallocEnter, wp_mallocLock, h, if_true, if_neg hbytes]

theorem ablibCalloc_locked (ops : KernelOps K) (pid : Nat) {n size : Nat} (L : Label) {s : State K}
    (h : s.locked = true) (hpos : n * size ≠ 0) (hfits : n * size < wordSize) :
    wp (ablibCalloc ops pid n size L) (fun _ _ => False) (fun _ _ => True) s := by
  unfold ablibCalloc
  rw [if_neg (mt (calloc_overflow_iff n size).mp (by omega)), wp_bind]
  refine wp_imp (ablibMalloc_locked ops pid L h ?_) (fun _ _ hno => hno.elim)
  rwa [Nat.mod_eq_of_lt hfits]

/-- The two handlers that take a label: the last byte of the label is enough to
    have the request accepted or refused. While the lock is held, only the refusal is
    answered. -/
theorem observable_label [Inhabited K] {r' : Request} {op : Opcode} {n : Nat}
    (hm : malformed r = none) (hlen : 2 ≤ r.clientAddrLen)
    (ho : Opcode.decode (r.data.load32 8) = some op) (hsame : SameDatagram r r')
    (hshort : r.pktSize ≤ (n + 7 : Nat))
    (hpass : ∀ (c : ClientDesc) (b : UInt8) (s : State K), s.locked = true →
      checkLabel c.label c.ownership (labelAt (r'.withByte (n + 7) b).data n) none = 0 →
      wp (dispatch ops c (r'.withByte (n + 7) b) op) (fun _ _ => False) (fun _ _ => True) s)
    (hstop : ∀ (c : ClientDesc) (b : UInt8) (s : State K),
      checkLabel c.label c.ownership (labelAt (r'.withByte (n + 7) b).data n) none ≠ 0 →
      wp (dispatch ops c (r'.withByte (n + 7) b) op) (fun _ _ => True) (fun _ _ => False) s) :
    Observable ops r := by
  let Z : Label := fun _ => 0
  let L : Label := labelAt (r'.withByte (n + 7) 0).data n
  obtain ⟨b, htype, hne, hfresh⟩ := exists_fresh_integrity L
  let c := sender r 0 L Z
  let s : State K := { State.start default [c] with locked := true }
  have hrefuse : checkLabel L Z (labelAt (r'.withByte (n + 7) b).data n) none ≠ 0 := by
    rw [ne_eq, checkLabel_eq_zero_iff]
    rintro ⟨-, hflow, -⟩
    have hhas : Has (labelAt (r'.withByte (n + 7) b).data n) b := by
      refine ⟨7, ?_⟩
      simp only [labelAt, Request.withByte, Mem.store8]
      exact if_pos rfl
    rcases hflow b hhas hne htype with ⟨j, hj⟩ | hL
    · exact hne hj.symm
    · exact hfresh hL
  have hbyte : ∀ b, SameDatagram r (r'.withByte (n + 7) b) := fun b =>
    hsame.trans (sameDatagram_withByte r' b (by rw [hsame.pktSize]; exact hshort))
  refine observable_of_dispatch (Q := fun _ _ => True) (E := fun _ _ => False) hm hlen ho
    (hbyte b) (hbyte 0) (rfl : s.clients = [sender r 0 L Z]) (hstop c b s hrefuse) ?_
  exact wp_mono (hpass c 0 s rfl (checkLabel_self L Z none (.inl rfl))) (fun _ _ hno => hno.elim)
    (fun _ _ _ hno => hno)

theorem observable_malloc [Inhabited K] (hm : malformed r = none)
    (hlen : 2 ≤ r.clientAddrLen) (ho : Opcode.decode (r.data.load32 8) = some .malloc)
    (hshort : r.pktSize < 24) {r' : Request} (hsame : SameDatagram r r')
    (hbytes : r'.data.load32 12 ≠ 0) : Observable ops r := by
  apply observable_label (n := 16) hm hlen ho hsame (by omega)
  · intro c b s hlocked hcheck
    change wp (handleMallocRpc ops c _) _ _ s
    rw [wp_handleMallocRpc, if_neg (not_not.mpr hcheck), load32_withByte r' b (by omega)]
    exact ablibMalloc_locked ops _ _ hlocked hbytes
  · intro c b s hcheck
    change wp (handleMallocRpc ops c _) _ _ s
    rw [wp_handleMallocRpc, if_pos hcheck]
    trivial

theorem observable_calloc [Inhabited K] (hm : malformed r = none)
    (hlen : 2 ≤ r.clientAddrLen) (ho : Opcode.decode (r.data.load32 8) = some .calloc)
    (hshort : r.pktSize < 28) {r' : Request} (hsame : SameDatagram r r')
    (hpos : r'.data.load32 12 * r'.data.load32 16 ≠ 0)
    (hfits : r'.data.load32 12 * r'.data.load32 16 < wordSize) : Observable ops r := by
  apply observable_label (n := 20) hm hlen ho hsame (by omega)
  · intro c b s hlocked hcheck
    change wp (handleCallocRpc ops c _) _ _ s
    rw [wp_handleCallocRpc, if_neg (not_not.mpr hcheck), load32_withByte r' b (by omega),
      load32_withByte r' b (by omega)]
    exact ablibCalloc_locked ops _ _ hlocked hpos hfits
  · intro c b s hcheck
    change wp (handleCallocRpc ops c _) _ _ s
    rw [wp_handleCallocRpc, if_pos hcheck]
    trivial

theorem unitAt_singleton {s : State K} {u : Nat} (h : s.ustateList = [u]) (ptr : Nat) :
    unitAt s ptr = if covers (s.units u) ptr then some u else none := by
  unfold unitAt
  rw [h, List.reverse_singleton, List.find?_singleton]
  simp only [decide_eq_true_eq]

/-- The three handlers that take an address: with another high byte it may lie
    in no unit, and the lookup runs off the list. -/
theorem observable_address [Inhabited K] {op : Opcode} (hm : malformed r = none)
    (hlen : 2 ≤ r.clientAddrLen) (ho : Opcode.decode (r.data.load32 8) = some op)
    (hshort : r.pktSize < 16)
    (hfound : ∀ (c : ClientDesc) (r' : Request) (s : State K) (u : Nat),
      r'.data.load32 12 ≠ 0 → unitAt s (r'.data.load32 12) = some u →
      checkLabel c.label c.ownership (s.mstates (s.units u).unitAv).label none ≠ 0 →
      wp (dispatch ops c r' op) (fun _ _ => True) (fun _ _ => False) s)
    (hlost : ∀ (c : ClientDesc) (r' : Request) (s : State K),
      r'.data.load32 12 ≠ 0 → unitAt s (r'.data.load32 12) = none →
      wp (dispatch ops c r' op) (fun _ _ => False) (fun _ _ => True) s) :
    Observable ops r := by
  -- the address is completed by a byte that is not in the datagram
  let Z : Own := fun _ => 0
  let L : Label := fun _ => 1
  let low := r.data.load32 12 % 16777216
  have hlow : low < 16777216 := Nat.mod_lt _ (by decide)
  let s : State K :=
    { State.start default [sender r 0 L Z] with
      ustateList := [0]
      units := fun _ => { unitTop := 0, addr := low + 16777216, length := 1, unitAv := 0 } }
  have hptr₁ : (r.withByte 15 1).data.load32 12 = low + 16777216 := load32_withByte_high r 12 1
  have hptr₂ : (r.withByte 15 2).data.load32 12 = low + 33554432 := load32_withByte_high r 12 2
  have hat₁ : unitAt s (low + 16777216) = some 0 := by
    have hcov : covers (s.units 0) (low + 16777216) := by
      refine ⟨le_refl _, ?_⟩
      change low + 16777216 < (low + 16777216 + 1) % wordSize
      unfold wordSize
      omega
    rw [unitAt_singleton (u := 0) rfl, if_pos hcov]
  have hat₂ : unitAt s (low + 33554432) = none := by
    have hcov : ¬ covers (s.units 0) (low + 33554432) := by
      intro hcov
      have : low + 33554432 < (low + 16777216 + 1) % wordSize := hcov.2
      unfold wordSize at this
      omega
    rw [unitAt_singleton (u := 0) rfl, if_neg hcov]
  refine observable_of_dispatch (Q := fun _ _ => True) (E := fun _ _ => False) hm hlen ho
    (sameDatagram_withByte r 1 (by omega : r.pktSize ≤ (15 : Nat)))
    (sameDatagram_withByte r 2 (by omega : r.pktSize ≤ (15 : Nat)))
    (rfl : s.clients = [sender r 0 L Z]) ?_ ?_
  · refine hfound _ _ s 0 (by omega) (by rw [hptr₁, hat₁]) ?_
    exact (by decide : checkLabel (fun _ => 1) (fun _ => 0) (fun _ => 0) none ≠ 0)
  · refine wp_mono (hlost (sender r 0 L Z) _ s (by omega) (by rw [hptr₂, hat₂])) ?_ ?_
    · exact fun _ _ h => h.elim
    · exact fun _ _ _ h => h

theorem observable_getMemLabel [Inhabited K] (hm : malformed r = none)
    (hlen : 2 ≤ r.clientAddrLen) (ho : Opcode.decode (r.data.load32 8) = some .getMemLabel)
    (hshort : r.pktSize < 16) : Observable ops r := by
  apply observable_address hm hlen ho hshort
  · intro c r' s u _ hat _
    change wp (handleGetMemLabelRpc r') _ _ s
    rw [wp_handleGetMemLabelRpc, hat]
    trivial
  · intro c r' s _ hat
    change wp (handleGetMemLabelRpc r') _ _ s
    rw [wp_handleGetMemLabelRpc, hat]
    trivial

theorem blockLabelAt_of_ne_zero (c : ClientDesc) (s : State K) {ptr : Nat} (h : ptr ≠ 0) :
    blockLabelAt c s ptr = (unitAt s ptr).map fun u => (s.mstates (s.units u).unitAv).label :=
  if_pos h

theorem observable_free [Inhabited K] (hm : malformed r = none)
    (hlen : 2 ≤ r.clientAddrLen) (ho : Opcode.decode (r.data.load32 8) = some .free)
    (hshort : r.pktSize < 16) : Observable ops r := by
  apply observable_address hm hlen ho hshort
  · intro c r' s u hne hat hcheck
    change wp (handleFreeRpc ops c r') _ _ s
    rw [wp_handleFreeRpc, blockLabelAt_of_ne_zero c s hne, hat]
    simp only [Option.map_some]
    rw [if_pos hcheck]
    trivial
  · intro c r' s hne hat
    change wp (handleFreeRpc ops c r') _ _ s
    rw [wp_handleFreeRpc, blockLabelAt_of_ne_zero c s hne, hat]
    trivial

/-- A `realloc` whose address was not received completely. -/
theorem observable_realloc_address [Inhabited K] (hm : malformed r = none)
    (hlen : 2 ≤ r.clientAddrLen) (ho : Opcode.decode (r.data.load32 8) = some .realloc)
    (hshort : r.pktSize < 16) : Observable ops r := by
  apply observable_address hm hlen ho hshort
  · intro c r' s u hne hat hcheck
    change wp (handleReallocRpc ops c r') _ _ s
    rw [wp_handleReallocRpc, blockLabelAt_of_ne_zero c s hne, hat]
    simp only [Option.map_some]
    rw [if_pos hcheck]
    trivial
  · intro c r' s hne hat
    change wp (handleReallocRpc ops c r') _ _ s
    rw [wp_handleReallocRpc, blockLabelAt_of_ne_zero c s hne, hat]
    trivial

/-- A `realloc` of the sender that passes the check. -/
theorem wp_dispatch_realloc {c : ClientDesc} {r' : Request} {s : State K}
    {Q : Reply → State K → Prop} {E : Fault → State K → Prop} {L : Label}
    (hlabel : blockLabelAt c s (r'.data.load32 12) = some L)
    (hcheck : checkLabel c.label c.ownership L none = 0) :
    wp (dispatch ops c r' .realloc) Q E s ↔
      wp (ablibRealloc ops c.pid (r'.data.load32 12) (r'.data.load32 16) L)
        (fun v s' => Q (reply (.word v)) s') E s := by
  change wp (handleReallocRpc ops c r') _ _ s ↔ _
  rw [wp_handleReallocRpc, hlabel]
  simp only
  rw [if_neg (not_not.mpr hcheck)]

/-- An allocation under a label nothing was freed under goes to the unit tops. -/
theorem wp_ablibMalloc_of_top {pid n av : Nat} {L : Label} {s : State K}
    {Q : Nat → State K → Prop} {E : Fault → State K → Prop}
    (hav : s.mstateList.find? (fun av => decide ((s.mstates av).label = L)) = some av)
    (hlocked : s.locked = false) (hany : ¬ haveAnychunks (s.mstates av))
    (hinit : (s.mstates av).maxFast ≠ 0) (hne : n ≠ 0) (hrange : ¬ requestOutOfRange n)
    (h : wp (useUnitTop (request2size n) (s.mstates av).ustateList.reverse)
      (fun found s₁ =>
        match found with
        | some mem => wp mallocUnlock (fun _ s₂ => Q mem s₂) E s₁
        | none => wp (mallocAlloc ops (ablibMallocAux ops 1) pid (request2size n) av L)
            (fun mem s₂ => wp mallocUnlock (fun _ s₃ => Q mem s₃) E s₂) E s₁)
      E { s with locked := true }) :
    wp (ablibMalloc ops pid n L) Q E s := by
  change wp (ablibMallocStep ops _ pid n L) Q E s
  simp only [ablibMallocStep, lookupMstateByLabel, wp_bind, wp_get, wp_pure, hav, wp_ite,
    if_neg hne, if_neg hrange, mallocEnter, wp_mallocLock, hlocked, Bool.false_eq_true, if_false,
    mallocBody, mallocServe, wp_getMstate, if_neg hany, if_neg hinit, mallocTop]
  refine wp_imp h ?_
  intro found s₁ hfound
  cases found with
  | some mem =>
    simp only [wp_pure]
    exact hfound
  | none => exact hfound

/-- Cutting a piece off a unit top can only fail by touching unmapped memory. -/
theorem cutTop_fault (u top size nb mem : Nat) (s : State K) :
    wp (do
      setUnitTop u (chunkAtOffset top nb)
      cutTop top size nb
      pure (some mem)) (fun found _ => found = some mem) (fun e _ => e = .segv) s := by
  simp only [setUnitTop, cutTop, setInuseBitAtOffset, setHead, setFoot, setPrevSize, headOf, wp_ite,
    wp_bind, wp_modify, wp_load, wp_store, wp_pure]
  split_ifs

/-- A label with one unit: the request is cut off its top or not served. -/
theorem wp_useUnitTop_singleton {nb u top size : Nat} {Q : Option Nat → State K → Prop}
    {E : Fault → State K → Prop} {s : State K} (htop : (s.units u).unitTop = top)
    (hmapped : mapped s (top + 4)) (hsize : sizeOfHead (s.mem.load32 (top + 4)) = size) :
    wp (useUnitTop nb [u]) Q E s ↔
      if nb ≤ size then
        wp (do
          setUnitTop u (chunkAtOffset top nb)
          cutTop top size nb
          pure (some (chunk2mem top))) Q E s
      else Q none s := by
  simp only [useUnitTop, wp_bind, wp_getUnit, chunksize, headOf, wp_load, wp_pure, wp_ite, htop,
    if_pos hmapped, hsize]

/-- Address 0: an allocation that fits into a unit top does not come to the
    assertion that one which does not fit stops at. -/
theorem observable_realloc_null [Inhabited K] (hm : malformed r = none)
    (hlen : 2 ≤ r.clientAddrLen) (ho : Opcode.decode (r.data.load32 8) = some .realloc)
    (hshort : r.pktSize < 20) (hnull : r.data.load32 12 = 0) : Observable ops r := by
  let Z : Label := fun _ => 0
  let low := r.data.load32 16 % 16777216
  have hlow : low < 16777216 := Nat.mod_lt _ (by decide)
  -- one unit top of 64 MB, which is room for one of the two sizes only
  let m : Mstate := { Mstate.zero with maxFast := 74, ustateList := [0] }
  let top : Ustate := { unitTop := channelAddr, addr := 0, length := 0, unitAv := 0 }
  let s : State K :=
    { State.start default [sender r 0 Z Z] with
      mem := Mem.store32 (fun _ => 0) (channelAddr + 4) 67108865
      mstates := fun _ => m
      mstateList := [0]
      units := fun _ => top }
  have hsize₁ : (r.withByte 19 1).data.load32 16 = low + 16777216 := load32_withByte_high r 16 1
  have hsize₂ : (r.withByte 19 240).data.load32 16 = low + 4026531840 :=
    load32_withByte_high r 16 240
  have hptr : ∀ b, (r.withByte 19 b).data.load32 12 = 0 := by
    intro b
    rw [load32_withByte r b (by omega), hnull]
  have hlabel : ∀ b, blockLabelAt (sender r 0 Z Z) s ((r.withByte 19 b).data.load32 12) =
      some Z := by
    intro b
    rw [hptr b]
    rfl
  have hcheck : checkLabel Z Z Z none = 0 := by decide
  have hav : s.mstateList.find? (fun av => decide ((s.mstates av).label = Z)) = some 0 :=
    List.find?_cons_of_pos (decide_eq_true rfl)
  -- the fast chunks that `maxFast` promises stop the larger request
  let s' : State K := { s with locked := true }
  have htop : (s'.units 0).unitTop = channelAddr := rfl
  have hmapped : mapped s' (channelAddr + 4) := ⟨by decide, Or.inr (Or.inl (by decide))⟩
  have hsize : sizeOfHead (s'.mem.load32 (channelAddr + 4)) = 67108864 := by
    have hhead : s'.mem.load32 (channelAddr + 4) = 67108865 :=
      Mem.load32_store32_self _ _ _ (by decide)
    rw [hhead]
    decide
  refine observable_of_dispatch (Q := fun _ _ => True) (E := fun e _ => e ≠ .assertion) hm hlen ho
    (sameDatagram_withByte r 1 (by omega : r.pktSize ≤ (19 : Nat)))
    (sameDatagram_withByte r 240 (by omega : r.pktSize ≤ (19 : Nat)))
    (rfl : s.clients = [sender r 0 Z Z]) ?_ ?_
  · have hnb : request2size (low + 16777216) ≤ 67108864 := by
      unfold request2size minSize
      split <;> omega
    rw [wp_dispatch_realloc (hlabel 1) hcheck, hptr, hsize₁]
    unfold ablibRealloc
    rw [if_pos rfl]
    refine wp_ablibMalloc_of_top hav rfl (by decide : ¬ haveAnychunks m)
      (by decide : m.maxFast ≠ 0) (by omega) (by unfold requestOutOfRange; omega) ?_
    change wp (useUnitTop _ [0]) _ _ s'
    rw [wp_useUnitTop_singleton htop hmapped hsize, if_pos hnb]
    refine wp_mono (cutTop_fault _ _ _ _ _ _) ?_ ?_
    · rintro _ s₁ rfl
      simp only [wp_mallocUnlock]
      split
      · trivial
      · decide
    · rintro e _ rfl
      decide
  · have hnb : 67108864 < request2size (low + 4026531840) := by
      unfold request2size minSize
      split <;> omega
    rw [wp_dispatch_realloc (hlabel 240) hcheck, hptr, hsize₂]
    unfold ablibRealloc
    rw [if_pos rfl]
    refine wp_ablibMalloc_of_top hav rfl (by decide : ¬ haveAnychunks m)
      (by decide : m.maxFast ≠ 0) (by omega) (by unfold requestOutOfRange; omega) ?_
    change wp (useUnitTop _ [0]) _ _ s'
    rw [wp_useUnitTop_singleton htop hmapped hsize, if_neg (by omega)]
    have hsmall : ¬ inSmallbinRange (request2size (low + 4026531840)) := by
      unfold inSmallbinRange
      omega
    simp only [mallocAlloc, wp_bind, wp_getMstate, wp_ite, wp_check]
    rw [if_pos (by decide : haveFastchunks m), if_neg hsmall]
    exact fun h => h rfl

/-- A mapped block is resized by `reallocMmapped`. -/
theorem wp_ablibRealloc_of_mmapped {pid ptr n u head : Nat} {L : Label} {s : State K}
    {Q : Nat → State K → Prop} {E : Fault → State K → Prop} (hptr : ptr ≠ 0) (hne : n ≠ 0)
    (hrange : ¬ requestOutOfRange n) (hlocked : s.locked = false) (hat : unitAt s ptr = some u)
    (hmapped : mapped s (mem2chunk ptr + 4)) (hhead : s.mem.load32 (mem2chunk ptr + 4) = head)
    (himm : isMmapped head)
    (h : wp (reallocMmapped ops pid ptr (request2size n) (s.units u).unitAv (mem2chunk ptr)
      (sizeOfHead head) L) Q E { s with locked := true }) :
    wp (ablibRealloc ops pid ptr n L) Q E s := by
  have hat' : unitAt { s with locked := true } ptr = some u := hat
  have hmapped' : mapped { s with locked := true } (mem2chunk ptr + 4) := hmapped
  have hhead' : ({ s with locked := true } : State K).mem.load32 (mem2chunk ptr + 4) = head := hhead
  unfold ablibRealloc
  rw [if_neg hptr, if_neg hne, wp_bind, wp_mallocLock, hlocked, if_neg Bool.false_ne_true, wp_bind,
    wp_lookupUstateByMem, hat']
  simp only []
  rw [wp_bind, wp_getUnit, if_neg hrange, wp_bind]
  unfold headOf
  rw [wp_load, if_pos hmapped', hhead', if_pos himm]
  exact h

/-- In place if the block is large enough, and otherwise by a new allocation. The
    block starts its page, and the page size was never set. -/
theorem wp_reallocMmapped_of_zero {pid ptr nb av oldp oldsize : Nat} {L : Label} {s : State K}
    {Q : Nat → State K → Prop} {E : Fault → State K → Prop} (hlocked : s.locked = true)
    (hmapped : mapped s oldp) (hoffset : s.mem.load32 oldp = 0)
    (hpage : (s.mstates av).pagesize = 0) (hold : oldsize ≠ 0)
    (hfits : nb + 4 ≤ oldsize → Q ptr { s with locked := false })
    (hmoves : ¬ nb + 4 ≤ oldsize →
      wp (ablibMalloc ops pid (nb - 7) L) (fun _ _ => False) E { s with locked := false }) :
    wp (reallocMmapped ops pid ptr nb av oldp oldsize L) Q E s := by
  simp only [reallocMmapped, prevSize, wp_bind, wp_load, if_pos hmapped, wp_getMstate, hoffset,
    hpage, Nat.mul_zero, Nat.zero_add, Nat.sub_zero, Nat.mod_self, wp_ite, if_neg hold,
    wp_mallocUnlock, hlocked, if_true, wp_pure]
  by_cases hfit : nb + 4 ≤ oldsize
  · rw [if_pos hfit]
    exact hfits hfit
  · rw [if_neg hfit]
    exact wp_imp (hmoves hfit) (fun _ _ h => h.elim)

/-- There is no room for the `malloc_state` of a new label. -/
theorem ablibMalloc_full {pid n : Nat} {L : Label} {s : State K} (hne : n ≠ 0)
    (hlist : s.mstateList = []) (hfull : s.nextMstate = mstateLimit) :
    wp (ablibMalloc ops pid n L) (fun _ _ => False) (fun _ _ => True) s := by
  change wp (ablibMallocStep ops _ pid n L) _ _ s
  simp only [ablibMallocStep, lookupMstateByLabel, wp_bind, wp_get, wp_pure, hlist, List.find?_nil,
    wp_ite, if_neg hne, mallocEnter, wp_mallocLock, newMstate, hfull, lt_irrefl, if_false, wp_throw,
    ite_self]

/-- An address from 8 on: a mapped block is large enough for the one size, and
    for the other a new one is needed, for which there is no room. -/
theorem observable_realloc_mmapped [Inhabited K] (hm : malformed r = none)
    (hlen : 2 ≤ r.clientAddrLen) (ho : Opcode.decode (r.data.load32 8) = some .realloc)
    (hshort : r.pktSize < 20) (hge : 8 ≤ r.data.load32 12)
    (hlast : r.data.load32 12 ≠ 0xFFFFFFFF) : Observable ops r := by
  let Z : Label := fun _ => 0
  let ptr := r.data.load32 12
  let low := r.data.load32 16 % 16777216
  have hlow : low < 16777216 := Nat.mod_lt _ (by decide)
  have hptrlt : ptr < 4294967296 := Mem.load32_lt r.data 12
  let all : Ustate := { unitTop := 0, addr := 0, length := 0xFFFFFFFF, unitAv := 0 }
  let s : State K :=
    { State.start default [sender r 0 Z Z] with
      mem := Mem.store32 (fun _ => 0) (ptr - 4) 67108866
      elsewhere := fun _ => true
      ustateList := [0]
      nextMstate := mstateLimit
      units := fun _ => all }
  have hsize₁ : (r.withByte 19 1).data.load32 16 = low + 16777216 := load32_withByte_high r 16 1
  have hsize₂ : (r.withByte 19 240).data.load32 16 = low + 4026531840 :=
    load32_withByte_high r 16 240
  have hptr : ∀ b, (r.withByte 19 b).data.load32 12 = ptr := by
    intro b
    rw [load32_withByte r b (by omega)]
  have hat : ∀ s' : State K, s'.ustateList = [0] → s'.units = s.units → unitAt s' ptr = some 0 := by
    intro s' hlist hunits
    have hcov : covers (s'.units 0) ptr := by
      rw [hunits]
      refine ⟨Nat.zero_le _, ?_⟩
      change ptr < (0 + 0xFFFFFFFF) % wordSize
      unfold wordSize
      omega
    rw [unitAt_singleton hlist, if_pos hcov]
  have hlabel : ∀ b, blockLabelAt (sender r 0 Z Z) s ((r.withByte 19 b).data.load32 12) =
      some Z := by
    intro b
    rw [hptr b, blockLabelAt_of_ne_zero _ _ (by omega), hat s rfl rfl]
    rfl
  have hcheck : checkLabel Z Z Z none = 0 := by decide
  have hoff : mem2chunk ptr = ptr - 8 := by
    unfold mem2chunk wordSize
    omega
  have hmapped : ∀ a, a + 4 ≤ ptr → mapped s a := by
    intro a ha
    refine ⟨?_, Or.inr (Or.inr rfl)⟩
    unfold wordSize
    omega
  have hhead : s.mem.load32 (mem2chunk ptr + 4) = 67108866 := by
    rw [hoff, show ptr - 8 + 4 = ptr - 4 by omega]
    exact Mem.load32_store32_self _ _ _ (by decide)
  have hoffset : s.mem.load32 (mem2chunk ptr) = 0 := by
    rw [hoff]
    exact Mem.load32_store32_of_disjoint _ _ _ _ (by omega)
  have hold : sizeOfHead 67108866 = 67108864 := by decide
  -- the two sizes part at the test whether the block is large enough
  have hrun : ∀ n (Q : Nat → State K → Prop) (E : Fault → State K → Prop), n ≠ 0 →
      ¬ requestOutOfRange n →
      (request2size n + 4 ≤ 67108864 → ∀ v s', Q v s') →
      (¬ request2size n + 4 ≤ 67108864 → ∀ e s', E e s') →
      wp (ablibRealloc ops 0 ptr n Z) Q E s := by
    intro n Q E hne hrange hfits hmoves
    refine wp_ablibRealloc_of_mmapped (by omega) hne hrange rfl (hat s rfl rfl)
      (hmapped _ (by omega)) hhead (by decide) ?_
    refine wp_reallocMmapped_of_zero rfl ?_ hoffset rfl (by decide) ?_ ?_
    · exact hmapped (mem2chunk ptr) (by omega)
    · rw [hold]
      intro hfit
      exact hfits hfit _ _
    · rw [hold]
      intro hfit
      have hpos : request2size n - 7 ≠ 0 := by omega
      exact wp_mono (ablibMalloc_full hpos rfl rfl) (fun _ _ h => h)
        (fun e s' _ => hmoves hfit e s')
  refine observable_of_dispatch (Q := fun _ _ => True) (E := fun _ _ => False) hm hlen ho
    (sameDatagram_withByte r 1 (by omega : r.pktSize ≤ (19 : Nat)))
    (sameDatagram_withByte r 240 (by omega : r.pktSize ≤ (19 : Nat)))
    (rfl : s.clients = [sender r 0 Z Z]) ?_ ?_
  · have hnb : request2size (low + 16777216) + 4 ≤ 67108864 := by
      unfold request2size minSize
      split <;> omega
    rw [wp_dispatch_realloc (hlabel 1) hcheck, hptr, hsize₁]
    exact hrun _ _ _ (by omega) (by unfold requestOutOfRange; omega) (fun _ _ _ => trivial)
      (fun h => absurd hnb h)
  · have hnb : ¬ request2size (low + 4026531840) + 4 ≤ 67108864 := by
      unfold request2size minSize
      split <;> omega
    rw [wp_dispatch_realloc (hlabel 240) hcheck, hptr, hsize₂]
    exact hrun _ _ _ (by omega) (by unfold requestOutOfRange; omega) (fun h => absurd h hnb)
      (fun _ _ _ h => h)

/-- An address below 8: a size out of range is refused before the block is looked
    at. -/
theorem observable_realloc_low [Inhabited K] (hm : malformed r = none)
    (hlen : 2 ≤ r.clientAddrLen) (ho : Opcode.decode (r.data.load32 8) = some .realloc)
    (hlong : 16 ≤ r.pktSize) (hshort : r.pktSize < 20) (hpos : 0 < r.data.load32 12)
    (hlow : r.data.load32 12 < 8) {r' : Request} (hsame : SameDatagram r r')
    (hrange : requestOutOfRange (r'.data.load32 16)) : Observable ops r := by
  let Z : Label := fun _ => 0
  let ptr := r.data.load32 12
  let low := r'.data.load32 16 % 16777216
  have hlowlt : low < 16777216 := Nat.mod_lt _ (by decide)
  -- a unit at address 0, so that the pointer is inside one
  let unit : Ustate := { unitTop := 0, addr := 0, length := 16, unitAv := 0 }
  let s : State K :=
    { State.start default [sender r 0 Z Z] with ustateList := [0], units := fun _ => unit }
  have hptr : r'.data.load32 12 = ptr := hsame.load32 (by omega)
  have hat : unitAt s ptr = some 0 := by
    have hcov : covers (s.units 0) ptr := by
      refine ⟨Nat.zero_le _, ?_⟩
      change ptr < (0 + 16) % wordSize
      unfold wordSize
      omega
    rw [unitAt_singleton rfl, if_pos hcov]
  have hlabel : blockLabelAt (sender r 0 Z Z) s ptr = some Z := by
    rw [blockLabelAt_of_ne_zero _ _ (by omega), hat]
    rfl
  have hcheck : checkLabel Z Z Z none = 0 := by decide
  have hfree : ¬ s.locked = true := Bool.false_ne_true
  have hsame' : SameDatagram r (r'.withByte 19 1) :=
    hsame.trans (sameDatagram_withByte r' 1 (by rw [hsame.pktSize]; omega))
  refine observable_of_dispatch (Q := fun _ _ => True) (E := fun _ _ => False) hm hlen ho
    hsame hsame' (rfl : s.clients = [sender r 0 Z Z]) ?_ ?_
  · have hne : r'.data.load32 16 ≠ 0 := by
      unfold requestOutOfRange at hrange
      omega
    have hat' : unitAt { s with locked := true } ptr = some 0 := hat
    rw [wp_dispatch_realloc (L := Z) (by rw [hptr, hlabel]) hcheck, hptr]
    unfold ablibRealloc
    rw [if_neg (by omega), if_neg hne, wp_bind, wp_mallocLock, if_neg hfree, wp_bind,
      wp_lookupUstateByMem, hat']
    simp only []
    rw [wp_bind, wp_getUnit, if_pos hrange, wp_pure]
    trivial
  -- a size in range goes on to the chunk header, below address 0
  · have hptr' : (r'.withByte 19 1).data.load32 12 = ptr := by
      rw [load32_withByte r' 1 (by omega), hptr]
    have hsize : (r'.withByte 19 1).data.load32 16 = low + 16777216 :=
      load32_withByte_high r' 16 1
    have hin : ¬ requestOutOfRange (low + 16777216) := by
      unfold requestOutOfRange
      omega
    rw [wp_dispatch_realloc (L := Z) (by rw [hptr', hlabel]) hcheck, hptr', hsize,
      ablibRealloc_low ops _ Z hpos hlow hin, wp_bind, wp_mallocLock, if_neg hfree, wp_bind,
      wp_lookupUstateByMem]
    have hat' : unitAt { s with locked := true } ptr = some 0 := hat
    rw [hat']
    simp only [wp_bind, wp_getUnit, wp_throw]
    exact fun h => h

/-- A datagram that reaches a handler and is too short for it can have more than
    one effect, blind reallocations and requests for nothing apart. -/
theorem observable_of_not_settled [Inhabited K] (hr : ¬ Settled r) : Observable ops r := by
  unfold Settled Dropped at hr
  push Not at hr
  obtain ⟨⟨hm, hlen, hop⟩, hblind, hvoid, hsize⟩ := hr
  obtain ⟨op, ho⟩ := Option.ne_none_iff_exists'.mp hop
  have hshort := hsize op ho
  have hheader := header_received hm
  cases op with
  | createCat => exact observable_createCat hm hlen ho hshort
  | fork => exact observable_fork hm hlen ho hshort
  | pthreadJoin => exact observable_pthreadJoin hm hlen ho hshort
  | malloc =>
    have hex : ∃ r', SameDatagram r r' ∧ r'.data.load32 12 ≠ 0 := by
      by_contra hno
      push Not at hno
      exact hvoid (.inl ⟨ho, hno⟩)
    obtain ⟨r', hsame, hbytes⟩ := hex
    exact observable_malloc hm hlen ho hshort hsame hbytes
  | free => exact observable_free hm hlen ho hshort
  | getLabel => exact absurd hheader (not_le.mpr hshort)
  | getOwnership => exact absurd hheader (not_le.mpr hshort)
  | getMemLabel => exact observable_getMemLabel hm hlen ho hshort
  | calloc =>
    have hex : ∃ r', SameDatagram r r' ∧ r'.data.load32 12 * r'.data.load32 16 ≠ 0 ∧
        r'.data.load32 12 * r'.data.load32 16 < wordSize := by
      by_contra hno
      push Not at hno
      exact hvoid (.inr ⟨ho, fun r' h => or_iff_not_imp_left.mpr (hno r' h)⟩)
    obtain ⟨r', hsame, hpos, hfits⟩ := hex
    exact observable_calloc hm hlen ho hshort hsame hpos hfits
  | rpc => exact absurd hheader (not_le.mpr hshort)
  | realloc =>
    by_cases haddr : r.pktSize < 16
    · exact observable_realloc_address hm hlen ho haddr
    have hlong : 16 ≤ r.pktSize := by omega
    have hlast : r.data.load32 12 ≠ 0xFFFFFFFF := by
      intro hlast
      exact hblind ⟨ho, hlong, Or.inl hlast⟩
    by_cases hnull : r.data.load32 12 = 0
    · exact observable_realloc_null hm hlen ho hshort hnull
    by_cases hge : 8 ≤ r.data.load32 12
    · exact observable_realloc_mmapped hm hlen ho hshort hge hlast
    -- the address is one of 1 to 7, so some size is out of range
    have hpos : 0 < r.data.load32 12 := by omega
    have hlow : r.data.load32 12 < 8 := by omega
    have hex : ∃ r', SameDatagram r r' ∧ requestOutOfRange (r'.data.load32 16) := by
      by_contra hno
      push Not at hno
      exact hblind ⟨ho, hlong, Or.inr ⟨hpos, hlow, hno⟩⟩
    obtain ⟨r', hsame, hrange⟩ := hex
    exact observable_realloc_low hm hlen ho hlong hshort hpos hlow hsame hrange

end

/-- The effect of a datagram (the state it leads to and the reply, or how the arbiter
    ends) is the same for all contents of the rest of the buffer exactly if it is dropped, is
    as long as the struct its handler reads, is a reallocation that crashes in any case, or
    asks for memory and gets none in any case. -/
theorem datagram_effect [Inhabited K] (ops : KernelOps K) (r : Request) :
    (∀ s r₁ r₂, SameDatagram r r₁ → SameDatagram r r₂ →
      handleClientRpc ops r₁ s = handleClientRpc ops r₂ s) ↔ Settled r := by
  constructor
  · intro hsame
    by_contra hr
    have hobs : Observable ops r := observable_of_not_settled hr
    obtain ⟨s, r₁, r₂, h₁, h₂, hne⟩ := hobs
    exact hne (hsame s r₁ r₂ h₁ h₂)
  · intro hr s r₁ r₂ h₁ h₂
    rw [handleClientRpc_congr h₁ ops hr s, handleClientRpc_congr h₂ ops hr s]

/-- A `malloc` request of which only the header was received. The size, 16, and the byte
    `b` of the label are left over from earlier datagrams. -/
def headerOnly (b : UInt8) : Request where
  pktSize := 12
  data := fun i =>
    if i = 23 then b
    else ([0xDE, 0xC0, 0xAB, 0, 24, 0, 0, 0, 2, 0, 0, 0, 16] : List UInt8).getD i 0
  clientAddr := fun i => (clientAddrOf 7).getD i 0
  clientAddrLen := (clientAddrOf 7).length

/-- The client gets a block or nothing by a byte that was never sent. -/
theorem datagram_effect_fails :
    SameDatagram (headerOnly 0) (headerOnly 0x80) ∧
    handleClientRpc generousKernel (headerOnly 0)
        (State.start () [⟨clientAddrOf 7, 7, fun _ => 0, fun _ => 0⟩]) ≠
      handleClientRpc generousKernel (headerOnly 0x80)
        (State.start () [⟨clientAddrOf 7, 7, fun _ => 0, fun _ => 0⟩]) := by
  constructor
  · refine ⟨rfl, ?_, rfl, fun _ _ => rfl⟩
    intro i hi
    change (i : Int) < 12 at hi
    simp only [headerOnly]
    rw [if_neg (by omega), if_neg (by omega)]
  · -- the replies differ
    apply wp_ne (Q := fun rply _ => rply = some (reply (.word 0x80000008))) (E := fun _ _ => False)
    · decide +kernel
    · decide +kernel

end ArbiterThread
