import ArbiterThread.Malloc.Free

/-!
# The Requests of the Arbiter

`handle_client_rpc` and its handlers: a datagram is looked at in the receive
buffer, its sender is looked up in the client list, and one handler per opcode
checks labels, changes the state and answers.

`server_loop` keeps one buffer for all datagrams, so a `Request` holds the
whole buffer and the number of bytes that were received; the handlers cast the
buffer to their own struct. All structs are packed as on i386, where a 64-bit
field is aligned to four bytes. A reply is a local variable of which each
handler sets some fields only, hence `Ret.unset`.

## Main definitions

* `Request`, `Opcode`, `Ret`, `Reply`: The protocol.
* `cmpClient`, `cmpClientPid`, `clientAddrOf`: Finding a client.
* `handleCreateCatRpc`, ..., `handleReallocRpc`: The handlers.
* `handleClientRpc`: What happens with one datagram.
* `Reaches`: The datagram reaches a handler.

## Theorems

* `wp_handleCreateCatRpc`, ..., `wp_handleReallocRpc`: What the handlers do.
* `wp_handleClientRpc_of_dispatch`: When a datagram reaches a handler.
* `wp_handleClientRpc`: What a datagram can do.
-/

namespace ArbiterThread

open Exec

variable {K : Type}

/-! ### The protocol -/

def rpcMagic : Nat := 0xABC0DE

/-- The size of `rpc_header`. -/
def headerSize : Nat := 12

/-- An `abt_request`, after `recvfrom` has written the first `pktSize` bytes of
    `data` and the first `clientAddrLen` bytes of `clientAddr`. -/
structure Request where
  pktSize : Int
  data : Mem
  clientAddr : Mem
  clientAddrLen : Nat

inductive Opcode where
  | fork
  | pthreadJoin
  | malloc
  | free
  | createCat
  | getLabel
  | getOwnership
  | getMemLabel
  | calloc
  | realloc
  | rpc
deriving DecidableEq, Repr

/-- The enumeration's values, in order. -/
def Opcode.decode : Nat → Option Opcode
  | 0 => some .fork
  | 1 => some .pthreadJoin
  | 2 => some .malloc
  | 3 => some .free
  | 4 => some .createCat
  | 5 => some .getLabel
  | 6 => some .getOwnership
  | 7 => some .getMemLabel
  | 8 => some .calloc
  | 9 => some .realloc
  | 10 => some .rpc
  | _ => none

/-- Which part of a reply's value the handler wrote. -/
inductive Ret where
  | unset
  /-- the low byte of `return_val` -/
  | byte (cat : Cat)
  /-- `return_val` -/
  | word (v : Nat)
  /-- `return_val_64` -/
  | word64 (x : Label)
deriving DecidableEq

structure Reply where
  abtReplyMagic : Nat
  msgLen : Nat
  ret : Ret
deriving DecidableEq

def reply (ret : Ret) : Reply := ⟨rpcMagic, 20, ret⟩

/-- The value -1, which says that a request failed. -/
def failed : Ret := .word 0xFFFFFFFF

/-- The eight bytes of a label at an offset of the buffer. -/
def labelAt (data : Mem) (off : Nat) : Label := fun i => data (off + i)

/-- A word as `%d` prints it. -/
def asInt (n : Nat) : Int := if n < 2147483648 then n else n - 4294967296

/-! ### Clients -/

/-- `strncmp` of two buffers: whether they are the same up to `n` bytes or to the
    byte that ends both. -/
def strncmp : Nat → Mem → Mem → Bool
  | 0, _, _ => true
  | n + 1, a, b =>
    if a 0 ≠ b 0 then false
    else if a 0 = 0 then true
    else strncmp n (fun i => a (i + 1)) (fun i => b (i + 1))

/-- Whether a request comes from the address of a client. The path of a client ends within
    its address, so that nothing behind the address is compared. -/
def cmpClient (req : Request) (c : ClientDesc) : Bool :=
  req.clientAddrLen = c.unixAddr.length ∧
    [req.clientAddr 0, req.clientAddr 1] = c.unixAddr.take 2 ∧
    strncmp (c.unixAddr.length - 2) (fun i => req.clientAddr (i + 2))
      (fun i => c.unixAddr.getD (i + 2) 0)

def cmpClientPid (pid : Nat) (c : ClientDesc) : Bool := c.pid = pid

/-- The socket address of a client: the family, and a path made of its process
    id with the zero byte that ends it. -/
def clientAddrOf (pid : Nat) : List UInt8 :=
  [1, 0] ++ ("/tmp/abt_client_" ++ toString (asInt pid)).toList.map (fun ch => UInt8.ofNat ch.toNat)
    ++ [0]

/-! ### Handlers -/

/-- An ownership after the next category of type `t` was added, and that
    category, or 0 if there was no room. -/
def granted (O : Own) (catGen t : Cat) : Own × Cat :=
  addOnwership O (createCat catGen t).2

/-- The state after a client was given a category. The client is the one `mine` finds,
    and its descriptor is changed in place. -/
def afterGrant (mine : ClientDesc → Bool) (c : ClientDesc) (t : Cat) (s : State K) : State K :=
  { s with
    catGen := (createCat s.catGen t).1
    clients := s.clients.set (s.clients.findIdx mine)
      { c with ownership := (granted c.ownership s.catGen t).1 } }

def handleCreateCatRpc (c : ClientDesc) (req : Request) : HeapM K Reply := do
  let t := req.data 12
  let s ← get
  let cat := (granted c.ownership s.catGen t).2
  set (afterGrant (cmpClient req) c t s)
  check (cat ≠ 0)
  pure (reply (.byte cat))

/-- The descriptor made for the process a fork request names. -/
def forked (req : Request) : ClientDesc :=
  let pid := req.data.load32 28
  ⟨clientAddrOf pid, pid, labelAt req.data 12, labelAt req.data 20⟩

def handleForkRpc (ops : KernelOps K) (c : ClientDesc) (req : Request) : HeapM K Reply := do
  let cNew := forked req
  if checkLabel c.label c.ownership cNew.label (some cNew.ownership) ≠ 0 then
    abMsg "Arbiter: Security Voilation: handle_fork_rpc\n"
    pure (reply failed)
  else
    modify fun s => { s with clients := s.clients ++ [cNew] }
    mallocUpdate ops cNew
    pure (reply (.word 0))

def handlePthreadJoinRpc (c : ClientDesc) (req : Request) : HeapM K Reply := do
  let pid := req.data.load32 12
  let s ← get
  match s.clients.find? (cmpClientPid pid) with
  | none =>
    abMsg "handle_pthread_join_rpc: unknown client\n"
    pure (reply failed)
  | some cJoin =>
    if checkLabel c.label c.ownership cJoin.label (some cJoin.ownership) ≠ 0 then
      abMsg "Security Voilation: handle_pthread_join_rpc\n"
      pure (reply failed)
    else
      set { s with clients := s.clients.eraseP (cmpClientPid pid) }
      pure (reply (.word 0))

def handleMallocRpc (ops : KernelOps K) (c : ClientDesc) (req : Request) : HeapM K Reply := do
  let size := req.data.load32 12
  let L2 := labelAt req.data 16
  if checkLabel c.label c.ownership L2 none ≠ 0 then
    abMsg "VOILATION: malloc voilation!\n"
    pure (reply (.word 0))
  else
    let ptr ← ablibMalloc ops c.pid size L2
    pure (reply (.word ptr))

/-- The label a request about a block is checked against: that of its unit, or
    for `NULL` the client's own. -/
def blockLabel (c : ClientDesc) (ptr : Nat) : HeapM K Label :=
  if ptr ≠ 0 then lookupLabelByMem ptr else pure c.label

def handleFreeRpc (ops : KernelOps K) (c : ClientDesc) (req : Request) : HeapM K Reply := do
  let ptr := req.data.load32 12
  let L2 ← blockLabel c ptr
  if checkLabel c.label c.ownership L2 none ≠ 0 then
    abMsg "VOILATION: malloc voilation!\n"
    pure (reply .unset)
  else
    ablibFree ops c.pid ptr
    pure (reply .unset)

def handleGetLabelRpc (c : ClientDesc) : HeapM K Reply := pure (reply (.word64 c.label))

def handleGetOwnershipRpc (c : ClientDesc) : HeapM K Reply := pure (reply (.word64 c.ownership))

/-- Any client may ask for the label of any address. -/
def handleGetMemLabelRpc (req : Request) : HeapM K Reply := do
  let L ← lookupLabelByMem (req.data.load32 12)
  pure (reply (.word64 L))

def handleCallocRpc (ops : KernelOps K) (c : ClientDesc) (req : Request) : HeapM K Reply := do
  let nmemb := req.data.load32 12
  let size := req.data.load32 16
  let L2 := labelAt req.data 20
  if checkLabel c.label c.ownership L2 none ≠ 0 then
    abMsg "VOILATION: calloc voilation!\n"
    pure (reply (.word 0))
  else
    let ptr ← ablibCalloc ops c.pid nmemb size L2
    pure (reply (.word ptr))

def handleRpc : HeapM K Reply := pure (reply (.word 0))

def handleReallocRpc (ops : KernelOps K) (c : ClientDesc) (req : Request) : HeapM K Reply := do
  let ptr := req.data.load32 12
  let size := req.data.load32 16
  let L2 ← blockLabel c ptr
  if checkLabel c.label c.ownership L2 none ≠ 0 then
    abMsg "VOILATION: realloc voilation!\n"
    pure (reply .unset)
  else
    let rval ← ablibRealloc ops c.pid ptr size L2
    pure (reply (.word rval))

/-! ### What the handlers do -/

section

variable (ops : KernelOps K) (c : ClientDesc) (req : Request) (Q : Reply → State K → Prop)
  (E : Fault → State K → Prop) (s : State K)

theorem wp_handleCreateCatRpc :
    wp (handleCreateCatRpc c req) Q E s ↔
      if (granted c.ownership s.catGen (req.data 12)).2 ≠ 0 then
        Q (reply (.byte (granted c.ownership s.catGen (req.data 12)).2))
          (afterGrant (cmpClient req) c (req.data 12) s)
      else E .assertion (afterGrant (cmpClient req) c (req.data 12) s) := by
  simp only [handleCreateCatRpc, wp_bind, wp_get, wp_set, wp_check, wp_pure]

theorem wp_handleForkRpc :
    wp (handleForkRpc ops c req) Q E s ↔
      if checkLabel c.label c.ownership (forked req).label (some (forked req).ownership) ≠ 0 then
        Q (reply failed) s
      else
        wp (mallocUpdate ops (forked req)) (fun _ s' => Q (reply (.word 0)) s') E
          { s with clients := s.clients ++ [forked req] } := by
  simp only [handleForkRpc, wp_ite, wp_bind, wp_modify, wp_abMsg, wp_pure]

theorem wp_handlePthreadJoinRpc :
    wp (handlePthreadJoinRpc c req) Q E s ↔
      match s.clients.find? (cmpClientPid (req.data.load32 12)) with
      | none => Q (reply failed) s
      | some cJoin =>
        if checkLabel c.label c.ownership cJoin.label (some cJoin.ownership) ≠ 0 then
          Q (reply failed) s
        else
          Q (reply (.word 0))
            { s with clients := s.clients.eraseP (cmpClientPid (req.data.load32 12)) } := by
  simp only [handlePthreadJoinRpc, wp_bind, wp_get]
  cases s.clients.find? (cmpClientPid (req.data.load32 12)) with
  | none => simp only [wp_bind, wp_abMsg, wp_pure]
  | some cJoin => simp only [wp_ite, wp_bind, wp_abMsg, wp_set, wp_pure]

theorem wp_handleMallocRpc :
    wp (handleMallocRpc ops c req) Q E s ↔
      if checkLabel c.label c.ownership (labelAt req.data 16) none ≠ 0 then
        Q (reply (.word 0)) s
      else
        wp (ablibMalloc ops c.pid (req.data.load32 12) (labelAt req.data 16))
          (fun ptr s' => Q (reply (.word ptr)) s') E s := by
  simp only [handleMallocRpc, wp_ite, wp_bind, wp_abMsg, wp_pure]

theorem wp_handleCallocRpc :
    wp (handleCallocRpc ops c req) Q E s ↔
      if checkLabel c.label c.ownership (labelAt req.data 20) none ≠ 0 then
        Q (reply (.word 0)) s
      else
        wp (ablibCalloc ops c.pid (req.data.load32 12) (req.data.load32 16)
          (labelAt req.data 20)) (fun ptr s' => Q (reply (.word ptr)) s') E s := by
  simp only [handleCallocRpc, wp_ite, wp_bind, wp_abMsg, wp_pure]

theorem wp_lookupLabelByMem (ptr : Nat) (Q : Label → State K → Prop) :
    wp (lookupLabelByMem ptr) Q E s ↔
      match unitAt s ptr with
      | some u => Q (s.mstates (s.units u).unitAv).label s
      | none => E .segv s := by
  simp only [lookupLabelByMem, wp_bind, wp_lookupUstateByMem]
  cases unitAt s ptr with
  | some u => simp only [wp_getUnit, wp_getMstate, wp_pure]
  | none => rfl

/-- The label a request about a block is checked against, if the block is in some
    unit. -/
def blockLabelAt (c : ClientDesc) (s : State K) (ptr : Nat) : Option Label :=
  if ptr ≠ 0 then (unitAt s ptr).map fun u => (s.mstates (s.units u).unitAv).label
  else some c.label

theorem wp_blockLabel (ptr : Nat) (Q : Label → State K → Prop) :
    wp (blockLabel c ptr) Q E s ↔
      match blockLabelAt c s ptr with
      | some L => Q L s
      | none => E .segv s := by
  unfold blockLabel blockLabelAt
  by_cases hptr : ptr ≠ 0
  · rw [if_pos hptr, if_pos hptr, wp_lookupLabelByMem]
    cases unitAt s ptr <;> rfl
  · rw [if_neg hptr, if_neg hptr, wp_pure]

theorem wp_handleFreeRpc :
    wp (handleFreeRpc ops c req) Q E s ↔
      match blockLabelAt c s (req.data.load32 12) with
      | none => E .segv s
      | some L =>
        if checkLabel c.label c.ownership L none ≠ 0 then
          Q (reply .unset) s
        else
          wp (ablibFree ops c.pid (req.data.load32 12)) (fun _ s' => Q (reply .unset) s') E s := by
  simp only [handleFreeRpc, wp_bind, wp_blockLabel]
  cases blockLabelAt c s (req.data.load32 12) with
  | none => rfl
  | some L => simp only [wp_ite, wp_bind, wp_abMsg, wp_pure]

theorem wp_handleReallocRpc :
    wp (handleReallocRpc ops c req) Q E s ↔
      match blockLabelAt c s (req.data.load32 12) with
      | none => E .segv s
      | some L =>
        if checkLabel c.label c.ownership L none ≠ 0 then
          Q (reply .unset) s
        else
          wp (ablibRealloc ops c.pid (req.data.load32 12) (req.data.load32 16) L)
            (fun rval s' => Q (reply (.word rval)) s') E s := by
  simp only [handleReallocRpc, wp_bind, wp_blockLabel]
  cases blockLabelAt c s (req.data.load32 12) with
  | none => rfl
  | some L => simp only [wp_ite, wp_bind, wp_abMsg, wp_pure]

theorem wp_handleGetMemLabelRpc :
    wp (handleGetMemLabelRpc req) Q E s ↔
      match unitAt s (req.data.load32 12) with
      | some u => Q (reply (.word64 (s.mstates (s.units u).unitAv).label)) s
      | none => E .segv s := by
  simp only [handleGetMemLabelRpc, wp_bind, wp_lookupLabelByMem, wp_pure]

end

/-! ### Dispatch -/

def dispatch (ops : KernelOps K) (c : ClientDesc) (req : Request) : Opcode → HeapM K Reply
  | .createCat => handleCreateCatRpc c req
  | .fork => handleForkRpc ops c req
  | .pthreadJoin => handlePthreadJoinRpc c req
  | .malloc => handleMallocRpc ops c req
  | .free => handleFreeRpc ops c req
  | .getLabel => handleGetLabelRpc c
  | .getOwnership => handleGetOwnershipRpc c
  | .getMemLabel => handleGetMemLabelRpc req
  | .calloc => handleCallocRpc ops c req
  | .realloc => handleReallocRpc ops c req
  | .rpc => handleRpc

/-- Why a datagram is dropped before its sender is looked at, if it is. -/
def malformed (req : Request) : Option String :=
  if req.pktSize ≤ 0 then
    some "arbiter: NULL packet or recieved failed!\n"
  else if req.pktSize < headerSize then
    some "arbiter: incomplete packt received.\n"
  else if req.data.load32 0 ≠ rpcMagic ∨ req.data.load32 4 < headerSize then
    some "arbiter: malformed message received.\n"
  else none

/-- What is done with a datagram once it is known whether it is well formed,
    who sent it, and what it asks for. -/
def answer (ops : KernelOps K) (req : Request) :
    Option String → Option ClientDesc → Option Opcode → HeapM K (Option Reply)
  | some why, _, _ => do
    abMsg why
    pure none
  | none, none, _ => do
    abMsg ("arbiter: unknown client, opcode=" ++ toString (asInt (req.data.load32 8)) ++ "\n")
    pure none
  | none, some _, none => do
    abMsg "arbiter rpc: Invallid OP code!\n"
    pure none
  | none, some c, some op => do
    let rply ← dispatch ops c req op
    pure (some rply)

/-- One turn of `server_loop`: the reply sent, if any. -/
def handleClientRpc (ops : KernelOps K) (req : Request) : HeapM K (Option Reply) := do
  let s ← get
  answer ops req (malformed req) (s.clients.find? (cmpClient req))
    (Opcode.decode (req.data.load32 8))

theorem handleClientRpc_apply (ops : KernelOps K) (req : Request) (s : State K) :
    handleClientRpc ops req s = answer ops req (malformed req)
      (s.clients.find? (cmpClient req)) (Opcode.decode (req.data.load32 8)) s := rfl

section

variable {ops : KernelOps K} {req : Request} {Q : Option Reply → State K → Prop}
  {E : Fault → State K → Prop} {s : State K}

/-- A datagram that is well formed reaches the handler of its opcode. -/
theorem wp_handleClientRpc_of_dispatch {c : ClientDesc} {op : Opcode}
    (hm : malformed req = none) (hc : s.clients.find? (cmpClient req) = some c)
    (ho : Opcode.decode (req.data.load32 8) = some op) :
    wp (handleClientRpc ops req) Q E s ↔
      wp (dispatch ops c req op) (fun rply s' => Q (some rply) s') E s := by
  simp only [handleClientRpc, answer, wp_bind, wp_get, hm, hc, ho, wp_pure]

/-- The datagram reaches the handler of `op`, for the client `c`. -/
def Reaches (req : Request) (s : State K) (c : ClientDesc) (op : Opcode) : Prop :=
  malformed req = none ∧ s.clients.find? (cmpClient req) = some c ∧
    Opcode.decode (req.data.load32 8) = some op

/-- What a datagram can do: nothing, or reach a handler. -/
theorem wp_handleClientRpc
    (hdrop : (∀ c op, ¬ Reaches req s c op) → Q none s)
    (hrun : ∀ c op, Reaches req s c op →
      wp (dispatch ops c req op) (fun rply s' => Q (some rply) s') E s) :
    wp (handleClientRpc ops req) Q E s := by
  cases hm : malformed req with
  | some why =>
    simp only [handleClientRpc, answer, wp_bind, wp_get, hm, wp_abMsg, wp_pure]
    exact hdrop (fun c op h => by simp [h.1] at hm)
  | none =>
    cases hc : s.clients.find? (cmpClient req) with
    | none =>
      simp only [handleClientRpc, answer, wp_bind, wp_get, hm, hc, wp_abMsg, wp_pure]
      exact hdrop (fun c op h => by simp [h.2.1] at hc)
    | some c =>
      cases ho : Opcode.decode (req.data.load32 8) with
      | none =>
        simp only [handleClientRpc, answer, wp_bind, wp_get, hm, hc, ho, wp_abMsg, wp_pure]
        exact hdrop (fun c op h => by simp [h.2.2] at ho)
      | some op =>
        rw [wp_handleClientRpc_of_dispatch hm hc ho]
        exact hrun c op ⟨hm, hc, ho⟩

end

end ArbiterThread
