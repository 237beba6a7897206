import ArbiterThread.Arbiter.Uninit
import ArbiterThread.Arbiter.Lookup

/-!
# The Client's Side of a Request

The wrappers of `lib_client.c`: a call becomes a datagram, and a reply becomes
the value that is returned.

A wrapper fills in a struct on its stack, field by field, and sends all of it, so
the bytes between the fields are whatever the stack held. The arbiter receives it
into a buffer that still holds earlier datagrams, behind an address that may
still hold the end of a longer one. `handleClientRpc_marshal` says that none of
this matters: the arbiter does what `serve` does with the arguments of the call,
which has neither bytes nor buffers in it.

The way back is shorter. The handler sets one field of a reply on its own stack
and sends the whole struct, and the wrapper reads one field. `replyField_reply`
says which value that is, up to the stack if the handler did not set the field.

`CREATE_CAT` is the one request where the sender's address is used twice. The
descriptor is found by it, and is found by it again to be changed, while `serve`
finds it by the process id. These agree because of what the table holds, which
is `Addressed`.

## Main definitions

* `ApiCall`: A call of one of the wrappers.
* `ApiCall.marshal`: The struct sent for it.
* `Datagram`, `receive`: A message, and what `recvfrom` makes of it.
* `serve`: What a call asks of the arbiter.
* `replyBytes`, `replyField`: A reply as it is sent and as it is read.
* `Addressed`: The address of every descriptor is made of its process id.
* `exchange`: A call and its reply.

## Theorems

* `Addressed.cmpClient_eq`: A descriptor is found by the address exactly if it is
  found by the process id.
* `handleClientRpc_marshal`: The arbiter does what a call asks for.
* `handleClientRpc_unknown`: A call of a process without a descriptor is dropped.
* `replyField_reply`: What the wrapper reads of a reply.
* `exchange_eq_serve`: A call and its reply, after any requests.
-/

namespace ArbiterThread

open Exec

variable {K : Type}

/-! ### Calls -/

/-- A call of a wrapper. `ab_fork` and `ab_pthread_create` send the same request once
    the process is there, and `get_mem_label` sends none for `NULL`. -/
inductive ApiCall where
  | fork (L : Label) (O : Own) (pid : UInt32)
  | pthreadJoin (thread : UInt32)
  | malloc (size : UInt32) (L : Label)
  | free (ptr : UInt32)
  | createCategory (t : Cat)
  | getLabel
  | getOwnership
  | getMemLabel (ptr : UInt32) (nonnull : ptr ≠ 0)
  | calloc (nmemb size : UInt32) (L : Label)
  | realloc (ptr size : UInt32)
  | rpc
deriving DecidableEq

def ApiCall.opcode : ApiCall → Opcode
  | .fork .. => .fork
  | .pthreadJoin _ => .pthreadJoin
  | .malloc .. => .malloc
  | .free _ => .free
  | .createCategory _ => .createCat
  | .getLabel => .getLabel
  | .getOwnership => .getOwnership
  | .getMemLabel .. => .getMemLabel
  | .calloc .. => .calloc
  | .realloc .. => .realloc
  | .rpc => .rpc

/-- The value of an opcode in the enumeration. -/
def Opcode.code : Opcode → Nat
  | .fork => 0
  | .pthreadJoin => 1
  | .malloc => 2
  | .free => 3
  | .createCat => 4
  | .getLabel => 5
  | .getOwnership => 6
  | .getMemLabel => 7
  | .calloc => 8
  | .realloc => 9
  | .rpc => 10

theorem Opcode.decode_code (op : Opcode) : Opcode.decode op.code = some op := by
  cases op <;> rfl

theorem Opcode.code_lt (op : Opcode) : op.code < 4294967296 := by
  cases op <;> decide

/-- The size of the struct a wrapper sends. The one of `CREATE_CAT` has three bytes
    of padding, and `ab_RPC` uses the one of `REALLOC`. -/
def ApiCall.size : ApiCall → Nat
  | .fork .. => 32
  | .pthreadJoin _ => 16
  | .malloc .. => 24
  | .free _ => 16
  | .createCategory _ => 16
  | .getLabel => 12
  | .getOwnership => 12
  | .getMemLabel .. => 16
  | .calloc .. => 28
  | .realloc .. => 20
  | .rpc => 20

/-! ### Structs on the stack -/

/-- Store the eight bytes of a label. -/
def storeLabel (m : Mem) (off : Nat) (L : Label) : Mem := fun i =>
  if h : off ≤ i ∧ i < off + 8 then L ⟨i - off, by omega⟩ else m i

/-- The header, written over what the stack held. -/
def header (stack : Mem) (len : Nat) (op : Opcode) : Mem :=
  ((stack.store32 0 rpcMagic).store32 4 len).store32 8 op.code

/-- The struct of a call, with the header filled in. -/
def ApiCall.fields (m : Mem) : ApiCall → Mem
  | .fork L O pid => (storeLabel (storeLabel m 12 L) 20 O).store32 28 pid.toNat
  | .pthreadJoin thread => m.store32 12 thread.toNat
  | .malloc size L => storeLabel (m.store32 12 size.toNat) 16 L
  | .free ptr => m.store32 12 ptr.toNat
  | .createCategory t => m.store8 12 t
  | .getLabel => m
  | .getOwnership => m
  | .getMemLabel ptr _ => m.store32 12 ptr.toNat
  | .calloc nmemb size L => storeLabel ((m.store32 12 nmemb.toNat).store32 16 size.toNat) 20 L
  | .realloc ptr size => (m.store32 12 ptr.toNat).store32 16 size.toNat
  | .rpc => m

/-- What a wrapper sends, if its stack held `stack` where the struct is. -/
def ApiCall.marshal (call : ApiCall) (stack : Mem) : Mem :=
  call.fields (header stack call.size call.opcode)

/-! ### Messages -/

structure Datagram where
  source : List UInt8
  length : Nat
  bytes : Mem

/-- `wait_client_call`: at most 256 bytes are written over the earlier datagrams, and
    the sender's address over the earlier ones. -/
def receive (data addr : Mem) (d : Datagram) : Request where
  pktSize := (min d.length 256 : Nat)
  data := fun i => if i < min d.length 256 then d.bytes i else data i
  clientAddr := writeAt addr 0 d.source
  clientAddrLen := d.source.length

/-- The datagram of a call by the process `pid`. -/
def ApiCall.datagram (call : ApiCall) (pid : Nat) (stack : Mem) : Datagram :=
  ⟨clientAddrOf pid, call.size, call.marshal stack⟩

/-! ### What a call asks for -/

/-- What a call asks of the arbiter, for the client `c`. -/
def serve (ops : KernelOps K) (c : ClientDesc) : ApiCall → HeapM K Ret
  | .fork L O pid => do
    if checkLabel c.label c.ownership L (some O) ≠ 0 then
      abMsg "Arbiter: Security Voilation: handle_fork_rpc\n"
      pure failed
    else
      let cNew : ClientDesc := ⟨clientAddrOf pid.toNat, pid.toNat, L, O⟩
      modify fun s => { s with clients := s.clients ++ [cNew] }
      mallocUpdate ops cNew
      pure (.word 0)
  | .pthreadJoin thread => do
    let s ← get
    match s.clients.find? (cmpClientPid thread.toNat) with
    | none =>
      abMsg "handle_pthread_join_rpc: unknown client\n"
      pure failed
    | some cJoin =>
      if checkLabel c.label c.ownership cJoin.label (some cJoin.ownership) ≠ 0 then
        abMsg "Security Voilation: handle_pthread_join_rpc\n"
        pure failed
      else
        set { s with clients := s.clients.eraseP (cmpClientPid thread.toNat) }
        pure (.word 0)
  | .malloc size L => do
    if checkLabel c.label c.ownership L none ≠ 0 then
      abMsg "VOILATION: malloc voilation!\n"
      pure (.word 0)
    else
      let ptr ← ablibMalloc ops c.pid size.toNat L
      pure (.word ptr)
  | .free ptr => do
    let L ← blockLabel c ptr.toNat
    if checkLabel c.label c.ownership L none ≠ 0 then
      abMsg "VOILATION: malloc voilation!\n"
      pure .unset
    else
      ablibFree ops c.pid ptr.toNat
      pure .unset
  | .createCategory t => do
    let s ← get
    let cat := (granted c.ownership s.catGen t).2
    set (afterGrant (cmpClientPid c.pid) c t s)
    check (cat ≠ 0)
    pure (.byte cat)
  | .getLabel => pure (.word64 c.label)
  | .getOwnership => pure (.word64 c.ownership)
  | .getMemLabel ptr _ => do
    let L ← lookupLabelByMem ptr.toNat
    pure (.word64 L)
  | .calloc nmemb size L => do
    if checkLabel c.label c.ownership L none ≠ 0 then
      abMsg "VOILATION: calloc voilation!\n"
      pure (.word 0)
    else
      let ptr ← ablibCalloc ops c.pid nmemb.toNat size.toNat L
      pure (.word ptr)
  | .realloc ptr size => do
    let L ← blockLabel c ptr.toNat
    if checkLabel c.label c.ownership L none ≠ 0 then
      abMsg "VOILATION: realloc voilation!\n"
      pure .unset
    else
      let rval ← ablibRealloc ops c.pid ptr.toNat size.toNat L
      pure (.word rval)
  | .rpc => pure (.word 0)

/-! ### Reading a struct back -/

theorem labelAt_storeLabel_self (m : Mem) (off : Nat) (L : Label) :
    labelAt (storeLabel m off L) off = L := by
  funext i
  simp only [labelAt, storeLabel]
  rw [dif_pos (by omega)]
  congr 1
  ext
  exact Nat.add_sub_cancel_left ..

theorem labelAt_storeLabel_of_disjoint (m : Mem) (off a : Nat) (L : Label)
    (h : a + 8 ≤ off ∨ off + 8 ≤ a) : labelAt (storeLabel m off L) a = labelAt m a := by
  funext i
  simp only [labelAt, storeLabel]
  rw [dif_neg (by omega)]

theorem labelAt_store32_of_disjoint (m : Mem) (off a v : Nat)
    (h : a + 8 ≤ off ∨ off + 4 ≤ a) : labelAt (m.store32 off v) a = labelAt m a := by
  funext i
  simp only [labelAt, Mem.store32]
  rw [if_neg (by omega)]

theorem load32_storeLabel_of_disjoint (m : Mem) (off a : Nat) (L : Label)
    (h : a + 4 ≤ off ∨ off + 8 ≤ a) : (storeLabel m off L).load32 a = m.load32 a := by
  refine Mem.load32_congr fun x hx hx' => ?_
  simp only [storeLabel]
  rw [dif_neg (by omega)]

section

variable (call : ApiCall) (stack : Mem)

theorem ApiCall.load32_fields (m : Mem) {a : Nat} (ha : a + 4 ≤ 12) :
    (call.fields m).load32 a = m.load32 a := by
  -- no field begins before the end of the header
  cases call <;>
    simp (disch := omega) only [ApiCall.fields, Mem.load32_store32_of_disjoint,
      load32_storeLabel_of_disjoint, Mem.load32_store8_of_disjoint]

theorem ApiCall.size_lt : call.size < 256 ∧ headerSize ≤ call.size := by
  cases call <;> simp only [ApiCall.size, headerSize] <;> omega

theorem ApiCall.marshal_magic : (call.marshal stack).load32 0 = rpcMagic := by
  have hmagic : rpcMagic < 4294967296 := by decide
  simp (disch := omega) only [ApiCall.marshal, ApiCall.load32_fields, header,
    Mem.load32_store32_of_disjoint, Mem.load32_store32_self]

theorem ApiCall.marshal_len : (call.marshal stack).load32 4 = call.size := by
  have hsize := call.size_lt.1
  simp (disch := omega) only [ApiCall.marshal, ApiCall.load32_fields, header,
    Mem.load32_store32_of_disjoint, Mem.load32_store32_self]

theorem ApiCall.marshal_opcode : (call.marshal stack).load32 8 = call.opcode.code := by
  have hcode := call.opcode.code_lt
  simp (disch := omega) only [ApiCall.marshal, ApiCall.load32_fields, header,
    Mem.load32_store32_self]

end

theorem begins_writeAt (m : Mem) (bs : List UInt8) : Begins (writeAt m 0 bs) bs := by
  intro i hi
  simp only [writeAt]
  rw [if_pos (by omega), Nat.sub_zero]

section

variable {data addr : Mem} {d : Datagram}

theorem receive_byte {a : Nat} (h : a < d.length) (hcut : d.length ≤ 256) :
    (receive data addr d).data a = d.bytes a := by
  simp only [receive]
  rw [if_pos (by omega)]

theorem receive_load32 {a : Nat} (h : a + 4 ≤ d.length) (hcut : d.length ≤ 256) :
    (receive data addr d).data.load32 a = d.bytes.load32 a :=
  Mem.load32_congr fun _ _ _ => receive_byte (by omega) hcut

theorem receive_labelAt {a : Nat} (h : a + 8 ≤ d.length) (hcut : d.length ≤ 256) :
    labelAt (receive data addr d).data a = labelAt d.bytes a :=
  funext fun _ => receive_byte (by omega) hcut

theorem receive_begins : Begins (receive data addr d).clientAddr d.source :=
  begins_writeAt addr d.source

end

/-! ### Addresses -/

/-- The address of every descriptor is made of its process id. -/
def Addressed (clients : List ClientDesc) : Prop :=
  ∀ c ∈ clients, c.unixAddr = clientAddrOf c.pid ∧ c.pid < wordSize

theorem RegistryInv.addressed {clients : List ClientDesc} (h : RegistryInv clients) :
    Addressed clients :=
  h.addr

theorem Addressed.step {s : State K} (h : Addressed s.clients) {req : Request}
    {rply : Option Reply} {clients : List ClientDesc} (hstep : TableStep req s rply clients) :
    Addressed clients := by
  intro c' hc'
  cases hstep with
  | same _ => exact h c' hc'
  | granted reach room =>
    rcases List.mem_or_eq_of_mem_set hc' with hc' | rfl
    · exact h c' hc'
    · have hmem := List.mem_of_find?_eq_some reach.2.1
      exact ⟨(h _ hmem).1, (h _ hmem).2⟩
  | forked reach allowed =>
    rw [List.mem_append, List.mem_singleton] at hc'
    rcases hc' with hc' | rfl
    · exact h c' hc'
    · exact ⟨rfl, Mem.load32_lt _ _⟩
  | joined reach found => exact h c' (List.eraseP_sublist.subset hc')

/-- A buffer begins with one list of a length at most. -/
theorem Begins.eq_of_length {m : Mem} {xs ys : List UInt8} (h : Begins m xs) (h' : Begins m ys)
    (hlen : xs.length = ys.length) : xs = ys := by
  refine List.ext_getElem hlen fun i hi hi' => ?_
  have hx := h i hi
  have hy := h' i hi'
  rw [List.getD_eq_getElem _ _ hi] at hx
  rw [List.getD_eq_getElem _ _ hi'] at hy
  exact hx.symm.trans hy

/-- A descriptor is found for a datagram exactly if the datagram comes from its socket. An
    address that was received before makes no difference, because it would have to be as
    long. -/
theorem cmpClient_receive {c : ClientDesc} (hc : c.unixAddr = clientAddrOf c.pid)
    (data addr : Mem) (d : Datagram) :
    cmpClient (receive data addr d) c = decide (d.source = clientAddrOf c.pid) := by
  have hstring : ∀ b ∈ clientPathOf c.pid, b ≠ 0 := fun _ hb => clientPathOf_ne_zero hb
  have hbuffer : Begins (receive data addr d).clientAddr d.source := receive_begins
  -- the path in the descriptor, behind the family
  have hpath (m : Mem) : strncmp ((clientAddrOf c.pid).length - 2) m
      (fun i => (clientAddrOf c.pid).getD (i + 2) 0) = true ↔
        Begins m (clientPathOf c.pid ++ [0]) := by
    rw [clientAddrOf_eq]
    exact strncmp_eq_true_iff hstring (fun _ _ => rfl) (by simp)
  unfold cmpClient
  rw [decide_eq_decide, hc]
  constructor
  · rintro ⟨hlen, hfamily, hbehind⟩
    rw [clientAddrOf_eq] at hfamily
    simp only [List.take, List.cons_append, List.cons.injEq, and_true] at hfamily
    have hbegins : Begins (receive data addr d).clientAddr (clientAddrOf c.pid) := by
      rw [clientAddrOf_eq]
      exact begins_cons.mpr ⟨hfamily.1, begins_cons.mpr
        ⟨hfamily.2, (hpath _).mp hbehind⟩⟩
    exact hbuffer.eq_of_length hbegins hlen
  · intro hsource
    rw [hsource] at hbuffer
    refine ⟨congrArg List.length hsource, ?_, ?_⟩
    · rw [clientAddrOf_eq] at hbuffer ⊢
      simp [hbuffer 0 (by simp), hbuffer 1 (by simp)]
    · exact (hpath _).mpr hbuffer.path

theorem Addressed.find_source {clients : List ClientDesc} (h : Addressed clients)
    (data addr : Mem) (d : Datagram) :
    clients.find? (cmpClient (receive data addr d)) =
      clients.find? fun c => d.source = clientAddrOf c.pid :=
  List.find?_congr fun c hc => cmpClient_receive (h c hc).1 data addr d

/-! ### A call reaches its handler -/

section

variable {data addr : Mem} {pid : Nat} {stack : Mem} {call : ApiCall}

theorem receive_datagram_header (data addr : Mem) (pid : Nat) (stack : Mem) (call : ApiCall) :
    malformed (receive data addr (call.datagram pid stack)) = none ∧
      Opcode.decode ((receive data addr (call.datagram pid stack)).data.load32 8) =
        some call.opcode := by
  obtain ⟨hlt, hle⟩ := call.size_lt
  unfold headerSize at hle
  have hword : ∀ a, a + 4 ≤ 12 → (receive data addr (call.datagram pid stack)).data.load32 a =
      (call.marshal stack).load32 a := fun a ha =>
    receive_load32 (show a + 4 ≤ call.size by omega) (show call.size ≤ 256 by omega)
  have hsize : (receive data addr (call.datagram pid stack)).pktSize = call.size := by
    simp only [receive, ApiCall.datagram]
    omega
  refine ⟨?_, ?_⟩
  · unfold malformed headerSize
    rw [hsize, hword 0 (by omega), hword 4 (by omega), call.marshal_magic, call.marshal_len,
      if_neg (by omega), if_neg (by omega), if_neg (by simp; omega)]
  · rw [hword 8 (by omega), call.marshal_opcode, Opcode.decode_code]

/-- A descriptor is found by the address of a process exactly if it is found by the
    process id. -/
theorem Addressed.cmpClient_eq {clients : List ClientDesc} (h : Addressed clients)
    (hpid : pid < wordSize) {c : ClientDesc} (hc : c ∈ clients) :
    cmpClient (receive data addr (call.datagram pid stack)) c = cmpClientPid pid c := by
  obtain ⟨hcaddr, hcpid⟩ := h c hc
  rw [cmpClient_receive hcaddr]
  unfold cmpClientPid
  rw [decide_eq_decide]
  constructor
  · exact fun heq => (clientAddrOf_inj hpid hcpid heq).symm
  · rintro rfl
    rfl

/-- The sender of a call is the client with its process id. -/
theorem Addressed.find_sender {clients : List ClientDesc} (h : Addressed clients)
    (hpid : pid < wordSize) :
    clients.find? (cmpClient (receive data addr (call.datagram pid stack))) =
      clients.find? (cmpClientPid pid) :=
  List.find?_congr fun _ hc => h.cmpClient_eq hpid hc

theorem findIdx_congr {α : Type} {p q : α → Bool} {l : List α} (h : ∀ x ∈ l, p x = q x) :
    l.findIdx p = l.findIdx q := by
  induction l with
  | nil => rfl
  | cons x xs ih =>
    rw [List.findIdx_cons, List.findIdx_cons, h x List.mem_cons_self,
      ih fun y hy => h y (List.mem_cons_of_mem _ hy)]

/-- The words of a call, at their offsets. -/
theorem receive_datagram_load32 {a : Nat} (ha : a + 4 ≤ call.size) :
    (receive data addr (call.datagram pid stack)).data.load32 a = (call.marshal stack).load32 a :=
  receive_load32 ha call.size_lt.1.le

/-- The labels of a call, at their offsets. -/
theorem receive_datagram_labelAt {a : Nat} (ha : a + 8 ≤ call.size) :
    labelAt (receive data addr (call.datagram pid stack)).data a = labelAt (call.marshal stack) a :=
  receive_labelAt ha call.size_lt.1.le

variable (data addr pid stack)

/-- The word of a call that has one word and nothing else. -/
theorem call_word (call : ApiCall) (v : UInt32) (hsize : call.size = 16)
    (hfields : ∀ m, call.fields m = m.store32 12 v.toNat) :
    (receive data addr (call.datagram pid stack)).data.load32 12 = v.toNat := by
  rw [receive_datagram_load32 (by omega), ApiCall.marshal, hfields]
  exact Mem.load32_store32_self _ _ _ v.toNat_lt

theorem malloc_fields (size : UInt32) (L : Label) :
    (receive data addr ((ApiCall.malloc size L).datagram pid stack)).data.load32 12 = size.toNat ∧
      labelAt (receive data addr ((ApiCall.malloc size L).datagram pid stack)).data 16 = L := by
  have hsize := size.toNat_lt
  rw [receive_datagram_load32 (by simp [ApiCall.size]),
    receive_datagram_labelAt (by simp [ApiCall.size])]
  simp (disch := omega) only [ApiCall.marshal, ApiCall.fields, load32_storeLabel_of_disjoint,
    labelAt_storeLabel_self, Mem.load32_store32_self, and_self]

theorem calloc_fields (nmemb size : UInt32) (L : Label) :
    (receive data addr ((ApiCall.calloc nmemb size L).datagram pid stack)).data.load32 12 =
        nmemb.toNat ∧
      (receive data addr ((ApiCall.calloc nmemb size L).datagram pid stack)).data.load32 16 =
        size.toNat ∧
      labelAt (receive data addr ((ApiCall.calloc nmemb size L).datagram pid stack)).data 20 =
        L := by
  have hnmemb := nmemb.toNat_lt
  have hsize := size.toNat_lt
  rw [receive_datagram_load32 (by simp [ApiCall.size]),
    receive_datagram_load32 (by simp [ApiCall.size]),
    receive_datagram_labelAt (by simp [ApiCall.size])]
  simp (disch := omega) only [ApiCall.marshal, ApiCall.fields, load32_storeLabel_of_disjoint,
    labelAt_storeLabel_self, Mem.load32_store32_of_disjoint, Mem.load32_store32_self, and_self]

theorem realloc_fields (ptr size : UInt32) :
    (receive data addr ((ApiCall.realloc ptr size).datagram pid stack)).data.load32 12 =
        ptr.toNat ∧
      (receive data addr ((ApiCall.realloc ptr size).datagram pid stack)).data.load32 16 =
        size.toNat := by
  have hptr := ptr.toNat_lt
  have hsize := size.toNat_lt
  rw [receive_datagram_load32 (by simp [ApiCall.size]),
    receive_datagram_load32 (by simp [ApiCall.size])]
  simp (disch := omega) only [ApiCall.marshal, ApiCall.fields, Mem.load32_store32_of_disjoint,
    Mem.load32_store32_self, and_self]

/-- The handler of a call does what the call asks for. -/
theorem dispatch_marshal (call : ApiCall) (ops : KernelOps K) {s : State K}
    (h : Addressed s.clients)
    (hpid : pid < wordSize) {c : ClientDesc} (hc : s.clients.find? (cmpClientPid pid) = some c) :
    dispatch ops c (receive data addr (call.datagram pid stack)) call.opcode s =
      (do let ret ← serve ops c call; pure (reply ret) : HeapM K Reply) s := by
  cases call with
  | fork L O child =>
    have hchild := child.toNat_lt
    have hnew : forked (receive data addr ((ApiCall.fork L O child).datagram pid stack)) =
        ⟨clientAddrOf child.toNat, child.toNat, L, O⟩ := by
      unfold forked
      rw [receive_datagram_load32 (by simp [ApiCall.size]),
        receive_datagram_labelAt (by simp [ApiCall.size]),
        receive_datagram_labelAt (by simp [ApiCall.size])]
      simp (disch := omega) only [ApiCall.marshal, ApiCall.fields, labelAt_storeLabel_self,
        labelAt_storeLabel_of_disjoint, labelAt_store32_of_disjoint, Mem.load32_store32_self]
    simp only [dispatch, ApiCall.opcode, handleForkRpc, serve, hnew]
    split <;> simp
  | pthreadJoin thread =>
    have hword := call_word data addr pid stack (.pthreadJoin thread) thread rfl fun _ => rfl
    simp only [dispatch, ApiCall.opcode, handlePthreadJoinRpc, serve, hword]
    simp only [EStateM.bind, bind, EStateM.get, get, getThe, MonadStateOf.get]
    cases s.clients.find? (cmpClientPid thread.toNat) with
    | none => rfl
    | some cJoin => dsimp only; split <;> rfl
  | malloc size L =>
    obtain ⟨hword, hlabel⟩ := malloc_fields data addr pid stack size L
    simp only [dispatch, ApiCall.opcode, handleMallocRpc, serve, hword, hlabel]
    split <;> simp
  | free ptr =>
    have hword := call_word data addr pid stack (.free ptr) ptr rfl fun _ => rfl
    simp only [dispatch, ApiCall.opcode, handleFreeRpc, serve, hword, bind_assoc]
    refine congrFun (congrArg _ (funext fun L => ?_)) s
    split <;> simp
  | createCategory t =>
    have htype : (receive data addr ((ApiCall.createCategory t).datagram pid stack)).data 12 =
        t := by
      rw [receive_byte (by simp [ApiCall.datagram, ApiCall.size])
        (by simp [ApiCall.datagram, ApiCall.size])]
      simp [ApiCall.datagram, ApiCall.marshal, ApiCall.fields, Mem.store8]
    have hfound : s.clients.findIdx (cmpClient (receive data addr
        ((ApiCall.createCategory t).datagram pid stack))) = s.clients.findIdx (cmpClientPid pid) :=
      findIdx_congr fun _ hd => h.cmpClient_eq hpid hd
    have hcpid : c.pid = pid := by simpa [cmpClientPid] using List.find?_some hc
    simp only [dispatch, ApiCall.opcode]
    generalize receive data addr ((ApiCall.createCategory t).datagram pid stack) = req
      at htype hfound
    subst htype
    -- the descriptor is looked up by its address a second time, to be changed
    have hmine : afterGrant (cmpClient req) c (req.data 12) s =
        afterGrant (cmpClientPid c.pid) c (req.data 12) s := by
      unfold afterGrant
      rw [hcpid, hfound]
    simp only [serve, bind_assoc, pure_bind]
    simp only [bind, EStateM.bind, get, getThe, MonadStateOf.get, EStateM.get, ← hmine]
    rfl
  | getLabel => rfl
  | getOwnership => rfl
  | getMemLabel ptr nonnull =>
    have hword := call_word data addr pid stack (.getMemLabel ptr nonnull) ptr rfl fun _ => rfl
    simp only [dispatch, ApiCall.opcode, handleGetMemLabelRpc, serve, hword, bind_assoc, pure_bind]
  | calloc nmemb size L =>
    obtain ⟨hnmemb, hsize, hlabel⟩ := calloc_fields data addr pid stack nmemb size L
    simp only [dispatch, ApiCall.opcode, handleCallocRpc, serve, hnmemb, hsize, hlabel]
    split <;> simp
  | realloc ptr size =>
    obtain ⟨hptr, hsize⟩ := realloc_fields data addr pid stack ptr size
    simp only [dispatch, ApiCall.opcode, handleReallocRpc, serve, hptr, hsize, bind_assoc]
    refine congrFun (congrArg _ (funext fun L => ?_)) s
    split <;> simp
  | rpc => rfl

variable {data addr pid stack}

/-- The arbiter does what a call asks for, whatever its buffers and the client's stack
    held. -/
theorem handleClientRpc_marshal (ops : KernelOps K) {s : State K} (h : Addressed s.clients)
    (hpid : pid < wordSize) {c : ClientDesc} (hc : s.clients.find? (cmpClientPid pid) = some c) :
    handleClientRpc ops (receive data addr (call.datagram pid stack)) s =
      (do let ret ← serve ops c call; pure (some (reply ret)) : HeapM K (Option Reply)) s := by
  obtain ⟨hm, ho⟩ := receive_datagram_header data addr pid stack call
  rw [handleClientRpc_apply, hm, ho, h.find_sender hpid, hc]
  have hrun := dispatch_marshal data addr pid stack call ops h hpid hc
  simp only [answer, bind, EStateM.bind] at hrun ⊢
  rw [hrun]
  cases serve ops c call s <;> rfl

/-- A call of a process that is not registered is dropped. -/
theorem handleClientRpc_unknown (ops : KernelOps K) {s : State K} (h : Addressed s.clients)
    (hpid : pid < wordSize) (hc : s.clients.find? (cmpClientPid pid) = none) :
    handleClientRpc ops (receive data addr (call.datagram pid stack)) s =
      .ok none s := by
  obtain ⟨hm, ho⟩ := receive_datagram_header data addr pid stack call
  rw [handleClientRpc_apply, hm, h.find_sender hpid, hc]
  rfl

end

/-! ### Replies -/

/-- The struct a handler sends, if its stack held `stack` where the struct is. -/
def replyBytes (stack : Mem) (rply : Reply) : Mem :=
  let m := (stack.store32 0 rply.abtReplyMagic).store32 4 rply.msgLen
  match rply.ret with
  | .unset => m
  | .byte cat => m.store8 8 cat
  | .word v => m.store32 8 v
  | .word64 x => storeLabel m 12 x

/-- What the wrapper that sends requests of this kind reads of a reply. -/
def replyField (rply : Mem) : Opcode → Field
  | .fork | .pthreadJoin | .malloc | .calloc | .realloc | .rpc => .word (rply.load32 8)
  | .free => .nothing
  | .createCat => .byte (rply 8).toNat
  | .getLabel | .getOwnership | .getMemLabel => .word64 (labelAt rply 12)

/-- The stack where a handler puts the values of its reply. -/
def scratchOf (stack : Mem) : Scratch := ⟨stack.load32 8, labelAt stack 12⟩

/-- A value as `return_val` holds it. -/
def Ret.truncated : Ret → Ret
  | .word v => .word (v % wordSize)
  | ret => ret

theorem store32_mod (m : Mem) (a v : Nat) : m.store32 a (v % 4294967296) = m.store32 a v := by
  funext b
  simp only [Mem.store32]
  by_cases hb : a ≤ b ∧ b < a + 4
  · rw [if_pos hb, if_pos hb]
    apply UInt8.toNat_inj.mp
    simp only [UInt8.toNat_ofNat']
    -- one of the four bytes of a word
    obtain hk | hk | hk | hk : b - a = 0 ∨ b - a = 1 ∨ b - a = 2 ∨ b - a = 3 := by omega
    all_goals
      rw [hk]
      omega
  · rw [if_neg hb, if_neg hb]

theorem load32_mod_256 (m : Mem) (a : Nat) : m.load32 a % 256 = (m a).toNat := by
  have h := (m a).toNat_lt
  unfold Mem.load32
  omega

theorem load32_store8_low (m : Mem) (a : Nat) (v : UInt8) :
    (m.store8 a v).load32 a = m.load32 a / 256 * 256 + v.toNat := by
  have h := (m a).toNat_lt
  have hv := v.toNat_lt
  simp only [Mem.load32, Mem.store8, if_true, Nat.add_eq_left, OfNat.ofNat_ne_zero,
    Nat.succ_ne_self, if_false]
  omega

theorem replyBytes_word (stack : Mem) (ret : Ret) :
    (replyBytes stack (reply ret)).load32 8 = (scratchOf stack).word ret.truncated := by
  cases ret with
  | unset =>
    simp (disch := omega) only [replyBytes, reply, scratchOf, Ret.truncated, Scratch.word,
      Mem.load32_store32_of_disjoint]
  | byte cat =>
    simp (disch := omega) only [replyBytes, reply, scratchOf, Ret.truncated, Scratch.word,
      load32_store8_low, Mem.load32_store32_of_disjoint]
  | word v =>
    have hv : v % wordSize < 4294967296 := Nat.mod_lt _ (by decide)
    simp only [replyBytes, reply, Ret.truncated, Scratch.word]
    rw [← store32_mod]
    exact Mem.load32_store32_self _ _ _ hv
  | word64 x =>
    simp (disch := omega) only [replyBytes, reply, scratchOf, Ret.truncated, Scratch.word,
      load32_storeLabel_of_disjoint, Mem.load32_store32_of_disjoint]

theorem labelAt_store8_of_disjoint (m : Mem) (off a : Nat) (v : UInt8) (h : off < a) :
    labelAt (m.store8 off v) a = labelAt m a := by
  funext i
  simp only [labelAt, Mem.store8]
  rw [if_neg (by omega)]

theorem replyBytes_word64 (stack : Mem) (ret : Ret) :
    labelAt (replyBytes stack (reply ret)) 12 = (scratchOf stack).word64 ret.truncated := by
  cases ret <;>
    simp (disch := omega) only [replyBytes, reply, scratchOf, Ret.truncated, Scratch.word64,
      labelAt_storeLabel_self, labelAt_store8_of_disjoint, labelAt_store32_of_disjoint]

/-- The wrapper reads the field that was set, or what the arbiter's stack held. -/
theorem replyField_reply (stack : Mem) (ret : Ret) (op : Opcode) :
    replyField (replyBytes stack (reply ret)) op =
      wrapperReads (scratchOf stack) ret.truncated op := by
  cases op <;>
    simp only [replyField, wrapperReads, replyBytes_word, replyBytes_word64, ← load32_mod_256]

/-- A reply passes the tests of the wrapper. -/
theorem replyBytes_header (stack : Mem) (ret : Ret) :
    (replyBytes stack (reply ret)).load32 0 = rpcMagic ∧
      (replyBytes stack (reply ret)).load32 4 = 20 := by
  have hmagic : rpcMagic < 4294967296 := by decide
  cases ret <;>
    simp (disch := omega) only [replyBytes, reply, load32_storeLabel_of_disjoint,
      Mem.load32_store8_of_disjoint, Mem.load32_store32_of_disjoint, Mem.load32_store32_self,
      and_self]

/-! ### There and back -/

/-- One call, with the arbiter to itself: the request is sent, handled and answered.
    The buffers and the two stacks hold what they hold. -/
def exchange (ops : KernelOps K) (data addr stack stack' : Mem) (i : UInt32) (call : ApiCall) :
    HeapM K (Option Field) := do
  let rply ← handleClientRpc ops (receive data addr (call.datagram i.toNat stack))
  pure (rply.map fun r => replyField (replyBytes stack' r) call.opcode)

theorem RpcRun.addressed {ops : KernelOps K} {Ok : Request → State K → Prop} {s₀ s : State K}
    (h₀ : Addressed s₀.clients) (hrun : RpcRun ops Ok s₀ s) : Addressed s.clients := by
  induction hrun with
  | start => exact h₀
  | step req _ _ ret ih => exact ih.step (tableStep_of_ok ret)

/-- After any requests whatsoever, a call has the effect that `serve` has on its
    arguments, and the wrapper reads what the handler has set. The rest of the buffers and
    the client's stack make no difference, and the arbiter's stack only where nothing was
    set. -/
theorem exchange_eq_serve (ops : KernelOps K) (k : K) (pid : Nat) (L : Label) (O : Own)
    (hpid : pid < wordSize) (s : State K)
    (hrun : RpcRun ops (fun _ _ => True) (State.start k [initFirstChild pid L O]) s)
    (data addr stack stack' : Mem) (i : UInt32) (call : ApiCall) :
    exchange ops data addr stack stack' i call s =
      match s.clients.find? (cmpClientPid i.toNat) with
      | none => .ok none s
      | some c => (do
          let ret ← serve ops c call
          pure (some (wrapperReads (scratchOf stack') ret.truncated call.opcode)) :
            HeapM K (Option Field)) s := by
  have htable := hrun.addressed (registryInv_first pid L O hpid).addressed
  cases hc : s.clients.find? (cmpClientPid i.toNat) with
  | none =>
    simp only [exchange, bind, EStateM.bind,
      handleClientRpc_unknown ops htable i.toNat_lt hc]
    rfl
  | some c =>
    simp only [exchange, bind, EStateM.bind,
      handleClientRpc_marshal ops htable i.toNat_lt hc]
    cases serve ops c call s with
    | ok ret s' => exact congrArg (EStateM.Result.ok · s') (congrArg some (replyField_reply ..))
    | error e s' => rfl

/-- Process 7 asks for its label, with something else in every buffer. -/
theorem exchange_eq_serve_label :
    exchange generousKernel (fun _ => 0xAA) (fun _ => 0x2F) (fun _ => 0x55) (fun _ => 0x77) 7
        .getLabel (State.start () [initFirstChild 7 (fun _ => 3) (fun _ => 0)]) =
      .ok (some (.word64 fun _ => 3))
        (State.start () [initFirstChild 7 (fun _ => 3) (fun _ => 0)]) :=
  exchange_eq_serve generousKernel () 7 (fun _ => 3) (fun _ => 0) (by decide) _ .start _ _ _ _ 7
    .getLabel

end ArbiterThread
