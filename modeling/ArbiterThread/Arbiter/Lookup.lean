import ArbiterThread.Arbiter.Registry

/-!
# The Two Lookups

`arbiter_lookup_client` finds a descriptor by a socket address and
`arbiter_lookup_client_pid` by a process id.

The socket address of a descriptor is kept in a buffer of 256 bytes. A `FORK`
copies all of the sender's address there first and then prints the new path over
it, so what follows the path is left from the sender, or from whatever the memory
held before. The comparison stops at the byte that ends a path, and the length
was counted up to that byte, so none of this is ever looked at. With the decimal
rendering being injective, a descriptor is found by the address of a process
exactly if it is found by its id.

The buffers are modelled here as they are. `ClientRecord.desc` forgets them, and
every run of the arbiter is one of these.

## Main definitions

* `ClientRecord`: A descriptor with its buffer.
* `ClientRecord.named`: The address printed over what was there.
* `strlenUpTo`: The length of a string in a buffer.
* `arbiterLookupClient`, `arbiterLookupClientPid`: The lookups.
* `KeyRun`: Tables made by `init_first_child`, `FORK` and `PTHREAD_JOIN`.

## Theorems

* `KeyRun.named`: What every table keeps.
* `RpcRun.keyed`: The tables of the arbiter are among these.
* `lookups_agree`: The two lookups find the same descriptor.
-/

namespace ArbiterThread

open Exec

variable {K : Type}

/-! ### Strings in buffers -/

/-- `strlen` of a buffer of `n` bytes. -/
def strlenUpTo : Nat → Mem → Nat
  | 0, _ => 0
  | n + 1, a => if a 0 = 0 then 0 else strlenUpTo n (fun i => a (i + 1)) + 1

/-- Bytes written to a buffer. -/
def writeAt (m : Mem) (off : Nat) (bs : List UInt8) : Mem := fun i =>
  if off ≤ i ∧ i < off + bs.length then bs.getD (i - off) 0 else m i

/-- The buffer begins with the bytes given. -/
def Begins (m : Mem) (bs : List UInt8) : Prop := ∀ i, i < bs.length → m i = bs.getD i 0

/-! ### Descriptors -/

/-- The path printed for a process. -/
def clientPathOf (pid : Nat) : List UInt8 :=
  ("/tmp/abt_client_" ++ toString (asInt pid)).toList.map fun ch => UInt8.ofNat ch.toNat

/-- A `client_desc`, with the buffer its address is in. -/
structure ClientRecord where
  unixAddr : Mem
  addrLen : Nat
  pid : Nat
  label : Label
  ownership : Own

/-- The family, the path and the length are written over what was there. -/
def ClientRecord.named (c : ClientRecord) : ClientRecord :=
  let addr := writeAt (writeAt c.unixAddr 0 [1, 0]) 2 (clientPathOf c.pid ++ [0])
  { c with
    unixAddr := addr
    addrLen := 2 + strlenUpTo 108 (fun i => addr (i + 2)) + 1 }

/-- `init_first_child`. Only the first word of the descriptor is cleared. -/
def initFirstRecord (junk : ClientRecord) (pid : Nat) : ClientRecord :=
  ClientRecord.named { junk with pid := pid }

/-- The descriptor of a `FORK`, which begins as a copy of the sender's address. -/
def forkedRecord (req : Request) : ClientRecord :=
  ClientRecord.named
    { unixAddr := req.clientAddr
      addrLen := req.clientAddrLen
      pid := req.data.load32 28
      label := labelAt req.data 12
      ownership := labelAt req.data 20 }

def cmpClientRecord (unixAddr : Mem) (len : Nat) (c : ClientRecord) : Bool :=
  len = c.addrLen ∧ [unixAddr 0, unixAddr 1] = [c.unixAddr 0, c.unixAddr 1] ∧
    strncmp len (fun i => unixAddr (i + 2)) (fun i => c.unixAddr (i + 2))

def cmpRecordPid (pid : Nat) (c : ClientRecord) : Bool := c.pid = pid

def arbiterLookupClient (table : List ClientRecord) (unixAddr : Mem) (addrLen : Nat) :
    Option ClientRecord :=
  table.find? (cmpClientRecord unixAddr addrLen)

def arbiterLookupClientPid (table : List ClientRecord) (pid : Nat) : Option ClientRecord :=
  table.find? (cmpRecordPid pid)

/-- Tables made by `init_first_child`, `FORK` and `PTHREAD_JOIN`. Labels and
    ownerships can change in place. -/
inductive KeyRun : List ClientRecord → Prop
  | empty : KeyRun []
  | init {table : List ClientRecord} (junk : ClientRecord) (pid : Nat) (before : KeyRun table)
      (word : pid < wordSize) : KeyRun (table ++ [initFirstRecord junk pid])
  | fork {table : List ClientRecord} (req : Request) (before : KeyRun table) :
      KeyRun (table ++ [forkedRecord req])
  | join {table : List ClientRecord} (pid : Nat) (before : KeyRun table) :
      KeyRun (table.eraseP (cmpRecordPid pid))
  | grant {table : List ClientRecord} (i : Nat) {c : ClientRecord} (label : Label)
      (ownership : Own) (before : KeyRun table) (at_ : table[i]? = some c) :
      KeyRun (table.set i { c with label := label, ownership := ownership })

/-! ### Comparing paths -/

theorem begins_cons {m : Mem} {b : UInt8} {bs : List UInt8} :
    Begins m (b :: bs) ↔ m 0 = b ∧ Begins (fun i => m (i + 1)) bs := by
  constructor
  · exact fun h => ⟨h 0 (by simp), fun i hi => h (i + 1) (by simpa using hi)⟩
  · rintro ⟨h0, h⟩ i hi
    cases i with
    | zero => exact h0
    | succ i => exact h i (by simpa using hi)

/-- A buffer is found equal to one that holds a string exactly if it begins with the
    string, and with the byte that ends it. -/
theorem strncmp_eq_true_iff {bs : List UInt8} (hbs : ∀ x ∈ bs, x ≠ 0) {n : Nat} {a b : Mem}
    (hb : Begins b (bs ++ [0])) (hn : bs.length < n) :
    strncmp n a b = true ↔ Begins a (bs ++ [0]) := by
  obtain ⟨n, rfl⟩ : ∃ k, n = k + 1 := ⟨n - 1, by omega⟩
  induction bs generalizing n a b with
  | nil =>
    rw [List.nil_append, begins_cons] at hb ⊢
    by_cases h0 : a 0 = 0 <;> simp [strncmp, hb.1, h0, Begins]
  | cons c bs ih =>
    rw [List.cons_append, begins_cons] at hb ⊢
    rw [List.length_cons] at hn
    obtain ⟨n, rfl⟩ : ∃ k, n = k + 1 := ⟨n - 1, by omega⟩
    have hrest := ih (a := fun i => a (i + 1)) (fun x hx => hbs x (List.mem_cons_of_mem _ hx))
      hb.2 n (by omega)
    rw [strncmp, hb.1, ← hrest]
    -- the string goes on behind its first byte, which is not zero
    by_cases h0 : a 0 = c
    · simp [h0, hbs c List.mem_cons_self]
    · simp [h0]

/-- A buffer begins with one string at most. -/
theorem Begins.string_unique {xs ys : List UInt8} (hx : ∀ x ∈ xs, x ≠ 0) (hy : ∀ y ∈ ys, y ≠ 0)
    {m : Mem} (h : Begins m (xs ++ [0])) (h' : Begins m (ys ++ [0])) : xs = ys := by
  induction xs generalizing ys m with
  | nil =>
    cases ys with
    | nil => rfl
    | cons y ys =>
      rw [List.nil_append, begins_cons] at h
      rw [List.cons_append, begins_cons] at h'
      exact absurd (h'.1.symm.trans h.1) (hy y List.mem_cons_self)
  | cons x xs ih =>
    rw [List.cons_append, begins_cons] at h
    cases ys with
    | nil =>
      rw [List.nil_append, begins_cons] at h'
      exact absurd (h.1.symm.trans h'.1) (hx x List.mem_cons_self)
    | cons y ys =>
      rw [List.cons_append, begins_cons] at h'
      rw [h.1.symm.trans h'.1, ih (fun z hz => hx z (List.mem_cons_of_mem _ hz))
        (fun z hz => hy z (List.mem_cons_of_mem _ hz)) h.2 h'.2]

theorem strlenUpTo_eq (xs : List UInt8) {n : Nat} {a : Mem} (hx : ∀ x ∈ xs, x ≠ 0)
    (ha : Begins a (xs ++ [0])) (hn : xs.length < n) : strlenUpTo n a = xs.length := by
  induction xs generalizing n a with
  | nil =>
    obtain ⟨n, rfl⟩ : ∃ k, n = k + 1 := ⟨n - 1, by simp at hn; omega⟩
    have ha0 : a 0 = 0 := ha 0 (by simp)
    simp only [strlenUpTo, ha0, if_true, List.length_nil]
  | cons x xs ih =>
    obtain ⟨n, rfl⟩ : ∃ k, n = k + 1 := ⟨n - 1, by simp at hn; omega⟩
    have ha0 : a 0 = x := ha 0 (by simp)
    have hrest := ih (fun z hz => hx z (List.mem_cons_of_mem _ hz)) (a := fun i => a (i + 1))
      (fun i hi => ha (i + 1) (by simp only [List.length_append, List.length_cons] at hi ⊢; omega))
      (by simp only [List.length_cons] at hn; omega : xs.length < n)
    rw [strlenUpTo, ha0, if_neg (hx x List.mem_cons_self), hrest, List.length_cons]

/-! ### The path of a process -/

theorem clientAddrOf_eq (pid : Nat) : clientAddrOf pid = [1, 0] ++ (clientPathOf pid ++ [0]) :=
  List.append_assoc ..

/-- No byte of a path ends it. -/
theorem clientPathOf_ne_zero {pid : Nat} {b : UInt8} (hb : b ∈ clientPathOf pid) : b ≠ 0 := by
  obtain ⟨ch, hch, rfl⟩ := List.mem_map.mp hb
  have hascii : 0 < ch.toNat ∧ ch.toNat < 128 := by
    rw [String.toList_append, List.mem_append] at hch
    rcases hch with hch | hch
    · have hall : ∀ c ∈ "/tmp/abt_client_".toList, 0 < c.toNat ∧ c.toNat < 128 := by
        simp
      exact hall ch hch
    · exact ascii_of_mem_repr hch
  intro hzero
  have hval := congrArg UInt8.toNat hzero
  rw [UInt8.toNat_ofNat_of_lt' (Nat.lt_trans hascii.2 (by decide))] at hval
  change ch.toNat = 0 at hval
  omega

/-- A path fits into the buffer. -/
theorem clientPathOf_length {pid : Nat} (hpid : pid < wordSize) :
    (clientPathOf pid).length < 108 := by
  unfold wordSize at hpid
  have hnat : ∀ m : Nat, m ≤ 4294967296 → m.repr.toList.length ≤ 10 := by
    intro m hm
    rw [Nat.toList_repr]
    exact Nat.toDigits_length 10 m 10 (by omega) (by norm_num; omega)
  have hprint : (asInt pid).repr.toList.length ≤ 11 := by
    unfold asInt
    split
    · exact (hnat pid (by omega)).trans (by omega)
    · rename_i hlarge
      obtain ⟨k, hk, hneg⟩ : ∃ k, k < 4294967296 ∧ (pid : Int) - 4294967296 = Int.negSucc k :=
        ⟨4294967296 - pid - 1, by omega, by omega⟩
      rw [hneg]
      change ("-" ++ (k + 1).repr).toList.length ≤ 11
      rw [String.toList_append, List.length_append]
      have hlen := hnat (k + 1) (by omega)
      have hsign : "-".toList.length = 1 := rfl
      omega
  unfold clientPathOf
  rw [List.length_map, String.toList_append, List.length_append]
  have hdir : "/tmp/abt_client_".toList.length = 16 := rfl
  change _ + (asInt pid).repr.toList.length < 108
  omega

/-! ### Descriptors that were named -/

/-- The buffer begins with the address of the process, and the length is its. -/
structure Named (c : ClientRecord) : Prop where
  addr : Begins c.unixAddr (clientAddrOf c.pid)
  len : c.addrLen = (clientAddrOf c.pid).length
  word : c.pid < wordSize

/-- The path in a buffer that begins with an address. -/
theorem Begins.path {m : Mem} {pid : Nat} (h : Begins m (clientAddrOf pid)) :
    Begins (fun i => m (i + 2)) (clientPathOf pid ++ [0]) := by
  rw [clientAddrOf_eq] at h
  intro i hi
  refine h (i + 2) ?_
  simp only [List.length_append, List.length_cons, List.length_nil] at hi ⊢
  omega

theorem ClientRecord.named_named (c : ClientRecord) (hword : c.pid < wordSize) : Named c.named := by
  have haddr : Begins c.named.unixAddr (clientAddrOf c.pid) := by
    rw [clientAddrOf_eq]
    intro i hi
    have hlen : ([1, 0] ++ (clientPathOf c.pid ++ [0])).length =
        2 + (clientPathOf c.pid ++ [0]).length := by
      rw [List.length_append]
      rfl
    rw [hlen] at hi
    change writeAt (writeAt c.unixAddr 0 [1, 0]) 2 (clientPathOf c.pid ++ [0]) i = _
    unfold writeAt
    by_cases hpath : 2 ≤ i
    · rw [if_pos ⟨hpath, hi⟩]
      exact (List.getD_append_right [1, 0] (clientPathOf c.pid ++ [0]) 0 i hpath).symm
    · have hshort : i < ([1, 0] : List UInt8).length := by
        change i < 2
        omega
      rw [if_neg (fun hc => hpath hc.1), if_pos ⟨Nat.zero_le i, by rwa [Nat.zero_add]⟩]
      exact (List.getD_append [1, 0] (clientPathOf c.pid ++ [0]) 0 i hshort).symm
  refine ⟨haddr, ?_, hword⟩
  change 2 + strlenUpTo 108 (fun i => c.named.unixAddr (i + 2)) + 1 = (clientAddrOf c.pid).length
  rw [strlenUpTo_eq (clientPathOf c.pid) (fun _ hb => clientPathOf_ne_zero hb) haddr.path
    (clientPathOf_length hword), clientAddrOf_eq, List.length_append, List.length_append]
  change 2 + _ + 1 = 2 + (_ + 1)
  omega

/-- Every table has named descriptors only. -/
theorem KeyRun.named {table : List ClientRecord} (h : KeyRun table) : ∀ c ∈ table, Named c := by
  induction h with
  | empty => exact fun c hc => absurd hc List.not_mem_nil
  | init junk pid _ word ih =>
    intro c hc
    rcases List.mem_append.mp hc with hc | hc
    · exact ih c hc
    · rw [List.mem_singleton.mp hc]
      exact ClientRecord.named_named _ word
  | fork req _ ih =>
    intro c hc
    rcases List.mem_append.mp hc with hc | hc
    · exact ih c hc
    · rw [List.mem_singleton.mp hc]
      exact ClientRecord.named_named _ (Mem.load32_lt _ _)
  | join pid _ ih => exact fun c hc => ih c (List.mem_of_mem_eraseP hc)
  | grant i label ownership _ at_ ih =>
    intro c hc
    rcases List.mem_or_eq_of_mem_set hc with hc | rfl
    · exact ih c hc
    · have hnamed := ih _ (List.mem_of_getElem? at_)
      exact ⟨hnamed.addr, hnamed.len, hnamed.word⟩

/-- A descriptor is found by the address of a process exactly if it is found by
    its id. -/
theorem Named.cmp_eq {c : ClientRecord} (h : Named c) {p : Nat} (hp : p < wordSize) {addr : Mem}
    (haddr : Begins addr (clientAddrOf p)) :
    cmpClientRecord addr (clientAddrOf p).length c = cmpRecordPid p c := by
  have hfamily : ∀ {m : Mem} {pid : Nat}, Begins m (clientAddrOf pid) → m 0 = 1 ∧ m 1 = 0 := by
    intro m pid hm
    rw [clientAddrOf_eq] at hm
    exact ⟨hm 0 (by simp), hm 1 (by simp)⟩
  have hlong : (clientPathOf c.pid).length < (clientAddrOf c.pid).length := by
    rw [clientAddrOf_eq]
    simp only [List.length_append, List.length_cons, List.length_nil]
    omega
  have hpath (hlen : (clientAddrOf p).length = (clientAddrOf c.pid).length) :=
    strncmp_eq_true_iff (a := fun i => addr (i + 2)) (fun _ hb => clientPathOf_ne_zero hb)
      h.addr.path (hlong.trans_eq hlen.symm)
  unfold cmpClientRecord cmpRecordPid
  rw [decide_eq_decide, (hfamily haddr).1, (hfamily haddr).2, (hfamily h.addr).1,
    (hfamily h.addr).2, h.len]
  constructor
  · rintro ⟨hlen, -, heq⟩
    refine clientAddrOf_inj h.word hp ?_
    rw [clientAddrOf_eq, clientAddrOf_eq, haddr.path.string_unique
      (fun _ hb => clientPathOf_ne_zero hb) (fun _ hb => clientPathOf_ne_zero hb)
      ((hpath hlen).mp heq)]
  · rintro rfl
    exact ⟨rfl, rfl, (hpath rfl).mpr haddr.path⟩

/-! ### Runs of the arbiter -/

/-- The descriptor without what follows the address in its buffer. -/
def ClientRecord.desc (c : ClientRecord) : ClientDesc :=
  ⟨(List.range c.addrLen).map fun i => c.unixAddr i, c.pid, c.label, c.ownership⟩

theorem Named.desc_addr {c : ClientRecord} (h : Named c) :
    c.desc.unixAddr = clientAddrOf c.pid := by
  change (List.range c.addrLen).map (fun i => c.unixAddr i) = clientAddrOf c.pid
  refine List.ext_getElem ?_ (fun i hi hi' => ?_)
  · rw [List.length_map, List.length_range, h.len]
  · rw [List.getElem_map, List.getElem_range, h.addr i hi', List.getD_eq_getElem _ _ hi']

theorem Named.desc_eq {c : ClientRecord} (h : Named c) :
    c.desc = ⟨clientAddrOf c.pid, c.pid, c.label, c.ownership⟩ := by
  rw [← h.desc_addr]
  rfl

/-- What becomes of a table when a request changes the one without buffers. -/
theorem TableStep.keyed {req : Request} {s : State K} {rply : Option Reply}
    {clients : List ClientDesc} (h : TableStep req s rply clients) {table : List ClientRecord}
    (hrun : KeyRun table) (hdesc : table.map ClientRecord.desc = s.clients) :
    ∃ table', KeyRun table' ∧ table'.map ClientRecord.desc = clients := by
  cases h with
  | same _ => exact ⟨table, hrun, hdesc⟩
  | @granted c reach room =>
    -- the descriptor is the one the lookup by address has found
    have hfound := reach.2.1
    rw [List.find?_eq_getElem?_findIdx, ← hdesc, List.getElem?_map,
      Option.map_eq_some_iff] at hfound
    obtain ⟨r, hr, rfl⟩ := hfound
    rw [hdesc] at hr
    refine ⟨_, .grant _ r.label (ArbiterThread.granted r.ownership s.catGen (req.data 12)).1 hrun
      hr, ?_⟩
    rw [List.map_set, hdesc]
    rfl
  | forked reach allowed =>
    have hnamed : Named (forkedRecord req) := ClientRecord.named_named _ (Mem.load32_lt _ _)
    refine ⟨table ++ [forkedRecord req], .fork req hrun, ?_⟩
    rw [List.map_append, hdesc, List.map_singleton, hnamed.desc_eq]
    rfl
  | joined reach found =>
    refine ⟨table.eraseP (cmpRecordPid (req.data.load32 12)), .join _ hrun, ?_⟩
    rw [← hdesc, List.eraseP_map]
    rfl

/-- The tables of the arbiter's runs are among these, with the buffers forgotten. -/
theorem RpcRun.keyed {ops : KernelOps K} {Ok : Request → State K → Prop} {k : K} {pid : Nat}
    {L : Label} {O : Own} (hpid : pid < wordSize) {s : State K}
    (h : RpcRun ops Ok (State.start k [initFirstChild pid L O]) s) :
    ∃ table, KeyRun table ∧ table.map ClientRecord.desc = s.clients := by
  induction h with
  | start =>
    let junk : ClientRecord := ⟨fun _ => 0, 0, 0, L, O⟩
    have hnamed : Named (initFirstRecord junk pid) := ClientRecord.named_named _ hpid
    refine ⟨[initFirstRecord junk pid], .init junk pid .empty hpid, ?_⟩
    rw [List.map_singleton, hnamed.desc_eq]
    rfl
  | step req _ _ ret ih =>
    obtain ⟨table, hrun, hdesc⟩ := ih
    exact (tableStep_of_ok ret).keyed hrun hdesc

/-! ### The two lookups -/

/-- For every table and process, the two lookups find the same descriptor, which
    is at the same place, or both find none. -/
theorem lookups_agree {table : List ClientRecord} (h : KeyRun table) {p : Nat} (hp : p < wordSize)
    {addr : Mem} (haddr : Begins addr (clientAddrOf p)) :
    arbiterLookupClient table addr (clientAddrOf p).length = arbiterLookupClientPid table p ∧
      table.findIdx? (cmpClientRecord addr (clientAddrOf p).length) =
        table.findIdx? (cmpRecordPid p) := by
  have hcmp : ∀ c ∈ table, cmpClientRecord addr (clientAddrOf p).length c = cmpRecordPid p c :=
    fun c hc => (h.named c hc).cmp_eq hp haddr
  unfold arbiterLookupClient arbiterLookupClientPid
  clear h
  induction table with
  | nil => exact ⟨rfl, rfl⟩
  | cons c table ih =>
    have hrest := ih (fun c' hc' => hcmp c' (List.mem_cons_of_mem _ hc'))
    rw [List.find?_cons, List.find?_cons, List.findIdx?_cons, List.findIdx?_cons,
      hcmp c List.mem_cons_self, hrest.1, hrest.2]
    exact ⟨rfl, rfl⟩

/-- A table in which process 7 has registered process 9 twice. -/
def table799 : List ClientRecord :=
  [initFirstRecord ⟨fun _ => 0, 0, 0, fun _ => 0, fun _ => 0⟩ 7, forkedRecord fork9,
    forkedRecord fork9]

/-- Both lookups find the first of the two descriptors of process 9. -/
theorem lookups_agree_799 :
    arbiterLookupClientPid table799 9 = some (forkedRecord fork9) ∧
      arbiterLookupClient table799 (fun i => (clientAddrOf 9).getD i 0) (clientAddrOf 9).length =
        some (forkedRecord fork9) := by
  have hrun : KeyRun table799 := .fork fork9 (.fork fork9 (.init _ 7 .empty (by decide)))
  have hpid : arbiterLookupClientPid table799 9 = some (forkedRecord fork9) := rfl
  refine ⟨hpid, ?_⟩
  rw [(lookups_agree hrun (by decide) fun _ _ => rfl).1, hpid]

end ArbiterThread
