import ArbiterThread.Malloc.Quiet
import ArbiterThread.Arbiter.Rpc

/-!
# Categories

What clients get for their `CREATE_CAT` requests, over whole runs of the
arbiter.

The generator is a byte that is counted up at each request. Its low seven bits
are OR-ed with whatever type byte the request carries, and it goes on counting
when they are used up: the error value `0xFF` is added to the ownership and
returned like a category, and after 255 requests the count starts again.

## Main definitions

* `returned`: The category a request was answered with.
* `CatRun`: Runs of the arbiter with the categories returned so far.
* `CatsOk`: These are proper categories and pairwise different.
* `CatOk`: The request does not exhaust the generator and its type byte adds
  nothing to the identifier.

## Theorems

* `dispatch_table`: Requests about memory leave clients and generator alone.
* `catGen_step`: What a request does to the generator.
* `categories_fresh`: In runs whose requests meet the condition, categories are
  fresh.
* `categories_fresh_fails`: Two requests that get the same category.
-/

namespace ArbiterThread

open Exec

variable {K : Type}

/-! ### Bits of a category -/

theorem or_and_distrib (a b c : Cat) : (a ||| b) &&& c = (a &&& c) ||| (b &&& c) := by
  apply UInt8.toBitVec_inj.mp
  simp only [UInt8.toBitVec_and, UInt8.toBitVec_or]
  ext i hi
  simp only [BitVec.getElem_and, BitVec.getElem_or, Bool.and_or_distrib_right]

/-- The identifier does not reach into the type bit. -/
theorem getCatType_or_id (t g : Cat) : getCatType (t ||| (g &&& 0x7F)) = getCatType t := by
  unfold getCatType
  rw [or_and_distrib, UInt8.and_assoc]
  change t &&& 128 ||| g &&& 0 = t &&& 128
  rw [UInt8.and_zero, UInt8.or_zero]

theorem id_of_lt {g : Cat} (h : g < 127) :
    (g + 1).toNat = g.toNat + 1 ∧ (g + 1) &&& 0x7F = g + 1 ∧ ¬ 0x80 ≤ g + 1 := by
  have hlt : g.toNat < 127 := UInt8.lt_iff_toNat_lt.mp h
  have hsucc : (g + 1).toNat = g.toNat + 1 := by
    rw [UInt8.toNat_add]
    change (g.toNat + 1) % 256 = _
    omega
  have hmask : ∀ n < 127, (UInt8.ofNat n + 1) &&& 0x7F = UInt8.ofNat n + 1 := by decide
  have hg := hmask g.toNat hlt
  rw [UInt8.ofNat_toNat] at hg
  refine ⟨hsucc, hg, ?_⟩
  rw [UInt8.le_iff_toNat_le, hsucc]
  change ¬ 128 ≤ _
  omega

/-! ### One request -/

/-- If the request asks for a category, then the identifiers are not used up, and
    the type byte has no bit of an identifier that is not in the next one. -/
def CatOk (req : Request) (s : State K) : Prop :=
  ∀ c, Reaches req s c .createCat →
    s.catGen < 127 ∧ (req.data 12 ||| (s.catGen + 1)) &&& 0x7F = s.catGen + 1

/-- The type asked for and the category returned, if the reply holds one. -/
def returned (req : Request) : Option Reply → List (Cat × Cat)
  | some ⟨_, _, .byte cat⟩ => [(req.data 12, cat)]
  | _ => []

theorem addLoop_snd (O : Own) (cat : Cat) (is : List (Fin 8)) :
    (addLoop O cat is).2 = cat ∨ (addLoop O cat is).2 = 0 := by
  induction is with
  | nil => exact Or.inr rfl
  | cons i is ih =>
    unfold addLoop
    split
    · exact ih
    · exact Or.inl rfl

/-- What was added is the category that was made. -/
theorem granted_snd {O : Own} {g t : Cat} (h : (granted O g t).2 ≠ 0) :
    (granted O g t).2 = (createCat g t).2 :=
  (addLoop_snd O _ _).resolve_right h

/-- The handlers of requests about memory, and those that only answer, leave clients
    and generator alone and return no category. -/
theorem dispatch_table (ops : KernelOps K) (c : ClientDesc) (req : Request) {op : Opcode}
    (hop : op ≠ .createCat ∧ op ≠ .fork ∧ op ≠ .pthreadJoin) (s : State K) :
    wp (dispatch ops c req op)
      (fun rply s' => s'.clients = s.clients ∧ s'.catGen = s.catGen ∧
        returned req (some rply) = [])
      (fun _ _ => True) s := by
  -- the heap's functions touch neither the table nor the generator
  have htable : ∀ {α : Type} {x : HeapM K α} (f : α → Ret), Tabled x →
      (∀ a, returned req (some (reply (f a))) = []) →
      wp x (fun a s' => s'.clients = s.clients ∧ s'.catGen = s.catGen ∧
        returned req (some (reply (f a))) = []) (fun _ _ => True) s := by
    intro α x f hx hf
    refine wp_mono (hx s) (fun a s' h => ⟨?_, ?_, hf a⟩) (fun _ _ _ => trivial)
    · exact congrArg (fun t => t.1) h
    · exact congrArg (fun t => t.2.1) h
  cases op with
  | createCat => exact absurd rfl hop.1
  | fork => exact absurd rfl hop.2.1
  | pthreadJoin => exact absurd rfl hop.2.2
  | malloc =>
    change wp (handleMallocRpc ops c req) _ _ s
    rw [wp_handleMallocRpc]
    split
    · exact ⟨rfl, rfl, rfl⟩
    · exact htable Ret.word (tabled_ablibMalloc ops _ _ _) (fun _ => rfl)
  | free =>
    change wp (handleFreeRpc ops c req) _ _ s
    rw [wp_handleFreeRpc]
    split
    · trivial
    · split
      · exact ⟨rfl, rfl, rfl⟩
      · exact htable (fun _ => Ret.unset) (tabled_ablibFree ops _ _) (fun _ => rfl)
  | getLabel => exact (wp_pure ..).mpr ⟨rfl, rfl, rfl⟩
  | getOwnership => exact (wp_pure ..).mpr ⟨rfl, rfl, rfl⟩
  | getMemLabel =>
    change wp (handleGetMemLabelRpc req) _ _ s
    rw [wp_handleGetMemLabelRpc]
    split
    · exact ⟨rfl, rfl, rfl⟩
    · trivial
  | calloc =>
    change wp (handleCallocRpc ops c req) _ _ s
    rw [wp_handleCallocRpc]
    split
    · exact ⟨rfl, rfl, rfl⟩
    · exact htable Ret.word (tabled_ablibCalloc ops _ _ _ _) (fun _ => rfl)
  | realloc =>
    change wp (handleReallocRpc ops c req) _ _ s
    rw [wp_handleReallocRpc]
    split
    · trivial
    · split
      · exact ⟨rfl, rfl, rfl⟩
      · exact htable Ret.word (tabled_ablibRealloc ops _ _ _ _) (fun _ => rfl)
  | rpc => exact (wp_pure ..).mpr ⟨rfl, rfl, rfl⟩

/-- The handlers besides that of `CREATE_CAT` leave the generator alone and
    return no category. -/
theorem wp_dispatch_catGen (ops : KernelOps K) (c : ClientDesc) (req : Request) {op : Opcode}
    (hop : op ≠ .createCat) (s : State K) :
    wp (dispatch ops c req op)
      (fun rply s' => s'.catGen = s.catGen ∧ returned req (some rply) = [])
      (fun _ _ => True) s := by
  by_cases hother : op ≠ .fork ∧ op ≠ .pthreadJoin
  · exact wp_imp (dispatch_table ops c req ⟨hop, hother⟩ s) (fun _ _ h => h.2)
  have hcases : op = .fork ∨ op = .pthreadJoin := by
    by_cases hfork : op = .fork
    · exact Or.inl hfork
    · exact Or.inr (not_not.mp (fun hjoin => hother ⟨hfork, hjoin⟩))
  rcases hcases with rfl | rfl
  · change wp (handleForkRpc ops c req) _ _ s
    rw [wp_handleForkRpc]
    split
    · exact ⟨rfl, rfl⟩
    · exact wp_mallocUpdate_of ⟨rfl, rfl⟩ trivial
  · change wp (handlePthreadJoinRpc c req) _ _ s
    rw [wp_handlePthreadJoinRpc]
    split
    · exact ⟨rfl, rfl⟩
    · split
      · exact ⟨rfl, rfl⟩
      · exact ⟨rfl, rfl⟩

/-- What a request does to the generator: nothing, unless it is a `CREATE_CAT`
    that is answered. -/
theorem catGen_step (ops : KernelOps K) (req : Request) (s : State K) :
    wp (handleClientRpc ops req)
      (fun rply s' =>
        (s'.catGen = s.catGen ∧ returned req rply = [] ∧
          (Opcode.decode (req.data.load32 8) = some .createCat → s'.clients = s.clients)) ∨
        (∃ c, Reaches req s c .createCat ∧ s'.catGen = (createCat s.catGen (req.data 12)).1 ∧
          (createCat s.catGen (req.data 12)).2 ≠ 0 ∧
          returned req rply = [(req.data 12, (createCat s.catGen (req.data 12)).2)]))
      (fun _ _ => True) s := by
  apply wp_handleClientRpc
  · intro _
    exact Or.inl ⟨rfl, rfl, fun _ => rfl⟩
  · intro c op hreach
    by_cases hop : op = .createCat
    · subst hop
      change wp (handleCreateCatRpc c req) _ _ s
      rw [wp_handleCreateCatRpc]
      split
      · rename_i hne
        have hcat := granted_snd hne
        rw [hcat] at hne ⊢
        exact Or.inr ⟨c, hreach, rfl, hne, rfl⟩
      · trivial
    · refine wp_imp (wp_dispatch_catGen ops c req hop s) ?_
      rintro rply s' ⟨hgen, hret⟩
      refine Or.inl ⟨hgen, hret, fun ho => ?_⟩
      rw [hreach.2.2] at ho
      cases ho
      exact absurd rfl hop

/-! ### Runs -/

/-- The runs of the arbiter in which every request meets `Ok`, with the
    categories returned so far. -/
inductive CatRun (ops : KernelOps K) (Ok : Request → State K → Prop) (s₀ : State K) :
    State K → List (Cat × Cat) → Prop
  | start : CatRun ops Ok s₀ s₀ []
  | step {s s' : State K} {hist : List (Cat × Cat)} {rply : Option Reply} (req : Request)
      (run : CatRun ops Ok s₀ s hist) (ok : Ok req s)
      (ret : handleClientRpc ops req s = .ok rply s') :
      CatRun ops Ok s₀ s' (hist ++ returned req rply)

/-- The categories returned are not zero, have the type asked for, and are
    pairwise different. -/
structure CatsOk (hist : List (Cat × Cat)) : Prop where
  nonzero : ∀ p ∈ hist, p.2 ≠ 0
  typed : ∀ p ∈ hist, getCatType p.2 = getCatType p.1
  fresh : (hist.map Prod.snd).Nodup

/-- What the runs keep: the count is the number of categories, and bounds their
    identifiers. -/
structure CatInv (s : State K) (hist : List (Cat × Cat)) : Prop extends CatsOk hist where
  count : s.catGen.toNat = hist.length
  bound : ∀ p ∈ hist, (p.2 &&& 0x7F).toNat ≤ s.catGen.toNat

/-- The next category, while there is one and the type byte does not interfere. -/
theorem createCat_of_ok {g t : Cat} (hlt : g < 127) (hbits : (t ||| (g + 1)) &&& 0x7F = g + 1) :
    (createCat g t).1 = g + 1 ∧ (createCat g t).2 &&& 0x7F = g + 1 ∧
      getCatType (createCat g t).2 = getCatType t := by
  obtain ⟨-, hmask, hnot⟩ := id_of_lt hlt
  have htype := getCatType_or_id t (g + 1)
  unfold createCat
  simp only [if_neg hnot]
  rw [hmask] at htype ⊢
  exact ⟨trivial, hbits, htype⟩

theorem CatInv.step {s s' : State K} {hist : List (Cat × Cat)} {req : Request}
    (h : CatInv s hist) (hok : CatOk req s) {c : ClientDesc} (hreach : Reaches req s c .createCat)
    (hgen : s'.catGen = (createCat s.catGen (req.data 12)).1)
    (hne : (createCat s.catGen (req.data 12)).2 ≠ 0) :
    CatInv s' (hist ++ [(req.data 12, (createCat s.catGen (req.data 12)).2)]) := by
  obtain ⟨hlt, hbits⟩ := hok c hreach
  obtain ⟨hnext, hid, htype⟩ := createCat_of_ok hlt hbits
  have hcount : s'.catGen.toNat = s.catGen.toNat + 1 := by
    rw [hgen, hnext, (id_of_lt hlt).1]
  have hmem : ∀ p ∈ hist ++ [(req.data 12, (createCat s.catGen (req.data 12)).2)],
      p ∈ hist ∨ p = (req.data 12, (createCat s.catGen (req.data 12)).2) := by
    intro p hp
    rw [List.mem_append, List.mem_singleton] at hp
    exact hp
  refine { nonzero := ?_, typed := ?_, fresh := ?_, count := ?_, bound := ?_ }
  · intro p hp
    rcases hmem p hp with hp | rfl
    · exact h.nonzero p hp
    · exact hne
  · intro p hp
    rcases hmem p hp with hp | rfl
    · exact h.typed p hp
    · exact htype
  · rw [List.map_append, List.map_singleton, List.nodup_append]
    refine ⟨h.fresh, List.nodup_singleton _, ?_⟩
    intro a ha b hb hab
    obtain ⟨p, hp, rfl⟩ := List.mem_map.mp ha
    rw [List.mem_singleton] at hb
    -- an earlier category has a smaller identifier
    have hbound := h.bound p hp
    rw [hab, hb, hid, (id_of_lt hlt).1] at hbound
    omega
  · rw [List.length_append, List.length_singleton, hcount, h.count]
  · intro p hp
    rcases hmem p hp with hp | rfl
    · have := h.bound p hp
      omega
    · rw [hid, (id_of_lt hlt).1, hcount]

theorem CatRun.inv {ops : KernelOps K} {kern : K} {clients : List ClientDesc} {s : State K}
    {hist : List (Cat × Cat)} (hrun : CatRun ops CatOk (State.start kern clients) s hist) :
    CatInv s hist := by
  induction hrun with
  | start => exact ⟨⟨by simp, by simp, List.nodup_nil⟩, rfl, by simp⟩
  | step req run ok ret ih =>
    have hstep := wp_run (catGen_step ops req _) ret
    rcases hstep with ⟨hgen, hnone, -⟩ | ⟨c, hreach, hgen, hne, hret⟩
    · rw [hnone, List.append_nil]
      exact ⟨ih.toCatsOk, hgen ▸ ih.count, hgen ▸ ih.bound⟩
    · rw [hret]
      exact ih.step ok hreach hgen hne

/-- In every run whose requests meet the condition, the categories returned are
    proper and fresh, and once the 127 identifiers are used up a request for
    another one returns nothing and changes no client. -/
theorem categories_fresh (ops : KernelOps K) (kern : K) (clients : List ClientDesc) (s : State K)
    (hist : List (Cat × Cat)) (hrun : CatRun ops CatOk (State.start kern clients) s hist) :
    CatsOk hist ∧
    ∀ req rply s', CatOk req s → handleClientRpc ops req s = .ok rply s' →
      127 ≤ hist.length → Opcode.decode (req.data.load32 8) = some .createCat →
      returned req rply = [] ∧ s'.clients = s.clients := by
  have hinv := hrun.inv
  refine ⟨hinv.toCatsOk, ?_⟩
  intro req rply s' hok hret hused hop
  have hstep := wp_run (catGen_step ops req s) hret
  rcases hstep with ⟨-, hnone, hclients⟩ | ⟨c, hreach, -⟩
  · exact ⟨hnone, hclients hop⟩
  · -- the condition keeps such a request away from the handler
    have hlt : s.catGen.toNat < 127 := UInt8.lt_iff_toNat_lt.mp (hok c hreach).1
    have hcount := hinv.count
    omega

/-- A `CREATE_CAT` request from the client with process id 7. -/
def createCatReq (t : Cat) : Request where
  pktSize := 13
  data := fun i => ([0xDE, 0xC0, 0xAB, 0, 13, 0, 0, 0, 4, 0, 0, 0, t] : List UInt8).getD i 0
  clientAddr := fun i => (clientAddrOf 7).getD i 0
  clientAddrLen := (clientAddrOf 7).length

/-- A client without label or ownership. -/
def client7 : ClientDesc := ⟨clientAddrOf 7, 7, fun _ => 0, fun _ => 0⟩

/-- Two requests in a row, and what they return. -/
theorem catRun_two {Ok : Request → State Unit → Prop} {t t' cat cat' : Cat}
    (h : wp (handleClientRpc generousKernel (createCatReq t))
      (fun rply s => s.catGen = 1 ∧ returned (createCatReq t) rply = [(t, cat)] ∧
        wp (handleClientRpc generousKernel (createCatReq t'))
          (fun rply' _ => returned (createCatReq t') rply' = [(t', cat')]) (fun _ _ => False) s)
      (fun _ _ => False) (State.start () [client7]))
    (hok : Ok (createCatReq t) (State.start () [client7]))
    (hok' : ∀ s, s.catGen = 1 → Ok (createCatReq t') s) :
    ∃ s, CatRun generousKernel Ok (State.start () [client7]) s [(t, cat), (t', cat')] := by
  obtain ⟨rply, s, hret, hgen, hfirst, hsecond⟩ := exists_ok h
  obtain ⟨rply', s', hret', hcat'⟩ := exists_ok hsecond
  refine ⟨s', ?_⟩
  have hrun := CatRun.step (createCatReq t') (CatRun.step (createCatReq t) .start hok hret)
    (hok' s hgen) hret'
  rw [hfirst, hcat'] at hrun
  exact hrun

/-- A secrecy and an integrity category. -/
theorem categories_fresh_two :
    ∃ s, CatRun generousKernel CatOk (State.start () [client7]) s
        [(catS, 0x01), (catI, 0x82)] ∧
      CatsOk [(catS, 0x01), (catI, 0x82)] := by
  have hrun : ∃ s, CatRun generousKernel CatOk (State.start () [client7]) s
      [(catS, 0x01), (catI, 0x82)] := by
    apply catRun_two
    · decide +kernel
    · intro c _
      decide
    · intro s hgen c _
      rw [hgen]
      decide
  obtain ⟨s, hrun⟩ := hrun
  exact ⟨s, hrun, (categories_fresh generousKernel () [client7] s _ hrun).1⟩

/-- Requests with the type bytes 3 and 1 both return category 3. -/
theorem categories_fresh_fails :
    ∃ s, CatRun generousKernel (fun _ _ => True) (State.start () [client7]) s [(3, 3), (1, 3)] ∧
      ¬ CatsOk [(3, 3), (1, 3)] := by
  have hrun : ∃ s, CatRun generousKernel (fun _ _ => True) (State.start () [client7]) s
      [(3, 3), (1, 3)] := by
    apply catRun_two
    · decide +kernel
    · trivial
    · exact fun _ _ => trivial
  obtain ⟨s, hrun⟩ := hrun
  refine ⟨s, hrun, fun h => ?_⟩
  exact absurd h.fresh (by decide)

end ArbiterThread
