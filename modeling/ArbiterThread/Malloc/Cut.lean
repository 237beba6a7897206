import ArbiterThread.Malloc.Bins
import Mathlib.Data.Finset.Card

/-!
# Handing Out a Chunk

A chunk that was found and taken out of its bin is handed out whole, or cut. In
the second case the rest becomes the only chunk of the unsorted list, whatever
the links of that list were before.

What this does to a caller is the same in both cases: one more chunk is in use,
it belongs to the right `malloc_state`, and it is large enough.

## Main definitions

* `FastsFrom`: No chunk has come to a fastbin.
* `Rearranged`: The chunks in use are the same.
* `Handed`: One more chunk is in use.
* `State.amend`: A change of the record of a `malloc_state`.
* `Heap.InHand`: A chunk that was taken out of its bin.

## Theorems

* `Tracks.amend`, `Body.amend`, `Rep.amend`: Changes of records.
* `Rep.exhaust`, `Rep.splitRemainder`: Handing out all or part of a chunk.
-/

namespace ArbiterThread

open Exec Rings

variable {K : Type}

/-! ### What a caller sees -/

/-- A chunk of a fastbin in `h'` was one in `h`, where it is in `h'`. -/
def FastsFrom (h h' : Heap) : Prop :=
  ∀ x, h'.size x ≠ 0 → h'.use x = .fast →
    h.size x = h'.size x ∧ h.unit x = h'.unit x ∧ h.use x = .fast

theorem FastsFrom.refl (h : Heap) : FastsFrom h h := fun _ _ huse => ⟨rfl, rfl, huse⟩

theorem FastsFrom.trans {h h' h'' : Heap} (h1 : FastsFrom h h') (h2 : FastsFrom h' h'') :
    FastsFrom h h'' := by
  intro x hx huse
  have hsecond := h2 x hx huse
  have hfirst := h1 x (by rw [hsecond.1]; exact hx) hsecond.2.2
  exact ⟨hfirst.1.trans hsecond.1, hfirst.2.1.trans hsecond.2.1, hfirst.2.2⟩

theorem FastsFrom.setUse (h : Heap) (p : Nat) {k : Use} (hk : k ≠ .fast) :
    FastsFrom h (h.setUse p k) := by
  intro x _ huse
  have hne : x ≠ p := by
    rintro rfl
    rw [Heap.setUse_use_self] at huse
    exact hk huse
  rw [Heap.setUse_use_of_ne _ _ _ hne] at huse
  exact ⟨rfl, rfl, huse⟩

/-- The chunks in use are the same. -/
structure Rearranged (h h' : Heap) : Prop where
  base : h'.base = h.base
  owner : h'.owner = h.owner
  live : h'.live = h.live
  wasFast : FastsFrom h h'

theorem Rearranged.refl (h : Heap) : Rearranged h h := ⟨rfl, rfl, rfl, .refl h⟩

theorem Rearranged.trans {h h' h'' : Heap} (h1 : Rearranged h h') (h2 : Rearranged h' h'') :
    Rearranged h h'' :=
  ⟨h2.base.trans h1.base, h2.owner.trans h1.owner, h2.live.trans h1.live,
    h1.wasFast.trans h2.wasFast⟩

/-- The chunk at `p`, of at least `nb` bytes and in a unit of `av`, is in use now
    and was not before. Nothing is to be kept of it. -/
structure Handed (h h' : Heap) (av nb p : Nat) : Prop where
  base : h'.base = h.base
  owner : h'.owner = h.owner
  fresh : h.live p = none
  live : ∃ z u, h'.live = Function.update h.live p (some (z, u, 0)) ∧
    (nb ≤ z ∧ z < nb + 16) ∧ h.owner u = av
  wasFast : FastsFrom h h'

theorem Rearranged.handed {h h' h'' : Heap} {av nb p : Nat} (h1 : Rearranged h h')
    (h2 : Handed h' h'' av nb p) : Handed h h'' av nb p := by
  rcases h2.live with ⟨z, u, hlive, hz, hu⟩
  refine ⟨h2.base.trans h1.base, h2.owner.trans h1.owner, h1.live ▸ h2.fresh,
    ⟨z, u, ?_, hz, ?_⟩, h1.wasFast.trans h2.wasFast⟩
  · rw [hlive, h1.live]
  · rw [← h1.owner]
    exact hu

/-! ### Records -/

/-- The `malloc_state` changed by `f`. -/
def State.amend (s : State K) (av : Nat) (f : Mstate → Mstate) : State K :=
  { s with mstates := Function.update s.mstates av (f (s.mstates av)) }

theorem wp_setMstate (av : Nat) (f : Mstate → Mstate) (Q : Unit → State K → Prop)
    (E : Fault → State K → Prop) (s : State K) :
    wp (setMstate av f) Q E s ↔ Q () (s.amend av f) :=
  wp_modify ..

section

variable {m₀ : Mem} {s : State K} {h h' : Heap} {av : Nat} {f : Mstate → Mstate}

theorem State.amend_self (s : State K) (av : Nat) (f : Mstate → Mstate) :
    (s.amend av f).mstates av = f (s.mstates av) :=
  Function.update_self ..

theorem State.amend_of_ne (s : State K) {av av' : Nat} (f : Mstate → Mstate) (hne : av' ≠ av) :
    (s.amend av f).mstates av' = s.mstates av' :=
  Function.update_of_ne hne _ _

/-- A `malloc_state` in use stays in use. -/
theorem active_amend (hactive : (f (s.mstates av)).maxFast ≠ 0 ↔ (s.mstates av).maxFast ≠ 0)
    (av' : Nat) : Active (s.amend av f) av' ↔ Active s av' := by
  unfold Active
  by_cases heq : av' = av
  · subst heq
    rw [State.amend_self]
    exact hactive
  · rw [State.amend_of_ne s f heq]

/-- An update of one `malloc_state`. -/
theorem Tracks.amend (t : Tracks s h) (hbase : h'.base = h.base) (htop : h'.top = h.top)
    (howner : h'.owner = h.owner) (hfasts : ∀ av' ≠ av, h'.fasts av' = h.fasts av')
    (hactive : (f (s.mstates av)).maxFast ≠ 0 ↔ (s.mstates av).maxFast ≠ 0)
    (hnew : Active s av → TracksMstate (s.amend av f) h' av) : Tracks (s.amend av f) h' := by
  refine ⟨?_, ?_, t.bounded, t.apart, ?_, t.limit⟩
  · rw [hbase, htop, howner]
    exact t.unit
  · intro u hu
    rw [active_amend hactive, howner]
    exact t.owner (hbase ▸ hu)
  · intro av' hav'
    rw [active_amend hactive] at hav'
    by_cases heq : av' = av
    · subst heq
      exact hnew hav'
    · have ht := t.mstate hav'
      refine ⟨ht.made, ?_, ?_, ?_, ?_, ?_⟩
      all_goals rw [State.amend_of_ne s f heq]
      · exact ht.maxFast
      · rw [hfasts av' heq]
        exact ht.fastbins
      · rw [hbase, howner]
        exact ht.units
      · exact ht.binmap
      · exact ht.binmapEnd

/-- An update of fields the heap does not depend on, or of the bit map. -/
theorem Body.amend (b : Body m₀ s h) (av : Nat)
    (hsame : ∀ m, (f m).maxFast = m.maxFast ∧ (f m).fastbins = m.fastbins ∧
      (f m).ustateList = m.ustateList)
    (hmap : Active s av → ∀ i, (f (s.mstates av)).binmap i < 4294967296 ∧
      (3 ≤ i → (f (s.mstates av)).binmap i = 0)) : Body m₀ (s.amend av f) h := by
  refine ⟨b.tidy, ?_, b.holds⟩
  refine b.tracks.amend rfl rfl rfl (fun _ _ => rfl) (by rw [(hsame _).1]) (fun hav => ?_)
  have ht := b.tracks.mstate hav
  refine ⟨ht.made, ?_, ?_, ?_, ?_, ?_⟩
  all_goals rw [State.amend_self]
  · rw [(hsame _).1]
    exact ht.maxFast
  · rw [(hsame _).2.1]
    exact ht.fastbins
  · rw [(hsame _).2.2]
    exact ht.units
  · exact fun i => (hmap hav i).1
  · exact fun i => (hmap hav i).2

/-- The bins after an update of a `malloc_state`. -/
theorem Rep.amend (r : Rep m₀ s h) (b : Body m₀ (s.amend av f) h')
    (hactive : (f (s.mstates av)).maxFast ≠ 0 ↔ (s.mstates av).maxFast ≠ 0)
    (hbins : h'.bins = h.bins) : Rep m₀ (s.amend av f) h' := by
  refine ⟨b, fun {av' i} hd => ?_⟩
  unfold RingAt
  rw [hbins]
  exact r.rings ⟨(active_amend hactive av').mp hd.active, hd.lo, hd.hi⟩

end

/-! ### A chunk in hand -/

/-- Chunks are at different addresses, so a list of them is not too long. -/
theorem Heap.Tiling.length_lt {h : Heap} (t : h.Tiling) {l : List Nat} (hnd : l.Nodup)
    (hl : ∀ x ∈ l, h.size x ≠ 0) : l.length < loopFuel := by
  have hsub : l.toFinset ⊆ Finset.range 0xA0000000 := by
    intro x hx
    have hb := t.bounds (hl x (List.mem_toFinset.mp hx))
    rw [Finset.mem_range]
    omega
  have hcard := Finset.card_le_card hsub
  rw [List.toFinset_card_of_nodup hnd, Finset.card_range] at hcard
  unfold loopFuel
  omega

/-- A chunk that was taken out of its bin, in a heap that is settled otherwise. -/
structure Heap.InHand (h : Heap) (p : Nat) : Prop where
  freeable : h.Freeable p
  use : h.use p = .held
  settled : h.SettledBut (· = p)

section

variable {h : Heap} {p x av i : Nat} {l₁ l₂ : List Nat}

theorem Heap.SettledBut.mono {X Y : Nat → Prop} (hs : h.SettledBut X) (hXY : ∀ q, X q → Y q) :
    h.SettledBut Y :=
  ⟨fun hq hY => hs.use hq (fun hX => hY (hXY _ hX)), hs.top⟩

/-- Taking up a chunk that is not a unit top. -/
theorem Heap.SettledBut.takeUp {X : Nat → Prop} {k : Use} (hs : h.SettledBut X)
    (hold : h.use p ≠ .top) : (h.setUse p k).SettledBut (fun q => q = p ∨ X q) := by
  refine ⟨fun {q} hq hX => ?_, fun {u} hu htop => ?_⟩
  · rw [not_or] at hX
    rw [Heap.setUse_use_of_ne _ _ _ hX.1]
    exact hs.use hq hX.2
  · have hold' := hs.top hu htop
    have hne : h.top u ≠ p := by
      intro heq
      rw [heq] at hold'
      exact hold hold'.2.1
    exact ⟨hold'.1, (Heap.setUse_use_of_ne _ _ _ hne).trans hold'.2.1, hold'.2.2⟩

/-- A chunk that was being worked on has got its use. -/
theorem Heap.SettledBut.settle {X : Nat → Prop} {k : Use} (hs : h.SettledBut X)
    (hold : h.use p ≠ .top) (hk : k ≠ .held ∧ k ≠ .raw) :
    (h.setUse p k).SettledBut (fun q => X q ∧ q ≠ p) := by
  refine ⟨fun {q} hq hne => ?_, fun {u} hu htop => ?_⟩
  · by_cases hqp : q = p
    · rw [hqp, Heap.setUse_use_self]
      exact hk
    · rw [Heap.setUse_use_of_ne _ _ _ hqp]
      exact hs.use hq (fun hX => hne ⟨hX, hqp⟩)
  · have htops := hs.top hu htop
    refine ⟨htops.1, ?_, htops.2.2⟩
    have hne : h.top u ≠ p := by
      rintro heq
      exact hold (heq ▸ htops.2.1)
    exact (Heap.setUse_use_of_ne _ _ _ hne).trans htops.2.1

theorem Heap.SettledBut.setUse {k : Use} (hs : h.SettledBut (· = p)) (hold : h.use p ≠ .top)
    (hk : k ≠ .held ∧ k ≠ .raw) : (h.setUse p k).Settled :=
  (hs.settle hold hk).mono (fun _ hq => hq.2 hq.1)

/-- The chunk before one whose flag is clear is free, unless it is being worked
    on. -/
theorem Heap.Tidy.free_before (t : h.Tidy) {X : Nat → Prop} (hs : h.SettledBut X)
    (hp : h.size p ≠ 0) (hflag : h.flag p = false) (hX : ∀ q, X q → h.next q ≠ p) :
    ∃ q, h.size q ≠ 0 ∧ h.use q = .free ∧ h.next q = p := by
  rcases t.flags.before hp hflag with ⟨q, hq, rfl⟩
  have hrest := hs.use hq (fun hx => hX q hx rfl)
  cases hk : h.use q with
  | live =>
    have htrue := t.flags.inuse hq (.inl hk) hp
    rw [hflag] at htrue
    exact Bool.noConfusion htrue
  | fast =>
    have htrue := t.flags.inuse hq (.inr hk) hp
    rw [hflag] at htrue
    exact Bool.noConfusion htrue
  | free => exact ⟨q, hq, hk, rfl⟩
  | top => exact absurd (t.tops hq hk).2 (t.tiling.unit_next hq hp).1
  | held => exact absurd hk hrest.1
  | raw => exact absurd hk hrest.2

/-- No two free chunks are neighbours, so the flag of a free one is set. -/
theorem Heap.Tidy.flag_of_free (t : h.Tidy) {X : Nat → Prop} (hs : h.SettledBut X)
    (hp : h.size p ≠ 0) (huse : h.use p = .free) (hX : ∀ q, X q → h.next q ≠ p) :
    h.flag p = true := by
  by_contra hflag
  rw [Bool.not_eq_true] at hflag
  rcases t.free_before hs hp hflag hX with ⟨q, hq, hfree, rfl⟩
  exact (t.flags.free hq hfree).2.2.1 huse

theorem Heap.take_use_of_ne {q : Nat} (l : List Nat) (hq : q ≠ x) :
    (h.take av i l x).use q = h.use q :=
  Heap.setUse_use_of_ne _ x _ hq

theorem Heap.take_use_self (h : Heap) (av i : Nat) (l : List Nat) (x : Nat) :
    (h.take av i l x).use x = .held :=
  Heap.setUse_use_self ..

theorem Heap.Tidy.inHand (t : h.Tidy) (hs : h.Settled) (hbin : h.bins av i = l₁ ++ x :: l₂) :
    (h.take av i (l₁ ++ l₂) x).InHand x := by
  have hmem : x ∈ h.bins av i := by
    rw [hbin]
    exact List.mem_append_right _ List.mem_cons_self
  have hx := t.lists.bin hmem
  have hnext := t.flags.free hx.1 hx.2.1
  have hkeep := t.unkept hx.1 (by rw [hx.2.1]; decide) (by rw [hx.2.1]; decide)
  refine ⟨⟨hx.1, t.flag_of_free hs hx.1 hx.2.1 (fun _ hf => hf.elim), hkeep, ?_⟩,
    h.take_use_self av i _ x, ?_⟩
  · have hne := Heap.next_ne hx.1
    refine ⟨hnext.1, hnext.2.1, ?_⟩
    change (h.take av i (l₁ ++ l₂) x).use (h.next x) ≠ .free ∧
      (h.take av i (l₁ ++ l₂) x).use (h.next x) ≠ .top
    rw [Heap.take_use_of_ne _ hne]
    exact hnext.2.2
  · have hs' : (h.setBin av i (l₁ ++ l₂)).SettledBut (fun _ => False) := ⟨hs.use, hs.top⟩
    have hup := hs'.takeUp (p := x) (k := .held) (by
      change h.use x ≠ .top
      rw [hx.2.1]
      decide)
    exact hup.mono (by tauto)

theorem Heap.Tidy.rearranged_take (t : h.Tidy) (hbin : h.bins av i = l₁ ++ x :: l₂) :
    Rearranged h (h.take av i (l₁ ++ l₂) x) := by
  have hmem : x ∈ h.bins av i := by
    rw [hbin]
    exact List.mem_append_right _ List.mem_cons_self
  have hx := t.lists.bin hmem
  refine ⟨rfl, rfl, ?_, FastsFrom.setUse (h.setBin av i (l₁ ++ l₂)) x (by decide)⟩
  exact Heap.live_setUse (h := h.setBin av i (l₁ ++ l₂)) (by
    change h.use x ≠ .live
    rw [hx.2.1]
    decide) (by decide)

end

/-! ### Handing out a chunk -/

section

variable {m₀ : Mem} {s : State K} {h : Heap} {p nb : Nat}
variable {E : Fault → State K → Prop}

theorem Body.chunk2mem (b : Body m₀ s h) (hp : h.size p ≠ 0) : chunk2mem p = p + 8 := by
  have hb := b.tidy.tiling.bounds hp
  unfold ArbiterThread.chunk2mem wordSize
  omega

theorem withInuse_head (h : Heap) {p : Nat} (h8 : h.size p % 8 = 0) :
    withInuse (h.head p) = h.size p + 1 := by
  have hf := Bool.toNat_le (h.flag p)
  unfold withInuse Heap.head
  omega

/-- All of a chunk is handed out. -/
def Heap.handOut (h : Heap) (p : Nat) : Heap := (h.setFlag (h.next p) true).setUse p .live

theorem Heap.InHand.handOut_settled (hh : h.InHand p) : (h.handOut p).Settled := by
  have hs : (h.setFlag (h.next p) true).SettledBut (· = p) := ⟨hh.settled.use, hh.settled.top⟩
  refine hs.setUse ?_ (by decide)
  change h.use p ≠ .top
  rw [hh.use]
  decide

theorem Heap.InHand.handed (hh : h.InHand p) (hnb : nb ≤ h.size p ∧ h.size p < nb + 16) :
    Handed h (h.handOut p) (h.avOf p) nb p := by
  refine ⟨rfl, rfl, Heap.live_eq_none.mpr (fun _ => by rw [hh.use]; decide),
    ⟨h.size p, h.unit p, ?_, hnb, rfl⟩, .setUse (h.setFlag (h.next p) true) p (by decide)⟩
  have hp' : (h.setFlag (h.next p) true).size p ≠ 0 := hh.freeable.size
  unfold Heap.handOut
  rw [Heap.live_settle hp']
  change Function.update h.live p (some (h.size p, h.unit p, h.keep p)) = _
  rw [hh.freeable.keep]

/-- The one store that hands out all of a chunk. -/
theorem Rep.handOut (r : Rep m₀ s h) (hh : h.InHand p) :
    Rep m₀ (s.put (h.next p + 4) (h.size (h.next p) + 1)) (h.handOut p) := by
  have hp := hh.freeable.size
  have hn := hh.freeable.next.1
  have r' := r.put hn (.inl rfl) (r.body.setFlag hp (.inl hh.use) hn true) rfl
  have hhead := r'.body.holds.head hp (by
    change h.use p ≠ .raw
    rw [hh.use]
    decide)
  exact r'.of_body (r'.body.settle hp (.inl hh.use) (fun _ => Heap.setFlag_flag_self ..) hhead) rfl

/-- Marking the chunk in front of another one as in use. -/
theorem Body.setInuseBitAtOffset (b : Body m₀ s h) (hp : h.size p ≠ 0)
    (hn : h.size (h.next p) ≠ 0) (hraw : h.use (h.next p) ≠ .raw) {Q : Unit → State K → Prop}
    (hQ : Q () (s.put (h.next p + 4) (h.size (h.next p) + 1))) :
    wp (setInuseBitAtOffset p (h.size p)) Q E s := by
  unfold ArbiterThread.setInuseBitAtOffset
  rw [wp_bind, b.chunkAtOffset hp]
  refine b.headOf hn hraw ?_
  have hb := b.tidy.tiling.bounds hn
  rw [withInuse_head h hb.2.2.2.1]
  exact wp_store_mapped (b.mapped hn (by omega) (by unfold Heap.next; omega)) hQ

theorem Rep.exhaust (r : Rep m₀ s h) (hh : h.InHand p)
    (hnb : nb ≤ h.size p ∧ h.size p < nb + 16) {Q : Nat → State K → Prop}
    (hQ : ∀ s' h', s'.mstates = s.mstates → Rep m₀ s' h' → h'.Settled →
      Handed h h' (h.avOf p) nb p → Q (p + 8) s') :
    wp (exhaust p (h.size p)) Q E s := by
  have hp := hh.freeable.size
  have hn := hh.freeable.next.1
  unfold ArbiterThread.exhaust
  rw [wp_bind]
  refine r.body.setInuseBitAtOffset hp hn (hh.settled.use hn (Heap.next_ne hp)).2 ?_
  rw [wp_pure, r.body.chunk2mem hp]
  exact hQ _ _ rfl (r.handOut hh) hh.handOut_settled (hh.handed hnb)

end

/-! ### Cutting a chunk -/

/-- The chunk at `p` cut after `nb` bytes, the rest being the only unsorted
    chunk. -/
def Heap.splitOff (h : Heap) (p nb : Nat) : Heap :=
  ((h.setUse p .raw).cleave p nb).bin (h.avOf p) 1 [p + nb] (p + nb)

section

variable {m₀ : Mem} {s : State K} {h : Heap} {p nb : Nat}
variable {E : Fault → State K → Prop}

/-- The fields of the heap after a chunk in hand was cut. -/
theorem Heap.cut_fields (h : Heap) (p : Nat) {nb : Nat} (hnb : 16 ≤ nb) :
    ((h.setUse p .raw).cleave p nb).size p = nb ∧
    ((h.setUse p .raw).cleave p nb).size (p + nb) = h.size p - nb ∧
    ((h.setUse p .raw).cleave p nb).use p = .raw ∧
    ((h.setUse p .raw).cleave p nb).use (p + nb) = .raw ∧
    ((h.setUse p .raw).cleave p nb).flag (p + nb) = true ∧
    ((h.setUse p .raw).cleave p nb).keep (p + nb) = 0 ∧
    ((h.setUse p .raw).cleave p nb).unit (p + nb) = h.unit p ∧
    ∀ q, q ≠ p + nb → ((h.setUse p .raw).cleave p nb).unit q = h.unit q ∧
      ((h.setUse p .raw).cleave p nb).flag q = h.flag q ∧
      ((h.setUse p .raw).cleave p nb).keep q = h.keep q ∧
      (q ≠ p → ((h.setUse p .raw).cleave p nb).size q = h.size q ∧
        ((h.setUse p .raw).cleave p nb).use q = h.use q) := by
  have hne : p ≠ p + nb := by omega
  refine ⟨Heap.cleave_size_self, Heap.cleave_size_rest (by omega), ?_, Function.update_self ..,
    Function.update_self .., Function.update_self .., Function.update_self .., ?_⟩
  · exact (Function.update_of_ne hne _ _).trans (Heap.setUse_use_self ..)
  · intro q hq
    refine ⟨Function.update_of_ne hq _ _, Function.update_of_ne hq _ _,
      Function.update_of_ne hq _ _, fun hqp => ⟨Heap.cleave_size_of_ne hqp hq, ?_⟩⟩
    exact (Function.update_of_ne hq _ _).trans (Heap.setUse_use_of_ne h p _ hqp)

/-- The rest of a chunk in hand that was cut can become free. -/
theorem Heap.InHand.rest (hh : h.InHand p) (hnb : 16 ≤ nb)
    (hrest : nb + 16 ≤ h.size p) : ((h.setUse p .raw).cleave p nb).Freeable (p + nb) := by
  rcases h.cut_fields p hnb with ⟨-, hsize, -, -, hflag, hkeep, -, hother⟩
  have hnext : ((h.setUse p .raw).cleave p nb).next (p + nb) = h.next p := by
    rw [Heap.next, hsize, Heap.next]
    omega
  have hn := hh.freeable.next
  have hnp : h.next p ≠ p := Heap.next_ne hh.freeable.size
  have hnr : h.next p ≠ p + nb := by
    unfold Heap.next
    omega
  rcases hother _ hnr with ⟨-, hf, -, hu⟩
  refine ⟨by rw [hsize]; omega, hflag, hkeep, ?_⟩
  rw [hnext, (hu hnp).1, hf, (hu hnp).2]
  exact hn

theorem Heap.splitOff_self (h : Heap) (p : Nat) {nb : Nat} (hnb : 16 ≤ nb) :
    (h.splitOff p nb).size p = nb ∧ (h.splitOff p nb).use p = .raw ∧
      (h.splitOff p nb).unit p = h.unit p ∧ (h.splitOff p nb).keep p = h.keep p := by
  rcases h.cut_fields p hnb with ⟨hsize, -, huse, -, -, -, -, hother⟩
  have hne : p ≠ p + nb := by omega
  exact ⟨hsize, (Heap.setUse_use_of_ne _ _ _ hne).trans huse, (hother p hne).1,
    (hother p hne).2.2.1⟩

theorem Heap.splitOff_fasts (h : Heap) (p : Nat) {nb : Nat} (hnb : 16 ≤ nb) :
    FastsFrom h (h.splitOff p nb) := by
  rcases h.cut_fields p hnb with ⟨-, -, huse, -, -, -, -, hother⟩
  intro x _ hfast
  have hxr : x ≠ p + nb := by
    rintro rfl
    rw [show (h.splitOff p nb).use (p + nb) = .free from Heap.setUse_use_self ..] at hfast
    exact Use.noConfusion hfast
  rw [show (h.splitOff p nb).use x = _ from Heap.setUse_use_of_ne _ _ _ hxr] at hfast
  change ((h.setUse p .raw).cleave p nb).use x = .fast at hfast
  have hxp : x ≠ p := by
    rintro rfl
    rw [huse] at hfast
    exact Use.noConfusion hfast
  rcases hother x hxr with ⟨hunit, -, -, hsame⟩
  exact ⟨(hsame hxp).1.symm, hunit.symm, (hsame hxp).2 ▸ hfast⟩

theorem Heap.InHand.splitOff_settled (t : h.Tiling) (hh : h.InHand p) (hnb : 16 ≤ nb)
    (hrest : nb + 16 ≤ h.size p) : (h.splitOff p nb).SettledBut (· = p) := by
  rcases h.cut_fields p hnb with ⟨-, -, -, -, -, -, -, hother⟩
  have huse : ∀ q, q ≠ p → q ≠ p + nb → (h.splitOff p nb).size q = h.size q ∧
      (h.splitOff p nb).use q = h.use q := by
    intro q hqp hqr
    refine ⟨((hother q hqr).2.2.2 hqp).1, ?_⟩
    exact (Heap.setUse_use_of_ne _ _ _ hqr).trans ((hother q hqr).2.2.2 hqp).2
  refine ⟨?_, ?_⟩
  · intro q hq hqp
    by_cases hqr : q = p + nb
    · rw [hqr]
      have hfree : (h.splitOff p nb).use (p + nb) = .free := Heap.setUse_use_self ..
      rw [hfree]
      decide
    · rw [(huse q hqp hqr).1] at hq
      rw [(huse q hqp hqr).2]
      exact hh.settled.use hq hqp
  · intro u hu htop
    have hold := hh.settled.top hu htop
    have hqp : h.top u ≠ p := by
      intro heq
      rw [heq, hh.use] at hold
      simp at hold
    -- nothing begins inside the chunk that is cut
    have hqr := (t.cleave_keeps hh.freeable.size hnb hrest hold.1).1
    change (h.splitOff p nb).size (h.top u) ≠ 0 ∧ (h.splitOff p nb).use (h.top u) = .top ∧
      (h.splitOff p nb).unit (h.top u) = u
    have hunit : (h.splitOff p nb).unit (h.top u) = h.unit (h.top u) := (hother _ hqr).1
    rw [(huse _ hqp hqr).1, (huse _ hqp hqr).2, hunit]
    exact hold

/-- The links of the code's stores come in another order. -/
theorem State.split_comm (s : State K) {r b : Nat} (hb : r + 8 ≤ b ∨ b + 8 ≤ r) :
    (((s.put (b + 8) r).put (b + 12) r).put (r + 8) b).put (r + 12) b = s.link r b b := by
  unfold State.link
  rw [State.put_comm _ (a := r + 8) (c := r + 12) _ _ (by omega),
    State.put_comm _ (a := b + 12) (c := r + 12) _ _ (by omega),
    State.put_comm _ (a := b + 8) (c := r + 12) _ _ (by omega),
    State.put_comm _ (a := b + 12) (c := r + 8) _ _ (by omega),
    State.put_comm _ (a := b + 8) (c := r + 8) _ _ (by omega)]

theorem Heap.InHand.splitOff_live (t : h.Tiling) (hh : h.InHand p) (hnb : 16 ≤ nb)
    (hrest : nb + 16 ≤ h.size p) : (h.splitOff p nb).live = h.live := by
  have hraw : (h.setUse p .raw).use p = .raw := Heap.setUse_use_self ..
  have hlive : (h.setUse p .raw).live = h.live :=
    Heap.live_setUse (by rw [hh.use]; decide) (by decide)
  have ht : (h.setUse p .raw).Tiling := t.congr rfl rfl rfl
  rw [← hlive, ← Heap.live_cleave ht hh.freeable.size hraw hnb hrest]
  refine Heap.live_setUse (h := ((h.setUse p .raw).cleave p nb).setBin _ _ _) ?_ (by decide)
  change ((h.setUse p .raw).cleave p nb).use (p + nb) ≠ .live
  rw [(h.cut_fields p hnb).2.2.2.1]
  decide

theorem Body.cut (b : Body m₀ s h) (hh : h.InHand p) (hnb : 16 ≤ nb) (h8 : nb % 8 = 0)
    (hrest : nb + 16 ≤ h.size p) : Body m₀ s ((h.setUse p .raw).cleave p nb) := by
  have hb := b.loosen hh.freeable.size (by rw [hh.use]; decide)
  refine hb.cleave hh.freeable.size (Heap.setUse_use_self ..) hnb h8 hrest ?_
  change h.keep p + 4 ≤ nb
  rw [hh.freeable.keep]
  omega

/-- The state after a chunk of `size` bytes was cut, and the rest made the only
    chunk of the bin with header `b`. -/
def State.split (s : State K) (b p nb size : Nat) : State K :=
  (((s.link (p + nb) b b).put (p + 4) (nb + 1)).put (p + nb + 4) (size - nb + 1)).put (p + size)
    (size - nb)

/-- A chunk in hand is cut, and its first part handed out. The unsorted list may
    be stale, because it is written anew. -/
theorem Rep.split (b : Body m₀ s h) (hh : h.InHand p) (hnb : 16 ≤ nb) (h8 : nb % 8 = 0)
    (hrest : nb + 16 ≤ h.size p) (hempty : h.bins (h.avOf p) 1 = [])
    (hrings : ∀ {av i}, Header s av i → ¬ (av = h.avOf p ∧ i = 1) → RingAt s.mem h av i) :
    Rep m₀ (s.split (unsortedChunks (h.avOf p)) p nb (h.size p))
      ((h.splitOff p nb).setUse p .live) := by
  have hp := hh.freeable.size
  have hbounds := b.tidy.tiling.bounds hp
  have hd : Header s (h.avOf p) 1 := ⟨b.activeOf hp, by omega, by omega⟩
  have hhdr := b.tracks.header_bounds hd
  have hfree := hh.rest hnb hrest
  have b₁ := b.cut hh hnb h8 hrest
  rcases h.cut_fields p hnb with ⟨hsp, hsr, hup, hur, hfr, hkr, hunit, hother⟩
  have hkp := (hother p (by omega)).2.2.1
  have hfp := (hother p (by omega)).2.1
  rw [hh.freeable.keep] at hkp
  rw [hh.freeable.flag] at hfp
  have hcav : ((h.setUse p .raw).cleave p nb).avOf (p + nb) = h.avOf p := by
    unfold Heap.avOf
    rw [hunit]
    rfl
  have hcbins : ((h.setUse p .raw).cleave p nb).bins = h.bins := rfl
  unfold Heap.splitOff State.split
  generalize (h.setUse p .raw).cleave p nb = c at *
  have hnr : p + h.size p = c.next (p + nb) := by
    rw [Heap.next, hsr]
    omega
  have hsp0 : c.size p ≠ 0 := by omega
  -- all stores are to loose words of the heap with the cut made
  have b₂ := b₁.put (.own _ hfree.size hur (.inr (by omega)) (by omega) : Loose s c (p + nb + 12))
    (binAt (h.avOf p) 1)
  have b₃ := b₂.put (.own _ hfree.size hur (.inr (by omega)) (by omega) : Loose _ c (p + nb + 8))
    (binAt (h.avOf p) 1)
  have b₄ := b₃.put (.header _ _ ((hd.put _ _).put _ _) (.inl rfl)) (p + nb)
  have b₅ := b₄.put (.header _ _ (((hd.put _ _).put _ _).put _ _) (.inr rfl)) (p + nb)
  have b₆ := b₅.put (.own p hsp0 hup (.inl rfl) (by omega) : Loose _ c (p + 4)) (nb + 1)
  have b₇ := b₆.put (.own _ hfree.size hur (.inl rfl) (by omega) : Loose _ c (p + nb + 4))
    (h.size p - nb + 1)
  have b₈ := b₇.put (.own _ hfree.size hur (.inr (by omega)) (by omega) : Loose _ c (p + h.size p))
    (h.size p - nb)
  have hbin : c.bins (h.avOf p) 1 = [] ++ [] := by
    rw [hcbins, hempty]
    rfl
  have b₉ := b₈.bin hfree.size (.inr hur) hfr hkr hfree.next hcav (.inl rfl) hbin
    (by
      rw [load32_put_of_disjoint _ _ (by omega), load32_put_self _ _ (by omega), hsr])
    (by
      rw [← hnr, load32_put_self _ _ (by omega), hsr])
  have hrep := Rep.linked b₁ hd hbin
    (fun {av i} hd' hne => by
      unfold RingAt
      rw [hcbins]
      exact hrings hd' hne)
    (.inr hbin) (List.nil_append _).symm (List.nil_append _) hfree.size (by rw [hur]; decide) b₉ rfl
    (fun a ha => by
      have ha5 := (((ha.put (p + nb + 12) (binAt (h.avOf p) 1)).put (p + nb + 8)
        (binAt (h.avOf p) 1)).put (binAt (h.avOf p) 1 + 8) (p + nb)).put
        (binAt (h.avOf p) 1 + 12) (p + nb)
      have h1 := links_put b₇ hfree.size (h.size p - nb) (.inr hnr) ((ha5.put _ _).put _ _)
      have h2 := links_put b₆ hfree.size (h.size p - nb + 1) (.inl rfl) (ha5.put _ _)
      have h3 := links_put b₅ hsp0 (nb + 1) (.inl rfl) ha5
      exact ⟨(h1.1.trans h2.1).trans h3.1, (h1.2.trans h2.2).trans h3.2⟩)
  refine hrep.of_body (hrep.body.settle hsp0 (.inr ?_) (fun _ => ?_) ?_) rfl
  · exact (Heap.setUse_use_of_ne _ _ _ (by omega)).trans hup
  · change c.flag (c.next p) = true
    rw [Heap.next, hsp]
    exact hfr
  · change _ = c.head p
    rw [load32_put_of_disjoint _ _ (by omega), load32_put_of_disjoint _ _ (by omega),
      load32_put_self _ _ (by omega), Heap.head, hsp, hfp]
    rfl

theorem Rep.splitRemainder (b : Body m₀ s h) (hh : h.InHand p) (hnb : 16 ≤ nb) (h8 : nb % 8 = 0)
    (hrest : nb + 16 ≤ h.size p) (hempty : h.bins (h.avOf p) 1 = [])
    (hrings : ∀ {av i}, Header s av i → ¬ (av = h.avOf p ∧ i = 1) → RingAt s.mem h av i)
    (last : Bool) {Q : Nat → State K → Prop}
    (hQ : ∀ s' h', Active s' (h.avOf p) → Rep m₀ s' h' → h'.Settled →
      Handed h h' (h.avOf p) nb p → Q (p + 8) s') :
    wp (splitRemainder (h.avOf p) p nb (h.size p - nb) last) Q E s := by
  have hp := hh.freeable.size
  have hbounds := b.tidy.tiling.bounds hp
  have hav := b.activeOf hp
  have hd : Header s (h.avOf p) 1 := ⟨hav, by omega, by omega⟩
  have hhdr := b.tracks.header_bounds hd
  have hmap := b.tracks.mstate hav
  have hnext : h.next p = p + h.size p := rfl
  have hoff : ArbiterThread.chunkAtOffset p nb = p + nb := by
    unfold ArbiterThread.chunkAtOffset wordSize
    omega
  have hend : ArbiterThread.chunkAtOffset (p + nb) (h.size p - nb) = p + h.size p := by
    unfold ArbiterThread.chunkAtOffset wordSize
    omega
  have hheader := (Node.header (h := h) _ _ hd rfl).mapped b
  unfold ArbiterThread.splitRemainder setFd setBk setHead setFoot setPrevSize
  simp only [hoff, hend, wp_bind, wp_setMstate, wp_pure, withInuse_of_mod h8,
    withInuse_of_mod (show (h.size p - nb) % 8 = 0 by omega)]
  refine wp_store_mapped hheader.1 (wp_store_mapped hheader.2 ?_)
  generalize hf : (fun m : Mstate => if last then { m with lastRemainder := p + nb } else m) = f
  refine wp_store_mapped (b.mapped hp (by omega) (by omega)) ?_
  refine wp_store_mapped (b.mapped hp (by omega) (by omega)) ?_
  refine wp_store_mapped (b.mapped hp (by omega) (by omega)) ?_
  refine wp_store_mapped (b.mapped hp (by omega) (by omega)) ?_
  refine wp_store_mapped (b.mapped hp (by omega) (by omega)) ?_
  -- the update of the record could as well come first
  change Q (ArbiterThread.chunk2mem p) ((((((((s.amend (h.avOf p) f).put
    (unsortedChunks (h.avOf p) + 8) (p + nb)).put (unsortedChunks (h.avOf p) + 12) (p + nb)).put
    (p + nb + 8) (unsortedChunks (h.avOf p))).put (p + nb + 12) (unsortedChunks (h.avOf p))).put
    (p + 4) (nb + 1)).put (p + nb + 4) (h.size p - nb + 1)).put (p + h.size p) (h.size p - nb))
  have hfsame : ∀ m, (f m).maxFast = m.maxFast ∧ (f m).fastbins = m.fastbins ∧
      (f m).ustateList = m.ustateList ∧ (f m).binmap = m.binmap := by
    subst hf
    cases last <;> exact fun m => ⟨rfl, rfl, rfl, rfl⟩
  have b₁ : Body m₀ (s.amend (h.avOf p) f) h := by
    refine b.amend _ (fun m => ⟨(hfsame m).1, (hfsame m).2.1, (hfsame m).2.2.1⟩) (fun _ i => ?_)
    rw [(hfsame _).2.2.2]
    exact ⟨hmap.binmap i, hmap.binmapEnd i⟩
  have hactive : (f (s.mstates (h.avOf p))).maxFast ≠ 0 ↔ (s.mstates (h.avOf p)).maxFast ≠ 0 := by
    rw [(hfsame _).1]
  have hrep := Rep.split b₁ hh hnb h8 hrest hempty (fun hd' hne =>
    hrings ⟨(active_amend hactive _).mp hd'.active, hd'.lo, hd'.hi⟩ hne)
  rw [State.split_comm _ (by unfold unsortedChunks; omega), b.chunk2mem hp]
  refine hQ _ _ ((active_amend hactive _).mpr hav) hrep ?_ ?_
  · refine (hh.splitOff_settled b.tidy.tiling hnb hrest).setUse ?_ (by decide)
    rw [(h.splitOff_self p hnb).2.1]
    decide
  · refine ⟨rfl, rfl, Heap.live_eq_none.mpr (fun _ => by rw [hh.use]; decide),
      ⟨nb, h.unit p, ?_, ⟨le_rfl, by omega⟩, rfl⟩,
      (h.splitOff_fasts p hnb).trans (.setUse _ p (by decide))⟩
    rcases h.splitOff_self p hnb with ⟨hsize, -, hunit, hkeep⟩
    rw [Heap.live_settle (by rw [hsize]; omega), hh.splitOff_live b.tidy.tiling hnb hrest, hsize,
      hunit, hkeep, hh.freeable.keep]

theorem Rep.exhaustOrSplit (r : Rep m₀ s h) (hh : h.InHand p) (hnb : 16 ≤ nb) (h8 : nb % 8 = 0)
    (hle : nb ≤ h.size p) (hempty : h.bins (h.avOf p) 1 = []) (last : Bool)
    {Q : Nat → State K → Prop}
    (hQ : ∀ s' h', Active s' (h.avOf p) → Rep m₀ s' h' → h'.Settled →
      Handed h h' (h.avOf p) nb p → Q (p + 8) s') :
    wp (exhaustOrSplit (h.avOf p) p (h.size p) nb last) Q E s := by
  unfold ArbiterThread.exhaustOrSplit
  by_cases hsmall : h.size p - nb < minSize
  · rw [if_pos hsmall]
    unfold minSize at hsmall
    refine r.exhaust hh ⟨hle, by omega⟩ (fun s' h' hs' => hQ s' h' ?_)
    unfold Active
    rw [hs']
    exact r.body.activeOf hh.freeable.size
  · rw [if_neg hsmall]
    unfold minSize at hsmall
    exact Rep.splitRemainder r.body hh hnb h8 (by omega) hempty (fun hd _ => r.rings hd) last hQ

end

end ArbiterThread
