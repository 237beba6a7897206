import ArbiterThread.Malloc.UnitLookup
import ArbiterThread.Malloc.Run

/-!
# Remnants of Other Labels

What a client finds in a new block, and whether another client of another label can have
left it there.

Pages of the channel heap are not cleared when a unit is released, so this is a question
about addresses: a block has nothing of another label in it as long as its unit is not put
where a unit of another label was. It is asked of two runs that make the same calls, and
whose clients write the same except where the block will be, and there only while it belongs
to another label.

The units of a run are kept in a list with their labels, also those that were released.

## Main definitions

* `TwinRun`: Two runs that differ in what was written where a block will be.
* `NoRemnants`: A call meets no defect, and puts no unit of the label where another was.
* `Kept`: The units of a label are where no other label has been.

## Theorems

* `TwinRun.first`: The first of the runs is one.
* `TwinRun.kept`: No unit of the label is where another label has been.
* `TwinRun.same`: The states are the same, or some address of the block had another label.
* `contents_independent`: What is in a new block does not depend on what other labels wrote.
-/

namespace ArbiterThread

open Exec

variable {K : Type}

/-! ### Two runs -/

def Region.Has (r : Region) (x : Nat) : Prop := r.addr ≤ x ∧ x < r.addr + r.length

def Grant.Has (g : Grant) (x : Nat) : Prop := g.mem ≤ x ∧ x < g.mem + g.bytes

/-- The address belongs to a unit of another label. -/
def Foreign (s : State K) (L : Label) (x : Nat) : Prop :=
  ∃ r ∈ s.view.regions, r.label ≠ L ∧ r.Has x

/-- The state after a client has written to some addresses. -/
def State.overwrite (s : State K) (w : Nat → Option UInt8) : State K :=
  { s with mem := fun x => (w x).getD (s.mem x) }

/-- Two runs of the same calls, up to the one that returns the block `g`. What is written in
    them differs at addresses of `g` only, and there only while they belong to a unit of
    another label. The calls meet `Ok` in the first run, whose blocks and units, also those
    that were released, are kept. -/
inductive TwinRun (ops : KernelOps K) (Ok : List Region → Call → State K → Prop) (g : Grant) :
    State K → State K → List Grant → List Region → Prop
  | start (kern : K) (clients : List ClientDesc) :
      TwinRun ops Ok g (State.start kern clients) (State.start kern clients) [] []
  | call (c : Call) {s s' t t' : State K} {live : List Grant} {past : List Region}
      {mem mem' : Nat} (run : TwinRun ops Ok g s s' live past) (honest : c.Honest live)
      (ok : Ok past c s) (ret : c.run ops s = .ok mem t) (ret' : c.run ops s' = .ok mem' t') :
      TwinRun ops Ok g t t' (c.grants mem live) (t.view.regions ++ past)
  | write (b : Grant) (w w' : Nat → Option UInt8) {s s' : State K} {live : List Grant}
      {past : List Region} (run : TwinRun ops Ok g s s' live past) (hb : b ∈ live)
      (inside : ∀ x, ¬ b.Has x → w x = none ∧ w' x = none)
      (same : ∀ x, w x = w' x ∨ g.Has x ∧ Foreign s g.label x) :
      TwinRun ops Ok g (s.overwrite w) (s'.overwrite w') live past

/-- The call is the request for the block. -/
def Call.AsksFor (g : Grant) : Call → Prop
  | .malloc _ bytes L => bytes = g.bytes ∧ L = g.label
  | .calloc _ nElements elemSize L => nElements * elemSize = g.bytes ∧ L = g.label
  | _ => False

/-! ### Calls that meet no defect -/

/-- The new unit is where no unit of another label has been. -/
def Unmarked (ops : KernelOps K) (L : Label) (past : List Region) (pid nb av : Nat)
    (s : State K) : Prop :=
  ∀ r ∈ past, r.label ≠ L → r.addr + r.length ≤ (newRange ops pid nb av s).1 ∨
    (newRange ops pid nb av s).1 + (newRange ops pid nb av s).2 ≤ r.addr

/-- A call meets no defect, and a unit it obtains for the label is where no unit of another
    label has been. -/
def NoRemnants (ops : KernelOps K) (L : Label) (past : List Region) (c : Call) (s : State K) :
    Prop :=
  HeapOk ops False c s ∧ CallOk (MallocOk fun nb av s' => c.label = some L →
    Unmarked ops L past c.pid nb av s') True s c

/-! ### Units and labels -/

/-- The units of the label are where no other label has been. -/
def Kept (L : Label) (past : List Region) (v : View K) : Prop :=
  ∀ r' ∈ v.regions, r'.label = L → ∀ r ∈ past, r.label ≠ L → r.Apart r'

section

variable {ops : KernelOps K} {L : Label} {past : List Region} {g : Grant} {m₀ : Mem}
variable {s s' t : State K} {h : Heap} {live : List Grant}

theorem kept_releases : Releases ops (Kept (K := K) L past) :=
  fun _ _ _ _ _ hk hsub r' hr' => hk r' (hsub.subset hr')

theorem Kept.addRegion {v : View K} (hk : Kept L past v) {addr length : Nat} {L' : Label}
    (hnew : L' = L → ∀ r ∈ past, r.label ≠ L →
      r.addr + r.length ≤ addr ∨ addr + length ≤ r.addr) :
    Kept L past (v.addRegion addr length L') := by
  intro r' hr' hlabel r hr hne
  rcases List.mem_cons.mp hr' with rfl | hr'
  · exact hnew hlabel r hr hne
  · exact hk r' hr' hlabel r hr hne

theorem Kept.newUnit {pid nb av : Nat} {L' : Label} {v : View K} (hk : Kept L past s.view)
    (hclear : L' = L → Unmarked ops L past pid nb av s) (hnew : NewUnit ops pid nb av L' s v) :
    Kept L past v := by
  unfold Unmarked newRange at hclear
  cases hnew with
  | mmap size mm takes hsize hmm granted =>
    rw [if_pos takes, ← hsize, ← hmm] at hclear
    exact hk.addRegion hclear
  | sbrk takes first room granted =>
    rw [if_neg takes] at hclear
    exact hk.addRegion hclear

/-- Units of different labels are different units. -/
theorem Arena.kept (a : Arena m₀ s h) : Kept L s.view.regions s.view := by
  intro r' hr' hlabel r hr hne
  obtain ⟨u, hu, rfl⟩ := List.mem_map.mp hr
  obtain ⟨v, hv, rfl⟩ := List.mem_map.mp hr'
  refine a.rep.body.tracks.apart u hu v hv (fun heq => hne ?_)
  rw [heq]
  exact hlabel

theorem seen_kept_call (c : Call) (hs : Seen (Kept L past) s) (hok : NoRemnants ops L past c s) :
    Ends (Seen (Kept L past)) (fun _ => True) (c.run ops) s :=
  hs.call kept_releases c (fun _ hL _ _ _ _ hk hclear hnew =>
    hk.newUnit (fun heq => hclear (hL.trans (congrArg some heq))) hnew) hok.2

/-! ### Runs -/

theorem TwinRun.first (hrun : TwinRun ops (NoRemnants ops L) g s s' live past) :
    HeapRun ops (HeapOk ops False) s live := by
  induction hrun with
  | start kern clients => exact .start kern clients
  | call c run honest ok ret ret' ih => exact .call c ih honest ok.1 ret
  | write b w w' run hb inside same ih =>
    refine .write b _ ih hb (fun x hx => ?_)
    rw [(inside x (fun hin => by unfold Grant.Has at hin; omega)).1, Option.getD_none]

theorem TwinRun.kept (hrun : TwinRun ops (NoRemnants ops L) g s s' live past) :
    Seen (Kept L past) s ∧ s.view.regions ⊆ past := by
  induction hrun with
  | start kern clients =>
    refine ⟨⟨⟨by simp [State.start], by simp [State.start], fun _ => rfl⟩, ?_⟩, fun _ hr => hr⟩
    exact fun r' hr' => absurd hr' List.not_mem_nil
  | call c run honest ok ret ret' ih =>
    rename_i t t' live past mem mem'
    have hcall := seen_kept_call c ih.1 ok
    unfold Ends at hcall
    have hseen := wp_run (Q := fun _ t => Seen (Kept L past) t) hcall ret
    obtain ⟨h, i⟩ := (TwinRun.first (.call c run honest ok ret ret')).sound
    refine ⟨⟨hseen.1, fun r' hr' hlabel r hr hne => ?_⟩, List.subset_append_left _ _⟩
    rcases List.mem_append.mp hr with hr | hr
    · exact i.arena.kept r' hr' hlabel r hr hne
    · exact hseen.2 r' hr' hlabel r hr hne
  | write b w w' run hb inside same ih =>
    exact ⟨⟨⟨ih.1.1.units, ih.1.1.avs, ih.1.1.start⟩, ih.1.2⟩, ih.2⟩

theorem TwinRun.same (hrun : TwinRun ops (NoRemnants ops L) g s s' live past) :
    s = s' ∨ ∃ x, g.Has x ∧ ∃ r ∈ past, r.label ≠ g.label ∧ r.Has x := by
  induction hrun with
  | start kern clients => exact .inl rfl
  | call c run honest ok ret ret' ih =>
    rcases ih with rfl | ⟨x, hx, r, hr, hforeign⟩
    · rw [ret] at ret'
      injection ret' with hmem hstate
      exact .inl hstate
    · exact .inr ⟨x, hx, r, List.mem_append_right _ hr, hforeign⟩
  | write b w w' run hb inside same ih =>
    rcases ih with rfl | hmark
    · by_cases hw : w = w'
      · exact .inl (by rw [hw])
      · obtain ⟨x, hx⟩ := Function.ne_iff.mp hw
        obtain ⟨hin, r, hr, hforeign⟩ := (same x).resolve_left hx
        exact .inr ⟨x, hin, r, run.kept.2 hr, hforeign⟩
    · exact .inr hmark

/-! ### The block -/

theorem Call.AsksFor.grants {c : Call} (hc : c.AsksFor g) (hmem : g.mem ≠ 0) :
    c.grants g.mem [] = [g] := by
  cases c with
  | malloc pid bytes L =>
    obtain ⟨rfl, rfl⟩ := hc
    exact addGrant_of_ne hmem
  | calloc pid n e L =>
    obtain ⟨hbytes, rfl⟩ := hc
    simp only [Call.grants, hbytes]
    exact addGrant_of_ne hmem
  | realloc pid oldmem bytes L => exact hc.elim
  | free pid mem => exact hc.elim

theorem Call.AsksFor.heapOk {c : Call} (hc : c.AsksFor g) (hok : HeapOk ops False c s) :
    HeapOk ops True c s ∧ c.Honest [] := by
  cases c with
  | malloc pid bytes L => exact ⟨hok, trivial⟩
  | calloc pid n e L => exact ⟨hok, trivial⟩
  | realloc pid oldmem bytes L => exact hc.elim
  | free pid mem => exact hc.elim

/-- The block is in a unit of its label. -/
theorem Sound.unit_of_block {lab : Prop} (i : Sound lab s h live) {c : Call} (hc : c.AsksFor g)
    (hok : HeapOk ops False c s) (ret : c.run ops s = .ok g.mem t) (hmem : g.mem ≠ 0) :
    ∃ r ∈ t.view.regions, r.label = g.label ∧ ∀ x, g.Has x → r.Has x := by
  -- the call knows the label of its own block, whatever those of the others are
  have hnone : Sound True s h [] := ⟨i.arena, fun _ hg => absurd hg List.not_mem_nil,
    List.Pairwise.nil, i.counted⟩
  obtain ⟨hok', honest⟩ := hc.heapOk hok
  obtain ⟨-, h', i'⟩ := wp_run (hnone.call ops c honest hok' (.inr fun _ _ => trivial)) ret
  rw [hc.grants hmem] at i'
  obtain ⟨n, L', hn, hL, ho⟩ := i'.owns g (List.mem_singleton_self _)
  obtain ⟨u, hu, hlo, hhi, hlabel, -⟩ := ho.inside i'.arena
  refine ⟨t.region u, List.mem_map_of_mem hu, hlabel.trans (hL trivial), fun x hx => ?_⟩
  unfold Grant.Has at hx
  unfold Region.Has State.region
  dsimp only at hlo hhi ⊢
  omega

/-- If no unit for the label is put where a unit of another label was, then both runs return
    the same block with the same contents. -/
theorem contents_independent (hrun : TwinRun ops (NoRemnants ops g.label) g s s' live past)
    (c : Call) (hc : c.AsksFor g) (hok : NoRemnants ops g.label past c s)
    (ret : c.run ops s = .ok g.mem t) (hmem : g.mem ≠ 0) :
    ∃ t', c.run ops s' = .ok g.mem t' ∧ ∀ x, g.Has x → t'.mem x = t.mem x := by
  rcases hrun.same with rfl | ⟨x, hx, r, hr, hne, hin⟩
  · exact ⟨t, ret, fun _ _ => rfl⟩
  -- the address had another label, and the unit of the block is where that is not so
  obtain ⟨h, i⟩ := hrun.first.sound
  obtain ⟨r', hr', hlabel, hall⟩ := i.unit_of_block hc hok.1 ret hmem
  have hcall := seen_kept_call c hrun.kept.1 hok
  unfold Ends at hcall
  have hapart := (wp_run (Q := fun _ t => Seen (Kept g.label past) t) hcall ret).2
    r' hr' hlabel r hr hne
  have hin' := hall x hx
  unfold Region.Apart at hapart
  unfold Region.Has at hin hin'
  omega

end

instance decidableForeign (s : State K) (L : Label) (x : Nat) : Decidable (Foreign s L x) :=
  inferInstanceAs (Decidable (∃ r ∈ s.view.regions, r.label ≠ L ∧ _ ∧ _))

instance decidableUnmarked (ops : KernelOps K) (L : Label) (past : List Region) (pid nb av : Nat)
    (s : State K) : Decidable (Unmarked ops L past pid nb av s) :=
  inferInstanceAs (Decidable (∀ r ∈ past, r.label ≠ L → _ ∨ _))

instance decidableMallocOk (P : Nat → Nat → State K → Prop) (bytes : Nat) (L : Label)
    (s : State K) [∀ nb av s, Decidable (P nb av s)] : Decidable (MallocOk P bytes L s) := by
  unfold MallocOk
  infer_instance

/-- A block of another label was handed out before. -/
theorem contents_independent_second :
    ∃ (s : State Unit) (past : List Region) (t : State Unit), past ≠ [] ∧
      TwinRun generousKernel (NoRemnants generousKernel fun _ => 1)
        ⟨0x8000a008, 16, fun _ => 1⟩ s s [⟨0x80000008, 16, fun _ => 0⟩] past ∧
      ∃ t', ablibMalloc generousKernel 1 16 (fun _ => 1) s = .ok 0x8000a008 t' ∧
        ∀ x, Grant.Has ⟨0x8000a008, 16, fun _ => 1⟩ x → t'.mem x = t.mem x := by
  let L : Label := fun _ => 0
  let L' : Label := fun _ => 1
  let first : Call := .malloc 1 16 L
  let second : Call := .malloc 1 16 L'
  have hok : RequestOk (RoomFor generousKernel 1) 16 L (State.start () []) := by decide +kernel
  have hclear : MallocOk (fun nb av s' => first.label = some L' →
      Unmarked generousKernel L' [] 1 nb av s') 16 L (State.start () []) := by decide +kernel
  have hall : wp (first.run generousKernel) (fun mem s1 => mem = 0x80000008 ∧
      s1.view.regions.length = 1 ∧ RequestOk (RoomFor generousKernel 1) 16 L' s1 ∧
      MallocOk (fun nb av s' => second.label = some L' →
        Unmarked generousKernel L' (s1.view.regions ++ []) 1 nb av s') 16 L' s1 ∧
      wp (second.run generousKernel) (fun mem _ => mem = 0x8000a008) (fun _ _ => False) s1)
      (fun _ _ => False) (State.start () []) := by decide +kernel
  obtain ⟨_, s1, h1, rfl, hone, hok1, hclear1, hall⟩ := exists_ok hall
  obtain ⟨_, s2, h2, rfl⟩ := exists_ok hall
  have hrun :
      TwinRun generousKernel (NoRemnants generousKernel L') ⟨0x8000a008, 16, L'⟩ s1 s1 _ _ :=
    .call first (.start () []) trivial ⟨hok, hclear⟩ h1 h1
  simp only [first, Call.grants, addGrant_of_ne (show (0x80000008 : Nat) ≠ 0 by omega)] at hrun
  refine ⟨s1, _, s2, fun hnil => ?_, hrun, contents_independent (g := ⟨0x8000a008, 16, L'⟩) hrun
    second ⟨rfl, rfl⟩ ⟨hok1, hclear1⟩ h2 (show (0x8000a008 : Nat) ≠ 0 by omega)⟩
  rw [List.append_nil] at hnil
  rw [hnil] at hone
  exact absurd hone (by decide)

set_option synthInstance.maxSize 1000 in
/-- A mapped unit that is released and obtained again for another label still has what was
    written to it. -/
theorem contents_leak :
    ∃ g s s' live past, TwinRun generousKernel (fun _ _ _ => True) g s s' live past ∧
      g.mem ≠ 0 ∧ ∃ c : Call, c.AsksFor g ∧ ∃ t t', c.run generousKernel s = .ok g.mem t ∧
        c.run generousKernel s' = .ok g.mem t' ∧ g.Has g.mem ∧ t'.mem g.mem ≠ t.mem g.mem := by
  let L : Label := fun _ => 0
  let L' : Label := fun _ => 1
  let request : Call := .malloc 1 50000 L
  let release : Call := .free 1 0x9fff3008
  let again : Call := .malloc 1 50000 L'
  let w : UInt8 → Nat → Option UInt8 := fun b x => if x = 0x9fff3008 then some b else none
  -- the same block twice, with another label and what was written in between
  have hall : wp (request.run generousKernel) (fun mem s1 => mem = 0x9fff3008 ∧
      Foreign s1 L' 0x9fff3008 ∧ ∀ b ∈ [(1 : UInt8), 2],
        wp (release.run generousKernel) (fun _ s2 =>
          wp (again.run generousKernel) (fun mem s3 => mem = 0x9fff3008 ∧ s3.mem 0x9fff3008 = b)
            (fun _ _ => False) s2) (fun _ _ => False) (s1.overwrite (w b)))
      (fun _ _ => False) (State.start () []) := by decide +kernel
  obtain ⟨_, s1, h1, rfl, hforeign, hall⟩ := exists_ok hall
  obtain ⟨_, s2, h2, hnext⟩ := exists_ok (hall 1 (by decide))
  obtain ⟨_, s2', h2', hnext'⟩ := exists_ok (hall 2 (by decide))
  obtain ⟨_, s3, h3, rfl, hone⟩ := exists_ok hnext
  obtain ⟨_, s3', h3', rfl, htwo⟩ := exists_ok hnext'
  have hrun : TwinRun generousKernel (fun _ _ _ => True) ⟨0x9fff3008, 50000, L'⟩ s1 s1 _ _ :=
    .call request (.start () []) trivial trivial h1 h1
  simp only [request, Call.grants, addGrant_of_ne (show (0x9fff3008 : Nat) ≠ 0 by omega)] at hrun
  have hwrite := TwinRun.write ⟨0x9fff3008, 50000, L⟩ (w 1) (w 2) hrun (List.mem_singleton_self _)
    (fun x hx => ?_) (fun x => ?_)
  · refine ⟨_, s2, s2', _, _, .call release hwrite (.inr ⟨_, List.mem_singleton_self _, rfl⟩)
      trivial h2 h2', show (0x9fff3008 : Nat) ≠ 0 by omega, again, ⟨rfl, rfl⟩, s3, s3', h3, h3',
      ?_, ?_⟩
    · simp only [Grant.Has]
      omega
    · rw [hone, htwo]
      decide
  · have hne : x ≠ 0x9fff3008 := by
      rintro rfl
      simp only [Grant.Has] at hx
      omega
    simp only [w, if_neg hne, and_self]
  · by_cases heq : x = 0x9fff3008
    · refine .inr ⟨?_, heq ▸ hforeign⟩
      simp only [Grant.Has]
      omega
    · simp only [w, if_neg heq, true_or]

end ArbiterThread
