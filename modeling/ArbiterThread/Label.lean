import Mathlib.Data.Fin.VecNotation
import Mathlib.Data.Fintype.Basic
import Mathlib.Data.List.FinRange
import Mathlib.Data.Set.Basic
import Mathlib.Logic.Function.Basic
import Mathlib.Tactic.Common

/-!
# Labels, Ownerships and the Flow Checks

The label code of the arbiter: eight-slot category sets, the flow check
`check_label`, the memory protection `check_mem_prot` derived from it, and
the two functions behind category creation.

A label is an array of eight bytes used as a set. A zero byte is an empty
slot, the top bit of a category says whether it is a secrecy or an integrity
category, and order and repetition carry no meaning. The code never computes
with the set. It scans the array, so `seek` is the one loop from which every
check is built, and `Has` is the set it decides.

`checkLabel_eq_zero_iff` is the set-level meaning of the three scans. From
there on nothing looks at a slot again: what a link between two clients
preserves (`Linked.secrecy`, `Linked.integrity`) and what a chain of links
preserves (`chain_flow`) are about membership only.

## Main definitions

* `Cat`, `Label`, `Own`: Categories and the two kinds of category array.
* `Has`: A category occurs in an array.
* `checkLabel`: The flow check between two parties.
* `MemProt`, `checkMemProt`: The protection a client gets on labelled memory.
* `createCat`, `addOnwership`: Making a category and handing it out.
* `cats`, `Flows`: The set an array stands for, and the flow rule on sets.
* `Linked`: One client can pass information to the next.

## Theorems

* `checkLabel_eq_zero_iff`: The set-level meaning of the flow check.
* `checkMemProt_eq_protRW_iff`, `checkMemProt_ne_protN_iff`: When memory may
  be written, and when it may be read.
* `checkLabel_checkMemProt_flows`: Both checks decide the flow rule on sets.
* `checkMemProt_mono`: More ownership never lowers a protection.
* `addOnwership_has`: Adding to an ownership only adds.
* `chain_flow`: End-to-end flow along a chain of linked clients.
-/

namespace ArbiterThread

/-- A category, one byte. Zero is an empty slot. -/
abbrev Cat := UInt8

/-- A label: eight slots. -/
abbrev Label := Fin 8 → Cat

/-- An ownership, the capability set of a client: eight slots. -/
abbrev Own := Fin 8 → Cat

/-- The type byte of a secrecy category. -/
def catS : Cat := 0x00

/-- The type byte of an integrity category. -/
def catI : Cat := 0x80

/-- The most significant bit of a category, its type. -/
def getCatType (cat : Cat) : Cat := cat &&& 0x80

/-- The category occurs in the array, in whichever slot. -/
def Has (X : Fin 8 → Cat) (c : Cat) : Prop := ∃ j, X j = c

/-! ### The scanning loops -/

/-- The inner loops of `check_label`: compare `x` with the slots listed, in
    order, and stop at the first that is equal. The loops that set a flag and
    the loops that return -1 at `j == 7` both decide this. -/
def seek (x : Cat) (X : Fin 8 → Cat) : List (Fin 8) → Bool
  | [] => false
  | j :: js => if x = X j then true else seek x X js

/-- The first two outer loops of `check_label`. Slots of `L` that are empty or
    of type `skip` are passed over, the others have to be in `O` or in `L'`. -/
def flowLoop (skip : Cat) (L : Label) (O : Own) (L' : Label) : List (Fin 8) → Int
  | [] => 0
  | i :: is =>
      if L i = 0 ∨ getCatType (L i) = skip then flowLoop skip L O L' is
      else if seek (L i) O (List.finRange 8) then flowLoop skip L O L' is
      else if seek (L i) L' (List.finRange 8) then flowLoop skip L O L' is
      else -1

/-- The last outer loop of `check_label`: `O2` has to be a subset of `O1`. -/
def ownLoop (O1 O2 : Own) : List (Fin 8) → Int
  | [] => 0
  | i :: is =>
      if O2 i = 0 then ownLoop O1 O2 is
      else if seek (O2 i) O1 (List.finRange 8) then ownLoop O1 O2 is
      else -1

/-- Check the flow from party 1 to party 2. Returns 0 if it is allowed and -1
    if not. `O2` is `none` where the code passes `NULL`, that is, when party 2
    is a memory object. -/
def checkLabel (L1 : Label) (O1 : Own) (L2 : Label) (O2 : Option Own) : Int :=
  -- every secrecy category in 1 must be present in 2
  if flowLoop catI L1 O1 L2 (List.finRange 8) = -1 then -1
  -- every integrity category in 2 must be present in 1
  else if flowLoop catS L2 O1 L1 (List.finRange 8) = -1 then -1
  else match O2 with
    | none => 0
    | some O2 => ownLoop O1 O2 (List.finRange 8)

/-- The result of a memory protection check. -/
inductive MemProt where
  | protN
  | protR
  | protRW
deriving DecidableEq, Repr

/-- The order in which protections are compared, as the values of the enum. -/
def MemProt.rank : MemProt → Nat
  | .protN => 0
  | .protR => 1
  | .protRW => 2

instance : LE MemProt := ⟨fun p q => p.rank ≤ q.rank⟩

instance (p q : MemProt) : Decidable (p ≤ q) := inferInstanceAs (Decidable (p.rank ≤ q.rank))

/-- The protection of a client with label `L1` and ownership `O1` on memory
    labelled `L2`. -/
def checkMemProt (L1 : Label) (O1 : Own) (L2 : Label) : MemProt :=
  -- information flow from 1 to 2, i.e. write
  let pw := checkLabel L1 O1 L2 none
  -- information flow from 2 to 1, i.e. read
  let pr := checkLabel L2 O1 L1 none
  if pr = 0 ∧ pw = 0 then .protRW
  else if pr = 0 ∧ pw = -1 then .protR
  else .protN

/-- Make the next category of type `t`. The generator is a static byte of the
    source and is passed in and out here. -/
def createCat (catGen t : Cat) : Cat × Cat :=
  let catGen := catGen + 1
  if 0x80 ≤ catGen then (catGen, 0xFF)
  else (catGen, t ||| (catGen &&& 0x7F))

/-- The loop of `add_onwership`: put `cat` into the first empty slot. -/
def addLoop (O : Own) (cat : Cat) : List (Fin 8) → Own × Cat
  | [] => (O, 0)
  | i :: is => if O i ≠ 0 then addLoop O cat is else (Function.update O i cat, cat)

/-- Add `cat` to an ownership. Returns the new ownership together with `cat`,
    or with 0 if no slot is empty. -/
def addOnwership (O : Own) (cat : Cat) : Own × Cat := addLoop O cat (List.finRange 8)

/-! ### The meaning of the scans -/

theorem seek_eq_true_iff (x : Cat) (X : Fin 8 → Cat) (js : List (Fin 8)) :
    seek x X js = true ↔ ∃ j ∈ js, X j = x := by
  induction js with
  | nil => simp only [seek, Bool.false_eq_true, List.not_mem_nil, false_and, exists_false]
  | cons j js ih =>
      by_cases hx : x = X j
      · simp only [seek, if_pos hx, true_iff]
        exact ⟨j, List.mem_cons_self, hx.symm⟩
      · simp only [seek, if_neg hx, ih, List.mem_cons, exists_eq_or_imp]
        exact ⟨Or.inr, fun h => h.resolve_left (fun h => hx h.symm)⟩

/-- Scanning all eight slots decides membership. -/
@[simp, grind =] theorem seek_finRange_iff (x : Cat) (X : Fin 8 → Cat) :
    seek x X (List.finRange 8) = true ↔ Has X x := by
  rw [seek_eq_true_iff]
  exact ⟨fun ⟨j, _, hj⟩ => ⟨j, hj⟩, fun ⟨j, hj⟩ => ⟨j, List.mem_finRange j, hj⟩⟩

/-- What the first two loops check, as a statement about sets: a category of
    `L` that is not of type `skip` is owned or is in `L'`. -/
def FlowOk (skip : Cat) (L : Label) (O : Own) (L' : Label) : Prop :=
  ∀ c, Has L c → c ≠ 0 → getCatType c ≠ skip → Has O c ∨ Has L' c

/-- What the last loop checks: `O2` is a subset of `O1`. -/
def OwnOk (O1 O2 : Own) : Prop := ∀ c, Has O2 c → c ≠ 0 → Has O1 c

theorem flowLoop_cases (skip : Cat) (L : Label) (O : Own) (L' : Label) (is : List (Fin 8)) :
    (flowLoop skip L O L' is = 0 ∧
      ∀ i ∈ is, L i ≠ 0 → getCatType (L i) ≠ skip → Has O (L i) ∨ Has L' (L i)) ∨
    (flowLoop skip L O L' is = -1 ∧
      ∃ i ∈ is, L i ≠ 0 ∧ getCatType (L i) ≠ skip ∧ ¬ (Has O (L i) ∨ Has L' (L i))) := by
  induction is with
  | nil => exact Or.inl ⟨rfl, by simp only [List.not_mem_nil, false_implies, implies_true]⟩
  | cons i is ih =>
      -- The head slot either passes, and the rest decides, or stops the loop.
      by_cases hpass : L i ≠ 0 → getCatType (L i) ≠ skip → Has O (L i) ∨ Has L' (L i)
      · have hgo : flowLoop skip L O L' (i :: is) = flowLoop skip L O L' is := by
          simp only [flowLoop]
          grind
        rcases ih with ⟨h0, hall⟩ | ⟨h1, j, hj, hrest⟩
        · refine Or.inl ⟨hgo.trans h0, fun j hj => ?_⟩
          rcases List.mem_cons.mp hj with rfl | hj
          · exact hpass
          · exact hall j hj
        · exact Or.inr ⟨hgo.trans h1, j, List.mem_cons_of_mem i hj, hrest⟩
      · push Not at hpass
        obtain ⟨hne, hty, hO, hL⟩ := hpass
        refine Or.inr ⟨?_, i, List.mem_cons_self, hne, hty, not_or.mpr ⟨hO, hL⟩⟩
        simp only [flowLoop, seek_finRange_iff, hne, hty, hO, hL, or_self, if_false]

theorem flowLoop_finRange_cases (skip : Cat) (L : Label) (O : Own) (L' : Label) :
    (flowLoop skip L O L' (List.finRange 8) = 0 ∧ FlowOk skip L O L') ∨
    (flowLoop skip L O L' (List.finRange 8) = -1 ∧ ¬ FlowOk skip L O L') := by
  rcases flowLoop_cases skip L O L' (List.finRange 8) with ⟨h, hall⟩ | ⟨h, i, -, hne, hty, hno⟩
  · refine Or.inl ⟨h, ?_⟩
    rintro c ⟨i, rfl⟩
    exact hall i (List.mem_finRange i)
  · exact Or.inr ⟨h, fun hok => hno (hok (L i) ⟨i, rfl⟩ hne hty)⟩

theorem ownLoop_cases (O1 O2 : Own) (is : List (Fin 8)) :
    (ownLoop O1 O2 is = 0 ∧ ∀ i ∈ is, O2 i ≠ 0 → Has O1 (O2 i)) ∨
    (ownLoop O1 O2 is = -1 ∧ ∃ i ∈ is, O2 i ≠ 0 ∧ ¬ Has O1 (O2 i)) := by
  induction is with
  | nil => exact Or.inl ⟨rfl, by simp only [List.not_mem_nil, false_implies, implies_true]⟩
  | cons i is ih =>
      by_cases hpass : O2 i ≠ 0 → Has O1 (O2 i)
      · have hgo : ownLoop O1 O2 (i :: is) = ownLoop O1 O2 is := by
          simp only [ownLoop]
          grind
        rcases ih with ⟨h0, hall⟩ | ⟨h1, j, hj, hrest⟩
        · refine Or.inl ⟨hgo.trans h0, fun j hj => ?_⟩
          rcases List.mem_cons.mp hj with rfl | hj
          · exact hpass
          · exact hall j hj
        · exact Or.inr ⟨hgo.trans h1, j, List.mem_cons_of_mem i hj, hrest⟩
      · push Not at hpass
        refine Or.inr ⟨?_, i, List.mem_cons_self, hpass⟩
        simp only [ownLoop, seek_finRange_iff, hpass.1, hpass.2, if_false]

theorem ownLoop_finRange_cases (O1 O2 : Own) :
    (ownLoop O1 O2 (List.finRange 8) = 0 ∧ OwnOk O1 O2) ∨
    (ownLoop O1 O2 (List.finRange 8) = -1 ∧ ¬ OwnOk O1 O2) := by
  rcases ownLoop_cases O1 O2 (List.finRange 8) with ⟨h, hall⟩ | ⟨h, i, -, hne, hno⟩
  · refine Or.inl ⟨h, ?_⟩
    rintro c ⟨i, rfl⟩
    exact hall i (List.mem_finRange i)
  · exact Or.inr ⟨h, fun hok => hno (hok (O2 i) ⟨i, rfl⟩ hne)⟩

/-- The set-level meaning of `checkLabel`: the categories that have to be
    present are, and the ownership handed on is a part of party 1's own. -/
def LabelOk (L1 : Label) (O1 : Own) (L2 : Label) (O2 : Option Own) : Prop :=
  FlowOk catI L1 O1 L2 ∧ FlowOk catS L2 O1 L1 ∧ ∀ O ∈ O2, OwnOk O1 O

/-- The check answers 0 or -1, and 0 exactly when the flow is allowed. -/
theorem checkLabel_cases (L1 : Label) (O1 : Own) (L2 : Label) (O2 : Option Own) :
    (checkLabel L1 O1 L2 O2 = 0 ∧ LabelOk L1 O1 L2 O2) ∨
    (checkLabel L1 O1 L2 O2 = -1 ∧ ¬ LabelOk L1 O1 L2 O2) := by
  unfold checkLabel LabelOk
  rcases flowLoop_finRange_cases catI L1 O1 L2 with ⟨hS, hokS⟩ | ⟨hS, hnoS⟩
  · rw [if_neg (by omega)]
    rcases flowLoop_finRange_cases catS L2 O1 L1 with ⟨hI, hokI⟩ | ⟨hI, hnoI⟩
    · rw [if_neg (by omega)]
      cases O2 with
      | none => exact Or.inl ⟨rfl, hokS, hokI, fun O hO => absurd hO (Option.not_mem_none O)⟩
      | some O2 =>
          rcases ownLoop_finRange_cases O1 O2 with ⟨hO, hok⟩ | ⟨hO, hno⟩
          · refine Or.inl ⟨hO, hokS, hokI, fun O hmem => ?_⟩
            rw [Option.mem_some_iff] at hmem
            exact hmem ▸ hok
          · exact Or.inr ⟨hO, fun h => hno (h.2.2 O2 rfl)⟩
    · rw [if_pos hI]
      exact Or.inr ⟨rfl, fun h => hnoI h.2.1⟩
  · rw [if_pos hS]
    exact Or.inr ⟨rfl, fun h => hnoS h.1⟩

theorem checkLabel_eq_zero_iff (L1 : Label) (O1 : Own) (L2 : Label) (O2 : Option Own) :
    checkLabel L1 O1 L2 O2 = 0 ↔ LabelOk L1 O1 L2 O2 := by
  rcases checkLabel_cases L1 O1 L2 O2 with ⟨h, hok⟩ | ⟨h, hno⟩
  · exact ⟨fun _ => hok, fun _ => h⟩
  · exact ⟨fun h0 => by omega, fun hok => absurd hok hno⟩

/-- A label flows to itself. -/
theorem checkLabel_self (L : Label) (O : Own) (O' : Option Own) (h : O' = none ∨ O' = some O) :
    checkLabel L O L O' = 0 := by
  rw [checkLabel_eq_zero_iff]
  refine ⟨fun c hc _ _ => Or.inr hc, fun c hc _ _ => Or.inr hc, fun X hX => ?_⟩
  rcases h with rfl | rfl
  · exact absurd hX (Option.not_mem_none X)
  · rw [Option.mem_some_iff] at hX
    exact hX ▸ fun _ hc _ => hc

/-- Memory may be written, and then also read, when both flows are allowed. -/
theorem checkMemProt_eq_protRW_iff (L1 : Label) (O1 : Own) (L2 : Label) :
    checkMemProt L1 O1 L2 = .protRW ↔
      LabelOk L1 O1 L2 none ∧ LabelOk L2 O1 L1 none := by
  rw [← checkLabel_eq_zero_iff, ← checkLabel_eq_zero_iff]
  simp only [checkMemProt]
  grind

/-- Memory may be read when the flow out of it is allowed. -/
theorem checkMemProt_ne_protN_iff (L1 : Label) (O1 : Own) (L2 : Label) :
    checkMemProt L1 O1 L2 ≠ .protN ↔ LabelOk L2 O1 L1 none := by
  rw [← checkLabel_eq_zero_iff]
  rcases checkLabel_cases L1 O1 L2 none with ⟨hw, -⟩ | ⟨hw, -⟩ <;>
    simp only [checkMemProt, hw] <;> grind

/-! ### The flow between two category sets -/

/-- The set an array stands for: the categories in its slots. Empty slots,
    order and repetition are gone. -/
def cats (X : Fin 8 → Cat) : Set Cat := {c | c ≠ 0 ∧ Has X c}

/-- The flow rule on sets: from `A` to `B` for a holder of `O`, every secrecy
    category has to be kept and every integrity category has to be there
    already, unless it is owned. -/
def Flows (A O B : Set Cat) : Prop :=
  (∀ c ∈ A, getCatType c = catS → c ∈ O ∪ B) ∧ (∀ c ∈ B, getCatType c = catI → c ∈ O ∪ A)

theorem getCatType_cases (c : Cat) : getCatType c = catS ∨ getCatType c = catI := by
  obtain ⟨b⟩ := c
  revert b
  decide +kernel

/-- A loop that passes over the type `skip` checks the categories of the other
    type. -/
theorem flowOk_iff {skip ty : Cat} (hty : ∀ c, getCatType c ≠ skip ↔ getCatType c = ty)
    (L : Label) (O : Own) (L' : Label) :
    FlowOk skip L O L' ↔ ∀ c ∈ cats L, getCatType c = ty → c ∈ cats O ∪ cats L' := by
  constructor
  · rintro h c ⟨hne, hc⟩ hc'
    exact (h c hc hne ((hty c).mpr hc')).imp (⟨hne, ·⟩) (⟨hne, ·⟩)
  · intro h c hc hne hskip
    exact (h c ⟨hne, hc⟩ ((hty c).mp hskip)).imp (·.2) (·.2)

theorem labelOk_iff (L1 : Label) (O1 : Own) (L2 : Label) (O2 : Option Own) :
    LabelOk L1 O1 L2 O2 ↔
      Flows (cats L1) (cats O1) (cats L2) ∧ ∀ O ∈ O2, cats O ⊆ cats O1 := by
  have hS : ∀ c, getCatType c ≠ catI ↔ getCatType c = catS := fun c => by
    rcases getCatType_cases c with h | h <;> rw [h] <;> decide
  have hI : ∀ c, getCatType c ≠ catS ↔ getCatType c = catI := fun c => by
    rcases getCatType_cases c with h | h <;> rw [h] <;> decide
  have hown : ∀ O, OwnOk O1 O ↔ cats O ⊆ cats O1 := fun O =>
    ⟨fun h c hc => ⟨hc.1, h c hc.2 hc.1⟩, fun h c hc hne => (h ⟨hne, hc⟩).2⟩
  simp only [LabelOk, Flows, flowOk_iff hS, flowOk_iff hI, hown, and_assoc]

theorem labelOk_none_iff (L1 : Label) (O1 : Own) (L2 : Label) :
    LabelOk L1 O1 L2 none ↔ Flows (cats L1) (cats O1) (cats L2) := by
  simp only [labelOk_iff, Option.not_mem_none, false_implies, implies_true, and_true]

/-- Both checks decide the flow rule on sets: `check_label` answers 0 exactly
    when the flow is allowed and no ownership is invented, and the protection
    of memory is read off the flows in the two directions. -/
theorem checkLabel_checkMemProt_flows (L1 : Label) (O1 : Own) (L2 : Label) (O2 : Option Own) :
    (checkLabel L1 O1 L2 O2 = 0 ↔
      Flows (cats L1) (cats O1) (cats L2) ∧ ∀ O ∈ O2, cats O ⊆ cats O1) ∧
    (checkMemProt L1 O1 L2 = .protRW ↔
      Flows (cats L1) (cats O1) (cats L2) ∧ Flows (cats L2) (cats O1) (cats L1)) ∧
    (checkMemProt L1 O1 L2 = .protR ↔
      Flows (cats L2) (cats O1) (cats L1) ∧ ¬ Flows (cats L1) (cats O1) (cats L2)) ∧
    (checkMemProt L1 O1 L2 = .protN ↔ ¬ Flows (cats L2) (cats O1) (cats L1)) := by
  have hrw := checkMemProt_eq_protRW_iff L1 O1 L2
  have hr := checkMemProt_ne_protN_iff L1 O1 L2
  rw [labelOk_none_iff] at hr
  rw [labelOk_none_iff, labelOk_none_iff] at hrw
  refine ⟨(checkLabel_eq_zero_iff ..).trans (labelOk_iff ..), hrw, ?_, by rw [← hr, not_not]⟩
  -- Of the three protections, read-only is the one that is neither of the others.
  rw [← hr]
  cases hp : checkMemProt L1 O1 L2 with
  | protN => simp
  | protR =>
      have hflow := hr.mp (by rw [hp]; decide)
      simpa using fun h => absurd (hrw.mpr ⟨h, hflow⟩) (by rw [hp]; decide)
  | protRW => simpa using (hrw.mp hp).1

/-! ### Ownership only helps -/

theorem FlowOk.mono {skip : Cat} {L L' : Label} {O O' : Own}
    (h : FlowOk skip L O L') (hO : ∀ c, c ≠ 0 → Has O c → Has O' c) : FlowOk skip L O' L' := by
  intro c hc hne hty
  exact (h c hc hne hty).imp_left (hO c hne)

theorem LabelOk.mono {L1 L2 : Label} {O O' : Own} (h : LabelOk L1 O L2 none)
    (hO : ∀ c, c ≠ 0 → Has O c → Has O' c) : LabelOk L1 O' L2 none :=
  ⟨h.1.mono hO, h.2.1.mono hO, fun X hX => absurd hX (Option.not_mem_none X)⟩

/-- A larger ownership never lowers the protection. -/
theorem checkMemProt_mono (L1 L2 : Label) {O O' : Own}
    (hO : ∀ c, c ≠ 0 → Has O c → Has O' c) :
    checkMemProt L1 O L2 ≤ checkMemProt L1 O' L2 := by
  cases hp : checkMemProt L1 O L2 with
  | protN => exact Nat.zero_le _
  | protR =>
      have hr : checkMemProt L1 O L2 ≠ .protN := by
        rw [hp]
        exact MemProt.noConfusion
      have hr' : checkMemProt L1 O' L2 ≠ .protN :=
        (checkMemProt_ne_protN_iff ..).mpr (((checkMemProt_ne_protN_iff ..).mp hr).mono hO)
      cases hp' : checkMemProt L1 O' L2 with
      | protN => exact absurd hp' hr'
      | protR => decide
      | protRW => decide
  | protRW =>
      obtain ⟨hw, hr⟩ := (checkMemProt_eq_protRW_iff ..).mp hp
      rw [(checkMemProt_eq_protRW_iff L1 O' L2).mpr ⟨hw.mono hO, hr.mono hO⟩]
      decide

theorem addLoop_has (O : Own) (cat c : Cat) (hne : c ≠ 0) (is : List (Fin 8)) (hc : Has O c) :
    Has (addLoop O cat is).1 c := by
  induction is with
  | nil => exact hc
  | cons i is ih =>
      by_cases hi : O i ≠ 0
      · simp only [addLoop, if_pos hi]
        exact ih
      · obtain ⟨j, hj⟩ := hc
        simp only [addLoop, if_neg hi]
        -- The slot written was empty, so it is not the one `c` is in.
        refine ⟨j, ?_⟩
        rw [Function.update_of_ne (fun h => hi (by rw [← h, hj]; exact hne)), hj]

/-- Adding to an ownership keeps what is in it. -/
theorem addOnwership_has (O : Own) (cat c : Cat) (hne : c ≠ 0) (hc : Has O c) :
    Has (addOnwership O cat).1 c :=
  addLoop_has O cat c hne _ hc

/-! ### Flow along a chain of clients -/

/-- Client 1 can pass information to client 2: through memory that 1 may write
    and 2 may read, or by forking 2. -/
inductive Linked (L1 : Label) (O1 : Own) (L2 : Label) (O2 : Own) : Prop
  | memory (R : Label) (write : checkMemProt L1 O1 R = .protRW)
      (read : checkMemProt L2 O2 R ≠ .protN)
  | fork (accepted : checkLabel L1 O1 L2 (some O2) = 0)

/-- Along one link a secrecy category stays in the label unless one of the two
    clients owns it. -/
theorem Linked.secrecy {L1 L2 : Label} {O1 O2 : Own} (h : Linked L1 O1 L2 O2) {c : Cat}
    (hne : c ≠ 0) (hty : getCatType c = catS) (hc : Has L1 c) :
    Has L2 c ∨ Has O1 c ∨ Has O2 c := by
  have hskip : getCatType c ≠ catI := by
    rw [hty]
    decide
  cases h with
  | memory R write read =>
      have hw := ((checkMemProt_eq_protRW_iff L1 O1 R).mp write).1
      have hr := (checkMemProt_ne_protN_iff L2 O2 R).mp read
      rcases hw.1 c hc hne hskip with hO | hR
      · exact Or.inr (Or.inl hO)
      · exact (hr.1 c hR hne hskip).elim (Or.inr ∘ Or.inr) Or.inl
  | fork accepted =>
      have hf := (checkLabel_eq_zero_iff ..).mp accepted
      exact (hf.1 c hc hne hskip).elim (Or.inr ∘ Or.inl) Or.inl

/-- Along one link an integrity category of the receiver was in the sender's
    label unless one of the two clients owns it. -/
theorem Linked.integrity {L1 L2 : Label} {O1 O2 : Own} (h : Linked L1 O1 L2 O2) {c : Cat}
    (hty : getCatType c = catI) (hc : Has L2 c) :
    Has L1 c ∨ Has O1 c ∨ Has O2 c := by
  have hskip : getCatType c ≠ catS := by
    rw [hty]
    decide
  have hne : c ≠ 0 := by
    rintro rfl
    exact absurd hty (by decide)
  cases h with
  | memory R write read =>
      have hw := ((checkMemProt_eq_protRW_iff L1 O1 R).mp write).1
      have hr := (checkMemProt_ne_protN_iff L2 O2 R).mp read
      rcases hr.2.1 c hc hne hskip with hO | hR
      · exact Or.inr (Or.inr hO)
      · exact (hw.2.1 c hR hne hskip).elim (Or.inr ∘ Or.inl) Or.inl
  | fork accepted =>
      have hf := (checkLabel_eq_zero_iff ..).mp accepted
      exact (hf.2.1 c hc hne hskip).elim (Or.inr ∘ Or.inl) Or.inl

/-- End-to-end flow. Along any chain of clients, each linked to the next, a
    secrecy category of the first is in the last one's label or some client of
    the chain owns it, and an integrity category of the last was in the first
    one's label or some client of the chain owns it. -/
theorem chain_flow (n : Nat) (L : Nat → Label) (O : Nat → Own)
    (hlink : ∀ i < n, Linked (L i) (O i) (L (i + 1)) (O (i + 1))) :
    (∀ c, c ≠ 0 → getCatType c = catS → Has (L 0) c → Has (L n) c ∨ ∃ i ≤ n, Has (O i) c) ∧
    (∀ c, getCatType c = catI → Has (L n) c → Has (L 0) c ∨ ∃ i ≤ n, Has (O i) c) := by
  induction n with
  | zero => exact ⟨fun c _ _ hc => Or.inl hc, fun c _ hc => Or.inl hc⟩
  | succ n ih =>
      obtain ⟨ihS, ihI⟩ := ih (fun i hi => hlink i (by omega))
      have hlast := hlink n (by omega)
      -- An owner further down the chain is an owner in the longer one.
      have hlift : ∀ {c}, (∃ i ≤ n, Has (O i) c) → ∃ i ≤ n + 1, Has (O i) c :=
        fun ⟨i, hi, ho⟩ => ⟨i, by omega, ho⟩
      refine ⟨fun c hne hty hc => ?_, fun c hty hc => ?_⟩
      · rcases ihS c hne hty hc with hn | ho
        · rcases hlast.secrecy hne hty hn with h | h | h
          · exact Or.inl h
          · exact Or.inr ⟨n, by omega, h⟩
          · exact Or.inr ⟨n + 1, by omega, h⟩
        · exact Or.inr (hlift ho)
      · rcases hlast.integrity hty hc with h | h | h
        · exact (ihI c hty h).imp_right hlift
        · exact Or.inr ⟨n, by omega, h⟩
        · exact Or.inr ⟨n + 1, by omega, h⟩

/-- A chain of one fork and one memory link: the middle client owns category 1
    and so may launder it. -/
theorem chain_flow_two :
    ∃ (L : Nat → Label) (O : Nat → Own),
      (∀ i < 2, Linked (L i) (O i) (L (i + 1)) (O (i + 1))) ∧ Has (L 0) 1 ∧ ¬ Has (L 2) 1 ∧
      (∀ c, c ≠ 0 → getCatType c = catS → Has (L 0) c → Has (L 2) c ∨ ∃ i ≤ 2, Has (O i) c) ∧
      (∀ c, getCatType c = catI → Has (L 2) c → Has (L 0) c ∨ ∃ i ≤ 2, Has (O i) c) := by
  let A : Label := ![1, 0, 0, 0, 0, 0, 0, 0]
  let Z : Label := ![0, 0, 0, 0, 0, 0, 0, 0]
  let L : Nat → Label := fun i => if i = 2 then Z else A
  let O : Nat → Own := fun i => if i = 2 then Z else A
  have hlink : ∀ i < 2, Linked (L i) (O i) (L (i + 1)) (O (i + 1)) := by
    intro i hi
    rcases (by omega : i = 0 ∨ i = 1) with rfl | rfl
    · exact .fork (by decide)
    · exact .memory Z (by decide) (by decide)
  exact ⟨L, O, hlink, ⟨0, rfl⟩, by unfold Has; decide, chain_flow 2 L O hlink⟩

end ArbiterThread
