import Mathlib
import ClonePlot.Directory
import ClonePlot.Proofs.Directory.Run

/-! # Nested blocks

In a list of blocks where each comes after those inside of it, the smallest block around a given one
is the first of the later blocks that starts no later.
-/
namespace ClonePlot

namespace FileBlock

variable {a b : FileBlock}

def Encloses (outer inner : FileBlock) : Prop :=
  outer.start ≤ inner.start ∧ inner.stop ≤ outer.stop ∧ outer ≠ inner

theorem Encloses.trans {c : FileBlock} (hab : a.Encloses b) (hbc : b.Encloses c) :
    a.Encloses c := by
  refine ⟨hab.1.trans hbc.1, hbc.2.1.trans hab.2.1, ?_⟩
  rintro rfl
  exact hab.2.2 (FileBlock.ext (le_antisymm hab.1 hbc.1) (le_antisymm hbc.2.1 hab.2.1))

theorem Encloses.size_lt (h : b.Encloses a) (ha : a.start < a.stop) : a.size < b.size := by
  obtain ⟨hstart, hstop, hne⟩ := h
  by_contra hsize
  unfold size at hsize
  exact hne (FileBlock.ext (by omega) (by omega))

end FileBlock

/-- Blocks of files in an order where every block comes after what it contains. -/
structure Nested (blocks : List FileBlock) : Prop where
  nonempty : ∀ b ∈ blocks, b.start < b.stop
  pairwise : blocks.Pairwise fun a b => a.stop ≤ b.start ∨ b.Encloses a

namespace Nested

variable {blocks : List FileBlock} {b c c' : FileBlock} {i j k : Nat}

theorem apart_or_encloses (h : Nested blocks) (hb : blocks[k]? = some b)
    (hc : blocks[j]? = some c) (hkj : k < j) : b.stop ≤ c.start ∨ c.Encloses b := by
  obtain ⟨hk, rfl⟩ := List.getElem?_eq_some_iff.mp hb
  obtain ⟨hj, rfl⟩ := List.getElem?_eq_some_iff.mp hc
  exact List.pairwise_iff_getElem.mp h.pairwise k j hk hj hkj

theorem encloses_iff (h : Nested blocks) (hb : blocks[k]? = some b) (hc : blocks[j]? = some c) :
    c.Encloses b ↔ k < j ∧ c.start ≤ b.start := by
  have hb' := h.nonempty b (List.mem_of_getElem? hb)
  constructor
  · rintro ⟨hstart, hstop, hne⟩
    refine ⟨?_, hstart⟩
    rcases Nat.lt_trichotomy k j with hkj | rfl | hjk
    · exact hkj
    · exact absurd (Option.some.inj (hc.symm.trans hb)) hne
    · rcases h.apart_or_encloses hc hb hjk with hapart | ⟨hstart', hstop', -⟩
      · omega
      · exact absurd (FileBlock.ext (by omega) (by omega)) hne
  · rintro ⟨hkj, hstart⟩
    rcases h.apart_or_encloses hb hc hkj with hapart | henclosed
    · omega
    · exact henclosed

/-- Of two blocks around a third one the earlier is inside of the later. -/
theorem size_lt_of_lt (h : Nested blocks) (hb : b ∈ blocks) (hc : blocks[j]? = some c)
    (hc' : blocks[k]? = some c') (hcb : c.Encloses b) (hcb' : c'.Encloses b) (hjk : j < k) :
    c.size < c'.size := by
  have hb' := h.nonempty b hb
  rcases h.apart_or_encloses hc hc' hjk with hapart | henclosed
  · have hstop := hcb.2.1
    have hstart := hcb'.1
    omega
  · exact henclosed.size_lt (h.nonempty c (List.mem_of_getElem? hc))

theorem le_iff_size_le (h : Nested blocks) (hb : b ∈ blocks) (hc : blocks[j]? = some c)
    (hc' : blocks[k]? = some c') (hcb : c.Encloses b) (hcb' : c'.Encloses b) :
    j ≤ k ↔ c.size ≤ c'.size := by
  rcases Nat.lt_trichotomy j k with hjk | rfl | hkj
  · exact iff_of_true hjk.le (h.size_lt_of_lt hb hc hc' hcb hcb' hjk).le
  · cases hc.symm.trans hc'
    exact iff_of_true le_rfl le_rfl
  · exact iff_of_false hkj.not_ge (h.size_lt_of_lt hb hc' hc hcb' hcb hkj).not_ge

end Nested

/-- The place of the smallest block strictly around `b`. -/
def IsParent (blocks : List FileBlock) (b : FileBlock) (j : Nat) : Prop :=
  ∃ outer, blocks[j]? = some outer ∧ outer.Encloses b ∧
    ∀ other ∈ blocks, other.Encloses b → outer.size ≤ other.size

theorem Nested.isParent_iff {blocks : List FileBlock} {b : FileBlock} {k : Nat}
    (h : Nested blocks) (hb : blocks[k]? = some b) (j : Nat) : IsParent blocks b j ↔
      k < j ∧ ∃ outer, blocks[j]? = some outer ∧ outer.start ≤ b.start ∧
        ∀ i other, k < i → i < j → blocks[i]? = some other → b.start < other.start := by
  have hmem := List.mem_of_getElem? hb
  constructor
  · rintro ⟨outer, hj, henclosed, hsmallest⟩
    obtain ⟨hkj, hstart⟩ := (h.encloses_iff hb hj).mp henclosed
    refine ⟨hkj, outer, hj, hstart, fun i other hki hij hi => ?_⟩
    by_contra hother
    have hother := (h.encloses_iff hb hi).mpr ⟨hki, Nat.le_of_not_lt hother⟩
    have hji := (h.le_iff_size_le hmem hj hi henclosed hother).mpr
      (hsmallest other (List.mem_of_getElem? hi) hother)
    omega
  · rintro ⟨hkj, outer, hj, hstart, hfirst⟩
    have henclosed := (h.encloses_iff hb hj).mpr ⟨hkj, hstart⟩
    refine ⟨outer, hj, henclosed, fun other hother henclosed' => ?_⟩
    obtain ⟨i, hi⟩ := List.getElem?_of_mem hother
    obtain ⟨hki, hstart'⟩ := (h.encloses_iff hb hi).mp henclosed'
    refine (h.le_iff_size_le hmem hj hi henclosed henclosed').mp (Nat.le_of_not_lt fun hij => ?_)
    have hlater := hfirst i other hki hij hi
    omega

theorem findIdx?_drop_eq_some_iff {α : Type} {p : α → Bool} {l : List α} {n j : Nat} :
    ((l.drop n).findIdx? p).map (· + n) = some j ↔
      n ≤ j ∧ ∃ x, l[j]? = some x ∧ p x ∧ ∀ i y, n ≤ i → i < j → l[i]? = some y → ¬p y := by
  rw [Option.map_eq_some_iff]
  constructor
  · rintro ⟨j, hfind, rfl⟩
    obtain ⟨hj, hp, hfirst⟩ := List.findIdx?_eq_some_iff_getElem.mp hfind
    refine ⟨Nat.le_add_left n j, (l.drop n)[j], ?_, hp, fun i y hni hij hi => ?_⟩
    · rw [Nat.add_comm, ← List.getElem?_drop, List.getElem?_eq_getElem]
    · obtain ⟨i, rfl⟩ := Nat.exists_eq_add_of_le hni
      rw [← List.getElem?_drop] at hi
      obtain ⟨_, rfl⟩ := List.getElem?_eq_some_iff.mp hi
      exact hfirst i (by omega)
  · rintro ⟨hnj, x, hx, hp, hfirst⟩
    obtain ⟨j, rfl⟩ := Nat.exists_eq_add_of_le hnj
    rw [← List.getElem?_drop] at hx
    obtain ⟨hj, rfl⟩ := List.getElem?_eq_some_iff.mp hx
    refine ⟨j, List.findIdx?_eq_some_iff_getElem.mpr ⟨hj, hp, fun i hij => ?_⟩, Nat.add_comm j n⟩
    refine hfirst (n + i) _ (Nat.le_add_right n i) (by omega) ?_
    rw [← List.getElem?_drop, List.getElem?_eq_getElem]

/-- For each block its parent in the list, blocks numbered from `i`. -/
def parentsFrom (i : Nat) : List FileBlock → List (Option Nat)
  | [] => []
  | b :: rest =>
    (rest.findIdx? fun outer => outer.start ≤ b.start).map (· + i + 1) :: parentsFrom (i + 1) rest

theorem parentsFrom_append {as bs : List FileBlock} (i : Nat)
    (h : ∀ a ∈ as, ∀ b ∈ bs, a.start < b.start) :
    parentsFrom i (as ++ bs) = parentsFrom i as ++ parentsFrom (i + as.length) bs := by
  induction as generalizing i with
  | nil => rfl
  | cons a as ih =>
    have hnone : bs.findIdx? (fun outer => outer.start ≤ a.start) = none :=
      List.findIdx?_eq_none_iff.mpr fun b hb =>
        decide_eq_false (Nat.not_le.mpr (h a List.mem_cons_self b hb))
    rw [List.cons_append, parentsFrom, parentsFrom, List.findIdx?_append, hnone,
      ih (i + 1) fun a ha => h a (List.mem_cons_of_mem _ ha), List.length_cons,
      Nat.add_right_comm, Nat.add_assoc]
    simp

/-- A block around all of them is the parent of those that had none. -/
theorem parentsFrom_concat {as : List FileBlock} {outer : FileBlock} (i : Nat)
    (h : ∀ a ∈ as, outer.start ≤ a.start) : parentsFrom i (as ++ [outer]) =
      (parentsFrom i as).map (·.or (some (i + as.length))) ++ [none] := by
  induction as generalizing i with
  | nil => rfl
  | cons a as ih =>
    have hfound : [outer].findIdx? (fun outer => outer.start ≤ a.start) = some 0 := by
      simp [h a List.mem_cons_self]
    rw [List.cons_append, parentsFrom, parentsFrom, List.findIdx?_append, hfound,
      ih (i + 1) fun a ha => h a (List.mem_cons_of_mem _ ha)]
    have hplace : as.length + (i + 1) = i + (as.length + 1) := by omega
    cases as.findIdx? (fun outer => outer.start ≤ a.start) with
    | none => simp [hplace, Nat.add_assoc, Nat.add_comm 1]
    | some j => simp [Nat.add_assoc, Nat.add_comm 1]

theorem getElem?_parentsFrom (i k : Nat) (blocks : List FileBlock) :
    (parentsFrom i blocks)[k]? = blocks[k]?.map fun b =>
      ((blocks.drop (k + 1)).findIdx? fun outer => outer.start ≤ b.start).map
        (· + (i + (k + 1))) := by
  induction blocks generalizing i k with
  | nil => rfl
  | cons b rest ih =>
    cases k with
    | zero => rfl
    | succ k =>
      unfold parentsFrom
      rw [List.getElem?_cons_succ, ih, Nat.add_right_comm i 1 (k + 1)]
      rfl

namespace Nested

variable {blocks : List FileBlock} {b : FileBlock} {k : Nat} {parent : Option Nat}

theorem parent_eq_some_iff (h : Nested blocks) (hb : blocks[k]? = some b)
    (hparent : (parentsFrom 0 blocks)[k]? = some parent) (j : Nat) :
    parent = some j ↔ IsParent blocks b j := by
  rw [getElem?_parentsFrom, hb, Nat.zero_add] at hparent
  cases hparent
  rw [h.isParent_iff hb, findIdx?_drop_eq_some_iff]
  simp only [decide_eq_true_eq, Nat.not_le]
  rfl

theorem parent_eq_none_iff (h : Nested blocks) (hb : blocks[k]? = some b)
    (hparent : (parentsFrom 0 blocks)[k]? = some parent) :
    parent = none ↔ ∀ outer ∈ blocks, ¬outer.Encloses b := by
  rw [getElem?_parentsFrom, hb, Nat.zero_add] at hparent
  cases hparent
  rw [Option.map_eq_none_iff, List.findIdx?_eq_none_iff]
  constructor
  · intro hnone outer houter henclosed
    obtain ⟨j, hj⟩ := List.getElem?_of_mem houter
    obtain ⟨hkj, hstart⟩ := (h.encloses_iff hb hj).mp henclosed
    obtain ⟨i, rfl⟩ := Nat.exists_eq_add_of_le hkj
    rw [Nat.succ_eq_add_one, ← List.getElem?_drop] at hj
    have hlater := hnone outer (List.mem_of_getElem? hj)
    exact of_decide_eq_false hlater hstart
  · intro hnone outer houter
    obtain ⟨i, hi⟩ := List.getElem?_of_mem houter
    rw [List.getElem?_drop] at hi
    refine decide_eq_false fun hstart => hnone outer (List.mem_of_getElem? hi) ?_
    exact (h.encloses_iff hb hi).mpr ⟨by omega, hstart⟩

end Nested

end ClonePlot
