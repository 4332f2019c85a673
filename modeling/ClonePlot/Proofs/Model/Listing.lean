import ClonePlot.Proofs.Frontier

/-! # Listings of the same pairs

A detector may list pairs in any order and name either fragment of a pair first. The rows of a
model hold the same views all the same, though not in the same order: views that differ only in
where their fragments stop stay in the order of listing. A loop over sorted rows does not notice,
as long as views with equal keys can be exchanged.
-/
namespace ClonePlot

/-- The same pairs in another order, any of them given from its other side. -/
def Relisted (pairs pairs' : List ClonePair) : Prop :=
  ∃ turned, List.Forall₂ (fun p q => q = p ∨ q = p.flipped) pairs turned ∧ turned.Perm pairs'

namespace ClonePair

theorem perm_orientations_flipped (p : ClonePair) : p.flipped.orientations.Perm p.orientations := by
  unfold orientations
  rw [flipped_flipped]
  by_cases h : p.flipped = p
  · rw [if_pos h, if_pos h.symm, h]
  · rw [if_neg h, if_neg (Ne.symm h)]
    exact .swap _ _ _

theorem classId_eq_of_rowKey_eq {p q : ClonePair} (h : p.rowKey = q.rowKey) :
    p.classId = q.classId := by
  simp only [rowKey, List.cons.injEq, and_true] at h
  exact h.2.2.2

end ClonePair

theorem Relisted.perm_flatMap_orientations {pairs pairs' : List ClonePair}
    (h : Relisted pairs pairs') :
    (pairs.flatMap ClonePair.orientations).Perm (pairs'.flatMap ClonePair.orientations) := by
  obtain ⟨turned, hturned, hperm⟩ := h
  refine List.Perm.trans ?_ (hperm.flatMap_right _)
  clear hperm
  induction hturned with
  | nil => exact .refl _
  | @cons p q rest turned hq _ ih =>
    rw [List.flatMap_cons, List.flatMap_cons]
    rcases hq with rfl | rfl
    · exact ih.append_left _
    · exact p.perm_orientations_flipped.symm.append ih

namespace Model
variable {m m' : Model}

theorem perm_row_of_relisted (h : Relisted m.pairs m'.pairs) (i : Nat) :
    (m.row i).Perm (m'.row i) :=
  ((m.perm_row i).trans (h.perm_flatMap_orientations.filter _)).trans (m'.perm_row i).symm

theorem perm_views_of_rows (hcount : m.fileCount = m'.fileCount)
    (hrows : ∀ i, (m.row i).Perm (m'.row i)) : m.views.Perm m'.views := by
  unfold views
  rw [hcount]
  exact List.Perm.flatMap_left _ fun i _ => hrows i

end Model

/-- A member that commutes with all before it can be moved to the front of a loop. -/
theorem foldl_middle {α β : Type} {f : β → α → β} {a : α} {front : List α}
    (hcomm : ∀ x ∈ front, ∀ b, f (f b x) a = f (f b a) x) (back : List α) (b : β) :
    (front ++ a :: back).foldl f b = (front ++ back).foldl f (f b a) := by
  induction front generalizing b with
  | nil => rfl
  | cons x front ih =>
    obtain ⟨hx, hfront⟩ := List.forall_mem_cons.mp hcomm
    rw [List.cons_append, List.foldl_cons, ih hfront, hx b]
    rfl

/-- Two sorted orders of one collection differ by exchanges of members with equal keys, so a loop
in which such members commute gives the same result. -/
theorem foldl_eq_of_perm_of_pairwise {α β κ : Type} [PartialOrder κ] (key : α → κ) (f : β → α → β)
    (hcomm : ∀ a a', key a = key a' → ∀ b, f (f b a) a' = f (f b a') a) {l l' : List α}
    (hperm : l.Perm l') (hl : l.Pairwise (key · ≤ key ·)) (hl' : l'.Pairwise (key · ≤ key ·))
    (b : β) : l.foldl f b = l'.foldl f b := by
  -- the head of the first order is brought to the front of the second
  induction l generalizing l' b with
  | nil => rw [hperm.nil_eq]
  | cons a rest ih =>
    obtain ⟨hfirst, hrest⟩ := List.pairwise_cons.mp hl
    obtain ⟨front, back, rfl⟩ := List.append_of_mem (hperm.subset List.mem_cons_self)
    have hkey : ∀ x ∈ front, key x = key a := by
      intro x hx
      have hle := (List.pairwise_append.mp hl').2.2 x hx a List.mem_cons_self
      rcases List.mem_cons.mp (hperm.symm.subset (List.mem_append_left _ hx)) with rfl | hx
      · rfl
      · exact le_antisymm hle (hfirst x hx)
    have hsorted : (front ++ back).Pairwise (key · ≤ key ·) :=
      hl'.sublist ((List.Sublist.refl front).append (List.sublist_cons_self a back))
    have hremain : rest.Perm (front ++ back) := (hperm.trans List.perm_middle).cons_inv
    rw [List.foldl_cons, foldl_middle fun x hx => hcomm x a (hkey x hx)]
    exact ih hremain hrest hsorted (f b a)

end ClonePlot
