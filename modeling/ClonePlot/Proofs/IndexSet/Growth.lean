import ClonePlot.Proofs.IndexSet.Runs

/-! # Runs that grow

A set can be cut into separate blocks in one way only, so anything that cuts it finds its runs. One
way is to take the members in order and to let each go on with the last block so far or begin a new
one; what has been taken is cut into blocks after every step.
-/
namespace ClonePlot.IndexSet

variable {s : IndexSet} {i : Nat} {runs runs' : List (Nat × Nat)} {run : Nat × Nat} {l : List Nat}

theorem Cuts.nodup (h : Cuts runs l) : runs.Nodup := by
  apply h.apart.imp_of_mem
  rintro a b ha - hab rfl
  exact absurd (h.nonempty a ha) (Nat.not_lt.mpr hab.le)

theorem Cuts.unique (h : Cuts runs s.toList) (h' : Cuts runs' s.toList) : runs = runs' := by
  have hperm : runs.Perm runs' := by
    rw [List.perm_ext_iff_of_nodup h.nodup h'.nodup]
    intro run
    rw [h.mem_iff_isRun, h'.mem_iff_isRun]
  apply hperm.eq_of_pairwise _ h.apart h'.apart
  intro a b ha hb hab hba
  have ha := h.nonempty a ha
  have hb := h'.nonempty b hb
  omega

/-- Index `i` goes on with the last block if that stops at it, and begins a new one if not. -/
def grow (runs : List (Nat × Nat)) (i : Nat) : List (Nat × Nat) :=
  match runs.getLast? with
  | some run => if run.2 = i then runs.dropLast ++ [(run.1, i + 1)] else runs ++ [(i, i + 1)]
  | none => [(i, i + 1)]

theorem grow_concat (runs : List (Nat × Nat)) (run : Nat × Nat) (i : Nat) :
    grow (runs ++ [run]) i =
      if run.2 = i then runs ++ [(run.1, i + 1)] else runs ++ [run] ++ [(i, i + 1)] := by
  simp [grow]

theorem Cuts.stop_le (h : Cuts runs l) (hi : ∀ j ∈ l, j < i) (hrun : run ∈ runs) : run.2 ≤ i := by
  have hlt := h.nonempty run hrun
  have hlast := hi (run.2 - 1) ((h.mem_iff _).mpr ⟨run, hrun, by omega, by omega⟩)
  omega

theorem Cuts.concat (h : Cuts runs l) (hi : ∀ run ∈ runs, run.2 < i) :
    Cuts (runs ++ [(i, i + 1)]) (l ++ [i]) where
  nonempty := by simpa [or_imp, forall_and] using h.nonempty
  apart := by simpa [List.pairwise_append] using ⟨h.apart, fun a b hab => hi _ hab⟩
  mem_iff j := by
    simp only [List.mem_append, List.mem_singleton, h.mem_iff j, or_and_right, exists_or,
      exists_eq_left]
    exact or_congr_right (by omega)

theorem Cuts.extend (h : Cuts (runs ++ [run]) l) :
    Cuts (runs ++ [(run.1, run.2 + 1)]) (l ++ [run.2]) where
  nonempty := by
    have hlt := h.nonempty run (by simp)
    intro a ha
    rcases List.mem_append.mp ha with ha | ha
    · exact h.nonempty a (List.mem_append_left _ ha)
    · rw [List.mem_singleton.mp ha]
      exact hlt.trans (Nat.lt_succ_self _)
  apart := by
    have happart := h.apart
    simp only [List.pairwise_append, List.mem_singleton, forall_eq] at happart ⊢
    exact ⟨happart.1, List.pairwise_singleton _ _, happart.2.2⟩
  mem_iff j := by
    have hlt := h.nonempty run (by simp)
    simp only [List.mem_append, List.mem_singleton, h.mem_iff j, or_and_right, exists_or,
      exists_eq_left, or_assoc]
    exact or_congr_right (by omega)

theorem Cuts.grow (h : Cuts runs l) (hi : ∀ j ∈ l, j < i) : Cuts (grow runs i) (l ++ [i]) := by
  rcases List.eq_nil_or_concat runs with rfl | ⟨before, run, rfl⟩
  · exact h.concat (by simp)
  · rw [List.concat_eq_append] at h ⊢
    rw [grow_concat]
    split
    · rename_i hnext
      exact hnext ▸ h.extend
    · rename_i hgap
      have hlt := h.nonempty run (by simp)
      have hstop : run.2 ≤ i := h.stop_le hi (by simp)
      apply h.concat
      intro other hother
      rcases List.mem_append.mp hother with hother | hother
      · have hapart := (List.pairwise_append.mp h.apart).2.2 other hother run List.mem_cons_self
        omega
      · rw [List.mem_singleton.mp hother]
        omega

theorem cuts_foldl_grow (h : l.Pairwise (· < ·)) : Cuts (l.foldl IndexSet.grow []) l := by
  induction l using List.reverseRecOn with
  | nil => exact ⟨by simp, .nil, by simp⟩
  | append_singleton l i ih =>
    obtain ⟨hl, -, hi⟩ := List.pairwise_append.mp h
    rw [List.foldl_append]
    exact (ih hl).grow fun j hj => hi j hj i List.mem_cons_self

/-- The runs of a set are the only list of ranges from left to right, none of them empty and an index
left out between any two, that together hold the members. The members taken in order grow the same
runs, and no run stops past a bound on the members. -/
theorem runs_eq_iff (s : IndexSet) (runs : List (Nat × Nat)) :
    (s.runs = runs ↔ (∀ run ∈ runs, run.1 < run.2) ∧ (runs.Pairwise fun a b => a.2 < b.1) ∧
      ∀ i, i ∈ s ↔ ∃ run ∈ runs, run.1 ≤ i ∧ i < run.2) ∧
    s.toList.foldl grow [] = s.runs ∧
    ∀ bound, (∀ i ∈ s, i < bound) ↔ ∀ run ∈ s.runs, run.2 ≤ bound := by
  have hcuts := cuts_runs s
  refine ⟨⟨?_, ?_⟩, (cuts_foldl_grow s.increasing).unique hcuts, fun bound => ⟨?_, ?_⟩⟩
  · rintro rfl
    exact ⟨hcuts.nonempty, hcuts.apart, hcuts.mem_iff⟩
  · rintro ⟨hnonempty, hapart, hmem⟩
    exact hcuts.unique ⟨hnonempty, hapart, hmem⟩
  · intro hbound run hrun
    exact hcuts.stop_le hbound hrun
  · intro hbound i hi
    obtain ⟨run, hrun, -, hlt⟩ := (hcuts.mem_iff i).mp hi
    exact hlt.trans_le (hbound run hrun)

end ClonePlot.IndexSet
