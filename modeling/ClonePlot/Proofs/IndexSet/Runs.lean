import Mathlib
import ClonePlot.IndexSet

/-! # Runs are apart

The runs of a set come in order, and between two of them at least one index is missing. Written out
one after the other they are the set, so that they are its maximal blocks, each listed once.
-/
namespace ClonePlot.IndexSet

/-- Blocks that are not empty, the first from `low` on, each leaving a gap to the next. -/
def Apart : Nat → List (Nat × Nat) → Prop
  | _, [] => True
  | low, run :: later => low ≤ run.1 ∧ run.1 < run.2 ∧ Apart (run.2 + 1) later

theorem Apart.le_of_mem {low : Nat} {runs : List (Nat × Nat)} (h : Apart low runs)
    {run : Nat × Nat} (hrun : run ∈ runs) : low ≤ run.1 ∧ run.1 < run.2 := by
  induction runs generalizing low with
  | nil => cases hrun
  | cons first later ih =>
    obtain ⟨hlow, hlt, hlater⟩ := h
    rcases List.mem_cons.mp hrun with rfl | hrun
    · exact ⟨hlow, hlt⟩
    · obtain ⟨hstart, hstop⟩ := ih hlater hrun
      exact ⟨by omega, hstop⟩

theorem Apart.pairwise {low : Nat} {runs : List (Nat × Nat)} (h : Apart low runs) :
    runs.Pairwise fun a b => a.2 < b.1 := by
  induction runs generalizing low with
  | nil => exact .nil
  | cons first later ih =>
    exact .cons (fun run hrun => (h.2.2.le_of_mem hrun).1) (ih h.2.2)

theorem apart_runsOf {l : List Nat} (h : l.Pairwise (· < ·)) {low : Nat}
    (hlow : ∀ i ∈ l, low ≤ i) : Apart low (runsOf l) := by
  induction l generalizing low with
  | nil => trivial
  | cons i rest ih =>
    obtain ⟨hfirst, hrest⟩ := List.pairwise_cons.mp h
    have hi := hlow i List.mem_cons_self
    have hlater : Apart (i + 1) (runsOf rest) := ih hrest hfirst
    unfold runsOf
    cases hruns : runsOf rest with
    | nil => exact ⟨hi, Nat.lt_succ_self i, trivial⟩
    | cons run later =>
      rw [hruns] at hlater
      obtain ⟨hstart, hlt, hmore⟩ := hlater
      dsimp only
      split
      · exact ⟨hi, by omega, hmore⟩
      · exact ⟨hi, Nat.lt_succ_self i, by omega, hlt, hmore⟩

theorem apart_runs (s : IndexSet) : Apart 0 s.runs :=
  apart_runsOf s.increasing fun i _ => Nat.zero_le i

/-- The runs written out are the list they were made of. -/
theorem flatMap_runsOf {l : List Nat} (h : l.Pairwise (· < ·)) :
    ((runsOf l).flatMap fun run => List.range' run.1 (run.2 - run.1)) = l := by
  induction l with
  | nil => rfl
  | cons i rest ih =>
    obtain ⟨hfirst, hrest⟩ := List.pairwise_cons.mp h
    have hlater : Apart (i + 1) (runsOf rest) := apart_runsOf hrest hfirst
    have ih := ih hrest
    unfold runsOf
    cases hruns : runsOf rest with
    | nil =>
      rw [hruns] at ih
      simp [← ih]
    | cons run later =>
      rw [hruns, List.flatMap_cons] at ih
      rw [hruns] at hlater
      obtain ⟨-, hlt, -⟩ := hlater
      dsimp only
      split
      · rename_i hnext
        have hlength : run.2 - i = run.2 - run.1 + 1 := by omega
        rw [List.flatMap_cons, hlength, List.range'_succ, List.cons_append, ← hnext, ih]
      · rw [List.flatMap_cons, List.flatMap_cons, ih, Nat.add_sub_cancel_left]
        rfl

variable {s : IndexSet} {i : Nat} {runs : List (Nat × Nat)} {run run' : Nat × Nat}

theorem mem_iff_exists_run : i ∈ s ↔ ∃ run ∈ s.runs, run.1 ≤ i ∧ i < run.2 := by
  rw [mem_def, ← flatMap_runsOf s.increasing, List.mem_flatMap]
  refine exists_congr fun run => and_congr_right fun hrun => ?_
  have hlt := ((apart_runs s).le_of_mem hrun).2
  rw [List.mem_range'_1]
  omega

/-- Blocks from left to right that hold the members of `l`, none of them empty and no two of them
next to each other. -/
structure Cuts (runs : List (Nat × Nat)) (l : List Nat) : Prop where
  nonempty : ∀ run ∈ runs, run.1 < run.2
  apart : runs.Pairwise fun a b => a.2 < b.1
  mem_iff : ∀ i, i ∈ l ↔ ∃ run ∈ runs, run.1 ≤ i ∧ i < run.2

theorem cuts_runs (s : IndexSet) : Cuts s.runs s.toList where
  nonempty _ hrun := ((apart_runs s).le_of_mem hrun).2
  apart := (apart_runs s).pairwise
  mem_iff _ := mem_iff_exists_run

theorem Cuts.eq_or_apart {l : List Nat} (h : Cuts runs l) (hrun : run ∈ runs)
    (hrun' : run' ∈ runs) : run = run' ∨ run.2 < run'.1 ∨ run'.2 < run.1 := by
  have hsides : runs.Pairwise fun a b => a.2 < b.1 ∨ b.2 < a.1 := h.apart.imp .inl
  have hsymm : Std.Symm fun a b : Nat × Nat => a.2 < b.1 ∨ b.2 < a.1 := ⟨fun _ _ => Or.symm⟩
  exact or_iff_not_imp_left.mpr (hsides.forall hrun hrun')

/-- A block of members that cannot be extended to either side. -/
structure IsRun (s : IndexSet) (run : Nat × Nat) : Prop where
  lt : run.1 < run.2
  mem : ∀ i, run.1 ≤ i → i < run.2 → i ∈ s
  before : ∀ i, i + 1 = run.1 → i ∉ s
  after : run.2 ∉ s

theorem IsRun.within_of_shared (h : s.IsRun run) (h' : s.IsRun run') (hi : run.1 ≤ i ∧ i < run.2)
    (hi' : run'.1 ≤ i ∧ i < run'.2) : run.1 ≤ run'.1 ∧ run'.2 ≤ run.2 := by
  constructor
  · by_contra hlt
    exact h.before (run.1 - 1) (by omega) (h'.mem _ (by omega) (by omega))
  · by_contra hlt
    exact h.after (h'.mem _ (by omega) (by omega))

theorem IsRun.eq_of_shared (h : s.IsRun run) (h' : s.IsRun run') (hi : run.1 ≤ i ∧ i < run.2)
    (hi' : run'.1 ≤ i ∧ i < run'.2) : run = run' := by
  have hwithin := h.within_of_shared h' hi hi'
  have hwithin' := h'.within_of_shared h hi' hi
  exact Prod.ext (by omega) (by omega)

theorem Cuts.isRun_of_mem (h : Cuts runs s.toList) (hrun : run ∈ runs) : s.IsRun run := by
  have hlt := h.nonempty run hrun
  refine ⟨hlt, fun i hlow hhigh => (h.mem_iff i).mpr ⟨run, hrun, hlow, hhigh⟩, ?_, ?_⟩
  · intro i hi hmem
    obtain ⟨other, hother, hlow, hhigh⟩ := (h.mem_iff i).mp hmem
    rcases h.eq_or_apart hother hrun with rfl | hbefore | hafter <;> omega
  · intro hmem
    obtain ⟨other, hother, hlow, hhigh⟩ := (h.mem_iff _).mp hmem
    rcases h.eq_or_apart hother hrun with rfl | hbefore | hafter <;> omega

/-- A set can be cut into its maximal blocks only. -/
theorem Cuts.mem_iff_isRun (h : Cuts runs s.toList) : run ∈ runs ↔ s.IsRun run := by
  refine ⟨h.isRun_of_mem, fun hmaximal => ?_⟩
  have hfirst : run.1 ∈ s := hmaximal.mem run.1 le_rfl hmaximal.lt
  obtain ⟨other, hother, hlow, hhigh⟩ := (h.mem_iff _).mp hfirst
  rwa [hmaximal.eq_of_shared (h.isRun_of_mem hother) ⟨le_rfl, hmaximal.lt⟩ ⟨hlow, hhigh⟩]

theorem mem_runs_iff : run ∈ s.runs ↔ s.IsRun run := (cuts_runs s).mem_iff_isRun

end ClonePlot.IndexSet
