/-! # Finite sets of indices

A set of natural numbers kept as its strictly increasing list of members, so two
sets with the same members are equal. Files and clone classes are selected by
such sets; `runs` cuts a set into its maximal blocks of consecutive members.
-/
namespace ClonePlot

structure IndexSet where
  toList : List Nat
  increasing : toList.Pairwise (· < ·)
  deriving DecidableEq

namespace IndexSet

@[ext] theorem ext_toList {s t : IndexSet} (h : s.toList = t.toList) : s = t := by
  cases s; cases t; cases h; rfl

def empty : IndexSet := ⟨[], .nil⟩

instance : EmptyCollection IndexSet := ⟨empty⟩
instance : Inhabited IndexSet := ⟨empty⟩
instance : Membership Nat IndexSet := ⟨fun s i => i ∈ s.toList⟩

theorem mem_def {i : Nat} {s : IndexSet} : i ∈ s ↔ i ∈ s.toList := Iff.rfl

instance (i : Nat) (s : IndexSet) : Decidable (i ∈ s) :=
  inferInstanceAs (Decidable (i ∈ s.toList))

@[simp] theorem not_mem_empty (i : Nat) : ¬ i ∈ (∅ : IndexSet) := List.not_mem_nil

def isEmpty (s : IndexSet) : Bool := s.toList.isEmpty

def size (s : IndexSet) : Nat := s.toList.length

def insertSorted (i : Nat) : List Nat → List Nat
  | [] => [i]
  | j :: rest => if i < j then i :: j :: rest else if i = j then j :: rest else j :: insertSorted i rest

theorem mem_insertSorted {i k : Nat} {l : List Nat} : k ∈ insertSorted i l ↔ k = i ∨ k ∈ l := by
  induction l with
  | nil => simp [insertSorted]
  | cons j rest ih =>
    unfold insertSorted
    split
    · simp
    · split
      · rename_i h; simp [h]
      · simp only [List.mem_cons, ih]
        constructor <;> (rintro (h | h | h) <;> simp [h])

theorem pairwise_insertSorted {i : Nat} {l : List Nat} (h : l.Pairwise (· < ·)) :
    (insertSorted i l).Pairwise (· < ·) := by
  induction h with
  | nil => simp [insertSorted]
  | @cons j rest hj hrest ih =>
    unfold insertSorted
    split
    · rename_i hij
      refine .cons ?_ (.cons hj hrest)
      intro k hk
      rcases List.mem_cons.1 hk with rfl | hk
      · exact hij
      · exact Nat.lt_trans hij (hj k hk)
    · split
      · exact .cons hj hrest
      · refine .cons ?_ ih
        intro k hk
        rcases mem_insertSorted.1 hk with rfl | hk
        · omega
        · exact hj k hk

def insert (i : Nat) (s : IndexSet) : IndexSet :=
  ⟨insertSorted i s.toList, pairwise_insertSorted s.increasing⟩

@[simp] theorem mem_insert {i k : Nat} {s : IndexSet} : k ∈ insert i s ↔ k = i ∨ k ∈ s :=
  mem_insertSorted

/-- The members of a list. Sorting first makes every insertion one at the front. -/
def ofList (l : List Nat) : IndexSet := (l.mergeSort (· ≤ ·)).foldr insert ∅

@[simp] theorem mem_foldr_insert {i : Nat} {l : List Nat} : i ∈ l.foldr insert ∅ ↔ i ∈ l := by
  induction l with
  | nil => simp
  | cons j rest ih => simp [ih]

@[simp] theorem mem_ofList {i : Nat} {l : List Nat} : i ∈ ofList l ↔ i ∈ l := by
  simp [ofList]

/-- The indices `start`, …, `stop - 1`. -/
def range (start stop : Nat) : IndexSet :=
  ⟨List.range' start (stop - start), List.pairwise_lt_range'⟩

def filter (keep : Nat → Bool) (s : IndexSet) : IndexSet :=
  ⟨s.toList.filter keep, s.increasing.filter keep⟩

@[simp] theorem mem_filter {i : Nat} {keep : Nat → Bool} {s : IndexSet} :
    i ∈ s.filter keep ↔ i ∈ s ∧ keep i = true := List.mem_filter

theorem ext_mem {s t : IndexSet} (h : ∀ i, i ∈ s ↔ i ∈ t) : s = t :=
  ext_toList <| List.Perm.eq_of_pairwise
    (fun a _ _ _ hab hba => absurd (Nat.lt_trans hab hba) (Nat.lt_irrefl a))
    s.increasing t.increasing
    ((List.perm_ext_iff_of_nodup (s.increasing.imp Nat.ne_of_lt)
      (t.increasing.imp Nat.ne_of_lt)).2 h)

/-- Half-open blocks of consecutive members, from the left. -/
def runsOf : List Nat → List (Nat × Nat)
  | [] => []
  | i :: rest =>
    match runsOf rest with
    | (start, stop) :: later =>
      if start = i + 1 then (i, stop) :: later else (i, i + 1) :: (start, stop) :: later
    | [] => [(i, i + 1)]

def runs (s : IndexSet) : List (Nat × Nat) := runsOf s.toList

end IndexSet
end ClonePlot
