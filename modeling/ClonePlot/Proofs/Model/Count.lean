import ClonePlot.Proofs.Model.Validation

/-! # Pairs and how often they are listed

The rows of a model show every pair from both its sides, so a detector that lists a pair again, from
the same side or from the other one, adds no new pair to them. The count of pairs takes no notice of
this: it goes up with every listing, and is the number of distinct pairs only where no pair is listed
twice.
-/
namespace ClonePlot
namespace ClonePair

variable {p q : ClonePair}

/-- What the two views of a pair have in common. -/
def unoriented (p : ClonePair) : Nat × Sym2 Fragment := (p.classId, s(p.left, p.right))

@[simp] theorem unoriented_flipped (p : ClonePair) : p.flipped.unoriented = p.unoriented :=
  congrArg (Prod.mk p.classId) Sym2.eq_swap

theorem unoriented_eq_iff : p.unoriented = q.unoriented ↔ q = p ∨ q = p.flipped := by
  constructor
  · intro h
    cases p
    cases q
    obtain ⟨hclass, hsides⟩ := Prod.mk.inj h
    rcases Sym2.eq_iff.mp hsides with ⟨hleft, hright⟩ | ⟨hleft, hright⟩
    · left
      simp_all
    · right
      simp_all [flipped]
  · rintro (rfl | rfl)
    · rfl
    · exact p.unoriented_flipped.symm

end ClonePair

namespace Model

variable {files : Array SourceFile} {pairs : List ClonePair} {m m' : Model}

/-- The pairs in the rows, each once for both its views. -/
def distinctPairs (m : Model) : Finset (Nat × Sym2 Fragment) :=
  (m.views.map ClonePair.unoriented).toFinset

theorem distinctPairs_eq (m : Model) :
    m.distinctPairs = (m.pairs.map ClonePair.unoriented).toFinset := by
  ext c
  simp only [distinctPairs, List.mem_toFinset, List.mem_map, m.perm_views.mem_iff,
    List.mem_flatMap, ClonePair.mem_orientations_iff]
  constructor
  · rintro ⟨q, ⟨p, hp, hq⟩, rfl⟩
    exact ⟨p, hp, ClonePair.unoriented_eq_iff.mpr hq⟩
  · rintro ⟨p, hp, rfl⟩
    exact ⟨p, ⟨p, hp, .inl rfl⟩, rfl⟩

theorem card_distinctPairs_le (m : Model) : m.distinctPairs.card ≤ m.pairCount := by
  calc m.distinctPairs.card
      = (m.pairs.map ClonePair.unoriented).toFinset.card := by rw [distinctPairs_eq]
    _ ≤ (m.pairs.map ClonePair.unoriented).length := List.toFinset_card_le _
    _ = m.pairCount := List.length_map _

theorem pairCount_eq_card_iff_pairwise (m : Model) : m.pairCount = m.distinctPairs.card ↔
    m.pairs.Pairwise fun p q => q ≠ p ∧ q ≠ p.flipped := by
  have hlength : (m.pairs.map ClonePair.unoriented).length = m.pairCount := List.length_map _
  have hnodup : (m.pairs.map ClonePair.unoriented).toFinset.card = m.pairCount ↔
      (m.pairs.map ClonePair.unoriented).Nodup := by
    rw [← hlength]
    exact Multiset.toFinset_card_eq_card_iff_nodup
  rw [distinctPairs_eq, eq_comm, hnodup, List.Nodup, List.pairwise_map]
  simp only [ne_eq, ClonePair.unoriented_eq_iff, not_or]

/-- A pair listed again comes to the rows only with views that are there already. -/
theorem distinctPairs_eq_of_listed_again {before after : List ClonePair} {p q : ClonePair}
    (hm : m.pairs = before ++ after) (hm' : m'.pairs = before ++ q :: after) (hp : p ∈ m.pairs)
    (hq : q = p ∨ q = p.flipped) : m'.distinctPairs = m.distinctPairs := by
  have hpq : q.unoriented = p.unoriented := (ClonePair.unoriented_eq_iff.mpr hq).symm
  have hknown : q.unoriented ∈ m.distinctPairs := by
    rw [distinctPairs_eq, List.mem_toFinset, hpq]
    exact List.mem_map_of_mem hp
  rw [distinctPairs_eq, hm] at hknown
  rw [distinctPairs_eq, distinctPairs_eq, hm, hm', List.map_append, List.map_cons,
    List.toFinset_eq_of_perm _ _ List.perm_middle, List.toFinset_cons, ← List.map_append]
  exact Finset.insert_eq_of_mem hknown

/-- The count of pairs is never below the number of distinct pairs in the rows, and equal to it
exactly if no pair is listed twice, from whichever side. A pair that is listed again, anywhere in the
list, raises the count by one and leaves the distinct pairs as they were. -/
theorem pairCount_eq_card_iff (h : ofPairs files pairs = .ok m) :
    m.distinctPairs.card ≤ m.pairCount ∧
      (m.pairCount = m.distinctPairs.card ↔ pairs.Pairwise fun p q => q ≠ p ∧ q ≠ p.flipped) ∧
      ∀ before after, pairs = before ++ after → ∀ p ∈ pairs, ∀ q ∈ [p, p.flipped],
        ∃ m', ofPairs files (before ++ q :: after) = .ok m' ∧
          m'.distinctPairs = m.distinctPairs ∧ m'.pairCount = m.pairCount + 1 := by
  have hpairs : m.pairs = pairs := (eq_of_ofPairs h).2
  have hwithin : ∀ p ∈ pairs, p.Within files := exists_ofPairs_iff_within.mp ⟨m, h⟩
  refine ⟨m.card_distinctPairs_le, hpairs ▸ m.pairCount_eq_card_iff_pairwise, ?_⟩
  intro before after hsplit p hp q hq
  have hq : q = p ∨ q = p.flipped := by simpa using hq
  have hq_within : q.Within files :=
    (hwithin p hp).of_mem_orientations (ClonePair.mem_orientations_iff.mpr hq)
  have hall : ∀ r ∈ before ++ q :: after, r.Within files := by
    intro r hr
    rcases List.mem_cons.mp (List.perm_middle.subset hr) with rfl | hr
    · exact hq_within
    · exact hwithin r (hsplit ▸ hr)
  obtain ⟨m', hm'⟩ := exists_ofPairs_iff_within.mpr hall
  have hpairs' : m'.pairs = before ++ q :: after := (eq_of_ofPairs hm').2
  refine ⟨m', hm', ?_, ?_⟩
  · exact distinctPairs_eq_of_listed_again (hpairs.trans hsplit) hpairs' (hpairs ▸ hp) hq
  · simp [pairCount, hpairs, hpairs', hsplit, Nat.add_assoc]

/-- A pair between two files and one inside of the second, then the first one from its other side. -/
theorem pairCount_eq_card_iff_again :
    let files : Array SourceFile := #[⟨0, "a", 8⟩, ⟨1, "b", 4⟩]
    let p : ClonePair := ⟨3, ⟨0, 2, 5⟩, ⟨1, 0, 3⟩⟩
    let q : ClonePair := ⟨4, ⟨1, 1, 2⟩, ⟨1, 1, 2⟩⟩
    ∃ m m', ofPairs files [p, q] = .ok m ∧ ofPairs files [p, q, p.flipped] = .ok m' ∧
      m.pairCount = m.distinctPairs.card ∧ m'.distinctPairs = m.distinctPairs ∧
        m'.pairCount = 3 := by
  intro files p q
  have haccepted : ∃ m, ofPairs files [p, q] = .ok m := ⟨_, rfl⟩
  obtain ⟨m, hm⟩ := haccepted
  obtain ⟨-, hcount, hagain⟩ := pairCount_eq_card_iff hm
  obtain ⟨m', hm', hsame, hmore⟩ :=
    hagain [p, q] [] rfl p List.mem_cons_self p.flipped (by decide)
  have hdistinct : m.pairCount = m.distinctPairs.card := hcount.mpr (by decide)
  have htwo : m.pairCount = 2 := by rw [pairCount, (eq_of_ofPairs hm).2]; rfl
  exact ⟨m, m', hm, hm', hdistinct, hsame, hmore.trans (congrArg (· + 1) htwo)⟩

/-- A pair listed from both its sides is counted twice. -/
theorem flipped_counted_again :
    let p : ClonePair := ⟨7, ⟨0, 0, 2⟩, ⟨1, 1, 3⟩⟩
    ∃ m, ofPairs #[⟨0, "a", 4⟩, ⟨1, "b", 4⟩] [p, p.flipped] = .ok m ∧ m.pairCount = 2 ∧
      m.distinctPairs.card = 1 := by
  intro p
  refine ⟨_, rfl, rfl, ?_⟩
  rw [distinctPairs_eq]
  decide

end Model
end ClonePlot
