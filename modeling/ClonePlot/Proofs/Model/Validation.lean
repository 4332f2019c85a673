import ClonePlot.Proofs.Model.Rows

/-! # Validation

A list of pairs makes a model exactly if every pair lies within the files. Otherwise the first pair
that does not is blamed, for its first fault, the left fragment before the right one. A model is
built by checking one pair after another and storing both its views before the next one is looked
at; the loop `build?` here does so, refuses to store a view in a row that does not exist, and never
has to.
-/
namespace ClonePlot

/-- The first fault of a fragment of pair number `i`. -/
inductive Fragment.Blamed (files : Array SourceFile) (i : Nat) (f : Fragment) : ModelError → Prop
  | fileOutOfRange : files.size ≤ f.file → Blamed files i f (.fileOutOfRange i f.file files.size)
  | emptyFragment : f.file < files.size → f.stop ≤ f.start →
      Blamed files i f (.emptyFragment i f.start f.stop)
  | fragmentOutOfFile {file : SourceFile} : files[f.file]? = some file → f.start < f.stop →
      file.size < f.stop →
      Blamed files i f (.fragmentOutOfFile i f.file f.start f.stop file.size)

inductive ClonePair.Blamed (files : Array SourceFile) (i : Nat) (p : ClonePair) : ModelError → Prop
  | left {fault : ModelError} : p.left.Blamed files i fault → Blamed files i p fault
  | right {fault : ModelError} : p.left.Within files → p.right.Blamed files i fault →
      Blamed files i p fault

variable {files : Array SourceFile} {i : Nat} {pairs : List ClonePair} {fault : ModelError}

theorem fragmentFault?_eq_some_iff {f : Fragment} :
    fragmentFault? files i f = some fault ↔ f.Blamed files i fault := by
  unfold fragmentFault?
  constructor
  · intro h
    cases hfile : files[f.file]? with
    | none =>
      rw [hfile] at h
      cases h
      exact .fileOutOfRange (Array.getElem?_eq_none_iff.mp hfile)
    | some file =>
      simp only [hfile] at h
      have hlt : f.file < files.size := (Array.getElem?_eq_some_iff.mp hfile).1
      split at h
      · cases h
        exact .emptyFragment hlt ‹_›
      · split at h <;> cases h
        exact .fragmentOutOfFile hfile (Nat.lt_of_not_le ‹_›) ‹_›
  · rintro (hfile | ⟨hfile, hempty⟩ | ⟨hfile, hcontent, hsize⟩)
    · rw [Array.getElem?_eq_none hfile]
    · rw [Array.getElem?_eq_getElem hfile]
      exact if_pos hempty
    · rw [hfile]
      exact (if_neg (Nat.not_le.mpr hcontent)).trans (if_pos hsize)

theorem pairFault?_eq_some_iff {p : ClonePair} :
    pairFault? files i p = some fault ↔ p.Blamed files i fault := by
  rw [pairFault?, Option.or_eq_some_iff, fragmentFault?_eq_some_iff, fragmentFault?_eq_some_iff,
    fragmentFault?_eq_none_iff]
  constructor
  · rintro (h | ⟨hleft, h⟩)
    · exact .left h
    · exact .right hleft h
  · rintro (h | ⟨hleft, h⟩)
    · exact .inl h
    · exact .inr ⟨hleft, h⟩

/-- The pairs before the first faulty one lie within the files. -/
theorem firstFault?_eq_some_iff : firstFault? files i pairs = some fault ↔
    ∃ before p after, pairs = before ++ p :: after ∧ (∀ q ∈ before, q.Within files) ∧
      p.Blamed files (i + before.length) fault := by
  induction pairs generalizing i with
  | nil => simp [firstFault?]
  | cons p rest ih =>
    rw [firstFault?, Option.or_eq_some_iff, pairFault?_eq_some_iff, pairFault?_eq_none_iff, ih]
    constructor
    · rintro (h | ⟨hp, before, q, after, rfl, hbefore, h⟩)
      · exact ⟨[], p, rest, rfl, by simp, h⟩
      · refine ⟨p :: before, q, after, rfl, List.forall_mem_cons.mpr ⟨hp, hbefore⟩, ?_⟩
        rwa [List.length_cons, Nat.add_comm before.length, ← Nat.add_assoc]
    · rintro ⟨before, q, after, hpairs, hbefore, h⟩
      cases before with
      | nil =>
        cases hpairs
        exact .inl h
      | cons _ before =>
        cases hpairs
        rw [List.length_cons, Nat.add_comm before.length, ← Nat.add_assoc] at h
        exact .inr ⟨hbefore _ List.mem_cons_self, before, q, after, rfl,
          fun r hr => hbefore r (List.mem_cons_of_mem _ hr), h⟩

def pushView? (rows : Array (List ClonePair)) (p : ClonePair) :
    Option (Array (List ClonePair)) :=
  if p.left.file < rows.size then some (rows.modify p.left.file (· ++ [p])) else none

/-- Stores both views of a pair, a pair equal to its flip once. -/
def pushPair? (rows : Array (List ClonePair)) (p : ClonePair) : Option (Array (List ClonePair)) :=
  (pushView? rows p).bind fun rows =>
    if p.flipped = p then some rows else pushView? rows p.flipped

/-- Checks and stores pairs numbered from `i`. -/
def storeFrom? (files : Array SourceFile) (i : Nat) (rows : Array (List ClonePair)) (count : Nat) :
    List ClonePair → Option (Except ModelError (Array (List ClonePair) × Nat))
  | [] => some (.ok (rows, count))
  | p :: rest =>
    match pairFault? files i p with
    | some fault => some (.error fault)
    | none => (pushPair? rows p).bind fun rows => storeFrom? files (i + 1) rows (count + 1) rest

/-- The sorted rows of a model and the number of its pairs. -/
def build? (files : Array SourceFile) (pairs : List ClonePair) :
    Option (Except ModelError (Array (List ClonePair) × Nat)) :=
  (storeFrom? files 0 (Array.replicate files.size []) 0 pairs).map
    (·.map fun stored => (stored.1.map (·.mergeSort ClonePair.rowLe), stored.2))

def pushViews (rows : Array (List ClonePair)) (views : List ClonePair) :
    Array (List ClonePair) :=
  views.foldl (fun rows p => rows.modify p.left.file (· ++ [p])) rows

@[simp] theorem size_pushViews (rows : Array (List ClonePair)) (views : List ClonePair) :
    (pushViews rows views).size = rows.size := by
  induction views generalizing rows with
  | nil => rfl
  | cons p rest ih => simpa [pushViews] using ih (rows.modify p.left.file (· ++ [p]))

theorem getElem?_pushViews (rows : Array (List ClonePair)) (views : List ClonePair) (j : Nat) :
    (pushViews rows views)[j]? = rows[j]?.map (· ++ views.filter (·.left.file == j)) := by
  induction views generalizing rows with
  | nil => simp [pushViews]
  | cons p rest ih =>
    have hrest := ih (rows.modify p.left.file (· ++ [p]))
    rw [pushViews] at hrest ⊢
    rw [List.foldl_cons, hrest, Array.getElem?_modify]
    by_cases hp : p.left.file = j <;> simp [hp, Function.comp_def]

theorem pushViews_replicate (n : Nat) (views : List ClonePair) :
    pushViews (Array.replicate n []) views = dealRows n views := by
  refine Array.ext_getElem? fun j => ?_
  rw [getElem?_pushViews, getElem?_dealRows, Array.getElem?_replicate]
  split <;> simp

theorem pushView?_of_lt {rows : Array (List ClonePair)} {p : ClonePair}
    (h : p.left.file < rows.size) : pushView? rows p = some (pushViews rows [p]) := if_pos h

theorem Fragment.Within.lt_size {f : Fragment} (h : f.Within files) : f.file < files.size := by
  obtain ⟨_, hfile, -⟩ := h
  exact (Array.getElem?_eq_some_iff.mp hfile).1

/-- A pair within the files has both its rows. -/
theorem pushPair?_of_within {rows : Array (List ClonePair)} {p : ClonePair}
    (hsize : rows.size = files.size) (hp : p.Within files) :
    pushPair? rows p = some (pushViews rows p.orientations) := by
  have hleft : p.left.file < rows.size := hsize ▸ hp.1.lt_size
  have hright : p.flipped.left.file < (pushViews rows [p]).size := by
    rw [size_pushViews, hsize]
    exact hp.2.lt_size
  rw [pushPair?, pushView?_of_lt hleft, Option.bind_some, ClonePair.orientations]
  split
  · rfl
  · rw [pushView?_of_lt hright]
    rfl

theorem pushViews_append (rows : Array (List ClonePair)) (first rest : List ClonePair) :
    pushViews rows (first ++ rest) = pushViews (pushViews rows first) rest :=
  List.foldl_append

theorem storeFrom?_eq {rows : Array (List ClonePair)} (hsize : rows.size = files.size)
    (count : Nat) : storeFrom? files i rows count pairs =
      some (match firstFault? files i pairs with
        | some fault => .error fault
        | none => .ok (pushViews rows (pairs.flatMap ClonePair.orientations),
            count + pairs.length)) := by
  induction pairs generalizing i rows count with
  | nil => rfl
  | cons p rest ih =>
    unfold storeFrom? firstFault?
    cases hfault : pairFault? files i p with
    | some fault => rfl
    | none =>
      have hstored := pushPair?_of_within hsize (pairFault?_eq_none_iff.mp hfault)
      have hrest := ih (i := i + 1) ((size_pushViews rows p.orientations).trans hsize) (count + 1)
      simp only [hstored, Option.bind_some, hrest, Option.none_or, List.flatMap_cons,
        pushViews_append, List.length_cons, Nat.add_assoc, Nat.add_comm 1]

namespace Model

theorem exists_ofPairs_iff :
    (∃ m, ofPairs files pairs = .ok m) ↔ firstFault? files 0 pairs = none := by
  unfold ofPairs
  split <;> simp_all

theorem exists_ofPairs_iff_within :
    (∃ m, ofPairs files pairs = .ok m) ↔ ∀ p ∈ pairs, p.Within files :=
  exists_ofPairs_iff.trans firstFault?_eq_none_iff

theorem ofPairs_eq_error_iff :
    ofPairs files pairs = .error fault ↔ firstFault? files 0 pairs = some fault := by
  unfold ofPairs
  split <;> simp_all

theorem build?_eq (files : Array SourceFile) (pairs : List ClonePair) :
    build? files pairs = some ((ofPairs files pairs).map fun m => (m.rows, m.pairCount)) := by
  rw [build?, storeFrom?_eq Array.size_replicate, pushViews_replicate]
  cases h : ofPairs files pairs with
  | error fault =>
    rw [ofPairs_eq_error_iff.mp h]
    rfl
  | ok m =>
    obtain ⟨hfiles, hpairs⟩ := eq_of_ofPairs h
    rw [exists_ofPairs_iff.mp ⟨m, h⟩, Nat.zero_add]
    simp only [Option.map_some, Except.map, m.rows_eq, sortedRows, pairCount, hfiles, hpairs]

/-- A model is made exactly if every pair lies within the files; otherwise the first pair that does
not is blamed for its first fault. Checking and storing one pair after another comes to the same,
and never misses a row. -/
theorem ofPairs_blames_first (files : Array SourceFile) (pairs : List ClonePair) :
    ((∃ m, ofPairs files pairs = .ok m) ↔ ∀ p ∈ pairs, p.Within files) ∧
      (∀ fault, ofPairs files pairs = .error fault ↔
        ∃ before p after, pairs = before ++ p :: after ∧ (∀ q ∈ before, q.Within files) ∧
          p.Blamed files before.length fault) ∧
      build? files pairs = some ((ofPairs files pairs).map fun m => (m.rows, m.pairCount)) := by
  refine ⟨exists_ofPairs_iff_within, fun fault => ?_, build?_eq files pairs⟩
  rw [ofPairs_eq_error_iff, firstFault?_eq_some_iff]
  simp only [Nat.zero_add]

/-- Of two faulty pairs the first one is blamed, and its empty fragment before its unknown file. -/
example : ofPairs #[⟨0, "a", 4⟩] [⟨1, ⟨0, 0, 2⟩, ⟨0, 2, 4⟩⟩, ⟨2, ⟨0, 3, 3⟩, ⟨1, 0, 9⟩⟩,
    ⟨3, ⟨0, 0, 5⟩, ⟨0, 2, 4⟩⟩] = .error (.emptyFragment 1 3 3) := rfl

end Model
end ClonePlot
