import ClonePlot.Directory.Box
import ClonePlot.Proofs.Directory.Nesting
import ClonePlot.Proofs.Directory.Tree

/-! # The walk over the folder tree

The walk lists the boxes of a node behind those listed before it: one box for each block that the
node or a node below holds alone, but for the whole list. Each box of the node has the parent that
its place among them asks for, and those that have none are what the walk reports.
-/
namespace ClonePlot

namespace DirNode

variable {node child : DirNode} {b : FileBlock}

def Holds (node : DirNode) (b : FileBlock) : Prop := ∃ d, b ∈ node.level d

theorem holds_iff : node.Holds b ↔ (∃ child ∈ node.children, child.Holds b) ∨ b = node.files := by
  constructor
  · rintro ⟨d, hb⟩
    cases d with
    | zero => exact .inr (List.mem_singleton.mp hb)
    | succ d =>
      obtain ⟨child, hchild, hb⟩ := List.mem_flatMap.mp hb
      exact .inl ⟨child, hchild, d, hb⟩
  · rintro (⟨child, hchild, d, hb⟩ | rfl)
    · exact ⟨d + 1, List.mem_flatMap.mpr ⟨child, hchild, hb⟩⟩
    · exact ⟨0, List.mem_singleton_self _⟩

theorem holds_files (node : DirNode) : node.Holds node.files := ⟨0, List.mem_singleton_self _⟩

theorem Ordered.inside_of_holds (h : node.Ordered) (hchild : child ∈ node.children)
    (hb : child.Holds b) :
    child.files.start ≤ b.start ∧ b.start < b.stop ∧ b.stop ≤ child.files.stop := by
  obtain ⟨hordered, hinside, -⟩ := h
  obtain ⟨d, hb⟩ := hb
  exact (hordered child hchild).inside_of_mem_level (hinside child hchild).2.1 hb

theorem Ordered.pairwise_holds (h : node.Ordered) : node.children.Pairwise fun child child' =>
    ∀ a b, child.Holds a → child'.Holds b → a.stop ≤ b.start := by
  have ⟨_, _, hapart⟩ := h
  refine hapart.imp_of_mem fun hchild hchild' hapart a b ha hb => ?_
  exact (h.inside_of_holds hchild ha).2.2.trans
    (hapart.trans (h.inside_of_holds hchild' hb).1)

theorem Ordered.isFolded_of_files_eq (h : node.Ordered) (hchild : child ∈ node.children)
    (hfiles : child.files = node.files) : node.isFolded := by
  obtain ⟨-, hinside, hapart⟩ := h
  unfold isFolded
  match hchildren : node.children with
  | [] => simp [hchildren] at hchild
  | [only] =>
    obtain rfl := List.mem_singleton.mp (hchildren ▸ hchild)
    exact decide_eq_true hfiles
  | first :: second :: rest =>
    -- the other child would have to lie beside a child that takes up the whole node
    rw [hchildren] at hchild hinside hapart
    have hfirst := hinside first List.mem_cons_self
    have hsecond := hinside second (by simp)
    obtain ⟨hapart, -⟩ := List.pairwise_cons.mp hapart
    rcases List.mem_cons.mp hchild with rfl | hchild
    · have hbeside := hapart second List.mem_cons_self
      rw [hfiles] at hbeside
      omega
    · have hbeside := hapart child hchild
      rw [hfiles] at hbeside
      omega

/-- A node that is not folded is more than each of its children. -/
theorem Ordered.encloses_of_holds (h : node.Ordered) (hfolded : ¬node.isFolded)
    (hchild : child ∈ node.children) (hb : child.Holds b) : node.files.Encloses b := by
  have hin := h.inside_of_holds hchild hb
  have hin' : node.files.start ≤ child.files.start ∧ child.files.stop ≤ node.files.stop := by
    obtain ⟨-, hinside, -⟩ := h
    exact ⟨(hinside child hchild).1, (hinside child hchild).2.2⟩
  refine ⟨by omega, by omega, ?_⟩
  rintro rfl
  exact hfolded (h.isFolded_of_files_eq hchild (FileBlock.ext (by omega) (by omega)))

theorem holds_of_isFolded (h : node.isFolded) :
    ∃ child ∈ node.children, child.Holds node.files := by
  unfold isFolded at h
  split at h
  · rename_i child hchildren
    rw [← of_decide_eq_true h, hchildren]
    exact ⟨child, List.mem_cons_self, child.holds_files⟩
  · cases h

end DirNode

def orphansFrom (i : Nat) : List (Option Nat) → List Nat
  | [] => []
  | none :: rest => i :: orphansFrom (i + 1) rest
  | some _ :: rest => orphansFrom (i + 1) rest

theorem orphansFrom_append (i : Nat) (as bs : List (Option Nat)) :
    orphansFrom i (as ++ bs) = orphansFrom i as ++ orphansFrom (i + as.length) bs := by
  induction as generalizing i with
  | nil => rfl
  | cons parent as ih =>
    rw [List.length_cons, ← Nat.add_assoc, Nat.add_right_comm]
    cases parent with
    | none => exact congrArg (i :: ·) (ih (i + 1))
    | some j => exact ih (i + 1)

def DirectoryBox.adopted (place : Nat) (b : DirectoryBox) : DirectoryBox :=
  { b with parent := b.parent.or (some place) }

theorem orphansFrom_adopted (i place : Nat) (boxes : List DirectoryBox) :
    orphansFrom i ((boxes.map (·.adopted place)).map (·.parent)) = [] := by
  induction boxes generalizing i with
  | nil => rfl
  | cons b boxes ih =>
    obtain ⟨label, startPixel, stopPixel, files, parent⟩ := b
    cases parent with
    | none => exact ih (i + 1)
    | some j => exact ih (i + 1)

theorem modify_length_append {α : Type} (f : α → α) (as bs : List α) (a : α) :
    (as ++ a :: bs).modify as.length f = as ++ f a :: bs := by
  induction as with
  | nil => rfl
  | cons _ as ih => exact congrArg (_ :: ·) ih

theorem adopt_append (place : Nat) (boxes new later : List DirectoryBox) :
    adopt place (orphansFrom boxes.length (new.map (·.parent))) (boxes ++ (new ++ later)) =
      boxes ++ (new.map (·.adopted place) ++ later) := by
  induction new generalizing boxes with
  | nil => rfl
  | cons b new ih =>
    have hnext := ih (boxes ++ [b.adopted place])
    rw [List.append_assoc, List.append_assoc, List.length_append] at hnext
    refine Eq.trans ?_ hnext
    obtain ⟨label, startPixel, stopPixel, files, parent⟩ := b
    cases parent with
    | none =>
      rw [List.map_cons, orphansFrom, adopt, List.foldl_cons, List.cons_append,
        modify_length_append]
      rfl
    | some j => rfl

/-- What a walk adds to the list: a box for each of the blocks `held`, the whole list apart, with
the parents numbered from `base`. -/
structure Flattened (t : Directories) (m : Mapper) (held : FileBlock → Prop) (base : Nat)
    (new : List DirectoryBox) : Prop where
  mem_iff : ∀ b, b ∈ new.map (·.files) ↔ held b ∧ b ≠ ⟨0, t.fileCount⟩
  nested : Nested (new.map (·.files))
  parents : new.map (·.parent) = parentsFrom base (new.map (·.files))
  fields : ∀ box ∈ new, box.label = t.label box.files ∧
    box.startPixel = m.startPixel box.files.start ∧ box.stopPixel = m.startPixel box.files.stop

namespace Flattened

variable {t : Directories} {m : Mapper} {held held' : FileBlock → Prop} {base : Nat}
  {new later : List DirectoryBox} {b : FileBlock}

theorem congr (h : Flattened t m held base new)
    (hheld : ∀ b, b ≠ ⟨0, t.fileCount⟩ → (held' b ↔ held b)) : Flattened t m held' base new where
  mem_iff b := (h.mem_iff b).trans (and_congr_left fun hb => (hheld b hb).symm)
  nested := h.nested
  parents := h.parents
  fields := h.fields

theorem nil (h : ∀ b, ¬held b) : Flattened t m held base [] where
  mem_iff b := iff_of_false List.not_mem_nil fun hb => h b hb.1
  nested := ⟨fun _ hb => absurd hb List.not_mem_nil, .nil⟩
  parents := rfl
  fields _ hbox := absurd hbox List.not_mem_nil

/-- What is held by neither lies between blocks of the one and of the other. -/
theorem append (h : Flattened t m held base new)
    (h' : Flattened t m held' (base + new.length) later)
    (hapart : ∀ a b, held a → held' b → a.stop ≤ b.start) :
    Flattened t m (fun b => held b ∨ held' b) base (new ++ later) := by
  have hapart : ∀ a ∈ new.map (·.files), ∀ b ∈ later.map (·.files), a.stop ≤ b.start :=
    fun a ha b hb => hapart a b ((h.mem_iff a).mp ha).1 ((h'.mem_iff b).mp hb).1
  refine ⟨fun b => ?_, ⟨fun b hb => ?_, ?_⟩, ?_, fun box hbox => ?_⟩
  · rw [List.map_append, List.mem_append, h.mem_iff, h'.mem_iff, or_and_right]
  · rw [List.map_append] at hb
    exact (List.mem_append.mp hb).elim (h.nested.nonempty b) (h'.nested.nonempty b)
  · rw [List.map_append, List.pairwise_append]
    exact ⟨h.nested.pairwise, h'.nested.pairwise, fun a ha b hb => .inl (hapart a ha b hb)⟩
  · rw [List.map_append, List.map_append, h.parents, h'.parents, parentsFrom_append,
      List.length_map]
    exact fun a ha b hb => (h.nested.nonempty a ha).trans_le (hapart a ha b hb)
  · exact (List.mem_append.mp hbox).elim (h.fields box) (h'.fields box)

/-- A block around all others becomes the parent of the outermost ones. -/
theorem close (h : Flattened t m held base new) (hnonempty : b.start < b.stop)
    (hb : b ≠ ⟨0, t.fileCount⟩) (hencloses : ∀ a, held a → b.Encloses a) :
    Flattened t m (fun a => held a ∨ a = b) base
      (new.map (·.adopted (base + new.length)) ++ [t.box m b]) := by
  have hencloses : ∀ a ∈ new.map (·.files), b.Encloses a :=
    fun a ha => hencloses a ((h.mem_iff a).mp ha).1
  have hfiles : (new.map (·.adopted (base + new.length)) ++ [t.box m b]).map (·.files) =
      new.map (·.files) ++ [b] := by
    rw [List.map_append, List.map_map]
    rfl
  have hparents : (new.map (·.adopted (base + new.length)) ++ [t.box m b]).map (·.parent) =
      (new.map (·.parent)).map (·.or (some (base + new.length))) ++ [none] := by
    rw [List.map_append, List.map_map, List.map_map]
    rfl
  refine ⟨fun a => ?_, ⟨fun a ha => ?_, ?_⟩, ?_, fun box hbox => ?_⟩
  · rw [hfiles, List.mem_append, h.mem_iff, List.mem_singleton, or_and_right]
    exact or_congr_right (iff_self_and.mpr fun heq => heq ▸ hb)
  · rw [hfiles, List.mem_append, List.mem_singleton] at ha
    rcases ha with ha | rfl
    · exact h.nested.nonempty a ha
    · exact hnonempty
  · rw [hfiles, List.pairwise_append]
    refine ⟨h.nested.pairwise, List.pairwise_singleton _ _, fun a ha c hc => .inr ?_⟩
    rw [List.mem_singleton.mp hc]
    exact hencloses a ha
  · rw [hfiles, hparents, h.parents, parentsFrom_concat _ fun a ha => (hencloses a ha).1,
      List.length_map]
  · rcases List.mem_append.mp hbox with hbox | hbox
    · obtain ⟨inner, hinner, rfl⟩ := List.mem_map.mp hbox
      exact h.fields inner hinner
    · obtain rfl := List.mem_singleton.mp hbox
      simp only [Directories.box, and_self]

end Flattened

namespace Directories

variable {t : Directories} {m : Mapper}

theorem hasBox_iff {node : DirNode} : t.hasBox node ↔ ¬node.isFolded ∧
    node.files ≠ ⟨0, t.fileCount⟩ ∧ node.files.start < node.files.stop := by
  simp [hasBox, and_assoc]

/-- A walk lists what the node holds. -/
def Walks (t : Directories) (m : Mapper) (node : DirNode) : Prop :=
  ∀ boxes, ∃ new, t.walk m boxes node =
      (orphansFrom boxes.length (new.map (·.parent)), boxes ++ new) ∧
    Flattened t m node.Holds boxes.length new

theorem exists_walkAll {nodes : List DirNode} (hwalk : ∀ node ∈ nodes, t.Walks m node)
    (hapart : nodes.Pairwise fun node node' =>
      ∀ a b, node.Holds a → node'.Holds b → a.stop ≤ b.start) (boxes : List DirectoryBox) :
    ∃ new, t.walkAll m boxes nodes =
        (orphansFrom boxes.length (new.map (·.parent)), boxes ++ new) ∧
      Flattened t m (fun b => ∃ node ∈ nodes, node.Holds b) boxes.length new := by
  induction nodes generalizing boxes with
  | nil => exact ⟨[], by simp [walkAll, orphansFrom], .nil (by simp)⟩
  | cons node nodes ih =>
    obtain ⟨hfirst, hrest⟩ := List.pairwise_cons.mp hapart
    obtain ⟨new, hnode, hnew⟩ := hwalk node List.mem_cons_self boxes
    obtain ⟨later, hnodes, hlater⟩ :=
      ih (fun node hnode => hwalk node (List.mem_cons_of_mem _ hnode)) hrest (boxes ++ new)
    refine ⟨new ++ later, ?_, ?_⟩
    · rw [walkAll, hnode]
      dsimp only
      rw [hnodes, List.map_append, orphansFrom_append, List.length_append, List.length_map,
        List.append_assoc]
    · rw [List.length_append] at hlater
      refine (hnew.append hlater fun a b ha hb => ?_).congr fun b _ => by simp
      obtain ⟨node', hnode', hb⟩ := hb
      exact hfirst node' hnode' a b ha hb

theorem walk_mk (t : Directories) (m : Mapper) (boxes : List DirectoryBox) (node : DirNode) :
    t.walk m boxes node = (
      let (tops, boxes) := t.walkAll m boxes node.children
      if t.hasBox node then
        ([boxes.length], adopt boxes.length tops (boxes ++ [t.box m node.files]))
      else (tops, boxes)) := by
  cases node
  rw [walk]

/-- By induction on the tree. A node with a box closes over what its children list; one without
holds no block that they do not list, but perhaps all files. -/
theorem walks_of_ordered {node : DirNode} (h : node.Ordered)
    (hnonempty : node.files.start < node.files.stop) : t.Walks m node := by
  induction h with
  | mk hordered hinside hapart ih =>
    rename_i node
    have h : node.Ordered := ⟨hordered, hinside, hapart⟩
    intro boxes
    obtain ⟨new, hchildren, hnew⟩ := exists_walkAll (t := t) (m := m)
      (fun child hchild => ih child hchild (hinside child hchild).2.1) h.pairwise_holds boxes
    rw [walk_mk, hchildren]
    dsimp only
    by_cases hbox : t.hasBox node
    · obtain ⟨hfolded, hwhole, -⟩ := hasBox_iff.mp hbox
      rw [if_pos hbox, List.append_assoc, List.length_append, adopt_append]
      refine ⟨_, ?_, (hnew.close hnonempty hwhole ?_).congr fun b _ => DirNode.holds_iff⟩
      · rw [List.map_append, orphansFrom_append, orphansFrom_adopted, List.length_map,
          List.length_map]
        rfl
      · rintro a ⟨child, hchild, ha⟩
        exact h.encloses_of_holds hfolded hchild ha
    · rw [if_neg hbox]
      refine ⟨new, rfl, hnew.congr fun b hb => ?_⟩
      rw [DirNode.holds_iff, or_iff_left_iff_imp]
      rintro rfl
      refine DirNode.holds_of_isFolded (Classical.not_not.mp fun hfolded => hbox ?_)
      exact hasBox_iff.mpr ⟨hfolded, hb, hnonempty⟩

theorem exists_holds_children_iff {b : FileBlock} :
    (∃ child ∈ t.root.children, child.Holds b) ↔ IsRun t.dirs.toList b := by
  constructor
  · rintro ⟨child, hchild, d, hb⟩
    refine ⟨d + 1, Nat.le_add_left 1 d, (DirNode.mem_level_build_iff d.succ_ne_zero).mp ?_⟩
    exact List.mem_flatMap.mpr ⟨child, hchild, hb⟩
  · rintro ⟨d, hd, hb⟩
    obtain ⟨d, rfl⟩ := Nat.exists_eq_add_of_le' hd
    obtain ⟨child, hchild, hb⟩ :=
      List.mem_flatMap.mp ((DirNode.mem_level_build_iff d.succ_ne_zero).mpr hb)
    exact ⟨child, hchild, d, hb⟩

/-- The boxes come from the runs. -/
theorem flattened_boxes (t : Directories) (m : Mapper) :
    Flattened t m (IsRun t.dirs.toList) 0 (t.boxes m) := by
  have hroot : t.root.Ordered := DirNode.ordered_build t.dirs.toList
  have ⟨hordered, hinside, _⟩ := hroot
  obtain ⟨new, hwalk, hnew⟩ := exists_walkAll (t := t) (m := m)
    (fun child hchild => walks_of_ordered (hordered child hchild) (hinside child hchild).2.1)
    hroot.pairwise_holds []
  rw [boxes, hwalk]
  exact hnew.congr fun b _ => exists_holds_children_iff.symm

end Directories
end ClonePlot
