import ClonePlot.Directory.Tree
import ClonePlot.Proofs.Directory.Run

/-! # The folder tree and the runs

The nodes of a tree at depth `d` hold the runs of depth `d`, from left to right. A file added at the
end goes down the children last opened as long as they lie on its path and held the file before it;
there the runs it goes on with are made longer. From the first child that does not, new nodes are
opened; there it starts runs of its own.
-/
namespace ClonePlot

namespace DirNode

variable {node : DirNode} {dirs : List Directory} {comps path rest : Directory} {name : String}
  {b : FileBlock} {d i : Nat}

/-- The children of each node lie in it, one after the other. -/
inductive Ordered : DirNode → Prop
  | mk {node : DirNode} (ordered : ∀ child ∈ node.children, child.Ordered)
      (inside : ∀ child ∈ node.children, node.files.start ≤ child.files.start ∧
        child.files.start < child.files.stop ∧ child.files.stop ≤ node.files.stop)
      (apart : node.children.Pairwise (·.files.stop ≤ ·.files.start)) : node.Ordered

/-- What the nodes at depth `d` hold, from left to right. -/
def level : Nat → DirNode → List FileBlock
  | 0, node => [node.files]
  | d + 1, node => node.children.flatMap (level d)

/-- Along the path each last child has the name and was left by the file before `i`. -/
def Opens (i : Nat) : Directory → DirNode → Prop
  | [], _ => True
  | name :: rest, node =>
    ∃ last ∈ node.children.getLast?, (last.name = name ∧ last.files.stop = i) ∧ Opens i rest last

theorem enter_cases (children : List DirNode) (name : String) (i : Nat) :
    (∃ older last, children = older ++ [last] ∧ (last.name = name ∧ last.files.stop = i) ∧
      enter children name i = (older, last)) ∨
    ((∀ last ∈ children.getLast?, ¬(last.name = name ∧ last.files.stop = i)) ∧
      enter children name i = (children, ⟨name, ⟨i, i⟩, []⟩)) := by
  rcases List.eq_nil_or_concat' children with rfl | ⟨older, last, rfl⟩
  · exact .inr ⟨by simp, rfl⟩
  · by_cases hgoes : last.name = name ∧ last.files.stop = i
    · exact .inl ⟨older, last, rfl, hgoes, by simp [enter, hgoes]⟩
    · exact .inr ⟨by simpa using hgoes, by simp [enter, hgoes]⟩

theorem add_nil (node : DirNode) (i : Nat) :
    node.add i [] = ⟨node.name, ⟨node.files.start, i + 1⟩, node.children⟩ := rfl

theorem add_cons (node : DirNode) (i : Nat) (name : String) (rest : Directory) :
    node.add i (name :: rest) = ⟨node.name, ⟨node.files.start, i + 1⟩,
      (enter node.children name i).1 ++ [(enter node.children name i).2.add i rest]⟩ := by
  rw [add]

@[simp] theorem name_add (node : DirNode) (i : Nat) (comps : Directory) :
    (node.add i comps).name = node.name := by
  cases comps with
  | nil => rfl
  | cons name rest => rw [add_cons]

@[simp] theorem files_add (node : DirNode) (i : Nat) (comps : Directory) :
    (node.add i comps).files = ⟨node.files.start, i + 1⟩ := by
  cases comps with
  | nil => rfl
  | cons name rest => rw [add_cons]

theorem ordered_leaf (name : String) (b : FileBlock) : Ordered ⟨name, b, []⟩ :=
  ⟨by simp, by simp, .nil⟩

/-- A file that comes after all files keeps the order. -/
theorem Ordered.add (h : node.Ordered) (hstart : node.files.start ≤ i)
    (hstop : node.files.stop ≤ i) (comps : Directory) : (node.add i comps).Ordered := by
  induction comps generalizing node with
  | nil =>
    obtain ⟨hordered, hinside, hapart⟩ := h
    refine ⟨hordered, fun child hchild => ?_, hapart⟩
    have hin := hinside child hchild
    simp only [add_nil]
    omega
  | cons name rest ih =>
    obtain ⟨hordered, hinside, hapart⟩ := h
    rw [add_cons]
    rcases enter_cases node.children name i with
      ⟨older, last, hchildren, ⟨-, hlast⟩, henter⟩ | ⟨-, henter⟩
    · rw [hchildren] at hordered hinside hapart
      have hin := hinside last (by simp)
      have hadded := ih (hordered last (by simp)) (by omega) hlast.le
      rw [henter]
      refine ⟨?_, ?_, ?_⟩
      · simp only [List.forall_mem_append, List.forall_mem_singleton] at hordered ⊢
        exact ⟨hordered.1, hadded⟩
      · simp only [List.forall_mem_append, List.forall_mem_singleton, files_add] at hinside ⊢
        refine ⟨fun child hchild => ?_, by omega⟩
        have hin := hinside.1 child hchild
        omega
      · simp only [List.pairwise_append, List.pairwise_singleton, List.forall_mem_singleton,
          files_add, true_and] at hapart ⊢
        exact hapart
    · have hadded := ih (ordered_leaf name ⟨i, i⟩) le_rfl le_rfl
      rw [henter]
      refine ⟨?_, ?_, ?_⟩
      · simp only [List.forall_mem_append, List.forall_mem_singleton]
        exact ⟨hordered, hadded⟩
      · simp only [List.forall_mem_append, List.forall_mem_singleton, files_add]
        refine ⟨fun child hchild => ?_, by omega⟩
        have hin := hinside child hchild
        omega
      · simp only [List.pairwise_append, List.pairwise_singleton, List.forall_mem_singleton,
          files_add, true_and]
        exact ⟨hapart, fun child hchild => (hinside child hchild).2.2.trans hstop⟩

theorem Ordered.inside_of_mem_level (h : node.Ordered)
    (hnonempty : node.files.start < node.files.stop) (hb : b ∈ node.level d) :
    node.files.start ≤ b.start ∧ b.start < b.stop ∧ b.stop ≤ node.files.stop := by
  induction d generalizing node with
  | zero =>
    obtain rfl := List.mem_singleton.mp hb
    exact ⟨le_rfl, hnonempty, le_rfl⟩
  | succ d ih =>
    obtain ⟨hordered, hinside, -⟩ := h
    obtain ⟨child, hchild, hb⟩ := List.mem_flatMap.mp hb
    have hin := hinside child hchild
    have hin' := ih (hordered child hchild) hin.2.1 hb
    omega

theorem Ordered.pairwise_level (h : node.Ordered) (d : Nat) :
    (node.level d).Pairwise (·.stop ≤ ·.start) := by
  induction d generalizing node with
  | zero => exact List.pairwise_singleton _ _
  | succ d ih =>
    obtain ⟨hordered, hinside, hapart⟩ := h
    refine List.pairwise_flatMap.mpr ⟨fun child hchild => ih (hordered child hchild), ?_⟩
    refine hapart.imp_of_mem fun ha hb hab x hx y hy => ?_
    have hx := (hordered _ ha).inside_of_mem_level (hinside _ ha).2.1 hx
    have hy := (hordered _ hb).inside_of_mem_level (hinside _ hb).2.1 hy
    omega

/-! What one more file changes -/

theorem level_add_of_length_lt (node : DirNode) (i : Nat) (h : comps.length < d) :
    (node.add i comps).level d = node.level d := by
  induction comps generalizing node d with
  | nil =>
    cases d with
    | zero => exact absurd h (Nat.not_lt_zero _)
    | succ d => rw [add_nil, level, level]
  | cons name rest ih =>
    cases d with
    | zero => exact absurd h (Nat.not_lt_zero _)
    | succ d =>
      have hdeep : rest.length < d := Nat.lt_of_succ_lt_succ h
      rw [add_cons, level, level]
      dsimp only
      rcases enter_cases node.children name i with
        ⟨older, last, hchildren, -, henter⟩ | ⟨-, henter⟩
      · rw [henter, hchildren, List.flatMap_append, List.flatMap_append, List.flatMap_singleton,
          List.flatMap_singleton, ih last hdeep]
      · obtain ⟨d, rfl⟩ := Nat.exists_eq_succ_of_ne_zero (Nat.ne_zero_of_lt hdeep)
        rw [henter, List.flatMap_append, List.flatMap_singleton, ih _ hdeep]
        exact List.append_nil _

/-- The last block at depth `d` grows. -/
theorem exists_level_add_of_opens (hopens : node.Opens i (comps.take d))
    (hstop : node.files.stop = i) (hdeep : d ≤ comps.length) :
    ∃ older start, node.level d = older ++ [⟨start, i⟩] ∧
      (node.add i comps).level d = older ++ [⟨start, i + 1⟩] := by
  induction d generalizing node comps with
  | zero =>
    refine ⟨[], node.files.start, ?_, ?_⟩
    · rw [← hstop]
      rfl
    · rw [level, files_add]
      rfl
  | succ d ih =>
    cases comps with
    | nil => exact absurd hdeep (Nat.not_succ_le_zero d)
    | cons name rest =>
      obtain ⟨last, hlast, hgoes, hopens⟩ := hopens
      rcases enter_cases node.children name i with
        ⟨older, last', hchildren, -, henter⟩ | ⟨hnone, -⟩
      · rw [hchildren, List.getLast?_concat] at hlast
        cases hlast
        obtain ⟨more, start, hlevel, hadded⟩ := ih hopens hgoes.2 (Nat.le_of_succ_le_succ hdeep)
        refine ⟨older.flatMap (level d) ++ more, start, ?_, ?_⟩
        · rw [level, hchildren, List.flatMap_append, List.flatMap_singleton, hlevel,
            List.append_assoc]
        · rw [add_cons, level, henter, List.flatMap_append, List.flatMap_singleton, hadded,
            List.append_assoc]
      · exact absurd hgoes (hnone last hlast)

theorem level_add_leaf (name : String) (i : Nat) (hdeep : d ≤ comps.length) :
    (add ⟨name, ⟨i, i⟩, []⟩ i comps).level d = [⟨i, i + 1⟩] := by
  induction d generalizing name comps with
  | zero => rw [level, files_add]
  | succ d ih =>
    cases comps with
    | nil => exact absurd hdeep (Nat.not_succ_le_zero d)
    | cons name' rest =>
      rw [add_cons, level]
      exact (List.flatMap_singleton _ _).trans (ih name' (Nat.le_of_succ_le_succ hdeep))

theorem level_add_of_not_opens (hopens : ¬node.Opens i (comps.take d)) (hdeep : d ≤ comps.length) :
    (node.add i comps).level d = node.level d ++ [⟨i, i + 1⟩] := by
  induction d generalizing node comps with
  | zero => exact absurd trivial hopens
  | succ d ih =>
    cases comps with
    | nil => exact absurd hdeep (Nat.not_succ_le_zero d)
    | cons name rest =>
      have hdeep : d ≤ rest.length := Nat.le_of_succ_le_succ hdeep
      rw [add_cons, level, level]
      rcases enter_cases node.children name i with
        ⟨older, last, hchildren, hgoes, henter⟩ | ⟨-, henter⟩
      · have hlast : ¬last.Opens i (rest.take d) := fun hlast => by
          refine hopens ⟨last, ?_, hgoes, hlast⟩
          rw [hchildren, List.getLast?_concat]
          rfl
        rw [henter, hchildren, List.flatMap_append, List.flatMap_append, List.flatMap_singleton,
          List.flatMap_singleton, ih hlast hdeep, List.append_assoc]
      · rw [henter, List.flatMap_append, List.flatMap_singleton, level_add_leaf name i hdeep]

theorem opens_add_iff (h : node.Ordered) (hstop : node.files.stop ≤ i) :
    (node.add i comps).Opens (i + 1) path ↔ path <+: comps := by
  induction comps generalizing node path with
  | nil =>
    cases path with
    | nil => exact iff_of_true trivial List.prefix_rfl
    | cons name path =>
      obtain ⟨-, hinside, -⟩ := h
      refine iff_of_false ?_ (by simp)
      rintro ⟨last, hlast, ⟨-, hnext⟩, -⟩
      have hin := hinside last (List.mem_of_getLast? hlast)
      omega
  | cons name rest ih =>
    cases path with
    | nil => exact iff_of_true trivial List.nil_prefix
    | cons name' path =>
      obtain ⟨child, hname, hordered, hle, hlast⟩ : ∃ child : DirNode, child.name = name ∧
          child.Ordered ∧ child.files.stop ≤ i ∧
            (node.add i (name :: rest)).children.getLast? = some (child.add i rest) := by
        rw [add_cons, List.getLast?_concat]
        rcases enter_cases node.children name i with
          ⟨older, last, hchildren, hgoes, henter⟩ | ⟨-, henter⟩
        · obtain ⟨hordered, -, -⟩ := h
          have hlast : last ∈ node.children := by simp [hchildren]
          exact ⟨last, hgoes.1, hordered last hlast, hgoes.2.le, by rw [henter]⟩
        · exact ⟨_, rfl, ordered_leaf name ⟨i, i⟩, le_rfl, by rw [henter]⟩
      rw [Opens, hlast, List.cons_prefix_cons, ← ih hordered hle]
      simp [hname, eq_comm]

/-! The whole list -/

theorem build_append (dirs : List Directory) (dir : Directory) :
    build (dirs ++ [dir]) = (build dirs).add dirs.length dir := by
  simp [build, List.zipIdx_append]

theorem files_build (dirs : List Directory) : (build dirs).files = ⟨0, dirs.length⟩ := by
  induction dirs using List.reverseRecOn with
  | nil => rfl
  | append_singleton dirs dir ih =>
    rw [build_append, files_add, ih, List.length_append, List.length_singleton]

theorem ordered_build (dirs : List Directory) : (build dirs).Ordered := by
  induction dirs using List.reverseRecOn with
  | nil => exact ordered_leaf _ _
  | append_singleton dirs dir ih =>
    rw [build_append]
    exact ih.add (by simp [files_build]) (by simp [files_build]) dir

theorem opens_build_iff (h : path ≠ []) :
    (build dirs).Opens dirs.length path ↔ EndsIn dirs path := by
  rcases List.eq_nil_or_concat' dirs with rfl | ⟨dirs, dir, rfl⟩
  · cases path with
    | nil => exact absurd rfl h
    | cons name path => simp [Opens, EndsIn, build, root]
  · rw [build_append, List.length_append, List.length_singleton,
      opens_add_iff (ordered_build dirs) (by rw [files_build])]
    simp [EndsIn]

theorem mem_append_grown_iff {older : List FileBlock} {start : Nat}
    (holder : ∀ a ∈ older, a.stop < i) : b ∈ older ++ [⟨start, i + 1⟩] ↔
      (b.stop = i + 1 ∧ ⟨b.start, i⟩ ∈ older ++ [⟨start, i⟩]) ∨
        (b.stop ≠ i ∧ b ∈ older ++ [⟨start, i⟩]) := by
  simp only [List.mem_append, List.mem_singleton, FileBlock.mk.injEq, and_true]
  constructor
  · rintro (hb | rfl)
    · exact .inr ⟨(holder b hb).ne, .inl hb⟩
    · exact .inl ⟨rfl, .inr rfl⟩
  · rintro (⟨hstop, hb | rfl⟩ | ⟨hstop, hb | rfl⟩)
    · exact absurd (holder _ hb) (Nat.lt_irrefl i)
    · exact .inr (FileBlock.ext rfl hstop)
    · exact .inl hb
    · exact absurd rfl hstop

/-- The nodes at depth `d` hold the runs of depth `d`. Induction on the files, from the left. -/
theorem mem_level_build_iff (hd : d ≠ 0) : b ∈ (build dirs).level d ↔ IsRunOf dirs d b := by
  induction dirs using List.reverseRecOn generalizing b with
  | nil =>
    obtain ⟨d, rfl⟩ := Nat.exists_eq_succ_of_ne_zero hd
    refine iff_of_false List.not_mem_nil fun hb => ?_
    exact absurd hb.stop_le (Nat.not_le.mpr (Nat.zero_lt_of_lt hb.nonempty))
  | append_singleton dirs dir ih =>
    have hordered := ordered_build dirs
    have hfiles := files_build dirs
    rw [build_append]
    rcases Nat.lt_or_ge dir.length d with hshallow | hdeep
    · rw [level_add_of_length_lt _ _ hshallow, isRunOf_append_of_length_lt hshallow, ih]
    have htop : dir.take d ≠ [] := by
      rw [ne_eq, ← List.length_eq_zero_iff, List.length_take_of_le hdeep]
      exact hd
    by_cases hends : EndsIn dirs (dir.take d)
    · obtain ⟨older, start, hlevel, hadded⟩ := exists_level_add_of_opens
        ((opens_build_iff htop).mpr hends) (by rw [hfiles]) hdeep
      have hpos : 0 < dirs.length := (endsIn_iff_topAt_eq.mp hends).1
      -- blocks before the last one stop where it starts
      have holder : ∀ a ∈ older, a.stop < dirs.length := by
        have hapart := hordered.pairwise_level d
        have hin := hordered.inside_of_mem_level (b := ⟨start, dirs.length⟩) (d := d)
          (by rwa [hfiles]) (by simp [hlevel])
        rw [hlevel, List.pairwise_append] at hapart
        intro a ha
        exact (hapart.2.2 a ha _ List.mem_cons_self).trans_lt hin.2.1
      rw [hadded, mem_append_grown_iff holder, ← hlevel, ih, ih,
        isRunOf_append_of_endsIn hdeep hends]
    · rw [level_add_of_not_opens (mt (opens_build_iff htop).mp hends) hdeep, List.mem_append, ih,
        List.mem_singleton, isRunOf_append_of_not_endsIn hdeep hends]

end DirNode
end ClonePlot
