/-! # 64-bit numbers

Pixels are signed 64-bit numbers, offsets unsigned ones. A sum or a difference that leaves
its range is refused, which stops the program; a cast wraps.
-/
namespace ClonePlot

inductive Overflow
  | add
  | subtract
  deriving DecidableEq, Repr

def Overflow.message : Overflow → String
  | add => "attempt to add with overflow"
  | subtract => "attempt to subtract with overflow"

def checkPixel (cause : Overflow) (p : Int) : Except Overflow Int :=
  if Int64.minValue.toInt ≤ p ∧ p ≤ Int64.maxValue.toInt then .ok p else .error cause

def addPixels (p q : Int) : Except Overflow Int := checkPixel .add (p + q)

def subPixels (p q : Int) : Except Overflow Int := checkPixel .subtract (p - q)

def addOffsets (a b : Nat) : Except Overflow Nat :=
  if a + b < UInt64.size then .ok (a + b) else .error .add

/-- The signed 64-bit value of an integer. -/
def wrap64 (i : Int) : Int := Int.bmod i UInt64.size

theorem wrap64_eq_self {i : Int} (hlow : -9223372036854775808 ≤ i)
    (hhigh : i ≤ Int64.maxValue.toInt) : wrap64 i = i := by
  have hmax : Int64.maxValue.toInt = 9223372036854775807 := rfl
  have hword : (UInt64.size : Int) = 18446744073709551616 := rfl
  exact Int.bmod_eq_of_le_mul_two (by omega) (by omega)

theorem checkPixel_eq_ok_iff {cause : Overflow} {p q : Int} : checkPixel cause p = .ok q ↔
    q = p ∧ Int64.minValue.toInt ≤ p ∧ p ≤ Int64.maxValue.toInt := by
  unfold checkPixel
  split
  · rename_i hfits
    exact ⟨fun h => ⟨(Except.ok.inj h).symm, hfits⟩, fun h => congrArg _ h.1.symm⟩
  · rename_i hout
    exact iff_of_false nofun fun h => hout h.2

theorem eq_add_of_addOffsets {a b : Nat} {e : Overflow} (h : addOffsets a b = .error e) :
    e = .add := by
  unfold addOffsets at h
  split at h <;> cases h
  rfl

theorem addOffsets_eq_ok_iff {a b c : Nat} :
    addOffsets a b = .ok c ↔ c = a + b ∧ c < UInt64.size := by
  unfold addOffsets
  split <;> grind

theorem bind_eq_ok_iff {α β : Type} {x : Except Overflow α} {f : α → Except Overflow β} {b : β} :
    x >>= f = .ok b ↔ ∃ a, x = .ok a ∧ f a = .ok b := by
  cases x with
  | error e => exact ⟨nofun, nofun⟩
  | ok a => exact ⟨fun h => ⟨a, rfl, h⟩, fun ⟨_, ha, h⟩ => Except.ok.inj ha ▸ h⟩

theorem bind_eq_error_iff {α β : Type} {x : Except Overflow α} {f : α → Except Overflow β}
    {e : Overflow} : x >>= f = .error e ↔ x = .error e ∨ ∃ a, x = .ok a ∧ f a = .error e := by
  cases x with
  | error cause =>
    exact ⟨fun h => .inl (congrArg _ (Except.error.inj h)), fun h => h.elim
      (fun h => congrArg _ (Except.error.inj h)) fun ⟨_, ha, _⟩ => nomatch ha⟩
  | ok a =>
    exact ⟨fun h => .inr ⟨a, rfl, h⟩, fun h => h.elim nofun
      fun ⟨_, ha, h⟩ => Except.ok.inj ha ▸ h⟩

theorem return_or_eq_ok_iff {c : Prop} [Decidable c] {check : Except Overflow Unit} :
    (if c then pure () else check) = .ok () ↔ (¬c → check = .ok ()) := by
  split
  · rename_i h
    exact ⟨fun _ hnot => absurd h hnot, fun _ => rfl⟩
  · rename_i h
    exact ⟨fun hcheck _ => hcheck, fun hcheck => hcheck h⟩

section
variable {α : Type} {check : α → Except Overflow Unit}

theorem forM_cons (a : α) (rest : List α) :
    (a :: rest).forM check = check a >>= fun _ => rest.forM check := rfl

theorem forM_eq_ok_iff {l : List α} : l.forM check = .ok () ↔ ∀ a ∈ l, check a = .ok () := by
  induction l with
  | nil => exact ⟨fun _ _ h => absurd h List.not_mem_nil, fun _ => rfl⟩
  | cons a rest ih =>
    rw [forM_cons, bind_eq_ok_iff, List.forall_mem_cons, ← ih]
    exact ⟨fun ⟨_, ha, h⟩ => ⟨ha, h⟩, fun ⟨ha, h⟩ => ⟨(), ha, h⟩⟩

theorem exists_of_forM_eq_error {l : List α} {e : Overflow} (h : l.forM check = .error e) :
    ∃ a ∈ l, check a = .error e := by
  induction l with
  | nil => cases h
  | cons a rest ih =>
    rw [forM_cons, bind_eq_error_iff] at h
    rcases h with ha | ⟨_, -, hrest⟩
    · exact ⟨a, List.mem_cons_self, ha⟩
    · obtain ⟨b, hb, he⟩ := ih hrest
      exact ⟨b, List.mem_cons_of_mem a hb, he⟩

/-- Checks that are refused for one cause only are refused alike in any order. -/
theorem forM_eq_of_perm {cause : Overflow} (hcause : ∀ a e, check a = .error e → e = cause)
    {l l' : List α} (h : l.Perm l') : l.forM check = l'.forM check := by
  have hok : l.forM check = .ok () ↔ l'.forM check = .ok () := by
    simp only [forM_eq_ok_iff, h.mem_iff]
  have herror : ∀ (l : List α) e, l.forM check = .error e → e = cause := by
    intro l e he
    obtain ⟨a, -, ha⟩ := exists_of_forM_eq_error he
    exact hcause a e ha
  cases hl : l.forM check with
  | ok _ => exact (hok.mp hl).symm
  | error e =>
    cases hl' : l'.forM check with
    | ok _ => exact absurd (hok.mpr hl') (by rw [hl]; exact nofun)
    | error e' => rw [herror l e hl, herror l' e' hl']

end

end ClonePlot
