import Mathlib.Data.List.TakeWhile
import Mathlib.Tactic.IntervalCases
import ClonePlot.Color

/-! # Written colors

A written color is a number sign and three or four channels of two hexadecimal digits, with blanks
around it. The reader takes a plus sign and one digit for a channel as well, so it reads exactly
the written colors and their variants with plus signs. It cuts the channels out by byte positions:
the `checked` reader here may find such a position past the end or inside of a character, and
never does.
-/
namespace ClonePlot
namespace Text

variable {s before word after : List Char} {c : Char} {n : Nat}

theorem exists_eq_trim (s : List Char) : ∃ before after, s = before ++ trim s ++ after ∧
    (∀ c ∈ before, isBlank c) ∧ ∀ c ∈ after, isBlank c := by
  let rest := s.dropWhile isBlank
  refine ⟨s.takeWhile isBlank, (rest.reverse.takeWhile isBlank).reverse, ?_,
    fun c hc => List.mem_takeWhile_imp hc,
    fun c hc => List.mem_takeWhile_imp (List.mem_reverse.mp hc)⟩
  have hrest : trim s ++ (rest.reverse.takeWhile isBlank).reverse = rest := by
    rw [trim, ← List.reverse_append, List.takeWhile_append_dropWhile, List.reverse_reverse]
  rw [List.append_assoc, hrest, List.takeWhile_append_dropWhile]

theorem dropWhile_blanks_append (h : ∀ c ∈ before, isBlank c) (hc : ¬isBlank c) :
    (before ++ c :: s).dropWhile isBlank = c :: s := by
  rw [List.dropWhile_append_of_pos h, List.dropWhile_cons_of_neg hc]

theorem trim_blanks_append {first last : Char} {middle : List Char}
    (hbefore : ∀ c ∈ before, isBlank c) (hafter : ∀ c ∈ after, isBlank c)
    (hfirst : ¬isBlank first) (hlast : ¬isBlank last) :
    trim (before ++ (first :: (middle ++ [last])) ++ after) = first :: (middle ++ [last]) := by
  have hreverse : ∀ c ∈ after.reverse, isBlank c := fun c hc => hafter c (List.mem_reverse.mp hc)
  have hturned : (first :: (middle ++ [last]) ++ after).reverse =
      after.reverse ++ last :: (first :: middle).reverse := by simp
  rw [trim, List.append_assoc, List.cons_append, dropWhile_blanks_append hbefore hfirst,
    ← List.cons_append, hturned, dropWhile_blanks_append hreverse hlast]
  simp

/-- The hexadecimal digit of value `n`, in either case. -/
def IsHexDigit (c : Char) (n : Nat) : Prop :=
  n < 16 ∧ (c = Nat.digitChar n ∨ c = (Nat.digitChar n).toUpper)

theorem hexDigit?_of_isHexDigit (h : IsHexDigit c n) : hexDigit? c = some n := by
  obtain ⟨hlt, rfl | rfl⟩ := h <;> interval_cases n <;> decide

theorem isHexDigit_of_hexDigit? (h : hexDigit? c = some n) : IsHexDigit c n := by
  have hle : ∀ d e : Char, d ≤ e ↔ d.toNat ≤ e.toNat := fun _ _ => Iff.rfl
  rw [← c.ofNat_toNat]
  simp only [hexDigit?, Char.isDigit_iff_toNat, hle] at h
  generalize c.toNat = k at h
  have hrange : (48 ≤ k ∧ k ≤ 57) ∧ n = k - 48 ∨ (97 ≤ k ∧ k ≤ 102) ∧ n = k - 97 + 10 ∨
      (65 ≤ k ∧ k ≤ 70) ∧ n = k - 65 + 10 := by
    split at h
    · exact .inl ⟨‹_›, (Option.some.inj h).symm⟩
    · split at h
      · exact .inr (.inl ⟨‹_›, (Option.some.inj h).symm⟩)
      · split at h
        · exact .inr (.inr ⟨‹_›, (Option.some.inj h).symm⟩)
        · cases h
  rcases hrange with ⟨⟨hlow, hhigh⟩, rfl⟩ | ⟨⟨hlow, hhigh⟩, rfl⟩ | ⟨⟨hlow, hhigh⟩, rfl⟩ <;>
    interval_cases k <;> exact ⟨by decide, by decide⟩

theorem hexDigit?_eq_some_iff : hexDigit? c = some n ↔ IsHexDigit c n :=
  ⟨isHexDigit_of_hexDigit?, hexDigit?_of_isHexDigit⟩

theorem IsHexDigit.of_forall (p : Char → Prop) (h : IsHexDigit c n)
    (hp : ∀ k < 16, p (Nat.digitChar k) ∧ p (Nat.digitChar k).toUpper) : p c := by
  obtain ⟨hlt, rfl | rfl⟩ := h
  · exact (hp n hlt).1
  · exact (hp n hlt).2

theorem IsHexDigit.ne_plus (h : IsHexDigit c n) : c ≠ '+' := h.of_forall (· ≠ '+') (by decide)

theorem IsHexDigit.not_isBlank (h : IsHexDigit c n) : ¬isBlank c :=
  h.of_forall (fun c => ¬isBlank c) (by decide)

theorem IsHexDigit.isAscii (h : IsHexDigit c n) : c.toNat < 128 :=
  h.of_forall (fun c => c.toNat < 128) (by decide)

theorem hexNumber?_singleton (c : Char) : hexNumber? [c] = hexDigit? c := by
  simp [hexNumber?]

theorem hexNumber?_pair_eq_some_iff {high low : Char} : hexNumber? [high, low] = some n ↔
    ∃ m k, IsHexDigit high m ∧ IsHexDigit low k ∧ n = 16 * m + k := by
  simp only [hexNumber?, List.foldlM_cons, List.foldlM_nil, Option.bind_eq_bind,
    Option.bind_eq_some_iff, Option.map_eq_some_iff, hexDigit?_eq_some_iff, Option.pure_def,
    Option.some.injEq]
  constructor
  · rintro ⟨_, ⟨m, hm, rfl⟩, _, ⟨k, hk, rfl⟩, rfl⟩
    exact ⟨m, k, hm, hk, by omega⟩
  · rintro ⟨m, k, hm, hk, rfl⟩
    exact ⟨_, ⟨m, hm, rfl⟩, _, ⟨k, hk, rfl⟩, by omega⟩

/-- The first `n` bytes of a text and the rest, none if these bytes are no whole characters. -/
def splitBytes? : Nat → List Char → Option (List Char × List Char)
  | 0, s => some ([], s)
  | _ + 1, [] => none
  | n + 1, c :: s =>
    if c.utf8Size ≤ n + 1 then (splitBytes? (n + 1 - c.utf8Size) s).map fun p => (c :: p.1, p.2)
    else none

/-- The characters between two byte positions. -/
def slice? (s : List Char) (start stop : Nat) : Option (List Char) :=
  (splitBytes? stop s).bind fun p => (splitBytes? start p.1).map Prod.snd

def byteLength (s : List Char) : Nat := s.foldr (fun c n => c.utf8Size + n) 0

def isAscii (s : List Char) : Bool := s.all (·.toNat < 128)

theorem utf8Size_of_isAscii (h : isAscii s) (hc : c ∈ s) : c.utf8Size = 1 :=
  Char.utf8Size_eq_one_iff.mpr (Nat.le_of_lt_succ (of_decide_eq_true (List.all_eq_true.mp h c hc)))

theorem splitBytes?_of_isAscii (h : isAscii s) (hn : n ≤ s.length) :
    splitBytes? n s = some (s.take n, s.drop n) := by
  induction s generalizing n with
  | nil => simp_all [splitBytes?]
  | cons c s ih =>
    cases n with
    | zero => rfl
    | succ n =>
      have hc := utf8Size_of_isAscii h List.mem_cons_self
      have hs : isAscii s := (Bool.and_eq_true_iff.mp h).2
      simp [splitBytes?, hc, ih hs (Nat.le_of_succ_le_succ hn)]

theorem slice?_of_isAscii {start stop : Nat} (h : isAscii s) (hle : start ≤ stop)
    (hstop : stop ≤ s.length) : slice? s start stop = some ((s.take stop).drop start) := by
  have htake : isAscii (s.take stop) :=
    List.all_eq_true.mpr fun c hc => List.all_eq_true.mp h c (List.mem_of_mem_take hc)
  rw [slice?, splitBytes?_of_isAscii h hstop, Option.bind_some,
    splitBytes?_of_isAscii htake (by simp [hle, hstop]), Option.map_some]

theorem byteLength_of_isAscii (h : isAscii s) : byteLength s = s.length := by
  induction s with
  | nil => rfl
  | cons c s ih =>
    have hc := utf8Size_of_isAscii h List.mem_cons_self
    have hs : isAscii s := (Bool.and_eq_true_iff.mp h).2
    rw [byteLength, List.foldr_cons, hc, ← byteLength, ih hs, List.length_cons, Nat.add_comm]

def hexByte? (s : List Char) : Option UInt8 :=
  let digits := if s.head? = some '+' then s.tail else s
  if digits = [] then none
  else (hexNumber? digits).bind fun n => if n < UInt8.size then some (UInt8.ofNat n) else none

end Text

namespace Color

open Text (IsHexDigit isBlank trim)

variable {s : List Char} {high low : Char} {v : UInt8} {values : List UInt8} {color : Color}
variable {channel : Char → Char → UInt8 → Prop}

def Digits (high low : Char) (v : UInt8) : Prop :=
  ∃ m n, IsHexDigit high m ∧ IsHexDigit low n ∧ v.toNat = 16 * m + n

/-- Two hexadecimal digits, or one after a plus sign. -/
def SignedDigits (high low : Char) (v : UInt8) : Prop :=
  Digits high low v ∨ high = '+' ∧ IsHexDigit low v.toNat

inductive Channels (channel : Char → Char → UInt8 → Prop) : List Char → List UInt8 → Prop
  | nil : Channels channel [] []
  | cons {high low : Char} {v : UInt8} {s : List Char} {values : List UInt8} :
      channel high low v → Channels channel s values →
      Channels channel (high :: low :: s) (v :: values)

/-- A number sign and three channels, or four with the alpha channel. -/
inductive Form (channel : Char → Char → UInt8 → Prop) : List Char → Color → Prop
  | solid {s : List Char} {red green blue : UInt8} :
      Channels channel s [red, green, blue] → Form channel ('#' :: s) ⟨red, green, blue, 255⟩
  | translucent {s : List Char} {red green blue alpha : UInt8} :
      Channels channel s [red, green, blue, alpha] →
      Form channel ('#' :: s) ⟨red, green, blue, alpha⟩

/-- A form with blanks around it. -/
def Written (channel : Char → Char → UInt8 → Prop) (s : List Char) (color : Color) : Prop :=
  ∃ before word after, s = before ++ word ++ after ∧ (∀ c ∈ before, isBlank c) ∧
    (∀ c ∈ after, isBlank c) ∧ Form channel word color

theorem channel?_eq_some_iff : channel? high low = some v ↔ SignedDigits high low v := by
  have hv (n : Nat) : n < 256 → (UInt8.ofNat n = v ↔ v.toNat = n) := by
    intro hn
    rw [← UInt8.toNat_inj, UInt8.toNat_ofNat_of_lt' hn, eq_comm]
  unfold channel? SignedDigits Digits
  rw [Option.map_eq_some_iff]
  by_cases hsign : high = '+'
  · subst hsign
    rw [if_pos rfl, Text.hexNumber?_singleton]
    simp only [Text.hexDigit?_eq_some_iff]
    constructor
    · rintro ⟨n, hn, h⟩
      exact .inr ⟨trivial, ((hv n (hn.1.trans (by decide))).mp h).symm ▸ hn⟩
    · rintro (⟨m, n, hm, -⟩ | ⟨-, hlow⟩)
      · exact absurd rfl hm.ne_plus
      · exact ⟨_, hlow, (hv _ (UInt8.toNat_lt v)).mpr rfl⟩
  · rw [if_neg hsign]
    simp only [Text.hexNumber?_pair_eq_some_iff, hsign, false_and, or_false]
    constructor
    · rintro ⟨_, ⟨m, n, hm, hn, rfl⟩, h⟩
      exact ⟨m, n, hm, hn, (hv _ (by have := hm.1; have := hn.1; omega)).mp h⟩
    · rintro ⟨m, n, hm, hn, h⟩
      exact ⟨_, ⟨m, n, hm, hn, rfl⟩, (hv _ (by have := hm.1; have := hn.1; omega)).mpr h⟩

theorem ofHex?_eq_some_iff_form {text : String} :
    ofHex? text = some color ↔ Form SignedDigits (trim text.toList) color := by
  unfold ofHex?
  generalize trim text.toList = word
  constructor
  · intro h
    split at h
    · simp only [Option.bind_eq_bind, Option.bind_eq_some_iff, channel?_eq_some_iff,
        Option.pure_def, Option.some.injEq] at h
      obtain ⟨red, hred, green, hgreen, blue, hblue, rfl⟩ := h
      exact .solid (.cons hred (.cons hgreen (.cons hblue .nil)))
    · simp only [Option.bind_eq_bind, Option.bind_eq_some_iff, channel?_eq_some_iff,
        Option.pure_def, Option.some.injEq] at h
      obtain ⟨red, hred, green, hgreen, blue, hblue, alpha, halpha, rfl⟩ := h
      exact .translucent (.cons hred (.cons hgreen (.cons hblue (.cons halpha .nil))))
    · cases h
  · rintro (⟨_ | ⟨hred, _ | ⟨hgreen, _ | ⟨hblue, _ | _⟩⟩⟩⟩ |
      ⟨_ | ⟨hred, _ | ⟨hgreen, _ | ⟨hblue, _ | ⟨halpha, _ | _⟩⟩⟩⟩⟩)
    · simp [channel?_eq_some_iff.mpr hred, channel?_eq_some_iff.mpr hgreen,
        channel?_eq_some_iff.mpr hblue]
    · simp [channel?_eq_some_iff.mpr hred, channel?_eq_some_iff.mpr hgreen,
        channel?_eq_some_iff.mpr hblue, channel?_eq_some_iff.mpr halpha]

theorem digits_iff : Digits high low v ↔ SignedDigits high low v ∧ high ≠ '+' ∧ low ≠ '+' := by
  constructor
  · rintro ⟨m, n, hhigh, hlow, hv⟩
    exact ⟨.inl ⟨m, n, hhigh, hlow, hv⟩, hhigh.ne_plus, hlow.ne_plus⟩
  · rintro ⟨h | ⟨hsign, -⟩, hhigh, -⟩
    · exact h
    · exact absurd hsign hhigh

theorem SignedDigits.not_isBlank (h : SignedDigits high low v) : ¬isBlank low := by
  rcases h with ⟨_, _, -, hlow, -⟩ | ⟨-, hlow⟩ <;> exact hlow.not_isBlank

theorem SignedDigits.isAscii (h : SignedDigits high low v) :
    high.toNat < 128 ∧ low.toNat < 128 := by
  rcases h with ⟨_, _, hhigh, hlow, -⟩ | ⟨rfl, hlow⟩
  · exact ⟨hhigh.isAscii, hlow.isAscii⟩
  · exact ⟨by decide, hlow.isAscii⟩

theorem Channels.length_eq (h : Channels channel s values) : s.length = 2 * values.length := by
  induction h with
  | nil => rfl
  | cons _ _ ih => simp only [List.length_cons, ih]; omega

theorem Channels.isAscii (h : Channels SignedDigits s values) : Text.isAscii s := by
  induction h with
  | nil => rfl
  | cons hv _ ih => simpa [Text.isAscii, hv.isAscii] using ih

theorem Channels.exists_last (h : Channels SignedDigits s values) (hne : values ≠ []) :
    ∃ middle last, s = middle ++ [last] ∧ ¬isBlank last := by
  induction h with
  | nil => exact absurd rfl hne
  | @cons high low v s values hv hrest ih =>
    cases hrest with
    | nil => exact ⟨[high], low, rfl, hv.not_isBlank⟩
    | cons _ _ =>
      obtain ⟨middle, last, hs, hlast⟩ := ih (List.cons_ne_nil _ _)
      exact ⟨high :: low :: middle, last, by simp [hs], hlast⟩

theorem channels_digits_iff :
    Channels Digits s values ↔ Channels SignedDigits s values ∧ '+' ∉ s := by
  constructor
  · intro h
    induction h with
    | nil => exact ⟨.nil, List.not_mem_nil⟩
    | cons hv _ ih =>
      obtain ⟨hv, hhigh, hlow⟩ := digits_iff.mp hv
      exact ⟨.cons hv ih.1, by simp [hhigh.symm, hlow.symm, ih.2]⟩
  · rintro ⟨h, hplus⟩
    induction h with
    | nil => exact .nil
    | cons hv _ ih =>
      simp only [List.mem_cons, not_or] at hplus
      exact .cons (digits_iff.mpr ⟨hv, Ne.symm hplus.1, Ne.symm hplus.2.1⟩) (ih hplus.2.2)

theorem form_digits_iff : Form Digits s color ↔ Form SignedDigits s color ∧ '+' ∉ s := by
  have hsign : '+' ≠ '#' := by decide
  constructor
  · rintro (h | h)
    · exact ⟨.solid (channels_digits_iff.mp h).1, by simp [hsign, (channels_digits_iff.mp h).2]⟩
    · exact ⟨.translucent (channels_digits_iff.mp h).1,
        by simp [hsign, (channels_digits_iff.mp h).2]⟩
  · rintro ⟨h | h, hplus⟩
    · exact .solid (channels_digits_iff.mpr ⟨h, fun hs => hplus (List.mem_cons_of_mem _ hs)⟩)
    · exact .translucent (channels_digits_iff.mpr ⟨h, fun hs => hplus (List.mem_cons_of_mem _ hs)⟩)

theorem Form.trim_blanks {before word after : List Char} (h : Form SignedDigits word color)
    (hbefore : ∀ c ∈ before, isBlank c) (hafter : ∀ c ∈ after, isBlank c) :
    trim (before ++ word ++ after) = word := by
  have hends : ∃ middle last, word = '#' :: (middle ++ [last]) ∧ ¬isBlank last := by
    rcases h with h | h <;> obtain ⟨middle, last, rfl, hlast⟩ := h.exists_last (by simp) <;>
      exact ⟨middle, last, rfl, hlast⟩
  obtain ⟨middle, last, rfl, hlast⟩ := hends
  exact Text.trim_blanks_append hbefore hafter (by decide) hlast

theorem written_signedDigits_iff :
    Written SignedDigits s color ↔ Form SignedDigits (trim s) color := by
  constructor
  · rintro ⟨before, word, after, rfl, hbefore, hafter, h⟩
    rwa [h.trim_blanks hbefore hafter]
  · intro h
    obtain ⟨before, after, hs, hbefore, hafter⟩ := Text.exists_eq_trim s
    exact ⟨before, _, after, hs, hbefore, hafter, h⟩

theorem written_digits_iff :
    Written Digits s color ↔ Written SignedDigits s color ∧ '+' ∉ s := by
  have hblank {l : List Char} (h : ∀ c ∈ l, isBlank c) : '+' ∉ l :=
    fun hl => absurd (h _ hl) (by decide)
  constructor
  · rintro ⟨before, word, after, rfl, hbefore, hafter, h⟩
    obtain ⟨h, hplus⟩ := form_digits_iff.mp h
    exact ⟨⟨before, word, after, rfl, hbefore, hafter, h⟩,
      by simp [hblank hbefore, hblank hafter, hplus]⟩
  · rintro ⟨⟨before, word, after, rfl, hbefore, hafter, h⟩, hplus⟩
    refine ⟨before, word, after, rfl, hbefore, hafter, form_digits_iff.mpr ⟨h, fun hw => hplus ?_⟩⟩
    simp [hw]

/-- The channel at a byte position; `none` outside if there is no such slice. -/
def checkedChannel? (hex : List Char) (i : Nat) : OptionT Option UInt8 :=
  OptionT.mk ((Text.slice? hex i (i + 2)).map Text.hexByte?)

def checkedOfHex? (text : String) : OptionT Option Color :=
  match trim text.toList with
  | '#' :: hex =>
    if Text.isAscii hex ∧ (Text.byteLength hex = 6 ∨ Text.byteLength hex = 8) then do
      let alpha ← if Text.byteLength hex = 8 then checkedChannel? hex 6 else pure 255
      return ⟨← checkedChannel? hex 0, ← checkedChannel? hex 2, ← checkedChannel? hex 4, alpha⟩
    else failure
  | _ => failure

theorem hexByte?_pair (high low : Char) : Text.hexByte? [high, low] = channel? high low := by
  have hfits (digits : List Char) (h : ∀ n, Text.hexNumber? digits = some n → n < UInt8.size) :
      ((Text.hexNumber? digits).bind fun n =>
        if n < UInt8.size then some (UInt8.ofNat n) else none) =
          (Text.hexNumber? digits).map UInt8.ofNat := by
    cases hn : Text.hexNumber? digits with
    | none => rfl
    | some n => rw [Option.bind_some, if_pos (h n hn), Option.map_some]
  unfold Text.hexByte? channel?
  by_cases hsign : high = '+'
  · simp only [hsign, List.head?_cons, if_true, List.tail_cons]
    refine (if_neg (List.cons_ne_nil _ _)).trans (hfits _ fun n hn => ?_)
    rw [Text.hexNumber?_singleton, Text.hexDigit?_eq_some_iff] at hn
    exact hn.1.trans (by decide)
  · simp only [hsign, List.head?_cons, Option.some.injEq, if_false]
    refine (if_neg (List.cons_ne_nil _ _)).trans (hfits _ fun n hn => ?_)
    obtain ⟨m, k, ⟨hm, -⟩, ⟨hk, -⟩, rfl⟩ := Text.hexNumber?_pair_eq_some_iff.mp hn
    change 16 * m + k < 256
    omega

theorem checkedChannel?_eq {hex : List Char} {i : Nat} (hascii : Text.isAscii hex)
    (hslice : (hex.take (i + 2)).drop i = [high, low]) (hi : i + 2 ≤ hex.length) :
    checkedChannel? hex i = OptionT.mk (some (channel? high low)) := by
  rw [checkedChannel?, Text.slice?_of_isAscii hascii (Nat.le_add_right i 2) hi, hslice,
    Option.map_some, hexByte?_pair]

theorem checkedOfHex?_of_length {text : String} {hex : List Char}
    (hword : trim text.toList = '#' :: hex) (hascii : Text.isAscii hex)
    (hlength : hex.length = 6 ∨ hex.length = 8) :
    (checkedOfHex? text).run = some (ofHex? text) := by
  have hsize := Text.byteLength_of_isAscii hascii
  unfold checkedOfHex? ofHex?
  simp only [hword, hsize, hascii, hlength, and_self, if_true]
  rcases hlength with hlength | hlength
  · obtain ⟨a, b, c, d, e, f, rfl⟩ : ∃ a b c d e f, hex = [a, b, c, d, e, f] := by
      match hex, hlength with
      | [a, b, c, d, e, f], _ => exact ⟨a, b, c, d, e, f, rfl⟩
    rw [if_neg (by simp), checkedChannel?_eq (i := 0) hascii rfl (by simp),
      checkedChannel?_eq (i := 2) hascii rfl (by simp),
      checkedChannel?_eq (i := 4) hascii rfl (by simp)]
    cases hred : channel? a b <;> cases hgreen : channel? c d <;> cases hblue : channel? e f <;>
      simp [hred, hgreen, hblue] <;> rfl
  · obtain ⟨a, b, c, d, e, f, g, h, rfl⟩ : ∃ a b c d e f g h, hex = [a, b, c, d, e, f, g, h] := by
      match hex, hlength with
      | [a, b, c, d, e, f, g, h], _ => exact ⟨a, b, c, d, e, f, g, h, rfl⟩
    rw [if_pos hlength, checkedChannel?_eq (i := 6) hascii rfl (by simp),
      checkedChannel?_eq (i := 0) hascii rfl (by simp),
      checkedChannel?_eq (i := 2) hascii rfl (by simp),
      checkedChannel?_eq (i := 4) hascii rfl (by simp)]
    cases hred : channel? a b <;> cases hgreen : channel? c d <;> cases hblue : channel? e f <;>
      cases halpha : channel? g h <;> simp [hred, hgreen, hblue, halpha] <;> rfl

theorem checkedOfHex?_eq (text : String) : (checkedOfHex? text).run = some (ofHex? text) := by
  by_cases h : ∃ hex, trim text.toList = '#' :: hex ∧ Text.isAscii hex ∧
      (hex.length = 6 ∨ hex.length = 8)
  · obtain ⟨hex, hword, hascii, hlength⟩ := h
    exact checkedOfHex?_of_length hword hascii hlength
  · have hnone : ofHex? text = none := by
      refine Option.eq_none_iff_forall_ne_some.mpr fun color hcolor => h ?_
      have hform := ofHex?_eq_some_iff_form.mp hcolor
      generalize trim text.toList = word at hform
      rcases hform with hchannels | hchannels <;>
        exact ⟨_, rfl, hchannels.isAscii, by simp [hchannels.length_eq]⟩
    rw [hnone]
    unfold checkedOfHex?
    split
    · rename_i hex hword
      rw [if_neg]
      · rfl
      · rintro ⟨hascii, hlength⟩
        rw [Text.byteLength_of_isAscii hascii] at hlength
        exact h ⟨hex, hword, hascii, hlength⟩
    · rfl

/-- The reader reads exactly the written colors and their variants with plus signs, and no byte
position fails. A text is a written color exactly if it is read and has no plus sign. -/
theorem ofHex?_eq_some_iff_written (text : String) :
    (checkedOfHex? text).run = some (ofHex? text) ∧
      (∀ color, ofHex? text = some color ↔ Written SignedDigits text.toList color) ∧
      ∀ color, Written Digits text.toList color ↔
        ofHex? text = some color ∧ '+' ∉ text.toList := by
  have hread (color : Color) :
      ofHex? text = some color ↔ Written SignedDigits text.toList color :=
    ofHex?_eq_some_iff_form.trans written_signedDigits_iff.symm
  refine ⟨checkedOfHex?_eq text, hread, fun color => ?_⟩
  rw [hread, written_digits_iff]

/-- A plus sign in the place of a digit. -/
theorem ofHex?_plus : ofHex? "#+f0000" = some ⟨15, 0, 0, 255⟩ ∧
    ∀ color, ¬Written Digits "#+f0000".toList color :=
  ⟨by decide, fun _ h => (written_digits_iff.mp h).2 (by decide)⟩

end Color
end ClonePlot
