import Mathlib.Data.List.TakeWhile
import Comp30023.Model.CLibrary
import Comp30023.Model.SecretCode

/-!
# Numbers as text

The bytes of a decimal number, and that `atoi` gets the number back from them whatever comes
behind, if it is an `int`.
-/

set_option autoImplicit false

namespace Comp30023.Interface

open Comp30023.Model

theorem ascii_append (text text' : String) : ascii (text ++ text') = ascii text ++ ascii text' := by
  simp [ascii]

/-! ## Digits -/

/-- INTERNAL: the bytes of a number are its digits. -/
theorem ascii_toString (n : ℕ) :
    ascii (toString n) = (Nat.toDigits 10 n).map fun c => UInt8.ofNat c.toNat := by
  have hdigits : (toString n).toList = Nat.toDigits 10 n := Nat.toList_repr
  rw [ascii, hdigits]

/-- INTERNAL: the codes of the digits. -/
theorem toNat_digit {n : ℕ} {c : Char} (h : c ∈ Nat.toDigits 10 n) :
    48 ≤ c.toNat ∧ c.toNat ≤ 57 ∧ (UInt8.ofNat c.toNat).toNat = c.toNat := by
  have hdigit := Nat.isDigit_of_mem_toDigits (by decide) (by decide) h
  simp only [Char.isDigit, Bool.and_eq_true, decide_eq_true_eq] at hdigit
  have hlow : 48 ≤ c.toNat := hdigit.1
  have hhigh : c.toNat ≤ 57 := hdigit.2
  refine ⟨hlow, hhigh, ?_⟩
  rw [UInt8.toNat_ofNat']
  omega

theorem isDigit_of_mem {n : ℕ} {c : UInt8} (h : c ∈ ascii (toString n)) : isDigit c = true := by
  rw [ascii_toString] at h
  obtain ⟨d, hd, rfl⟩ := List.mem_map.mp h
  obtain ⟨hlow, hhigh, hcode⟩ := toNat_digit hd
  simp only [isDigit, decide_eq_true_eq, UInt8.le_iff_toNat_le, hcode]
  exact ⟨hlow, hhigh⟩

theorem length_ascii_toString {n k : ℕ} (hk : 0 < k) (h : n < 10 ^ k) :
    (ascii (toString n)).length ≤ k := by
  rw [ascii_toString, List.length_map]
  exact (Nat.length_toDigits_le_iff (by decide) hk).mpr h

theorem ascii_toString_ne_nil (n : ℕ) : ascii (toString n) ≠ [] := by
  rw [ascii_toString]
  simp

/-- INTERNAL: the digits of a number are worth the number. -/
theorem digitsValue_toString (n : ℕ) : digitsValue (ascii (toString n)) = n := by
  have hvalue : ∀ (digits : List Char) (value : ℕ), (∀ c ∈ digits, c ∈ Nat.toDigits 10 n) →
      (digits.map fun c => UInt8.ofNat c.toNat).foldl
          (fun value c => 10 * value + (c.toNat - 48)) value =
        Nat.ofDigitChars 10 digits value := by
    intro digits
    induction digits with
    | nil => exact fun _ _ => rfl
    | cons c digits ih =>
      intro value hdigits
      rw [List.forall_mem_cons] at hdigits
      rw [List.map_cons, List.foldl_cons, Nat.ofDigitChars_cons, (toNat_digit hdigits.1).2.2]
      exact ih _ hdigits.2
  rw [ascii_toString, digitsValue, hvalue _ 0 fun c hc => hc, Nat.ofDigitChars_ten_toDigits]

/-! ## Numbers with a sign -/

/-- A number of the type `int`. -/
def IsInt (z : ℤ) : Prop := -(2 : ℤ) ^ 31 ≤ z ∧ z < 2 ^ 31

instance decidableIsInt (z : ℤ) : Decidable (IsInt z) := inferInstanceAs (Decidable (_ ∧ _))

/-- The bytes of a number. -/
def decimal (z : ℤ) : List UInt8 := ascii (toString z)

theorem decimal_natCast (n : ℕ) : decimal n = ascii (toString n) := rfl

theorem decimal_neg {n : ℕ} (h : 0 < n) : decimal (-n) = 45 :: ascii (toString n) := by
  obtain ⟨n, rfl⟩ := Nat.exists_eq_add_one.mpr h
  have hsign : toString (-((n + 1 : ℕ) : ℤ)) = "-" ++ toString (n + 1) := rfl
  rw [decimal, hsign, ascii_append]
  rfl

/-- INTERNAL: a number is written with a sign or without. -/
theorem decimal_cases (z : ℤ) :
    (∃ n : ℕ, z = n ∧ decimal z = ascii (toString n)) ∨
      ∃ n : ℕ, z = -n ∧ decimal z = 45 :: ascii (toString n) := by
  rcases Int.eq_nat_or_neg z with ⟨n, rfl | rfl⟩
  · exact Or.inl ⟨n, rfl, decimal_natCast n⟩
  · rcases Nat.eq_zero_or_pos n with rfl | hn
    · exact Or.inl ⟨0, rfl, rfl⟩
    · exact Or.inr ⟨n, rfl, decimal_neg hn⟩

theorem decimal_ne_nil (z : ℤ) : decimal z ≠ [] := by
  rcases decimal_cases z with ⟨n, -, hz⟩ | ⟨n, -, hz⟩
  · rw [hz]
    exact ascii_toString_ne_nil n
  · rw [hz]
    exact List.cons_ne_nil _ _

/-- INTERNAL: a number is written with digits and a sign. -/
theorem mem_decimal {z : ℤ} {c : UInt8} (h : c ∈ decimal z) : c = 45 ∨ isDigit c = true := by
  rcases decimal_cases z with ⟨n, -, hz⟩ | ⟨n, -, hz⟩
  · rw [hz] at h
    exact Or.inr (isDigit_of_mem h)
  · rw [hz, List.mem_cons] at h
    exact h.imp_right isDigit_of_mem

theorem length_decimal {z : ℤ} (h : IsInt z) : (decimal z).length ≤ 11 := by
  unfold IsInt at h
  rcases decimal_cases z with ⟨n, rfl, hz⟩ | ⟨n, rfl, hz⟩
  · have hdigits : (ascii (toString n)).length ≤ 10 :=
      length_ascii_toString (by decide) (by omega)
    rw [hz]
    omega
  · have hdigits : (ascii (toString n)).length ≤ 10 :=
      length_ascii_toString (by decide) (by omega)
    rw [hz, List.length_cons]
    omega

/-! ## Reading numbers -/

/-- INTERNAL: digits are read up to the first character that is none. -/
theorem takeWhile_digits (n : ℕ) {tail : List UInt8} (htail : ∀ c ∈ tail.head?, isDigit c = false) :
    (ascii (toString n) ++ tail).takeWhile isDigit = ascii (toString n) := by
  rw [List.takeWhile_append_of_pos fun c hc => isDigit_of_mem hc]
  cases tail with
  | nil => simp
  | cons c tail =>
    have hc := htail c rfl
    simp [hc]

/-- INTERNAL: a digit is neither a blank nor a sign. -/
theorem isDigit_code {c : UInt8} (h : isDigit c = true) : 48 ≤ c.toNat ∧ c.toNat ≤ 57 := by
  simpa [isDigit, UInt8.le_iff_toNat_le] using h

/-- INTERNAL: blanks are passed over, and a digit is none. -/
theorem dropWhile_isSpace {c : UInt8} (h : c = 45 ∨ isDigit c = true) (text : List UInt8) :
    (c :: text).dropWhile isSpace = c :: text := by
  apply List.dropWhile_cons_of_neg
  rcases h with rfl | h
  · decide
  · have hc := isDigit_code h
    simp only [isSpace, decide_eq_true_eq, UInt8.le_iff_toNat_le, ← UInt8.toNat_inj,
      UInt8.reduceToNat]
    omega

/-- INTERNAL: a number without a sign. -/
theorem strtol_digits (n : ℕ) {tail : List UInt8} (htail : ∀ c ∈ tail.head?, isDigit c = false) :
    strtol (ascii (toString n) ++ tail) = max (-2 ^ 63) (min (2 ^ 63 - 1) (n : ℤ)) := by
  have hdigits := takeWhile_digits n htail
  have hvalue := digitsValue_toString n
  obtain ⟨c, digits, heq⟩ := List.exists_cons_of_ne_nil (ascii_toString_ne_nil n)
  have hc : isDigit c = true :=
    isDigit_of_mem (heq ▸ List.mem_cons_self : c ∈ ascii (toString n))
  have hsign : c ≠ 43 ∧ c ≠ 45 := by
    constructor
    · rintro rfl
      exact absurd hc (by decide)
    · rintro rfl
      exact absurd hc (by decide)
  rw [heq] at hdigits hvalue ⊢
  rw [List.cons_append] at hdigits ⊢
  unfold strtol
  rw [dropWhile_isSpace (Or.inr hc)]
  simp only [List.head?_cons, Option.some.injEq, hsign.1, hsign.2, or_self, if_false, hdigits,
    hvalue]

/-- INTERNAL: a number with a sign. -/
theorem strtol_neg (n : ℕ) {tail : List UInt8} (htail : ∀ c ∈ tail.head?, isDigit c = false) :
    strtol (45 :: ascii (toString n) ++ tail) = max (-2 ^ 63) (min (2 ^ 63 - 1) (-(n : ℤ))) := by
  rw [List.cons_append]
  unfold strtol
  rw [dropWhile_isSpace (Or.inl rfl)]
  simp only [List.head?_cons, List.tail_cons, or_true, if_true, takeWhile_digits n htail,
    digitsValue_toString]

/-- `atoi` gets a number back from its text, whatever comes behind it. -/
theorem atoi_decimal {z : ℤ} (h : IsInt z) {tail : List UInt8}
    (htail : ∀ c ∈ tail.head?, isDigit c = false) : atoi (decimal z ++ tail) = z := by
  have hlong : strtol (decimal z ++ tail) = max (-2 ^ 63) (min (2 ^ 63 - 1) z) := by
    rcases decimal_cases z with ⟨n, rfl, hz⟩ | ⟨n, rfl, hz⟩
    · rw [hz]
      exact strtol_digits n htail
    · rw [hz]
      exact strtol_neg n htail
  unfold IsInt at h
  have hexact : max (-2 ^ 63) (min (2 ^ 63 - 1) z) = z := by omega
  rw [atoi, hlong, hexact]
  exact Int.bmod_eq_of_le_mul_two (by omega) (by omega)

end Comp30023.Interface
