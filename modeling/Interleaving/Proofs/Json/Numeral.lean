import Interleaving.Json.Token
import Mathlib.Data.List.Basic
import Mathlib.Data.List.TakeWhile

/-!
# Numerals

The decimal digits of a natural number are a number in JSON text, and the number is read back
from them (`Number.natural?_digits`).  All numbers in JSON text consist of characters that
belong to words, so a number is cut from a text in one piece.
-/

namespace Interleaving.Json

namespace Number

/-! ### Digits of natural numbers -/

theorem isDigit_of_mem_digits {n : Nat} {c : Char} (h : c ∈ digits n) : c.isDigit = true :=
  Nat.isDigit_of_mem_toDigits (by decide) (by decide) h

theorem digits_ne_nil (n : Nat) : digits n ≠ [] := Nat.toDigits_ne_nil

theorem digits_of_lt {n : Nat} (h : n < 10) : digits n = [n.digitChar] :=
  Nat.toDigits_of_lt_base h

theorem digits_of_le {n : Nat} (h : 10 ≤ n) :
    digits n = digits (n / 10) ++ [(n % 10).digitChar] :=
  Nat.toDigits_of_base_le (by decide) h

/-- Only zero starts with a zero. -/
theorem head?_digits {n : Nat} (h : n ≠ 0) : (digits n).head? ≠ some '0' := by
  induction n using Nat.strongRecOn with
  | ind n ih =>
      by_cases hlt : n < 10
      · have hdigits : ∀ d < 10, d ≠ 0 → some d.digitChar ≠ some '0' := by decide
        rw [digits_of_lt hlt]
        exact hdigits n hlt h
      · -- The leading digit is that of a tenth of the number, which is not zero either.
        have hhead := ih (n / 10) (by omega) (by omega)
        rw [digits_of_le (by omega), List.head?_append_of_ne_nil _ (digits_ne_nil _)]
        exact hhead

theorem isDecimal_digits (n : Nat) : isDecimal (digits n) = true := by
  by_cases hzero : n = 0
  · subst hzero
    rfl
  · have hhead := head?_digits hzero
    unfold isDecimal
    split
    case h_1 hnil => exact absurd hnil (digits_ne_nil n)
    case h_2 => rfl
    case h_3 hcons =>
      rw [hcons] at hhead
      exact absurd rfl hhead
    case h_4 => exact List.all_eq_true.2 fun c hc => isDigit_of_mem_digits hc

/-- A number below the limit is read back from its digits. -/
theorem natural?_digits {n : Nat} (h : n < limit) : natural? (digits n) = some n := by
  unfold natural?
  rw [if_pos (isDecimal_digits n)]
  have hvalue : Nat.ofDigitChars 10 (digits n) 0 = n := Nat.ofDigitChars_ten_toDigits
  simp only [hvalue, h, if_true]

/-- Only numbers below the limit are read. -/
theorem lt_of_natural? {cs : List Char} {n : Nat} (h : natural? cs = some n) : n < limit := by
  unfold natural? at h
  split at h
  case isFalse => cases h
  case isTrue =>
    simp only [Option.ite_none_right_eq_some, Option.some.injEq] at h
    exact h.2 ▸ h.1

theorem afterInteger?_of_ne {c : Char} {rest : List Char} (h : c ≠ '0') :
    afterInteger? (c :: rest) = afterDigits? (c :: rest) := by
  unfold afterInteger?
  split
  case h_1 hcons => exact absurd (List.cons.inj hcons).1 h
  case h_2 => rfl

/-- Digits without a leading zero are a number. -/
theorem isNumber_of_isDecimal {cs : List Char} (h : isDecimal cs = true) :
    isNumber cs = true := by
  unfold isDecimal at h
  split at h
  case h_1 => cases h
  case h_2 => rfl
  case h_3 => cases h
  case h_4 hnil _ hzero =>
    obtain ⟨c, rest, rfl⟩ := List.exists_cons_of_ne_nil hnil
    have hdigits := List.all_eq_true.1 h
    have hc : c.isDigit = true := hdigits c List.mem_cons_self
    have hrest : rest.dropWhile Char.isDigit = [] :=
      List.dropWhile_eq_nil_iff.2 fun d hd => hdigits d (List.mem_cons_of_mem _ hd)
    have hsign : c ≠ '-' := fun heq => by simp [heq] at hc
    have hinteger : afterInteger? (c :: rest) = some [] := by
      rw [afterInteger?_of_ne fun heq => hzero rest (heq ▸ rfl), afterDigits?, if_pos hc, hrest]
    unfold isNumber
    split
    case h_1 hcons => exact absurd (List.cons.inj hcons).1 hsign
    case h_2 =>
      simp only [hinteger]
      rfl

/-! ### Characters of numbers -/

theorem isWordChar_of_isDigit {c : Char} (h : c.isDigit = true) : isWordChar c = true := by
  simp [isWordChar, Char.isAlphanum, h]

section WordChars

variable {cs rest : List Char} (hrest : ∀ c ∈ rest, isWordChar c = true)
include hrest

theorem isWordChar_of_afterDigits? (h : afterDigits? cs = some rest) :
    ∀ c ∈ cs, isWordChar c = true := by
  unfold afterDigits? at h
  split at h
  case h_1 => cases h
  case h_2 d tail =>
    simp only [Option.ite_none_right_eq_some, Option.some.injEq] at h
    obtain ⟨hd, rfl⟩ := h
    intro c hc
    rw [← List.takeWhile_append_dropWhile (p := Char.isDigit) (l := tail)] at hc
    rcases List.mem_cons.1 hc with rfl | hc
    · exact isWordChar_of_isDigit hd
    · rcases List.mem_append.1 hc with hc | hc
      · exact isWordChar_of_isDigit (List.mem_takeWhile_imp hc)
      · exact hrest c hc

theorem isWordChar_of_afterInteger? (h : afterInteger? cs = some rest) :
    ∀ c ∈ cs, isWordChar c = true := by
  unfold afterInteger? at h
  split at h
  case h_1 =>
    cases h
    exact List.forall_mem_cons.2 ⟨by decide, hrest⟩
  case h_2 => exact isWordChar_of_afterDigits? hrest h

theorem isWordChar_of_afterFraction? (h : afterFraction? cs = some rest) :
    ∀ c ∈ cs, isWordChar c = true := by
  unfold afterFraction? at h
  split at h
  case h_1 => exact List.forall_mem_cons.2 ⟨by decide, isWordChar_of_afterDigits? hrest h⟩
  case h_2 =>
    cases h
    exact hrest

theorem isWordChar_of_afterSign (h : afterSign cs = rest) : ∀ c ∈ cs, isWordChar c = true := by
  unfold afterSign at h
  split at h
  case h_1 => exact List.forall_mem_cons.2 ⟨by decide, h ▸ hrest⟩
  case h_2 => exact List.forall_mem_cons.2 ⟨by decide, h ▸ hrest⟩
  case h_3 => exact h ▸ hrest

theorem isWordChar_of_afterExponent? (h : afterExponent? cs = some rest) :
    ∀ c ∈ cs, isWordChar c = true := by
  unfold afterExponent? at h
  split at h
  case h_1 =>
    exact List.forall_mem_cons.2
      ⟨by decide, isWordChar_of_afterSign (isWordChar_of_afterDigits? hrest h) rfl⟩
  case h_2 =>
    exact List.forall_mem_cons.2
      ⟨by decide, isWordChar_of_afterSign (isWordChar_of_afterDigits? hrest h) rfl⟩
  case h_3 =>
    cases h
    exact hrest

end WordChars

/-- A number is made of characters that belong to words. -/
theorem isWordChar_of_isNumber {cs : List Char} (h : isNumber cs = true) :
    ∀ c ∈ cs, isWordChar c = true := by
  have hunsigned : ∀ unsigned,
      (((afterInteger? unsigned).bind afterFraction?).bind afterExponent?) = some [] →
      ∀ c ∈ unsigned, isWordChar c = true := by
    intro unsigned h
    obtain ⟨exponent, h, hexponent⟩ := Option.bind_eq_some_iff.1 h
    obtain ⟨fraction, hinteger, hfraction⟩ := Option.bind_eq_some_iff.1 h
    have hall := isWordChar_of_afterExponent? (by simp) hexponent
    exact isWordChar_of_afterInteger? (isWordChar_of_afterFraction? hall hfraction) hinteger
  unfold isNumber at h
  split at h
  case h_1 => exact List.forall_mem_cons.2 ⟨by decide, hunsigned _ (of_decide_eq_true h)⟩
  case h_2 => exact hunsigned _ (of_decide_eq_true h)

theorem ne_nil_of_isNumber {cs : List Char} (h : isNumber cs = true) : cs ≠ [] := by
  rintro rfl
  cases h

end Number

end Interleaving.Json
