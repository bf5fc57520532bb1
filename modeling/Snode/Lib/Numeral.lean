import Mathlib.Data.Nat.Digits.Lemmas

/-!
# Positional numerals

Numerals over any alphabet with a partial digit function, most significant
digit first: what a text denotes, that it denotes one number only, and that
printing a number gives a numeral for it without leading zeros.
-/

universe u

/-- `text` is a numeral for `value` in the given base. -/
structure IsNumeral {α : Type u} (base : ℕ) (digit? : α → Option ℕ) (text : List α)
    (value : ℕ) : Prop where
  nonempty : text ≠ []
  digits : ∃ digits : List ℕ, text.map digit? = digits.map some ∧
    Nat.ofDigits base digits.reverse = value

namespace IsNumeral

variable {α : Type u} {base : ℕ} {digit? : α → Option ℕ} {text : List α} {value : ℕ}

theorem foldl_eq_ofDigits (base : ℕ) (digits : List ℕ) :
    digits.foldl (fun result digit => result * base + digit) 0 =
      Nat.ofDigits base digits.reverse := by
  rw [Nat.ofDigits_eq_foldr, List.foldr_reverse]
  simp only [Nat.cast_id, Nat.add_comm, Nat.mul_comm]

theorem isSome (numeral : IsNumeral base digit? text value) {char : α} (present : char ∈ text) :
    (digit? char).isSome = true := by
  rcases numeral.digits with ⟨digits, mapped, -⟩
  have image : digit? char ∈ digits.map some := mapped ▸ List.mem_map_of_mem present
  rcases List.mem_map.mp image with ⟨digit, -, digitEq⟩
  simp [← digitEq]

theorem not_mem (numeral : IsNumeral base digit? text value) {char : α}
    (other : digit? char = none) : char ∉ text := by
  intro present
  have isSome := numeral.isSome present
  simp [other] at isSome

theorem value_unique {other : ℕ} (numeral : IsNumeral base digit? text value)
    (numeral' : IsNumeral base digit? text other) : value = other := by
  rcases numeral.digits with ⟨digits, mapped, rfl⟩
  rcases numeral'.digits with ⟨digits', mapped', rfl⟩
  have same : digits = digits' :=
    (List.map_injective_iff.mpr (Option.some_injective ℕ)) (mapped.symm.trans mapped')
  rw [same]

/-- Where a numeral is followed by something that is no digit, it ends there and nowhere else. -/
theorem prefix_unique {text' rest rest' : List α} {stop stop' : α} {other : ℕ}
    (numeral : IsNumeral base digit? text value) (numeral' : IsNumeral base digit? text' other)
    (ends : digit? stop = none) (ends' : digit? stop' = none)
    (same : text ++ stop :: rest = text' ++ stop' :: rest') : text = text' := by
  have take (numeral : List α) (stop : α) (rest : List α)
      (all : ∀ char ∈ numeral, (digit? char).isSome = true) (ends : digit? stop = none) :
      (numeral ++ stop :: rest).takeWhile (fun char => (digit? char).isSome) = numeral := by
    rw [List.takeWhile_append_of_pos all, List.takeWhile_cons_of_neg (by simp [ends]),
      List.append_nil]
  rw [← take text stop rest (fun _ => numeral.isSome) ends, same,
    take text' stop' rest' (fun _ => numeral'.isSome) ends']

theorem of_digits {char : ℕ → α} (wide : 1 < base)
    (inverse : ∀ digit < base, digit? (char digit) = some digit) {number : ℕ}
    (positive : number ≠ 0) :
    IsNumeral base digit? ((Nat.digits base number).map char).reverse number where
  nonempty := by simpa using Nat.digits_ne_nil_iff_ne_zero.mpr positive
  digits := by
    refine ⟨(Nat.digits base number).reverse, ?_, ?_⟩
    · rw [List.map_reverse, List.map_reverse, List.map_map]
      congr 1
      refine List.map_congr_left fun digit present => ?_
      exact inverse digit (Nat.digits_lt_base wide present)
    · rw [List.reverse_reverse, Nat.ofDigits_digits]

/-- The first digit of a printed number is not zero. -/
theorem head_of_digits (base : ℕ) (char : ℕ → α) {number : ℕ} (positive : number ≠ 0) :
    ∃ digit, digit ∈ Nat.digits base number ∧ digit ≠ 0 ∧
      ((Nat.digits base number).map char).reverse.head? = some (char digit) := by
  have nonempty : Nat.digits base number ≠ [] := Nat.digits_ne_nil_iff_ne_zero.mpr positive
  refine ⟨(Nat.digits base number).getLast nonempty, List.getLast_mem nonempty,
    Nat.getLast_digit_ne_zero base positive, ?_⟩
  rw [List.head?_reverse, List.getLast?_map, List.getLast?_eq_getLast_of_ne_nil nonempty]
  rfl

end IsNumeral
