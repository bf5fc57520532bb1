import Mathlib.Data.List.Lex
import Snode.Http.ChunkLines

/-!
# The header map

The order of the map and what its operations do to the lookup of a name, and
the numerals that are written to it and read from it.
-/

namespace Snode.Http

/-- A name as the comparator of the map sees it. -/
def headerKey (name : Bytes) : List Int :=
  name.map fun byte => charVal (cmpTolower byte)

/-- The comparison tells how keys are ordered lexicographically. -/
theorem icmp_cases (left right : Bytes) :
    (icmp left right = -1 ∧ headerKey left < headerKey right) ∨
      (icmp left right = 0 ∧ headerKey left = headerKey right) ∨
      (icmp left right = 1 ∧ headerKey right < headerKey left) := by
  induction left generalizing right with
  | nil =>
      cases right with
      | nil => simp [icmp, headerKey]
      | cons byte rest => simp [icmp, headerKey]
  | cons byte rest ih =>
      cases right with
      | nil => simp [icmp, headerKey]
      | cons other others =>
          have step := ih others
          simp only [headerKey, icmp, List.map_cons, List.cons_lt_cons_iff,
            List.cons.injEq] at step ⊢
          rcases lt_trichotomy (charVal (cmpTolower byte)) (charVal (cmpTolower other)) with
            below | same | above
          · rw [if_neg below.not_gt, if_pos below]
            exact .inl ⟨rfl, .inl below⟩
          · rw [if_neg same.not_gt, if_neg same.not_lt]
            simpa [same] using step
          · rw [if_pos above]
            exact .inr (.inr ⟨rfl, .inl above⟩)

/-- The comparator is the lexicographic order of keys. -/
theorem caseInsensitiveCmp_iff (left right : Bytes) :
    caseInsensitiveCmp left right = true ↔ headerKey left < headerKey right := by
  rw [caseInsensitiveCmp, decide_eq_true_eq]
  rcases icmp_cases left right with ⟨value, below⟩ | ⟨value, same⟩ | ⟨value, above⟩
  · simp [value, below]
  · simp [value, same]
  · simp [value, above.not_gt]

namespace HttpHeaders

theorem find_modify_self (headers : HttpHeaders) (name : Bytes) (change : Bytes → Bytes) :
    (headers.modify name change).find name = some (change ((headers.find name).getD [])) := by
  have irreflexive : caseInsensitiveCmp name name = false := by
    rw [← Bool.not_eq_true, caseInsensitiveCmp_iff]
    exact lt_irrefl _
  induction headers with
  | nil => simp [modify, find, irreflexive]
  | cons entry rest ih =>
      rcases entry with ⟨key, value⟩
      by_cases before : caseInsensitiveCmp name key = true
      · simp [modify, find, before, irreflexive]
      · by_cases after : caseInsensitiveCmp key name = true
        · simpa [modify, find, before, after] using ih
        · simp [modify, find, before, after]

theorem find_modify_other (headers : HttpHeaders) {name other : Bytes}
    (different : headerKey other ≠ headerKey name) (change : Bytes → Bytes) :
    (headers.modify name change).find other = headers.find other := by
  induction headers with
  | nil =>
      rcases lt_or_gt_of_ne different with below | above
      · simp [modify, find, (caseInsensitiveCmp_iff other name).mpr below]
      · simp [modify, find, (caseInsensitiveCmp_iff name other).mpr above]
  | cons entry rest ih =>
      rcases entry with ⟨key, value⟩
      by_cases before : caseInsensitiveCmp name key = true
      · have nameBelow := (caseInsensitiveCmp_iff name key).mp before
        rcases lt_or_gt_of_ne different with below | above
        · have keyAbove : caseInsensitiveCmp other key = true :=
            (caseInsensitiveCmp_iff other key).mpr (below.trans nameBelow)
          simp [modify, find, before, keyAbove, (caseInsensitiveCmp_iff other name).mpr below]
        · have notBelow : ¬caseInsensitiveCmp other name = true := by
            rw [caseInsensitiveCmp_iff]
            exact above.not_gt
          simp [modify, find, before, notBelow, (caseInsensitiveCmp_iff name other).mpr above]
      · by_cases after : caseInsensitiveCmp key name = true
        · simp only [modify, find, before, after, if_true, Bool.false_eq_true, if_false, ih]
        · have sameKey : headerKey key = headerKey name := by
            rw [caseInsensitiveCmp_iff] at before after
            exact le_antisymm (not_lt.mp before) (not_lt.mp after)
          rw [← sameKey] at different
          rcases lt_or_gt_of_ne different with below | above
          · simp [modify, find, before, after, (caseInsensitiveCmp_iff other key).mpr below]
          · have notBelow : ¬caseInsensitiveCmp other key = true := by
              rw [caseInsensitiveCmp_iff]
              exact above.not_gt
            simp [modify, find, before, after, notBelow,
              (caseInsensitiveCmp_iff key other).mpr above]

end HttpHeaders

/-! ### Numbers in header values -/

theorem decDigit?_digit : ∀ digit < 10, decDigit? (UInt8.ofNat (48 + digit)) = some digit := by
  decide

/-- What is printed for a number is a numeral of it. -/
theorem isNumeral_printNumber (number : ℕ) :
    IsNumeral 10 decDigit? (printNumber number) number := by
  unfold printNumber
  split
  · next zero =>
      rw [zero]
      exact ⟨List.cons_ne_nil _ _, [0], by decide, by decide⟩
  · next positive => exact IsNumeral.of_digits (by omega) decDigit?_digit positive

theorem getSize_printNumber {number : ℕ} (small : number < 2 ^ 64) (value : ℕ) :
    (Istream.new (printNumber number)).getSize value = (number, ⟨[], true, false⟩) := by
  have numeral := isNumeral_printNumber number
  rcases printed : printNumber number with _ | ⟨first, others⟩
  · exact (numeral.nonempty printed).elim
  · have isDigit : (decDigit? first).isSome = true := numeral.isSome (by simp [printed])
    have firstDigit : (hexDigit? first).isSome = true := by
      simp only [decDigit?] at isDigit
      split at isDigit
      · next decimal => simp [hexDigit?, decimal]
      · simp at isDigit
    have skipped : (Istream.new (first :: others)).sentry = ⟨first :: others, false, false⟩ := by
      simp [Istream.new, Istream.sentry, Istream.good, (hexDigit?_isSome firstDigit).1]
    have digits : takeDigits 10 decDigit? 0 0 (printNumber number ++ []) = _ :=
      takeDigits_of_numeral numeral (by simp)
    rw [printed, List.append_nil] at digits
    have inRange : ¬2 ^ 64 ≤ number := by omega
    have some : ¬(first :: others).length = 0 := by simp
    simp only [Istream.getSize, skipped, takeSign_of_digit _ firstDigit, digits,
      Bool.false_eq_true, if_false, if_neg some, if_neg inRange, List.isEmpty_nil]

theorem HttpHeaders.matchSize_lt {headers : HttpHeaders} {name : Bytes} {value size : ℕ}
    (small : value < 2 ^ 64) (matched : headers.matchSize name value = (true, size)) :
    size < 2 ^ 64 := by
  have extracted (stream : Istream) : (stream.getSize value).1 < 2 ^ 64 := by
    simp only [Istream.getSize]
    split
    · exact small
    · split
      · simp
      · split
        · simp
        · split
          · exact Nat.mod_lt _ (by simp)
          · simp only
            omega
  unfold HttpHeaders.matchSize at matched
  split at matched
  · split at matched
    · exact (Prod.mk.inj matched).2 ▸ small
    · exact (Prod.mk.inj matched).2 ▸ extracted _
  · simp at matched

/-- A length that was printed is matched. -/
theorem HttpHeaders.matchSize_printNumber {headers : HttpHeaders} {name : Bytes} {number : ℕ}
    (small : number < 2 ^ 64) (found : headers.find name = some (printNumber number)) (value : ℕ) :
    headers.matchSize name value = (true, number) := by
  have nonempty : (printNumber number).isEmpty = false := by
    simpa using (isNumeral_printNumber number).nonempty
  simp [HttpHeaders.matchSize, found, nonempty, getSize_printNumber small]

end Snode.Http
