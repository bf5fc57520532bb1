import Mathlib.Order.Defs.Unbundled
import Snode.Http.HeaderBlock

/-!
# The order of names

`std::map` asks for a strict weak ordering.  The comparator of the header map is one, because
it compares keys, and names with one key are those that differ in ASCII case at most.
-/

namespace Snode.Http

/-- The lower case letter in the place of an upper case one. -/
def asciiLower (byte : UInt8) : UInt8 :=
  if 65 ≤ byte ∧ byte ≤ 90 then 97 + (byte - 65) else byte

/-- Names of one length that agree at every index, but for the case of letters. -/
def EqualIgnoringCase (left right : Bytes) : Prop :=
  left.length = right.length ∧
    ∀ (index : ℕ) byte other, left[index]? = some byte → right[index]? = some other →
      asciiLower byte = asciiLower other

theorem asciiLower_eq (byte : UInt8) : asciiLower byte = cmpTolower byte := by
  have code : ∀ code < 256,
      asciiLower (UInt8.ofNat code) = cmpTolower (UInt8.ofNat code) := by
    decide +kernel
  have every := code byte.toNat byte.toNat_lt
  rwa [UInt8.ofNat_toNat] at every

theorem equalIgnoringCase_iff (left right : Bytes) :
    EqualIgnoringCase left right ↔ headerKey left = headerKey right := by
  rw [← sameName_iff_headerKey, SameName, EqualIgnoringCase]
  constructor
  · rintro ⟨length, agree⟩
    apply List.ext_getElem
    · rw [List.length_map, List.length_map, length]
    · intro index inLeft inRight
      rw [List.length_map] at inLeft inRight
      rw [List.getElem_map, List.getElem_map, ← asciiLower_eq, ← asciiLower_eq]
      exact agree index _ _ (List.getElem?_eq_getElem inLeft) (List.getElem?_eq_getElem inRight)
  · intro same
    constructor
    · have length := congrArg List.length same
      rwa [List.length_map, List.length_map] at length
    · intro index byte other inLeft inRight
      have entry : (left.map cmpTolower)[index]? = (right.map cmpTolower)[index]? := by
        rw [same]
      rw [List.getElem?_map, List.getElem?_map, inLeft, inRight] at entry
      rw [asciiLower_eq, asciiLower_eq]
      exact Option.some.inj entry

/-! ### The comparison by keys -/

theorem icmp_of_lt {left right : Bytes} (below : headerKey left < headerKey right) :
    icmp left right = -1 := by
  rcases icmp_cases left right with ⟨value, -⟩ | ⟨-, same⟩ | ⟨-, above⟩
  · exact value
  · exact (below.ne same).elim
  · exact (below.not_gt above).elim

theorem icmp_of_eq {left right : Bytes} (same : headerKey left = headerKey right) :
    icmp left right = 0 := by
  rcases icmp_cases left right with ⟨-, below⟩ | ⟨value, -⟩ | ⟨-, above⟩
  · exact (below.ne same).elim
  · exact value
  · exact (above.ne' same).elim

theorem icmp_of_gt {left right : Bytes} (above : headerKey right < headerKey left) :
    icmp left right = 1 := by
  rcases icmp_cases left right with ⟨-, below⟩ | ⟨-, same⟩ | ⟨value, -⟩
  · exact (above.not_gt below).elim
  · exact (above.ne' same).elim
  · exact value

theorem icmp_antisymm (left right : Bytes) : icmp left right = -icmp right left := by
  rcases icmp_cases left right with ⟨value, below⟩ | ⟨value, same⟩ | ⟨value, above⟩
  · rw [value, icmp_of_gt below]
  · rw [value, icmp_of_eq same.symm, Int.neg_zero]
  · rw [value, icmp_of_lt above, Int.neg_neg]

theorem icmp_neg_iff (left right : Bytes) :
    icmp left right < 0 ↔ headerKey left < headerKey right := by
  rw [← caseInsensitiveCmp_iff, caseInsensitiveCmp, decide_eq_true_eq]

theorem icmp_eq_zero_iff (left right : Bytes) :
    icmp left right = 0 ↔ headerKey left = headerKey right := by
  constructor
  · intro zero
    rcases icmp_cases left right with ⟨value, -⟩ | ⟨-, same⟩ | ⟨value, -⟩
    · omega
    · exact same
    · omega
  · exact icmp_of_eq

theorem incomparable_iff (left right : Bytes) :
    ¬caseInsensitiveCmp left right = true ∧ ¬caseInsensitiveCmp right left = true ↔
      headerKey left = headerKey right := by
  rw [caseInsensitiveCmp_iff, caseInsensitiveCmp_iff, not_lt, not_lt, and_comm]
  exact antisymm_iff

/-- The comparison looks at keys only. -/
theorem icmp_congr {left right other others : Bytes} (first : headerKey left = headerKey other)
    (second : headerKey right = headerKey others) : icmp left right = icmp other others := by
  rcases icmp_cases left right with ⟨value, below⟩ | ⟨value, same⟩ | ⟨value, above⟩
  · rw [value, icmp_of_lt (by rwa [← first, ← second])]
  · rw [value, icmp_of_eq (by rwa [← first, ← second])]
  · rw [value, icmp_of_gt (by rwa [← first, ← second])]

theorem isStrictWeakOrder_caseInsensitiveCmp :
    IsStrictWeakOrder Bytes fun left right => caseInsensitiveCmp left right = true where
  irrefl name := by
    rw [caseInsensitiveCmp_iff]
    exact lt_irrefl _
  trans left middle right first second := by
    rw [caseInsensitiveCmp_iff] at first second ⊢
    exact first.trans second
  incomp_trans left middle right first second := by
    rw [incomparable_iff] at first second ⊢
    exact first.trans second

/-- The comparator is a strict weak ordering whose equivalence is equality but for the case of
letters, and the comparison does not tell equivalent names apart. -/
theorem icmp_strictWeakOrder (a b c : Bytes) :
    IsStrictWeakOrder Bytes (fun left right => caseInsensitiveCmp left right = true) ∧
      icmp a b = -icmp b a ∧
      (icmp a b < 0 → icmp b c < 0 → icmp a c < 0) ∧
      (icmp a b = 0 ↔ EqualIgnoringCase a b) ∧
      (¬caseInsensitiveCmp a b = true ∧ ¬caseInsensitiveCmp b a = true ↔
        EqualIgnoringCase a b) ∧
      (EqualIgnoringCase a b → icmp a c = icmp b c ∧ icmp c a = icmp c b) := by
  rw [equalIgnoringCase_iff]
  refine ⟨isStrictWeakOrder_caseInsensitiveCmp, icmp_antisymm a b, ?_, icmp_eq_zero_iff a b,
    incomparable_iff a b, ?_⟩
  · rw [icmp_neg_iff, icmp_neg_iff, icmp_neg_iff]
    exact lt_trans
  · intro same
    exact ⟨icmp_congr same rfl, icmp_congr rfl same⟩

/-- A byte from 128 on is a negative `char`, which is below letters. -/
theorem icmp_strictWeakOrder_names :
    icmp [195] (ascii "HOST") < 0 ∧ icmp (ascii "HOST") (ascii "host!") < 0 ∧
      icmp [195] (ascii "host!") < 0 ∧
      icmp (ascii "HOST") (ascii "host!") = icmp (ascii "host") (ascii "host!") := by
  have first : icmp [195] (ascii "HOST") < 0 := by decide +kernel
  have second : icmp (ascii "HOST") (ascii "host!") < 0 := by decide +kernel
  have same : icmp (ascii "HOST") (ascii "host") = 0 := by decide +kernel
  have equal : EqualIgnoringCase (ascii "HOST") (ascii "host") :=
    (icmp_strictWeakOrder _ _ []).2.2.2.1.mp same
  exact ⟨first, second, (icmp_strictWeakOrder _ _ _).2.2.1 first second,
    ((icmp_strictWeakOrder _ _ (ascii "host!")).2.2.2.2.2 equal).1⟩

end Snode.Http
