import Mathlib.Data.List.Induction
import Mathlib.Data.Nat.ModEq
import Mathlib.Order.Monotone.Basic

/-!
# Numerals of fixed width

Positional numerals with a fixed number of digits, as the digit loops of encoders make them:
the lowest digit first, then reversed.  The base is positive, the digits are {lit}`Fin base`.

Main results:

- Theorem `value_numeral`: the value of a numeral is the number up to its width.
- Theorem `numeral_lt_numeral_iff`: numerals are ordered like the numbers they stand for.
- Theorem `map_lt_map_iff`: spelling the digits with an increasing alphabet keeps the order.
-/

namespace Numerals

variable {base : Nat} [NeZero base]

/-- The digits of a number, the lowest first. -/
def lowDigits (base : Nat) [NeZero base] : Nat → Nat → List (Fin base)
  | 0, _ => []
  | width + 1, n => Fin.ofNat base n :: lowDigits base width (n / base)

/-- The numeral of a number, the highest digit first. -/
def numeral (base : Nat) [NeZero base] : Nat → Nat → List (Fin base)
  | 0, _ => []
  | width + 1, n => Fin.ofNat base (n / base ^ width) :: numeral base width n

/-- The number that digits stand for, the highest first. -/
def value (digits : List (Fin base)) : Nat :=
  digits.foldl (fun n digit => n * base + digit.val) 0

@[simp]
theorem length_numeral (width n : Nat) : (numeral base width n).length = width := by
  induction width with
  | zero => rfl
  | succ width ih => simp [numeral, ih]

/-- A numeral of one more digit ends with the lowest one. -/
theorem numeral_succ (width n : Nat) :
    numeral base (width + 1) n = numeral base width (n / base) ++ [Fin.ofNat base n] := by
  induction width with
  | zero => simp [numeral]
  | succ width ih =>
      have hhigh : n / base ^ (width + 1) = n / base / base ^ width := by
        rw [Nat.div_div_eq_div_mul, Nat.pow_succ, Nat.mul_comm]
      rw [numeral, ih, numeral, hhigh, List.cons_append]

/-- The reversed digits of the loop are the numeral. -/
theorem reverse_lowDigits (width n : Nat) :
    (lowDigits base width n).reverse = numeral base width n := by
  induction width generalizing n with
  | zero => rfl
  | succ width ih => rw [lowDigits, List.reverse_cons, ih, numeral_succ]

omit [NeZero base] in
@[simp]
theorem value_nil : value ([] : List (Fin base)) = 0 :=
  rfl

omit [NeZero base] in
/-- The lowest digit counts once, the others `base` times. -/
theorem value_concat (digits : List (Fin base)) (digit : Fin base) :
    value (digits ++ [digit]) = value digits * base + digit.val := by
  simp [value]

/-- A numeral stands for the number up to its width. -/
theorem value_numeral (width n : Nat) : value (numeral base width n) = n % base ^ width := by
  induction width generalizing n with
  | zero => simp [numeral, Nat.mod_one]
  | succ width ih =>
      rw [numeral_succ, value_concat, ih, Fin.val_ofNat, Nat.pow_succ', Nat.mod_mul,
        Nat.mul_comm (n / base % base ^ width), Nat.add_comm]

/-- A number below the power is recovered from its numeral. -/
theorem value_numeral_of_lt {width n : Nat} (h : n < base ^ width) :
    value (numeral base width n) = n := by
  rw [value_numeral, Nat.mod_eq_of_lt h]

omit [NeZero base] in
/-- Digits stand for less than the power of their number. -/
theorem value_lt (digits : List (Fin base)) : value digits < base ^ digits.length := by
  induction digits using List.reverseRecOn with
  | nil => simp
  | append_singleton digits digit ih =>
      have hdigit : digit.val < base := digit.isLt
      have hle : (value digits + 1) * base ≤ base ^ digits.length * base :=
        Nat.mul_le_mul_right base ih
      rw [value_concat, List.length_append, List.length_singleton, Nat.pow_succ]
      rw [Nat.add_mul, Nat.one_mul] at hle
      omega

/-- Digits are the numeral of what they stand for. -/
theorem numeral_value (digits : List (Fin base)) :
    numeral base digits.length (value digits) = digits := by
  induction digits using List.reverseRecOn with
  | nil => rfl
  | append_singleton digits digit ih =>
      have hbase : 0 < base := Nat.pos_of_ne_zero (NeZero.ne base)
      have hdigit : digit.val < base := digit.isLt
      have hdiv : (value digits * base + digit.val) / base = value digits := by
        rw [Nat.add_comm, Nat.add_mul_div_right _ _ hbase, Nat.div_eq_of_lt hdigit, Nat.zero_add]
      have hlow : Fin.ofNat base (value digits * base + digit.val) = digit := by
        refine Fin.ext ?_
        rw [Fin.val_ofNat, Nat.add_comm, Nat.add_mul_mod_self_right, Nat.mod_eq_of_lt hdigit]
      rw [List.length_append, List.length_singleton, numeral_succ, value_concat, hdiv, hlow, ih]

/-! ## Order -/

/-- Numerals of one width compare like the numbers up to that width. -/
theorem numeral_lt_numeral_iff_mod (width n m : Nat) :
    numeral base width n < numeral base width m ↔ n % base ^ width < m % base ^ width := by
  induction width with
  | zero => simp [numeral, Nat.mod_one]
  | succ width ih =>
      have hn := Nat.mod_lt n (Nat.pow_pos (n := width) (Nat.pos_of_ne_zero (NeZero.ne base)))
      have hm := Nat.mod_lt m (Nat.pow_pos (n := width) (Nat.pos_of_ne_zero (NeZero.ne base)))
      rw [numeral, numeral, List.cons_lt_cons_iff, ih, Fin.lt_def, Fin.ext_iff, Fin.val_ofNat,
        Fin.val_ofNat, Nat.mod_pow_succ, Nat.mod_pow_succ]
      generalize n / base ^ width % base = a
      generalize m / base ^ width % base = b
      generalize n % base ^ width = x at hn
      generalize m % base ^ width = y at hm
      generalize base ^ width = p at hn hm
      constructor
      · rintro (hab | ⟨rfl, hxy⟩)
        · have hle : p * (a + 1) ≤ p * b := Nat.mul_le_mul_left p hab
          rw [Nat.mul_add, Nat.mul_one] at hle
          omega
        · omega
      · intro h
        rcases Nat.lt_trichotomy a b with hab | rfl | hab
        · exact Or.inl hab
        · exact Or.inr ⟨rfl, by omega⟩
        · have hle : p * (b + 1) ≤ p * a := Nat.mul_le_mul_left p hab
          rw [Nat.mul_add, Nat.mul_one] at hle
          omega

/-- Numerals are ordered like the numbers they stand for. -/
theorem numeral_lt_numeral_iff {width n m : Nat} (hn : n < base ^ width) (hm : m < base ^ width) :
    numeral base width n < numeral base width m ↔ n < m := by
  rw [numeral_lt_numeral_iff_mod, Nat.mod_eq_of_lt hn, Nat.mod_eq_of_lt hm]

/-- An increasing spelling of the digits keeps the lexicographic order. -/
theorem map_lt_map_iff {α β : Type} [LinearOrder α] [LinearOrder β] {f : α → β}
    (hf : StrictMono f) (l l' : List α) : l.map f < l'.map f ↔ l < l' := by
  induction l generalizing l' with
  | nil => cases l' <;> simp
  | cons a l ih =>
      cases l' with
      | nil => simp
      | cons b l' =>
          rw [List.map_cons, List.map_cons, List.cons_lt_cons_iff, List.cons_lt_cons_iff,
            hf.lt_iff_lt, hf.injective.eq_iff, ih]

end Numerals
