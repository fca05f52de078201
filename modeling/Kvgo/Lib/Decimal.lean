import Mathlib

/-! Decimal numerals of a fixed width, the most significant digit first. Among numerals of one
width the order of the texts is the order of the numbers. -/

namespace Decimal

def digit (d : Nat) : Char := Char.ofNat (48 + d)

def numeral : Nat → Nat → List Char
  | 0, _ => []
  | width + 1, n => numeral width (n / 10) ++ [digit (n % 10)]

def value (digits : List Char) : Nat := digits.foldl (fun v c => 10 * v + (c.toNat - 48)) 0

theorem digit_toNat {d : Nat} (small : d < 10) : (digit d).toNat = 48 + d := by
  interval_cases d <;> rfl

theorem digit_isDigit {d : Nat} (small : d < 10) : (digit d).isDigit = true := by
  interval_cases d <;> rfl

theorem digit_lt {a b : Nat} (less : a < b) (small : b < 10) : digit a < digit b := by
  show (digit a).toNat < (digit b).toNat
  rw [digit_toNat small, digit_toNat (less.trans small)]
  omega

@[simp] theorem numeral_length (width n : Nat) : (numeral width n).length = width := by
  induction width generalizing n with
  | zero => rfl
  | succ width ih => simp [numeral, ih]

theorem numeral_isDigit (width n : Nat) : ∀ c ∈ numeral width n, c.isDigit = true := by
  induction width generalizing n with
  | zero => simp [numeral]
  | succ width ih =>
    intro c inside
    rcases List.mem_append.mp inside with front | last
    · exact ih _ c front
    · cases List.mem_singleton.mp last
      exact digit_isDigit (Nat.mod_lt _ (by decide))

theorem value_numeral (width n : Nat) : value (numeral width n) = n % 10 ^ width := by
  induction width generalizing n with
  | zero => simp [numeral, value, Nat.mod_one]
  | succ width ih =>
    have front := ih (n / 10)
    unfold value at front ⊢
    rw [numeral, List.foldl_append, front, List.foldl_cons, List.foldl_nil,
      digit_toNat (Nat.mod_lt _ (by decide)), Nat.pow_succ, Nat.mul_comm (10 ^ width), Nat.mod_mul]
    omega

theorem numeral_add (high low n : Nat) : numeral (high + low) n = numeral high (n / 10 ^ low) ++ numeral low n := by
  induction low generalizing n with
  | zero => simp [numeral]
  | succ low ih =>
    rw [← Nat.add_assoc, numeral, ih, numeral, Nat.div_div_eq_div_mul, ← Nat.pow_succ', List.append_assoc]

theorem lex_append {α : Type*} {r : α → α → Prop} {s t : List α} (less : List.Lex r s t)
    (same : s.length = t.length) (u v : List α) : List.Lex r (s ++ u) (t ++ v) := by
  induction less with
  | nil => simp at same
  | cons _ ih => exact .cons (ih (by simpa using same))
  | rel first => exact .rel first

theorem lex_append_left {α : Type*} {r : α → α → Prop} {s t : List α} (less : List.Lex r s t)
    (u : List α) : List.Lex r (u ++ s) (u ++ t) := by
  induction u with
  | nil => exact less
  | cons _ _ ih => exact .cons ih

theorem numeral_lt {width a b : Nat} (less : a < b) (bound : b < 10 ^ width) :
    List.Lex (· < ·) (numeral width a) (numeral width b) := by
  induction width generalizing a b with
  | zero => omega
  | succ width ih =>
    have high : b / 10 < 10 ^ width := by
      rw [Nat.pow_succ] at bound
      omega
    rcases Nat.lt_or_ge (a / 10) (b / 10) with front | back
    · exact lex_append (ih front high) (by simp) _ _
    · have equal : a / 10 = b / 10 := by omega
      rw [numeral, numeral, equal]
      exact lex_append_left (.rel (digit_lt (by omega) (by omega))) _

end Decimal
