import Mathlib.Data.Nat.Notation
import Mathlib.Tactic.Ring

/-!
# Numbers in hexadecimal digits

Numbers of a fixed width, most significant digit first, in either case, and the
reader for both. Escapes of characters and of bytes are built on them.
-/

namespace HexDigits

/-- A lowercase digit. -/
def lower (n : ℕ) : Char := Nat.digitChar n

/-- An uppercase digit. -/
def upper (n : ℕ) : Char := (Nat.digitChar n).toUpper

/-- The value of a digit of either case. -/
def value (c : Char) : Option ℕ :=
  if '0' ≤ c ∧ c ≤ '9' then some (c.toNat - 48)
  else if 'a' ≤ c ∧ c ≤ 'f' then some (c.toNat - 87)
  else if 'A' ≤ c ∧ c ≤ 'F' then some (c.toNat - 55)
  else none

/-- The lowest digits of a number, as many as the width. -/
def write (digit : ℕ → Char) : ℕ → ℕ → List Char
  | 0, _ => []
  | width + 1, n => digit (n / 16 ^ width % 16) :: write digit width n

/-- Read as many digits as the width. -/
def read : ℕ → List Char → Option (ℕ × List Char)
  | 0, input => some (0, input)
  | _ + 1, [] => none
  | width + 1, c :: rest =>
    match value c, read width rest with
    | some d, some (n, rest') => some (d * 16 ^ width + n, rest')
    | _, _ => none

/-- What the writer needs of its digits. -/
def Faithful (digit : ℕ → Char) : Prop := ∀ n < 16, value (digit n) = some n

theorem faithful_lower : Faithful lower := by unfold Faithful; decide

theorem faithful_upper : Faithful upper := by unfold Faithful; decide

/-- A number is written in the width asked for. -/
@[simp] theorem length_write (digit : ℕ → Char) (width n : ℕ) :
    (write digit width n).length = width := by
  induction width with
  | zero => rfl
  | succ width ih => rw [write, List.length_cons, ih]

/-- The digits that were written are read back, and nothing after them. -/
theorem read_write {digit : ℕ → Char} (h : Faithful digit) (width n : ℕ) (rest : List Char) :
    read width (write digit width n ++ rest) = some (n % 16 ^ width, rest) := by
  induction width with
  | zero => simp [read, write, Nat.mod_one]
  | succ width ih =>
    have hd := h (n / 16 ^ width % 16) (Nat.mod_lt _ (by decide))
    rw [write, List.cons_append, read, hd, ih]
    dsimp only
    have hsplit : n % 16 ^ (width + 1) = n / 16 ^ width % 16 * 16 ^ width + n % 16 ^ width := by
      rw [Nat.pow_succ, Nat.mod_mul]
      ring
    rw [hsplit]

/-- A number that fits the width. -/
theorem read_write_of_lt {digit : ℕ → Char} (h : Faithful digit) {width n : ℕ}
    (hn : n < 16 ^ width) (rest : List Char) :
    read width (write digit width n ++ rest) = some (n, rest) := by
  rw [read_write h, Nat.mod_eq_of_lt hn]

end HexDigits
