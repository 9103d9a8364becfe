import Script.Text.Decimal

/-!
# Integers

The numbers of the language are the integers from `-2^63` to `2^63 - 1`. An operation gives the
exact result or refuses: nothing wraps around.
-/

namespace Script

def minInteger : Int := -9223372036854775808

def maxInteger : Int := 9223372036854775807

@[ext]
structure Integer where
  val : Int
  min_le : minInteger ≤ val
  le_max : val ≤ maxInteger
  deriving DecidableEq

namespace Integer

instance : Inhabited Integer :=
  ⟨0, by decide, by decide⟩

instance : ToString Integer where
  toString n := toString n.val

def ofInt? (n : Int) : Option Integer :=
  if h : minInteger ≤ n ∧ n ≤ maxInteger then some ⟨n, h.1, h.2⟩ else none

/-- A length as a number of the language, counted modulo `2^64`; a length below `2^63` is itself. -/
def ofLength (n : Nat) : Integer where
  val := Int.bmod n 18446744073709551616
  min_le := by
    have := Int.le_bmod (x := n) (m := 18446744073709551616) (by decide)
    simp only [minInteger]; omega
  le_max := by
    have := Int.bmod_lt (x := n) (m := 18446744073709551616) (by decide)
    simp only [maxInteger]; omega

def add? (a b : Integer) : Option Integer :=
  ofInt? (a.val + b.val)

def sub? (a b : Integer) : Option Integer :=
  ofInt? (a.val - b.val)

def mul? (a b : Integer) : Option Integer :=
  ofInt? (a.val * b.val)

def neg? (a : Integer) : Option Integer :=
  ofInt? (-a.val)

/-- The quotient rounded toward zero, for a divisor other than zero. -/
def quot? (a b : Integer) : Option Integer :=
  ofInt? (a.val.tdiv b.val)

/-- The remainder with the sign of the dividend, for a divisor other than zero. Where the quotient
is refused the remainder is too. -/
def rem? (a b : Integer) : Option Integer :=
  (a.quot? b).bind fun _ => ofInt? (a.val.tmod b.val)

/-- Reads a decimal numeral with an optional sign. -/
def ofText? (s : String) : Option Integer :=
  match s.toList with
  | '-' :: cs => do ofInt? (-(← decimalValue? cs))
  | '+' :: cs => do ofInt? (← decimalValue? cs)
  | cs => do ofInt? (← decimalValue? cs)

end Integer

end Script
