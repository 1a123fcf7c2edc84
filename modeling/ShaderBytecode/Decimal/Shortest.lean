import ShaderBytecode.Decimal.Binary

/-!
# Shortest decimals

Many decimals are nearer to a given binary value than to its neighbours, and reading any of them
gives the value back. `Decimal.shortest` picks one with the fewest digits.

The decimals that are multiples of `10 ^ k` form a grid. On each grid at most the two neighbours of
the value need to be looked at: if any decimal of the grid reads back, so does one of these. Grids
are tried from a coarse one to finer ones; the first with a decimal that reads back wins, and of two
such decimals the nearer one. The last grid tried is one that the value itself lies on.

Ends of the interval that reads back as the value belong to it if the significand is even, since
halfway cases go to even.
-/

namespace ShaderBytecode

/-- The number `digits * 10 ^ exponent`. -/
structure Decimal where
  digits : Nat
  exponent : Int
deriving DecidableEq, Repr

namespace Decimal

inductive Tie where
  | up
  | even
deriving DecidableEq, Repr

/-- A binary value with the ends of the interval of reals that round to it, all in units of
`2 ^ exponent`. -/
structure Interval where
  low : Nat
  value : Nat
  high : Nat
  exponent : Int
  /-- The ends belong to the interval. -/
  closed : Bool
deriving DecidableEq, Repr

/-- The interval of a positive value. Below a power of two values lie twice as close, unless the
power is the least one of full precision. -/
def Interval.ofParts (f : BinaryFormat) (p : BinaryFormat.Parts) : Interval :=
  let narrow := p.significand = 1 <<< f.fractionBits ∧ f.leastExponent < p.exponent
  { low := if narrow then 4 * p.significand - 1 else 4 * p.significand - 2
    value := 4 * p.significand
    high := 4 * p.significand + 2
    exponent := p.exponent - 2
    closed := p.significand % 2 = 0 }

/-- `b ^ e` for `e` that is not negative, otherwise one. -/
def power (b : Nat) (e : Int) : Nat := Nat.pow b e.toNat

/-- The decimal of a grid that reads back as the value, if there is one. -/
def onGrid (tie : Tie) (i : Interval) (k : Int) : Option Decimal :=
  -- `x` units of the interval and `a` steps of the grid are equal just if `x * units = a * steps`.
  let units := power 2 i.exponent * power 10 (-k)
  let steps := power 2 (-i.exponent) * power 10 k
  let below := i.value * units / steps
  let rest := i.value * units % steps
  let above := below + 1
  let downReads :=
    i.low * units < below * steps ∨ (i.closed ∧ i.low * units = below * steps)
  let upReads :=
    above * steps < i.high * units ∨ (i.closed ∧ above * steps = i.high * units)
  let upNearer :=
    steps < 2 * rest ∨ (2 * rest = steps ∧ (tie = .up ∨ below % 2 = 1))
  if upReads ∧ (upNearer ∨ ¬downReads) then some ⟨above, k⟩
  else if downReads then some ⟨below, k⟩
  else none

/-- A grid whose steps are longer than the value. -/
def coarsestGrid (p : BinaryFormat.Parts) : Int :=
  (p.exponent + Nat.log2 p.significand + 1) * 1233 / 4096 + 2

/-- A shortest decimal that reads back as a positive value. -/
def shortest (f : BinaryFormat) (tie : Tie) (p : BinaryFormat.Parts) : Decimal :=
  let i := Interval.ofParts f p
  let coarsest := coarsestGrid p
  let finest := min p.exponent 0
  ((List.range (coarsest - finest + 1).toNat).findSome? fun n : Nat =>
    onGrid tie i (coarsest - n)).getD
    ⟨p.significand, p.exponent⟩

end Decimal
end ShaderBytecode
