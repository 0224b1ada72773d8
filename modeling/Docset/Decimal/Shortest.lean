/-
  The shortest decimal of a binary64 number.

  A finite number other than zero is `m · 2^q` for whole numbers `m` and `q` (`Binary64.ofFloat`).
  The reals that round to it form an interval around it, which holds its ends exactly if `m` is even.
  A decimal reads back as the number if it lies in that interval, and the shortest one is found grid
  by grid: for the multiples of `10^k`, from a `k` that is too coarse downward, only the two
  neighbours of the number have to be looked at.  The first grid with a hit wins; of two hits the
  nearer, and of two equally near the even one.

  All comparisons are between whole numbers; nothing is rounded on the way.
-/
namespace Docset

/-! ## Binary numbers -/

/-- The positive number `mantissa · 2^exponent`. -/
structure Binary64 where
  /-- The whole factor. -/
  mantissa : Nat
  /-- The exponent of two. -/
  exponent : Int
  /-- Whether the next smaller number is only half as far away as the next larger one. -/
  crowdedBelow : Bool
  deriving DecidableEq, Repr, Inhabited

namespace Binary64

/-- The sign bit of a word, set for the negative numbers. -/
def isNegative (x : Float) : Bool := Nat.pow 2 63 ≤ x.toBits.toNat

/-- The distance of a finite number from zero; none for zero itself. -/
def ofFloat (x : Float) : Option Binary64 :=
  let word := x.toBits.toNat
  let fraction := word % Nat.pow 2 52
  let field := word / Nat.pow 2 52 % Nat.pow 2 11
  if field = 0 then
    if fraction = 0 then none else some ⟨fraction, -1074, false⟩
  else some ⟨Nat.pow 2 52 + fraction, Int.ofNat field - 1075, decide (fraction = 0 ∧ 1 < field)⟩

end Binary64

/-! ## Decimal numbers -/

/-- The number `digits · 10^exponent`. -/
structure Decimal where
  /-- The digits, read as a whole number. -/
  digits : Nat
  /-- The exponent of ten. -/
  exponent : Int
  deriving DecidableEq, Repr, Inhabited

namespace Decimal

/-- `x · 2^q` in units of `10^k`, as a fraction. -/
def onGrid (x : Nat) (q k : Int) : Nat × Nat :=
  (x * Nat.pow 2 q.toNat * Nat.pow 10 (-k).toNat, Nat.pow 2 (-q).toNat * Nat.pow 10 k.toNat)

/-- The multiple of `10^k` that reads back as the number, if there is one, and of two the nearer. -/
def hit? (b : Binary64) (k : Int) : Option Nat :=
  let q := b.exponent - 2
  -- In quarters of the number's own unit, the ends of its interval are whole.
  let (value, unit) := onGrid (4 * b.mantissa) q k
  let (high, _) := onGrid (4 * b.mantissa + 2) q k
  let (low, _) := onGrid (4 * b.mantissa - if b.crowdedBelow then 1 else 2) q k
  let reads (c : Nat) : Bool :=
    if b.mantissa % 2 = 0 then low ≤ c * unit ∧ c * unit ≤ high
    else low < c * unit ∧ c * unit < high
  let below := value / unit
  let above := below + 1
  match reads below, reads above with
  | true, true =>
    let toBelow := value - below * unit
    let toAbove := above * unit - value
    if toBelow < toAbove then some below
    else if toAbove < toBelow then some above
    else some (if below % 2 = 0 then below else above)
  | true, false => some below
  | false, true => some above
  | false, false => none

/-- The hit of the first grid that has one, going down from `10^k` through some grids. -/
def firstHit (b : Binary64) : Nat → Int → Decimal
  | 0, k => ⟨0, k⟩
  | grids + 1, k =>
    match hit? b k with
    | some digits => ⟨digits, k⟩
    | none => firstHit b grids (k - 1)

/-- A power of ten that is larger than the number. -/
def coarse (b : Binary64) : Int :=
  Int.fdiv ((Nat.log2 b.mantissa + b.exponent) * 30103) 100000 + 2

/-- The shortest decimal that reads back as the number. -/
def shortest (b : Binary64) : Decimal := firstHit b 24 (coarse b)

/-! ## Writing -/

/-- How a decimal is written. -/
structure Style where
  /-- Where the first digit may stand, counted from the point, for the positional form. -/
  positional : Int → Bool
  /-- What stands behind a whole number in positional form. -/
  wholeMark : String
  /-- What stands before the exponent. -/
  exponentMark : String
  /-- The least number of digits of an exponent. -/
  exponentWidth : Nat
  /-- The text of an infinite number, without its sign. -/
  infinity : String
  /-- The text of what is no number. -/
  notANumber : String

/-- The digits of a whole number. -/
def digitsOf (n : Nat) : List Char := Nat.toDigits 10 n

/-- The text with zeros in front up to a width. -/
def padded (width : Nat) (s : List Char) : List Char :=
  List.replicate (width - s.length) '0' ++ s

/-- The exponent with its sign, in at least `width` digits. -/
def exponentText (width : Nat) (e : Int) : List Char :=
  (if e < 0 then '-' else '+') :: padded width (digitsOf e.natAbs)

/-- The decimal in a style. -/
def toText (style : Style) (d : Decimal) : String :=
  let digits := digitsOf d.digits
  let point : Int := digits.length + d.exponent
  if style.positional point then
    if point ≤ 0 then String.ofList ('0' :: '.' :: List.replicate (-point).toNat '0' ++ digits)
    else if digits.length ≤ point.toNat then
      String.ofList (digits ++ List.replicate (point.toNat - digits.length) '0') ++ style.wholeMark
    else String.ofList (digits.take point.toNat ++ '.' :: digits.drop point.toNat)
  else
    let mantissa :=
      match digits with
      | first :: [] => [first]
      | first :: rest => first :: '.' :: rest
      | [] => []
    String.ofList mantissa ++ style.exponentMark
      ++ String.ofList (exponentText style.exponentWidth (point - 1))

/-- The text of a binary number in a style. -/
def ofFloat (style : Style) (x : Float) : String :=
  let sign := if Binary64.isNegative x then "-" else ""
  if x.isNaN then style.notANumber
  else if x.isInf then sign ++ style.infinity
  else
    match Binary64.ofFloat x with
    | none => sign ++ toText style ⟨0, 0⟩
    | some b => sign ++ toText style (shortest b)

end Decimal

end Docset
