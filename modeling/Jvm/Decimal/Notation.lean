/-!
# Decimal texts of floating-point values

Two formats write the shortest digits of a value: the guest's `toString`, which
is positional between a thousandth and ten million and scientific elsewhere, and
the descriptive form of error messages, which is positional over a wider range
and spells the special values differently.
-/

/-!
## Binary floating-point formats

A finite value of a binary format is a mantissa times a power of two. Decoding
a bit pattern gives that pair; encoding rounds an exact value to the nearest
one, halves to the even mantissa.
-/

namespace Jvm.Decimal

/-- A binary interchange format: stored mantissa bits and exponent bits. -/
structure Format where
  mantissaBits : Nat
  exponentBits : Nat
  deriving DecidableEq, Repr

namespace Format

/-- The 32-bit format. -/
def single : Format := ⟨23, 8⟩

/-- The 64-bit format. -/
def double : Format := ⟨52, 11⟩

/-- Largest exponent field; it marks infinities and NaNs. -/
def topExponent (format : Format) : Nat := Nat.pow 2 format.exponentBits - 1

/-- Power of two by which the smallest exponent scales a mantissa, negated. -/
def scale (format : Format) : Nat :=
  Nat.pow 2 (format.exponentBits - 1) - 2 + format.mantissaBits

end Format

/-- What a bit pattern denotes. -/
inductive Number where
  | nan
  | infinite (negative : Bool)
  /-- `(-1)^negative * mantissa * 2^(exponent - scale)`. -/
  | finite (negative : Bool) (mantissa exponent : Nat)
  deriving DecidableEq, Repr

/-- Decodes a bit pattern. The exponent counts from the format's smallest. -/
def Format.decode (format : Format) (bits : Nat) : Number :=
  let fraction := bits % Nat.pow 2 format.mantissaBits
  let exponent := bits / Nat.pow 2 format.mantissaBits % Nat.pow 2 format.exponentBits
  let negative := bits / Nat.pow 2 (format.mantissaBits + format.exponentBits) % 2 == 1
  if exponent = format.topExponent then
    if fraction = 0 then .infinite negative else .nan
  else if exponent = 0 then
    .finite negative fraction 0
  else
    .finite negative (fraction + Nat.pow 2 format.mantissaBits) (exponent - 1)

/-- The bit pattern of a mantissa below twice the hidden bit, at an exponent. -/
def Format.encode (format : Format) (negative : Bool) (mantissa exponent : Nat) : Nat :=
  let sign := if negative then Nat.pow 2 (format.mantissaBits + format.exponentBits) else 0
  if mantissa < Nat.pow 2 format.mantissaBits then
    sign + mantissa
  else
    sign + (exponent + 1) * Nat.pow 2 format.mantissaBits +
      (mantissa - Nat.pow 2 format.mantissaBits)

end Jvm.Decimal

namespace Jvm.Decimal

/-!
## Shortest decimal digits

The shortest decimal of a binary value is the one with the fewest digits among
those that round back to the value; of several it is the nearest. The search
walks from coarse to fine decimal grids and tests, on each, the two neighbours
of the value against the interval of numbers that round to it. All arithmetic is
exact.
-/

/-- `digits * 10^exponent`, with no trailing zero in `digits` unless it is zero. -/
structure Digits where
  digits : Nat
  exponent : Int
  deriving DecidableEq, Repr

/-- A positive value as a fraction, with the fractions between which numbers
round to it. All three share a denominator; the ends belong to the interval
when `closed` holds. -/
structure Rounding where
  low : Nat
  value : Nat
  high : Nat
  denominator : Nat
  closed : Bool
  deriving Repr

/-- The interval of a finite non-zero value of a format. Below the smallest
mantissa of an exponent the spacing halves, unless the exponent is the least. -/
def Format.rounding (format : Format) (mantissa exponent : Nat) : Rounding :=
  let boundary := mantissa = Nat.pow 2 format.mantissaBits ∧ 0 < exponent
  let numerator := 4 * mantissa * Nat.pow 2 exponent
  let step := Nat.pow 2 exponent
  { low := numerator - (if boundary then step else 2 * step)
    value := numerator
    high := numerator + 2 * step
    denominator := 4 * Nat.pow 2 format.scale
    closed := mantissa % 2 = 0 }

/-- Whether `count * unit` rounds to the value. -/
def Rounding.admits (rounding : Rounding) (scaled : Nat) : Bool :=
  if rounding.closed then
    rounding.low ≤ scaled && scaled ≤ rounding.high
  else
    rounding.low < scaled && scaled < rounding.high

/-- Scales the fractions so that a grid step of `10^exponent` becomes `step`. -/
def Rounding.onGrid (rounding : Rounding) (exponent : Int) : Rounding × Nat :=
  match exponent with
  | .ofNat up => (rounding, rounding.denominator * Nat.pow 10 up)
  | .negSucc down =>
    let factor := Nat.pow 10 (down + 1)
    ({ rounding with
        low := rounding.low * factor
        value := rounding.value * factor
        high := rounding.high * factor }, rounding.denominator)

/-- The multiple of the grid step that rounds to the value, if any: the nearer
neighbour of the value, the upper one on a tie. -/
def Rounding.hit (rounding : Rounding) (exponent : Int) : Option Nat :=
  let (scaled, step) := rounding.onGrid exponent
  let below := scaled.value / step
  let belowFits := 0 < below && scaled.admits (below * step)
  let aboveFits := scaled.admits ((below + 1) * step)
  if belowFits && aboveFits then
    let remainder := scaled.value % step
    some (if 2 * remainder < step then below else below + 1)
  else if belowFits then some below
  else if aboveFits then some (below + 1)
  else none

/-- The first grid with a hit, from `exponent` down. -/
def Rounding.search (rounding : Rounding) : Nat → Int → Digits
  | 0, exponent => ⟨0, exponent⟩
  | grids + 1, exponent =>
    match rounding.hit exponent with
    | some count => ⟨count, exponent⟩
    | none => rounding.search grids (exponent - 1)

/-- Moves trailing zeros of the digits into the exponent. -/
def Digits.normalize (digits : Digits) : Digits :=
  if digits.digits = 0 then ⟨0, 0⟩
  else if digits.digits % 10 = 0 then
    normalize ⟨digits.digits / 10, digits.exponent + 1⟩
  else digits
termination_by digits.digits
decreasing_by omega

/-- Decimal exponent of a grid that is certainly too coarse for the value. -/
def Rounding.coarse (rounding : Rounding) : Int :=
  let bits : Int := (Nat.log2 rounding.high : Int) - Nat.log2 rounding.denominator + 1
  Int.fdiv (bits * 30103) 100000 + 1

/-- Shortest digits of a finite value; zero has none but zero itself. -/
def Format.shortest (format : Format) (mantissa exponent : Nat) : Digits :=
  if mantissa = 0 then ⟨0, 0⟩
  else
    let rounding := format.rounding mantissa exponent
    (rounding.search 24 rounding.coarse).normalize

/-! ## Notations -/

/-- The digits of a number as characters. -/
def digitText (digits : Nat) : String := String.ofList (Nat.toDigits 10 digits)

/-- Positional notation with at least one digit on each side of the point. -/
def Digits.positional (digits : Digits) : String :=
  let text := digitText digits.digits
  match digits.exponent with
  | .ofNat zeros => text ++ String.ofList (List.replicate zeros '0') ++ ".0"
  | .negSucc last =>
    let places := last + 1
    if places < text.length then
      String.ofList (text.toList.take (text.length - places)) ++ "." ++
        String.ofList (text.toList.drop (text.length - places))
    else
      "0." ++ String.ofList (List.replicate (places - text.length) '0') ++ text

/-- Power of ten of the leading digit. -/
def Digits.magnitude (digits : Digits) : Int :=
  digits.exponent + ((digitText digits.digits).length - 1 : Nat)

/-- Scientific notation with one digit before the point. `mark` stands before
the exponent; a lone digit is followed by `lone`. -/
def Digits.scientific (digits : Digits) (mark lone : String) : String :=
  let text := digitText digits.digits
  let tail := String.ofList (text.toList.drop 1)
  String.ofList (text.toList.take 1) ++ (if tail.isEmpty then lone else "." ++ tail) ++
    mark ++ toString digits.magnitude

/-- How a format writes floating-point values. -/
structure Style where
  nan : String
  infinity : String
  mark : String
  lone : String
  /-- Positional notation is used from this power of ten on … -/
  positionalFrom : Int
  /-- … up to, but not including, this one. -/
  positionalBelow : Int

/-- The guest's own text of a `float` or `double`. -/
def Style.guest : Style := ⟨"NaN", "Infinity", "E", ".0", -3, 7⟩

/-- The text of a value in error messages. -/
def Style.descriptive : Style := ⟨"NaN", "inf", "e", "", -4, 16⟩

/-- Text of the value of a bit pattern, with the digits of `digitsFormat`'s
value `digitsBits` and the notation chosen by the magnitude of the first. -/
def Style.write (style : Style) (format : Format) (bits : Nat)
    (digitsFormat : Format) (digitsBits : Nat) : String :=
  match format.decode bits with
  | .nan => style.nan
  | .infinite negative => (if negative then "-" else "") ++ style.infinity
  | .finite negative mantissa exponent =>
    let sign := if negative then "-" else ""
    if mantissa = 0 then sign ++ "0.0"
    else
      let magnitude := (format.shortest mantissa exponent).magnitude
      let positional := style.positionalFrom ≤ magnitude && magnitude < style.positionalBelow
      match digitsFormat.decode digitsBits with
      | .finite _ mantissa exponent =>
        let digits := digitsFormat.shortest mantissa exponent
        sign ++ (if positional then digits.positional
          else digits.scientific style.mark style.lone)
      | .infinite _ => sign ++ "inf" ++ style.lone ++ style.mark ++ "0"
      | .nan => style.nan

/-- Text of a bit pattern of one format. -/
def Style.text (style : Style) (format : Format) (bits : Nat) : String :=
  style.write format bits format bits

/-- The guest's text of a `double`. -/
def doubleText (bits : UInt64) : String := Style.guest.text .double bits.toNat

/-- The guest's text of a `float`. -/
def floatText (bits : UInt32) : String := Style.guest.text .single bits.toNat

/-- The guest's text of a `double` written with the digits of the nearest
`float`; the notation still depends on the `double`. -/
def doubleTextAsFloat (bits : UInt64) : String :=
  Style.guest.write .double bits.toNat .single (Float.ofBits bits).toFloat32.toBits.toNat

end Jvm.Decimal
