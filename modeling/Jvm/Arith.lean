import Jvm.Decimal.Notation

/-!
# Floating-point operations on bit patterns

Guest floating-point values are bit patterns; the operations here take and give
patterns. The remainder is the exact one, truncated toward zero, and is computed
on mantissas and exponents; the other operations are those of the host's binary
formats.
-/

namespace Jvm

namespace Decimal

/-- Moves a mantissa to the left as far as the format and the exponent allow. -/
def Format.normalize (format : Format) (mantissa exponent : Nat) : Nat × Nat :=
  let shift := min exponent (format.mantissaBits - Nat.log2 mantissa)
  (mantissa * Nat.pow 2 shift, exponent - shift)

/-- Bit pattern of a quiet NaN. -/
def Format.quietNan (format : Format) : Nat :=
  format.topExponent * Nat.pow 2 format.mantissaBits + Nat.pow 2 (format.mantissaBits - 1)

/-- Exact remainder with the sign of the dividend. -/
def Format.remainder (format : Format) (dividend divisor : Nat) : Nat :=
  match format.decode dividend, format.decode divisor with
  | .nan, _ | _, .nan | .infinite _, _ => format.quietNan
  | .finite .., .infinite _ => dividend
  | .finite negative mantissa exponent, .finite _ mantissa' exponent' =>
    if mantissa' = 0 then format.quietNan
    else
      let common := min exponent exponent'
      let rest := (mantissa * Nat.pow 2 (exponent - common)) %
        (mantissa' * Nat.pow 2 (exponent' - common))
      if rest = 0 then format.encode negative 0 0
      else
        let (mantissa, exponent) := format.normalize rest common
        format.encode negative mantissa exponent

end Decimal

/-! ### Operations on `float` patterns -/
namespace Single

def add (a b : UInt32) : UInt32 := (Float32.ofBits a + Float32.ofBits b).toBits
def sub (a b : UInt32) : UInt32 := (Float32.ofBits a - Float32.ofBits b).toBits
def mul (a b : UInt32) : UInt32 := (Float32.ofBits a * Float32.ofBits b).toBits
def div (a b : UInt32) : UInt32 := (Float32.ofBits a / Float32.ofBits b).toBits

def rem (a b : UInt32) : UInt32 :=
  UInt32.ofNat (Decimal.Format.single.remainder a.toNat b.toNat)

/-- Negation flips the sign bit, also of zeros and NaNs. -/
def neg (a : UInt32) : UInt32 := a ^^^ 0x80000000

def abs (a : UInt32) : UInt32 := a &&& 0x7FFFFFFF

def isNaN (a : UInt32) : Bool := 0x7F800000 < abs a

/-- Three-way comparison; `nan` is the answer when either side is a NaN. -/
def compare (a b : UInt32) (nan : Int32) : Int32 :=
  let left := Float32.ofBits a
  let right := Float32.ofBits b
  if right < left then 1 else if left == right then 0 else if left < right then -1 else nan

def toInt (a : UInt32) : Int32 := (Float32.ofBits a).toInt32
def toLong (a : UInt32) : Int64 := (Float32.ofBits a).toInt64
def toDouble (a : UInt32) : UInt64 := (Float32.ofBits a).toFloat.toBits
def ofInt (value : Int32) : UInt32 := value.toFloat32.toBits
def ofLong (value : Int64) : UInt32 := value.toFloat32.toBits

end Single

/-! ### Operations on `double` patterns -/
namespace Double

def add (a b : UInt64) : UInt64 := (Float.ofBits a + Float.ofBits b).toBits
def sub (a b : UInt64) : UInt64 := (Float.ofBits a - Float.ofBits b).toBits
def mul (a b : UInt64) : UInt64 := (Float.ofBits a * Float.ofBits b).toBits
def div (a b : UInt64) : UInt64 := (Float.ofBits a / Float.ofBits b).toBits

def rem (a b : UInt64) : UInt64 :=
  UInt64.ofNat (Decimal.Format.double.remainder a.toNat b.toNat)

/-- Negation flips the sign bit, also of zeros and NaNs. -/
def neg (a : UInt64) : UInt64 := a ^^^ 0x8000000000000000

def abs (a : UInt64) : UInt64 := a &&& 0x7FFFFFFFFFFFFFFF

def isNegative (a : UInt64) : Bool := 0x8000000000000000 ≤ a

def isNaN (a : UInt64) : Bool := 0x7FF0000000000000 < abs a

def isInfinite (a : UInt64) : Bool := abs a == 0x7FF0000000000000

/-- The quiet NaN that operations answer with. -/
def nan : UInt64 := 0x7FF8000000000000

/-- Three-way comparison; `nan` is the answer when either side is a NaN. -/
def compare (a b : UInt64) (nan : Int32) : Int32 :=
  let left := Float.ofBits a
  let right := Float.ofBits b
  if right < left then 1 else if left == right then 0 else if left < right then -1 else nan

def toInt (a : UInt64) : Int32 := (Float.ofBits a).toInt32
def toLong (a : UInt64) : Int64 := (Float.ofBits a).toInt64
def toFloat (a : UInt64) : UInt32 := (Float.ofBits a).toFloat32.toBits
def ofInt (value : Int32) : UInt64 := value.toFloat.toBits
def ofLong (value : Int64) : UInt64 := value.toFloat.toBits

/-- Applies a function of the host's doubles. -/
def lift (function : Float → Float) (a : UInt64) : UInt64 := (function (Float.ofBits a)).toBits

/-- Rounds to an integer, halves to the even one. Adding and subtracting `2^52`
drops the fraction of any smaller magnitude under the host's rounding. -/
def rint (a : UInt64) : UInt64 :=
  let magnitude := Float.ofBits (abs a)
  if magnitude < 4503599627370496.0 then
    ((magnitude + 4503599627370496.0) - 4503599627370496.0).toBits |||
      (a &&& 0x8000000000000000)
  else a

/-- A NaN exponent gives a NaN, and so does a base of magnitude one raised to an
infinite power. -/
def pow (base exponent : UInt64) : UInt64 :=
  if isNaN exponent || (abs base == 0x3FF0000000000000 && isInfinite exponent) then nan
  else (Float.pow (Float.ofBits base) (Float.ofBits exponent)).toBits

def atan2 (y x : UInt64) : UInt64 := (Float.atan2 (Float.ofBits y) (Float.ofBits x)).toBits

/-- Length of the hypotenuse. Large and small legs are scaled by a power of two,
so that squaring them neither overflows nor vanishes. -/
def hypot (x y : UInt64) : UInt64 :=
  if isInfinite x || isInfinite y then 0x7FF0000000000000
  else
    let a := Float.ofBits (abs x)
    let b := Float.ofBits (abs y)
    let longer := if a < b then b else a
    let (down, up) :=
      if 1e150 < longer then (Float.scaleB 1.0 (-600), Float.scaleB 1.0 600)
      else if longer < 1e-150 then (Float.scaleB 1.0 600, Float.scaleB 1.0 (-600))
      else (1.0, 1.0)
    (Float.sqrt ((a * down) * (a * down) + (b * down) * (b * down)) * up).toBits

/-- NaN wins, and negative zero is below zero. -/
def max (a b : UInt64) : UInt64 :=
  if isNaN a || isNaN b then nan
  else
    let left := Float.ofBits a
    let right := Float.ofBits b
    if left == right then (if isNegative a then b else a)
    else if left < right then b else a

/-- NaN wins, and negative zero is below zero. -/
def min (a b : UInt64) : UInt64 :=
  if isNaN a || isNaN b then nan
  else
    let left := Float.ofBits a
    let right := Float.ofBits b
    if left == right then (if isNegative a then a else b)
    else if left < right then a else b

end Double

end Jvm
