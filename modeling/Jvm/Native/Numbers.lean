import Jvm.Arith
import Jvm.Native.Basic

/-!
# Natives on numbers

The natives of the numeric classes compute with their argument slots alone: no
object is read and nothing is thrown. Floating-point values are bit patterns
throughout.
-/

namespace Jvm

namespace UnaryReal

/-- The function on bit patterns. -/
def apply : UnaryReal → UInt64 → UInt64
  | .sin => Double.lift Float.sin
  | .cos => Double.lift Float.cos
  | .tan => Double.lift Float.tan
  | .asin => Double.lift Float.asin
  | .acos => Double.lift Float.acos
  | .atan => Double.lift Float.atan
  | .exp => Double.lift Float.exp
  | .log => Double.lift Float.log
  | .log10 => Double.lift Float.log10
  | .sqrt => Double.lift Float.sqrt
  | .cbrt => Double.lift Float.cbrt
  | .floor => Double.lift Float.floor
  | .ceil => Double.lift Float.ceil
  | .rint => Double.rint
  | .abs => Double.abs

end UnaryReal

namespace BinaryReal

/-- The function on bit patterns. -/
def apply : BinaryReal → UInt64 → UInt64 → UInt64
  | .atan2 => Double.atan2
  | .pow => Double.pow
  | .hypot => Double.hypot
  | .max => Double.max
  | .min => Double.min

end BinaryReal

namespace MathNative

/-- The result for some arguments. The magnitude of the least integer is that
integer itself. -/
def run (native : MathNative) (arguments : NativeArgs) : Value :=
  match native with
  | .unary function => .double (function.apply (arguments.double 0))
  | .binary function => .double (function.apply (arguments.double 0) (arguments.double 2))
  | .absInt =>
    let value := arguments.int 0
    .int (if value < 0 then -value else value)
  | .absLong =>
    let value := arguments.long 0
    .long (if value < 0 then -value else value)
  | .absFloat => .float (Single.abs (arguments.float 0))
  | .maxInt => .int (max (arguments.int 0) (arguments.int 1))
  | .minInt => .int (min (arguments.int 0) (arguments.int 1))
  | .maxLong => .long (max (arguments.long 0) (arguments.long 2))
  | .minLong => .long (min (arguments.long 0) (arguments.long 2))

end MathNative

namespace BitsNative

/-- The pattern that all NaNs of `float` share in canonical form. -/
def canonicalSingle : UInt32 := 0x7FC00000

/-- The result on a `float` and the `int` of its bits. -/
def runSingle (native : BitsNative) (arguments : NativeArgs) : Value :=
  let bits := arguments.float 0
  match native with
  | .rawBits => .int bits.toInt32
  | .canonicalBits => .int (if Single.isNaN bits then canonicalSingle else bits).toInt32
  | .ofBits => .float bits
  | .isNaN => .int (if Single.isNaN bits then 1 else 0)

/-- The result on a `double` and the `long` of its bits. -/
def runDouble (native : BitsNative) (arguments : NativeArgs) : Value :=
  let bits := arguments.double 0
  match native with
  | .rawBits => .long bits.toInt64
  | .canonicalBits => .long (if Double.isNaN bits then Double.nan else bits).toInt64
  | .ofBits => .double bits
  | .isNaN => .int (if Double.isNaN bits then 1 else 0)

end BitsNative

end Jvm
