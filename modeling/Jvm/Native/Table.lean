import Std.Data.HashMap
import Jvm.Native.Basic

/-!
# Native tables

Natives are looked up by class, name and descriptor, written together such as
`java/lang/Math.sqrt(D)D`. A table starts with the machine's own natives; an
embedder adds to them or replaces them.
-/

namespace Jvm

/-- Natives by what they implement. -/
structure NativeTable where
  natives : Std.HashMap String Native := {}

namespace NativeTable

instance : Inhabited NativeTable := ⟨{}⟩

/-- How a method is written in the table. -/
def key (owner name descriptor : String) : String := owner ++ "." ++ name ++ descriptor

def find? (table : NativeTable) (owner name descriptor : String) : Option Native :=
  table.natives[key owner name descriptor]?

/-- Adds or replaces a native. -/
def insert (table : NativeTable) (owner name descriptor : String) (native : Native) :
    NativeTable :=
  { natives := table.natives.insert (key owner name descriptor) native }

/-- The natives of one class of the bootstrap library. -/
structure Section where
  owner : String
  natives : List (String × String × Builtin)

private def objectNatives : Section where
  owner := "java/lang/Object"
  natives := [
    ("hashCode", "()I", .object .hashCode),
    ("getClass", "()Ljava/lang/Class;", .object .getClass),
    ("clone", "()Ljava/lang/Object;", .object .clone),
    ("toString", "()Ljava/lang/String;", .object .toText),
    ("notify", "()V", .object .notify),
    ("notifyAll", "()V", .object .notify)]

private def stringNatives : Section where
  owner := "java/lang/String"
  natives := [
    ("length", "()I", .string .length),
    ("isEmpty", "()Z", .string .isEmpty),
    ("charAt", "(I)C", .string .charAt),
    ("equals", "(Ljava/lang/Object;)Z", .string .equals),
    ("hashCode", "()I", .string .hashCode),
    ("intern", "()Ljava/lang/String;", .string .intern),
    ("concat", "(Ljava/lang/String;)Ljava/lang/String;", .string .concat),
    ("valueOf", "(I)Ljava/lang/String;", .string (.valueOf .int)),
    ("valueOf", "(J)Ljava/lang/String;", .string (.valueOf .long)),
    ("valueOf", "(F)Ljava/lang/String;", .string (.valueOf .float)),
    ("valueOf", "(D)Ljava/lang/String;", .string (.valueOf .double)),
    ("valueOf", "(Z)Ljava/lang/String;", .string (.valueOf .boolean)),
    ("valueOf", "(C)Ljava/lang/String;", .string (.valueOf .char))]

private def classNatives : Section where
  owner := "java/lang/Class"
  natives := [
    ("getName", "()Ljava/lang/String;", .cls .getName),
    ("forName", "(Ljava/lang/String;)Ljava/lang/Class;", .cls .forName),
    ("isInstance", "(Ljava/lang/Object;)Z", .cls .isInstance),
    ("isArray", "()Z", .cls .isArray),
    ("isInterface", "()Z", .cls .isInterface),
    ("getSuperclass", "()Ljava/lang/Class;", .cls .getSuperclass)]

private def systemNatives : Section where
  owner := "java/lang/System"
  natives := [
    ("arraycopy", "(Ljava/lang/Object;ILjava/lang/Object;II)V", .system .arraycopy),
    ("identityHashCode", "(Ljava/lang/Object;)I", .system .identityHashCode),
    ("currentTimeMillis", "()J", .system .currentTimeMillis),
    ("nanoTime", "()J", .system .nanoTime),
    ("gc", "()V", .system .gc)]

private def threadNatives : Section where
  owner := "java/lang/Thread"
  natives := [
    ("start", "()V", .thread .start),
    ("isAlive", "()Z", .thread .isAlive),
    ("sleep", "(J)V", .thread .sleep),
    ("yield", "()V", .thread .yield),
    ("currentThread", "()Ljava/lang/Thread;", .thread .currentThread)]

private def mathNatives : Section where
  owner := "java/lang/Math"
  natives := [
    ("sin", "(D)D", .math (.unary .sin)),
    ("cos", "(D)D", .math (.unary .cos)),
    ("tan", "(D)D", .math (.unary .tan)),
    ("asin", "(D)D", .math (.unary .asin)),
    ("acos", "(D)D", .math (.unary .acos)),
    ("atan", "(D)D", .math (.unary .atan)),
    ("exp", "(D)D", .math (.unary .exp)),
    ("log", "(D)D", .math (.unary .log)),
    ("log10", "(D)D", .math (.unary .log10)),
    ("sqrt", "(D)D", .math (.unary .sqrt)),
    ("cbrt", "(D)D", .math (.unary .cbrt)),
    ("floor", "(D)D", .math (.unary .floor)),
    ("ceil", "(D)D", .math (.unary .ceil)),
    ("rint", "(D)D", .math (.unary .rint)),
    ("atan2", "(DD)D", .math (.binary .atan2)),
    ("pow", "(DD)D", .math (.binary .pow)),
    ("hypot", "(DD)D", .math (.binary .hypot)),
    ("abs", "(I)I", .math .absInt),
    ("abs", "(J)J", .math .absLong),
    ("abs", "(F)F", .math .absFloat),
    ("abs", "(D)D", .math (.unary .abs)),
    ("max", "(II)I", .math .maxInt),
    ("min", "(II)I", .math .minInt),
    ("max", "(JJ)J", .math .maxLong),
    ("min", "(JJ)J", .math .minLong),
    ("max", "(DD)D", .math (.binary .max)),
    ("min", "(DD)D", .math (.binary .min))]

private def floatNatives : Section where
  owner := "java/lang/Float"
  natives := [
    ("floatToRawIntBits", "(F)I", .float .rawBits),
    ("floatToIntBits", "(F)I", .float .canonicalBits),
    ("intBitsToFloat", "(I)F", .float .ofBits),
    ("isNaN", "(F)Z", .float .isNaN)]

private def doubleNatives : Section where
  owner := "java/lang/Double"
  natives := [
    ("doubleToRawLongBits", "(D)J", .double .rawBits),
    ("doubleToLongBits", "(D)J", .double .canonicalBits),
    ("longBitsToDouble", "(J)D", .double .ofBits),
    ("isNaN", "(D)Z", .double .isNaN)]

/-- Descriptor of the print method for what is printed. -/
private def printDescriptor : Printed → String
  | .string => "(Ljava/lang/String;)V"
  | .int => "(I)V"
  | .long => "(J)V"
  | .float => "(F)V"
  | .double => "(D)V"
  | .boolean => "(Z)V"
  | .char => "(C)V"

private def printNatives : Section where
  owner := "java/io/PrintStream"
  natives :=
    [.string, .int, .long, .float, .double, .boolean, .char].flatMap (fun printed =>
      [("print", printDescriptor printed, .printStream (.print printed)),
        ("println", printDescriptor printed, .printStream (.printLine printed))]) ++
    [("println", "()V", .printStream .newLine), ("flush", "()V", .printStream .flush)]

private def sections : List Section := [
  objectNatives, stringNatives, classNatives, systemNatives, threadNatives, mathNatives,
  floatNatives, doubleNatives, printNatives]

/-- The machine's own natives. -/
def builtins : NativeTable :=
  sections.foldl (fun table part =>
    part.natives.foldl (fun table (name, descriptor, builtin) =>
      table.insert part.owner name descriptor (.builtin builtin)) table) {}

end NativeTable

end Jvm
