import Jvm.Assembler.Class
import Jvm.ClassPath
import Jvm.Exception

/-!
# The bootstrap library

The classes that every program needs: the root class, class objects, strings and
their builder, throwables, output, mathematics and threads, and one class for
each exception of the machine. They are written in assembler and found before
the classes of a program.
-/

namespace Jvm.Bootstrap

open Assembler

private def objectName : String := "java/lang/Object"
private def stringName : String := "java/lang/String"
private def builderName : String := "java/lang/StringBuilder"
private def throwableName : String := "java/lang/Throwable"
private def systemName : String := "java/lang/System"
private def printStreamName : String := "java/io/PrintStream"
private def threadName : String := "java/lang/Thread"
private def runnableName : String := "java/lang/Runnable"

private def stringType : String := "Ljava/lang/String;"
private def objectType : String := "Ljava/lang/Object;"
private def builderType : String := "Ljava/lang/StringBuilder;"
private def printStreamType : String := "Ljava/io/PrintStream;"
private def runnableType : String := "Ljava/lang/Runnable;"

private def publicFinal : UInt16 := Access.isPublic ||| Access.isFinal
private def publicStatic : UInt16 := Access.isPublic ||| Access.isStatic
private def privateFinal : UInt16 := Access.isPrivate ||| Access.isFinal

private def native (flags : UInt16) (name descriptor : String) : Part :=
  .bodiless (flags ||| Access.isNative) name descriptor

private def constructor (descriptor : String) (body : List Line) : Part :=
  .method Access.isPublic "<init>" descriptor body

/-- Loads the receiver, or the first argument of a static method. -/
private def self : Line := .load .reference 0

private def construct (owner descriptor : String) : Line :=
  .invokeSpecial owner "<init>" descriptor

/-- A constructor that only calls the one above. -/
private def plainConstructor (superclass : String) : Part :=
  constructor "()V" [self, construct superclass "()V", .op .returnVoid]

/-! ### Core classes -/

private def objectClass : ClassSpec where
  name := objectName
  superclass := none
  parts := [
    constructor "()V" [.op .returnVoid],
    .method Access.isPublic "equals" s!"({objectType})Z" [
      self, .load .reference 1, .branch .ifACmpNe "other", .int 1, .op .iReturn,
      .bind "other", .int 0, .op .iReturn],
    native Access.isPublic "hashCode" "()I",
    native publicFinal "getClass" "()Ljava/lang/Class;",
    native Access.isProtected "clone" "()Ljava/lang/Object;",
    native Access.isPublic "toString" "()Ljava/lang/String;",
    native publicFinal "notify" "()V",
    native publicFinal "notifyAll" "()V"]

private def classClass : ClassSpec where
  name := "java/lang/Class"
  parts := [
    .flags publicFinal,
    .field privateFinal "classId" "I" none,
    native Access.isPublic "getName" "()Ljava/lang/String;",
    native publicStatic "forName" "(Ljava/lang/String;)Ljava/lang/Class;",
    native Access.isPublic "isInstance" "(Ljava/lang/Object;)Z",
    native Access.isPublic "isArray" "()Z",
    native Access.isPublic "isInterface" "()Z",
    native Access.isPublic "getSuperclass" "()Ljava/lang/Class;"]

private def stringClass : ClassSpec where
  name := stringName
  parts := [
    .flags publicFinal,
    .interface "java/io/Serializable",
    .field privateFinal "value" "[B" none,
    .field privateFinal "coder" "B" none,
    .field Access.isPrivate "hash" "I" none,
    constructor "()V" [
      self, construct objectName "()V", self, .int 0, .newArray .byte,
      .putField stringName "value" "[B", .op .returnVoid],
    .method Access.isPublic "toString" "()Ljava/lang/String;" [self, .op .aReturn],
    .method publicStatic "valueOf" s!"({objectType}){stringType}" [
      self, .branch .ifNonNull "present", .string "null", .op .aReturn, .bind "present", self,
      .invokeVirtual objectName "toString" "()Ljava/lang/String;", .op .aReturn],
    native Access.isPublic "length" "()I",
    native Access.isPublic "isEmpty" "()Z",
    native Access.isPublic "charAt" "(I)C",
    native Access.isPublic "equals" "(Ljava/lang/Object;)Z",
    native Access.isPublic "hashCode" "()I",
    native Access.isPublic "intern" "()Ljava/lang/String;",
    native Access.isPublic "concat" "(Ljava/lang/String;)Ljava/lang/String;"] ++
    ["I", "J", "F", "D", "Z", "C"].map fun kind =>
      native publicStatic "valueOf" s!"({kind}){stringType}"

/-- Appending a value of a kind: turn it into a string and append that. -/
private def appendPrimitive (kind : String) (load : Opcode) : Part :=
  .method Access.isPublic "append" s!"({kind}){builderType}" [
    self, .op load, .invokeStatic stringName "valueOf" s!"({kind}){stringType}",
    .invokeVirtual builderName "append" s!"({stringType}){builderType}", .op .aReturn]

/-- Appends through `String.valueOf` and `String.concat`, so it needs no natives
of its own. -/
private def builderClass : ClassSpec where
  name := builderName
  parts := [
    .flags publicFinal,
    .field Access.isPrivate "text" stringType none,
    constructor "()V" [
      self, construct objectName "()V", self, .string "",
      .putField builderName "text" stringType, .op .returnVoid],
    constructor s!"({stringType})V" [
      self, construct builderName "()V", self, .load .reference 1,
      .invokeVirtual builderName "append" s!"({stringType}){builderType}",
      .op .pop, .op .returnVoid],
    .method Access.isPublic "append" s!"({stringType}){builderType}" [
      self, self, .getField builderName "text" stringType, .load .reference 1,
      .invokeStatic stringName "valueOf" s!"({objectType}){stringType}",
      .invokeVirtual stringName "concat" s!"({stringType}){stringType}",
      .putField builderName "text" stringType, self, .op .aReturn],
    .method Access.isPublic "append" s!"({objectType}){builderType}" [
      self, .load .reference 1,
      .invokeStatic stringName "valueOf" s!"({objectType}){stringType}",
      .invokeVirtual builderName "append" s!"({stringType}){builderType}", .op .aReturn],
    appendPrimitive "I" .iLoad1, appendPrimitive "C" .iLoad1, appendPrimitive "Z" .iLoad1,
    appendPrimitive "J" .lLoad1, appendPrimitive "F" .fLoad1, appendPrimitive "D" .dLoad1,
    .method Access.isPublic "length" "()I" [
      self, .getField builderName "text" stringType, .invokeVirtual stringName "length" "()I",
      .op .iReturn],
    .method Access.isPublic "toString" s!"(){stringType}" [
      self, .getField builderName "text" stringType, .op .aReturn]]

private def throwableClass : ClassSpec where
  name := throwableName
  parts := [
    .interface "java/io/Serializable",
    .field Access.isPrivate "detailMessage" stringType none,
    plainConstructor objectName,
    constructor s!"({stringType})V" [
      self, construct objectName "()V", self, .load .reference 1,
      .putField throwableName "detailMessage" stringType, .op .returnVoid],
    .method Access.isPublic "getMessage" s!"(){stringType}" [
      self, .getField throwableName "detailMessage" stringType, .op .aReturn]]

/-- Stores a new stream on a file descriptor in a static field. -/
private def openStream (field : String) (descriptor : Int32) : List Line := [
  .newObject printStreamName, .op .dup, .int descriptor, construct printStreamName "(I)V",
  .putStatic systemName field printStreamType]

private def systemClass : ClassSpec where
  name := systemName
  parts := [
    .flags publicFinal,
    .field (publicStatic ||| Access.isFinal) "out" printStreamType none,
    .field (publicStatic ||| Access.isFinal) "err" printStreamType none,
    .method Access.isStatic "<clinit>" "()V"
      (openStream "out" 1 ++ openStream "err" 2 ++ [.op .returnVoid]),
    native publicStatic "arraycopy" "(Ljava/lang/Object;ILjava/lang/Object;II)V",
    native publicStatic "identityHashCode" "(Ljava/lang/Object;)I",
    native publicStatic "currentTimeMillis" "()J",
    native publicStatic "nanoTime" "()J",
    native publicStatic "gc" "()V"]

private def mathClass : ClassSpec where
  name := "java/lang/Math"
  parts := [.flags publicFinal] ++
    ["sin", "cos", "tan", "asin", "acos", "atan", "exp", "log", "log10", "sqrt", "cbrt", "floor",
      "ceil", "rint"].map (native publicStatic · "(D)D") ++
    ["atan2", "pow", "hypot"].map (native publicStatic · "(DD)D") ++
    ["I", "J", "F", "D"].map (fun kind => native publicStatic "abs" s!"({kind}){kind}") ++
    ["I", "J", "D"].flatMap fun kind =>
      ["max", "min"].map fun name => native publicStatic name s!"({kind}{kind}){kind}"

private def floatClass : ClassSpec where
  name := "java/lang/Float"
  parts := [
    .flags publicFinal,
    native publicStatic "floatToRawIntBits" "(F)I",
    native publicStatic "floatToIntBits" "(F)I",
    native publicStatic "intBitsToFloat" "(I)F",
    native publicStatic "isNaN" "(F)Z"]

private def doubleClass : ClassSpec where
  name := "java/lang/Double"
  parts := [
    .flags publicFinal,
    native publicStatic "doubleToRawLongBits" "(D)J",
    native publicStatic "doubleToLongBits" "(D)J",
    native publicStatic "longBitsToDouble" "(J)D",
    native publicStatic "isNaN" "(D)Z"]

/-- The forms of one print method: objects are turned into strings first. -/
private def printMethods (name : String) : List Part :=
  .method Access.isPublic name s!"({objectType})V" [
    self, .load .reference 1, .invokeStatic stringName "valueOf" s!"({objectType}){stringType}",
    .invokeVirtual printStreamName name s!"({stringType})V", .op .returnVoid] ::
  [stringType, "I", "J", "F", "D", "Z", "C"].map fun type =>
    native Access.isPublic name s!"({type})V"

private def printStreamClass : ClassSpec where
  name := printStreamName
  parts := [
    .field privateFinal "fd" "I" none,
    constructor "(I)V" [
      self, construct objectName "()V", self, .load .int 1, .putField printStreamName "fd" "I",
      .op .returnVoid]] ++
    printMethods "print" ++ printMethods "println" ++ [
    native Access.isPublic "println" "()V",
    native Access.isPublic "flush" "()V"]

private def runnableInterface : ClassSpec where
  name := runnableName
  isInterface := true
  parts := [.bodiless (Access.isPublic ||| Access.isAbstract) "run" "()V"]

/-- A started thread runs its target. `eetop` holds the execution it runs as, zero
before it is started. Joining polls, one millisecond at a time. -/
private def threadClass : ClassSpec where
  name := threadName
  parts := [
    .interface runnableName,
    .field Access.isPrivate "target" runnableType none,
    .field Access.isPrivate "eetop" "I" none,
    plainConstructor objectName,
    constructor s!"({runnableType})V" [
      self, construct objectName "()V", self, .load .reference 1,
      .putField threadName "target" runnableType, .op .returnVoid],
    .method Access.isPublic "run" "()V" [
      self, .getField threadName "target" runnableType, .branch .ifNull "end",
      self, .getField threadName "target" runnableType,
      .invokeInterface runnableName "run" "()V", .bind "end", .op .returnVoid],
    .method publicFinal "join" "()V" [
      .bind "again", self, .invokeVirtual threadName "isAlive" "()Z", .branch .ifEq "end",
      .long 1, .invokeStatic threadName "sleep" "(J)V", .branch .gotoNear "again",
      .bind "end", .op .returnVoid],
    native Access.isPublic "start" "()V",
    native publicFinal "isAlive" "()Z",
    native publicStatic "sleep" "(J)V",
    native publicStatic "yield" "()V",
    native publicStatic "currentThread" "()Ljava/lang/Thread;"]

private def exceptionClass (kind : ExceptionKind) : ClassSpec where
  name := kind.className
  superclass := some kind.superclassName
  parts := [
    plainConstructor kind.superclassName,
    constructor s!"({stringType})V" [
      self, .load .reference 1, construct kind.superclassName s!"({stringType})V", .op .returnVoid]]

/-- The core classes, exceptions excluded. -/
def coreClasses : List ClassSpec := [
  objectClass, classClass, stringClass, builderClass,
  { name := "java/lang/Cloneable", isInterface := true },
  { name := "java/io/Serializable", isInterface := true },
  throwableClass, systemClass, mathClass, floatClass, doubleClass, runnableInterface,
  threadClass, printStreamClass]

/-- Names of the core classes. -/
def coreNames : List String := coreClasses.map (·.name)

/-- Assembles a class of the library. -/
def assemble (spec : ClassSpec) : Except LoadError (String × Array UInt8) := do
  let bytes ← { spec with parts := spec.parts ++ [Part.source "<bootstrap>"] }.assemble
  pure (spec.name, bytes)

/-- The class path of the library. -/
def classPath : Except LoadError ClassPath := do
  let files ← (coreClasses ++ ExceptionKind.all.map exceptionClass).mapM assemble
  pure (.ofFiles files)

end Jvm.Bootstrap
