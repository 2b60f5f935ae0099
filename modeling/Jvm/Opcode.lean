/-!
# Opcodes

Every instruction starts with one byte that names its operation. The table lists
the operations by byte; three of them have instructions whose length depends on
their operands.
-/

namespace Jvm

/-- The operation of an instruction. -/
inductive Opcode where
  | nop | aConstNull | iConstM1 | iConst0 | iConst1 | iConst2 | iConst3 | iConst4 | iConst5
  | lConst0 | lConst1 | fConst0 | fConst1 | fConst2 | dConst0 | dConst1 | biPush | siPush | ldc
  | ldcW | ldc2W | iLoad | lLoad | fLoad | dLoad | aLoad | iLoad0 | iLoad1 | iLoad2 | iLoad3
  | lLoad0 | lLoad1 | lLoad2 | lLoad3 | fLoad0 | fLoad1 | fLoad2 | fLoad3 | dLoad0 | dLoad1
  | dLoad2 | dLoad3 | aLoad0 | aLoad1 | aLoad2 | aLoad3 | iaLoad | laLoad | faLoad | daLoad
  | aaLoad | baLoad | caLoad | saLoad | iStore | lStore | fStore | dStore | aStore | iStore0
  | iStore1 | iStore2 | iStore3 | lStore0 | lStore1 | lStore2 | lStore3 | fStore0 | fStore1
  | fStore2 | fStore3 | dStore0 | dStore1 | dStore2 | dStore3 | aStore0 | aStore1 | aStore2
  | aStore3 | iaStore | laStore | faStore | daStore | aaStore | baStore | caStore | saStore | pop
  | pop2 | dup | dupX1 | dupX2 | dup2 | dup2X1 | dup2X2 | swap | iAdd | lAdd | fAdd | dAdd | iSub
  | lSub | fSub | dSub | iMul | lMul | fMul | dMul | iDiv | lDiv | fDiv | dDiv | iRem | lRem
  | fRem | dRem | iNeg | lNeg | fNeg | dNeg | iShl | lShl | iShr | lShr | iuShr | luShr | iAnd
  | lAnd | iOr | lOr | iXor | lXor | iInc | i2L | i2F | i2D | l2I | l2F | l2D | f2I | f2L | f2D
  | d2I | d2L | d2F | i2B | i2C | i2S | lCmp | fCmpL | fCmpG | dCmpL | dCmpG | ifEq | ifNe | ifLt
  | ifGe | ifGt | ifLe | ifICmpEq | ifICmpNe | ifICmpLt | ifICmpGe | ifICmpGt | ifICmpLe
  | ifACmpEq | ifACmpNe | gotoNear | jsrNear | ret | tableSwitch | lookupSwitch | iReturn
  | lReturn | fReturn | dReturn | aReturn | returnVoid | getStatic | putStatic | getField
  | putField | invokeVirtual | invokeSpecial | invokeStatic | invokeInterface | invokeDynamic
  | newObject | newArray | aNewArray | arrayLength | aThrow | checkCast | instanceOf
  | monitorEnter | monitorExit | wide | multiANewArray | ifNull | ifNonNull | gotoFar | jsrFar
  | breakpoint | impDep1 | impDep2
  deriving DecidableEq, Inhabited, Repr

namespace Opcode

/-- The operations whose bytes start at zero, in the order of their bytes. -/
def table : Array Opcode := #[
  .nop, .aConstNull, .iConstM1, .iConst0, .iConst1, .iConst2, .iConst3, .iConst4, .iConst5,
  .lConst0, .lConst1, .fConst0, .fConst1, .fConst2, .dConst0, .dConst1, .biPush, .siPush, .ldc,
  .ldcW, .ldc2W, .iLoad, .lLoad, .fLoad, .dLoad, .aLoad, .iLoad0, .iLoad1, .iLoad2, .iLoad3,
  .lLoad0, .lLoad1, .lLoad2, .lLoad3, .fLoad0, .fLoad1, .fLoad2, .fLoad3, .dLoad0, .dLoad1,
  .dLoad2, .dLoad3, .aLoad0, .aLoad1, .aLoad2, .aLoad3, .iaLoad, .laLoad, .faLoad, .daLoad,
  .aaLoad, .baLoad, .caLoad, .saLoad, .iStore, .lStore, .fStore, .dStore, .aStore, .iStore0,
  .iStore1, .iStore2, .iStore3, .lStore0, .lStore1, .lStore2, .lStore3, .fStore0, .fStore1,
  .fStore2, .fStore3, .dStore0, .dStore1, .dStore2, .dStore3, .aStore0, .aStore1, .aStore2,
  .aStore3, .iaStore, .laStore, .faStore, .daStore, .aaStore, .baStore, .caStore, .saStore, .pop,
  .pop2, .dup, .dupX1, .dupX2, .dup2, .dup2X1, .dup2X2, .swap, .iAdd, .lAdd, .fAdd, .dAdd, .iSub,
  .lSub, .fSub, .dSub, .iMul, .lMul, .fMul, .dMul, .iDiv, .lDiv, .fDiv, .dDiv, .iRem, .lRem,
  .fRem, .dRem, .iNeg, .lNeg, .fNeg, .dNeg, .iShl, .lShl, .iShr, .lShr, .iuShr, .luShr, .iAnd,
  .lAnd, .iOr, .lOr, .iXor, .lXor, .iInc, .i2L, .i2F, .i2D, .l2I, .l2F, .l2D, .f2I, .f2L, .f2D,
  .d2I, .d2L, .d2F, .i2B, .i2C, .i2S, .lCmp, .fCmpL, .fCmpG, .dCmpL, .dCmpG, .ifEq, .ifNe, .ifLt,
  .ifGe, .ifGt, .ifLe, .ifICmpEq, .ifICmpNe, .ifICmpLt, .ifICmpGe, .ifICmpGt, .ifICmpLe,
  .ifACmpEq, .ifACmpNe, .gotoNear, .jsrNear, .ret, .tableSwitch, .lookupSwitch, .iReturn,
  .lReturn, .fReturn, .dReturn, .aReturn, .returnVoid, .getStatic, .putStatic, .getField,
  .putField, .invokeVirtual, .invokeSpecial, .invokeStatic, .invokeInterface, .invokeDynamic,
  .newObject, .newArray, .aNewArray, .arrayLength, .aThrow, .checkCast, .instanceOf,
  .monitorEnter, .monitorExit, .wide, .multiANewArray, .ifNull, .ifNonNull, .gotoFar, .jsrFar,
  .breakpoint]

/-- The operation that a byte names, if any. -/
def ofByte (byte : UInt8) : Option Opcode :=
  match byte with
  | 0xFE => some .impDep1
  | 0xFF => some .impDep2
  | _ => table[byte.toNat]?

/-- The byte of an operation. -/
def byte : Opcode → UInt8
  | .nop => 0x00
  | .aConstNull => 0x01
  | .iConstM1 => 0x02
  | .iConst0 => 0x03
  | .iConst1 => 0x04
  | .iConst2 => 0x05
  | .iConst3 => 0x06
  | .iConst4 => 0x07
  | .iConst5 => 0x08
  | .lConst0 => 0x09
  | .lConst1 => 0x0A
  | .fConst0 => 0x0B
  | .fConst1 => 0x0C
  | .fConst2 => 0x0D
  | .dConst0 => 0x0E
  | .dConst1 => 0x0F
  | .biPush => 0x10
  | .siPush => 0x11
  | .ldc => 0x12
  | .ldcW => 0x13
  | .ldc2W => 0x14
  | .iLoad => 0x15
  | .lLoad => 0x16
  | .fLoad => 0x17
  | .dLoad => 0x18
  | .aLoad => 0x19
  | .iLoad0 => 0x1A
  | .iLoad1 => 0x1B
  | .iLoad2 => 0x1C
  | .iLoad3 => 0x1D
  | .lLoad0 => 0x1E
  | .lLoad1 => 0x1F
  | .lLoad2 => 0x20
  | .lLoad3 => 0x21
  | .fLoad0 => 0x22
  | .fLoad1 => 0x23
  | .fLoad2 => 0x24
  | .fLoad3 => 0x25
  | .dLoad0 => 0x26
  | .dLoad1 => 0x27
  | .dLoad2 => 0x28
  | .dLoad3 => 0x29
  | .aLoad0 => 0x2A
  | .aLoad1 => 0x2B
  | .aLoad2 => 0x2C
  | .aLoad3 => 0x2D
  | .iaLoad => 0x2E
  | .laLoad => 0x2F
  | .faLoad => 0x30
  | .daLoad => 0x31
  | .aaLoad => 0x32
  | .baLoad => 0x33
  | .caLoad => 0x34
  | .saLoad => 0x35
  | .iStore => 0x36
  | .lStore => 0x37
  | .fStore => 0x38
  | .dStore => 0x39
  | .aStore => 0x3A
  | .iStore0 => 0x3B
  | .iStore1 => 0x3C
  | .iStore2 => 0x3D
  | .iStore3 => 0x3E
  | .lStore0 => 0x3F
  | .lStore1 => 0x40
  | .lStore2 => 0x41
  | .lStore3 => 0x42
  | .fStore0 => 0x43
  | .fStore1 => 0x44
  | .fStore2 => 0x45
  | .fStore3 => 0x46
  | .dStore0 => 0x47
  | .dStore1 => 0x48
  | .dStore2 => 0x49
  | .dStore3 => 0x4A
  | .aStore0 => 0x4B
  | .aStore1 => 0x4C
  | .aStore2 => 0x4D
  | .aStore3 => 0x4E
  | .iaStore => 0x4F
  | .laStore => 0x50
  | .faStore => 0x51
  | .daStore => 0x52
  | .aaStore => 0x53
  | .baStore => 0x54
  | .caStore => 0x55
  | .saStore => 0x56
  | .pop => 0x57
  | .pop2 => 0x58
  | .dup => 0x59
  | .dupX1 => 0x5A
  | .dupX2 => 0x5B
  | .dup2 => 0x5C
  | .dup2X1 => 0x5D
  | .dup2X2 => 0x5E
  | .swap => 0x5F
  | .iAdd => 0x60
  | .lAdd => 0x61
  | .fAdd => 0x62
  | .dAdd => 0x63
  | .iSub => 0x64
  | .lSub => 0x65
  | .fSub => 0x66
  | .dSub => 0x67
  | .iMul => 0x68
  | .lMul => 0x69
  | .fMul => 0x6A
  | .dMul => 0x6B
  | .iDiv => 0x6C
  | .lDiv => 0x6D
  | .fDiv => 0x6E
  | .dDiv => 0x6F
  | .iRem => 0x70
  | .lRem => 0x71
  | .fRem => 0x72
  | .dRem => 0x73
  | .iNeg => 0x74
  | .lNeg => 0x75
  | .fNeg => 0x76
  | .dNeg => 0x77
  | .iShl => 0x78
  | .lShl => 0x79
  | .iShr => 0x7A
  | .lShr => 0x7B
  | .iuShr => 0x7C
  | .luShr => 0x7D
  | .iAnd => 0x7E
  | .lAnd => 0x7F
  | .iOr => 0x80
  | .lOr => 0x81
  | .iXor => 0x82
  | .lXor => 0x83
  | .iInc => 0x84
  | .i2L => 0x85
  | .i2F => 0x86
  | .i2D => 0x87
  | .l2I => 0x88
  | .l2F => 0x89
  | .l2D => 0x8A
  | .f2I => 0x8B
  | .f2L => 0x8C
  | .f2D => 0x8D
  | .d2I => 0x8E
  | .d2L => 0x8F
  | .d2F => 0x90
  | .i2B => 0x91
  | .i2C => 0x92
  | .i2S => 0x93
  | .lCmp => 0x94
  | .fCmpL => 0x95
  | .fCmpG => 0x96
  | .dCmpL => 0x97
  | .dCmpG => 0x98
  | .ifEq => 0x99
  | .ifNe => 0x9A
  | .ifLt => 0x9B
  | .ifGe => 0x9C
  | .ifGt => 0x9D
  | .ifLe => 0x9E
  | .ifICmpEq => 0x9F
  | .ifICmpNe => 0xA0
  | .ifICmpLt => 0xA1
  | .ifICmpGe => 0xA2
  | .ifICmpGt => 0xA3
  | .ifICmpLe => 0xA4
  | .ifACmpEq => 0xA5
  | .ifACmpNe => 0xA6
  | .gotoNear => 0xA7
  | .jsrNear => 0xA8
  | .ret => 0xA9
  | .tableSwitch => 0xAA
  | .lookupSwitch => 0xAB
  | .iReturn => 0xAC
  | .lReturn => 0xAD
  | .fReturn => 0xAE
  | .dReturn => 0xAF
  | .aReturn => 0xB0
  | .returnVoid => 0xB1
  | .getStatic => 0xB2
  | .putStatic => 0xB3
  | .getField => 0xB4
  | .putField => 0xB5
  | .invokeVirtual => 0xB6
  | .invokeSpecial => 0xB7
  | .invokeStatic => 0xB8
  | .invokeInterface => 0xB9
  | .invokeDynamic => 0xBA
  | .newObject => 0xBB
  | .newArray => 0xBC
  | .aNewArray => 0xBD
  | .arrayLength => 0xBE
  | .aThrow => 0xBF
  | .checkCast => 0xC0
  | .instanceOf => 0xC1
  | .monitorEnter => 0xC2
  | .monitorExit => 0xC3
  | .wide => 0xC4
  | .multiANewArray => 0xC5
  | .ifNull => 0xC6
  | .ifNonNull => 0xC7
  | .gotoFar => 0xC8
  | .jsrFar => 0xC9
  | .breakpoint => 0xCA
  | .impDep1 => 0xFE
  | .impDep2 => 0xFF

/-- Name of the operation in listings. -/
def mnemonic : Opcode → String
  | .nop => "nop"
  | .aConstNull => "aconstnull"
  | .iConstM1 => "iconstm1"
  | .iConst0 => "iconst0"
  | .iConst1 => "iconst1"
  | .iConst2 => "iconst2"
  | .iConst3 => "iconst3"
  | .iConst4 => "iconst4"
  | .iConst5 => "iconst5"
  | .lConst0 => "lconst0"
  | .lConst1 => "lconst1"
  | .fConst0 => "fconst0"
  | .fConst1 => "fconst1"
  | .fConst2 => "fconst2"
  | .dConst0 => "dconst0"
  | .dConst1 => "dconst1"
  | .biPush => "bipush"
  | .siPush => "sipush"
  | .ldc => "ldc"
  | .ldcW => "ldcw"
  | .ldc2W => "ldc2w"
  | .iLoad => "iload"
  | .lLoad => "lload"
  | .fLoad => "fload"
  | .dLoad => "dload"
  | .aLoad => "aload"
  | .iLoad0 => "iload0"
  | .iLoad1 => "iload1"
  | .iLoad2 => "iload2"
  | .iLoad3 => "iload3"
  | .lLoad0 => "lload0"
  | .lLoad1 => "lload1"
  | .lLoad2 => "lload2"
  | .lLoad3 => "lload3"
  | .fLoad0 => "fload0"
  | .fLoad1 => "fload1"
  | .fLoad2 => "fload2"
  | .fLoad3 => "fload3"
  | .dLoad0 => "dload0"
  | .dLoad1 => "dload1"
  | .dLoad2 => "dload2"
  | .dLoad3 => "dload3"
  | .aLoad0 => "aload0"
  | .aLoad1 => "aload1"
  | .aLoad2 => "aload2"
  | .aLoad3 => "aload3"
  | .iaLoad => "iaload"
  | .laLoad => "laload"
  | .faLoad => "faload"
  | .daLoad => "daload"
  | .aaLoad => "aaload"
  | .baLoad => "baload"
  | .caLoad => "caload"
  | .saLoad => "saload"
  | .iStore => "istore"
  | .lStore => "lstore"
  | .fStore => "fstore"
  | .dStore => "dstore"
  | .aStore => "astore"
  | .iStore0 => "istore0"
  | .iStore1 => "istore1"
  | .iStore2 => "istore2"
  | .iStore3 => "istore3"
  | .lStore0 => "lstore0"
  | .lStore1 => "lstore1"
  | .lStore2 => "lstore2"
  | .lStore3 => "lstore3"
  | .fStore0 => "fstore0"
  | .fStore1 => "fstore1"
  | .fStore2 => "fstore2"
  | .fStore3 => "fstore3"
  | .dStore0 => "dstore0"
  | .dStore1 => "dstore1"
  | .dStore2 => "dstore2"
  | .dStore3 => "dstore3"
  | .aStore0 => "astore0"
  | .aStore1 => "astore1"
  | .aStore2 => "astore2"
  | .aStore3 => "astore3"
  | .iaStore => "iastore"
  | .laStore => "lastore"
  | .faStore => "fastore"
  | .daStore => "dastore"
  | .aaStore => "aastore"
  | .baStore => "bastore"
  | .caStore => "castore"
  | .saStore => "sastore"
  | .pop => "pop"
  | .pop2 => "pop2"
  | .dup => "dup"
  | .dupX1 => "dupx1"
  | .dupX2 => "dupx2"
  | .dup2 => "dup2"
  | .dup2X1 => "dup2x1"
  | .dup2X2 => "dup2x2"
  | .swap => "swap"
  | .iAdd => "iadd"
  | .lAdd => "ladd"
  | .fAdd => "fadd"
  | .dAdd => "dadd"
  | .iSub => "isub"
  | .lSub => "lsub"
  | .fSub => "fsub"
  | .dSub => "dsub"
  | .iMul => "imul"
  | .lMul => "lmul"
  | .fMul => "fmul"
  | .dMul => "dmul"
  | .iDiv => "idiv"
  | .lDiv => "ldiv"
  | .fDiv => "fdiv"
  | .dDiv => "ddiv"
  | .iRem => "irem"
  | .lRem => "lrem"
  | .fRem => "frem"
  | .dRem => "drem"
  | .iNeg => "ineg"
  | .lNeg => "lneg"
  | .fNeg => "fneg"
  | .dNeg => "dneg"
  | .iShl => "ishl"
  | .lShl => "lshl"
  | .iShr => "ishr"
  | .lShr => "lshr"
  | .iuShr => "iushr"
  | .luShr => "lushr"
  | .iAnd => "iand"
  | .lAnd => "land"
  | .iOr => "ior"
  | .lOr => "lor"
  | .iXor => "ixor"
  | .lXor => "lxor"
  | .iInc => "iinc"
  | .i2L => "i2l"
  | .i2F => "i2f"
  | .i2D => "i2d"
  | .l2I => "l2i"
  | .l2F => "l2f"
  | .l2D => "l2d"
  | .f2I => "f2i"
  | .f2L => "f2l"
  | .f2D => "f2d"
  | .d2I => "d2i"
  | .d2L => "d2l"
  | .d2F => "d2f"
  | .i2B => "i2b"
  | .i2C => "i2c"
  | .i2S => "i2s"
  | .lCmp => "lcmp"
  | .fCmpL => "fcmpl"
  | .fCmpG => "fcmpg"
  | .dCmpL => "dcmpl"
  | .dCmpG => "dcmpg"
  | .ifEq => "ifeq"
  | .ifNe => "ifne"
  | .ifLt => "iflt"
  | .ifGe => "ifge"
  | .ifGt => "ifgt"
  | .ifLe => "ifle"
  | .ifICmpEq => "ificmpeq"
  | .ifICmpNe => "ificmpne"
  | .ifICmpLt => "ificmplt"
  | .ifICmpGe => "ificmpge"
  | .ifICmpGt => "ificmpgt"
  | .ifICmpLe => "ificmple"
  | .ifACmpEq => "ifacmpeq"
  | .ifACmpNe => "ifacmpne"
  | .gotoNear => "goto"
  | .jsrNear => "jsr"
  | .ret => "ret"
  | .tableSwitch => "tableswitch"
  | .lookupSwitch => "lookupswitch"
  | .iReturn => "ireturn"
  | .lReturn => "lreturn"
  | .fReturn => "freturn"
  | .dReturn => "dreturn"
  | .aReturn => "areturn"
  | .returnVoid => "return"
  | .getStatic => "getstatic"
  | .putStatic => "putstatic"
  | .getField => "getfield"
  | .putField => "putfield"
  | .invokeVirtual => "invokevirtual"
  | .invokeSpecial => "invokespecial"
  | .invokeStatic => "invokestatic"
  | .invokeInterface => "invokeinterface"
  | .invokeDynamic => "invokedynamic"
  | .newObject => "new"
  | .newArray => "newarray"
  | .aNewArray => "anewarray"
  | .arrayLength => "arraylength"
  | .aThrow => "athrow"
  | .checkCast => "checkcast"
  | .instanceOf => "instanceof"
  | .monitorEnter => "monitorenter"
  | .monitorExit => "monitorexit"
  | .wide => "wide"
  | .multiANewArray => "multianewarray"
  | .ifNull => "ifnull"
  | .ifNonNull => "ifnonnull"
  | .gotoFar => "gotow"
  | .jsrFar => "jsrw"
  | .breakpoint => "breakpoint"
  | .impDep1 => "impdep1"
  | .impDep2 => "impdep2"

/-- Length in bytes of an instruction with this operation, unless it depends on
the operands. -/
def length? : Opcode → Option Nat
  | .tableSwitch | .lookupSwitch | .wide => none
  | .biPush | .ldc | .iLoad | .lLoad | .fLoad | .dLoad | .aLoad | .iStore | .lStore | .fStore
  | .dStore | .aStore | .ret | .newArray => some 2
  | .siPush | .ldcW | .ldc2W | .iInc | .ifEq | .ifNe | .ifLt | .ifGe | .ifGt | .ifLe | .ifICmpEq
  | .ifICmpNe | .ifICmpLt | .ifICmpGe | .ifICmpGt | .ifICmpLe | .ifACmpEq | .ifACmpNe
  | .gotoNear | .jsrNear | .getStatic | .putStatic | .getField | .putField | .invokeVirtual
  | .invokeSpecial | .invokeStatic | .newObject | .aNewArray | .checkCast | .instanceOf
  | .ifNull | .ifNonNull => some 3
  | .multiANewArray => some 4
  | .invokeInterface | .invokeDynamic | .gotoFar | .jsrFar => some 5
  | _ => some 1

/-- The operation with a mnemonic. -/
def ofMnemonic (name : String) : Option Opcode :=
  if name = Opcode.impDep1.mnemonic then some .impDep1
  else if name = Opcode.impDep2.mnemonic then some .impDep2
  else table.find? fun opcode => opcode.mnemonic == name

end Opcode

end Jvm
