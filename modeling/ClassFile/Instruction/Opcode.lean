import ClassFile.Instruction.Layout

/-! The opcodes: the mnemonic and the layout of each, and which of them a class file may use. Version 51
dropped the subroutines and introduced `invokedynamic`, which is not supported. -/

namespace ClassFile

/-- The class file versions that share a set of opcodes. -/
inductive Profile where
  /-- Subroutines are allowed, and `invokedynamic` is not known. -/
  | legacy
  | modern
  deriving DecidableEq, Repr

namespace Profile

/-- The first version of the modern profile. -/
def firstModernMajor : UInt16 := 51

def ofVersion (version : Version) : Profile :=
  if version.atLeast firstModernMajor then .modern else .legacy

def name : Profile → String
  | .legacy => "Legacy"
  | .modern => "Modern"

end Profile

/-- Why an opcode is never accepted. -/
inductive Rejection where
  /-- Set aside for the machine itself. -/
  | reserved
  | unknown
  | notYetSupported
  | notInVersion
  deriving DecidableEq, Repr

/-- What is known of an opcode. -/
structure Opcode where
  mnemonic : String
  length : InstructionLength
  layout : Except Rejection Layout

namespace Opcode

/-- The mnemonics and layouts of the opcodes, in the order of their numbers. The one opcode without a
layout is that of `invokedynamic`. -/
def table : Array (String × Option Layout) := #[
  ("nop", some (.plain .nop)),
  ("aconst_null", some (.plain (.constant .null))),
  ("iconst_m1", some (.plain (.constant (.int (-1))))),
  ("iconst_0", some (.plain (.constant (.int 0)))),
  ("iconst_1", some (.plain (.constant (.int 1)))),
  ("iconst_2", some (.plain (.constant (.int 2)))),
  ("iconst_3", some (.plain (.constant (.int 3)))),
  ("iconst_4", some (.plain (.constant (.int 4)))),
  ("iconst_5", some (.plain (.constant (.int 5)))),
  ("lconst_0", some (.plain (.constant (.long 0)))),
  ("lconst_1", some (.plain (.constant (.long 1)))),
  ("fconst_0", some (.plain (.constant (.float 0)))),
  ("fconst_1", some (.plain (.constant (.float 0x3f800000)))),
  ("fconst_2", some (.plain (.constant (.float 0x40000000)))),
  ("dconst_0", some (.plain (.constant (.double 0)))),
  ("dconst_1", some (.plain (.constant (.double 0x3ff0000000000000)))),
  ("bipush", some (.byteConstant)),
  ("sipush", some (.shortConstant)),
  ("ldc", some (.poolConstant false false)),
  ("ldc_w", some (.poolConstant true false)),
  ("ldc2_w", some (.poolConstant true true)),
  ("iload", some (.load .int)),
  ("lload", some (.load .long)),
  ("fload", some (.load .float)),
  ("dload", some (.load .double)),
  ("aload", some (.load .reference)),
  ("iload_0", some (.plain (.load .int 0))),
  ("iload_1", some (.plain (.load .int 1))),
  ("iload_2", some (.plain (.load .int 2))),
  ("iload_3", some (.plain (.load .int 3))),
  ("lload_0", some (.plain (.load .long 0))),
  ("lload_1", some (.plain (.load .long 1))),
  ("lload_2", some (.plain (.load .long 2))),
  ("lload_3", some (.plain (.load .long 3))),
  ("fload_0", some (.plain (.load .float 0))),
  ("fload_1", some (.plain (.load .float 1))),
  ("fload_2", some (.plain (.load .float 2))),
  ("fload_3", some (.plain (.load .float 3))),
  ("dload_0", some (.plain (.load .double 0))),
  ("dload_1", some (.plain (.load .double 1))),
  ("dload_2", some (.plain (.load .double 2))),
  ("dload_3", some (.plain (.load .double 3))),
  ("aload_0", some (.plain (.load .reference 0))),
  ("aload_1", some (.plain (.load .reference 1))),
  ("aload_2", some (.plain (.load .reference 2))),
  ("aload_3", some (.plain (.load .reference 3))),
  ("iaload", some (.plain (.arrayLoad .int))),
  ("laload", some (.plain (.arrayLoad .long))),
  ("faload", some (.plain (.arrayLoad .float))),
  ("daload", some (.plain (.arrayLoad .double))),
  ("aaload", some (.plain (.arrayLoad .reference))),
  ("baload", some (.plain (.arrayLoad .byteOrBoolean))),
  ("caload", some (.plain (.arrayLoad .char))),
  ("saload", some (.plain (.arrayLoad .short))),
  ("istore", some (.store .int)),
  ("lstore", some (.store .long)),
  ("fstore", some (.store .float)),
  ("dstore", some (.store .double)),
  ("astore", some (.store .reference)),
  ("istore_0", some (.plain (.store .int 0))),
  ("istore_1", some (.plain (.store .int 1))),
  ("istore_2", some (.plain (.store .int 2))),
  ("istore_3", some (.plain (.store .int 3))),
  ("lstore_0", some (.plain (.store .long 0))),
  ("lstore_1", some (.plain (.store .long 1))),
  ("lstore_2", some (.plain (.store .long 2))),
  ("lstore_3", some (.plain (.store .long 3))),
  ("fstore_0", some (.plain (.store .float 0))),
  ("fstore_1", some (.plain (.store .float 1))),
  ("fstore_2", some (.plain (.store .float 2))),
  ("fstore_3", some (.plain (.store .float 3))),
  ("dstore_0", some (.plain (.store .double 0))),
  ("dstore_1", some (.plain (.store .double 1))),
  ("dstore_2", some (.plain (.store .double 2))),
  ("dstore_3", some (.plain (.store .double 3))),
  ("astore_0", some (.plain (.store .reference 0))),
  ("astore_1", some (.plain (.store .reference 1))),
  ("astore_2", some (.plain (.store .reference 2))),
  ("astore_3", some (.plain (.store .reference 3))),
  ("iastore", some (.plain (.arrayStore .int))),
  ("lastore", some (.plain (.arrayStore .long))),
  ("fastore", some (.plain (.arrayStore .float))),
  ("dastore", some (.plain (.arrayStore .double))),
  ("aastore", some (.plain (.arrayStore .reference))),
  ("bastore", some (.plain (.arrayStore .byteOrBoolean))),
  ("castore", some (.plain (.arrayStore .char))),
  ("sastore", some (.plain (.arrayStore .short))),
  ("pop", some (.shuffle .pop)),
  ("pop2", some (.shuffle .pop2)),
  ("dup", some (.shuffle .dup)),
  ("dup_x1", some (.shuffle .dupX1)),
  ("dup_x2", some (.shuffle .dupX2)),
  ("dup2", some (.shuffle .dup2)),
  ("dup2_x1", some (.shuffle .dup2X1)),
  ("dup2_x2", some (.shuffle .dup2X2)),
  ("swap", some (.shuffle .swap)),
  ("iadd", some (.arithmetic .add .int)),
  ("ladd", some (.arithmetic .add .long)),
  ("fadd", some (.arithmetic .add .float)),
  ("dadd", some (.arithmetic .add .double)),
  ("isub", some (.arithmetic .sub .int)),
  ("lsub", some (.arithmetic .sub .long)),
  ("fsub", some (.arithmetic .sub .float)),
  ("dsub", some (.arithmetic .sub .double)),
  ("imul", some (.arithmetic .mul .int)),
  ("lmul", some (.arithmetic .mul .long)),
  ("fmul", some (.arithmetic .mul .float)),
  ("dmul", some (.arithmetic .mul .double)),
  ("idiv", some (.arithmetic .div .int)),
  ("ldiv", some (.arithmetic .div .long)),
  ("fdiv", some (.arithmetic .div .float)),
  ("ddiv", some (.arithmetic .div .double)),
  ("irem", some (.arithmetic .rem .int)),
  ("lrem", some (.arithmetic .rem .long)),
  ("frem", some (.arithmetic .rem .float)),
  ("drem", some (.arithmetic .rem .double)),
  ("ineg", some (.negate .int)),
  ("lneg", some (.negate .long)),
  ("fneg", some (.negate .float)),
  ("dneg", some (.negate .double)),
  ("ishl", some (.plain (.shift .left .int))),
  ("lshl", some (.plain (.shift .left .long))),
  ("ishr", some (.plain (.shift .right .int))),
  ("lshr", some (.plain (.shift .right .long))),
  ("iushr", some (.plain (.shift .unsignedRight .int))),
  ("lushr", some (.plain (.shift .unsignedRight .long))),
  ("iand", some (.plain (.bitwise .and .int))),
  ("land", some (.plain (.bitwise .and .long))),
  ("ior", some (.plain (.bitwise .or .int))),
  ("lor", some (.plain (.bitwise .or .long))),
  ("ixor", some (.plain (.bitwise .xor .int))),
  ("lxor", some (.plain (.bitwise .xor .long))),
  ("iinc", some (.increment)),
  ("i2l", some (.convert .int .long)),
  ("i2f", some (.convert .int .float)),
  ("i2d", some (.convert .int .double)),
  ("l2i", some (.convert .long .int)),
  ("l2f", some (.convert .long .float)),
  ("l2d", some (.convert .long .double)),
  ("f2i", some (.convert .float .int)),
  ("f2l", some (.convert .float .long)),
  ("f2d", some (.convert .float .double)),
  ("d2i", some (.convert .double .int)),
  ("d2l", some (.convert .double .long)),
  ("d2f", some (.convert .double .float)),
  ("i2b", some (.plain (.truncate .byte))),
  ("i2c", some (.plain (.truncate .char))),
  ("i2s", some (.plain (.truncate .short))),
  ("lcmp", some (.plain .longCompare)),
  ("fcmpl", some (.plain (.floatingCompare .float (-1)))),
  ("fcmpg", some (.plain (.floatingCompare .float 1))),
  ("dcmpl", some (.plain (.floatingCompare .double (-1)))),
  ("dcmpg", some (.plain (.floatingCompare .double 1))),
  ("ifeq", some (.jump (.ifZero .eq) false)),
  ("ifne", some (.jump (.ifZero .ne) false)),
  ("iflt", some (.jump (.ifZero .lt) false)),
  ("ifge", some (.jump (.ifZero .ge) false)),
  ("ifgt", some (.jump (.ifZero .gt) false)),
  ("ifle", some (.jump (.ifZero .le) false)),
  ("if_icmpeq", some (.jump (.ifIntCompare .eq) false)),
  ("if_icmpne", some (.jump (.ifIntCompare .ne) false)),
  ("if_icmplt", some (.jump (.ifIntCompare .lt) false)),
  ("if_icmpge", some (.jump (.ifIntCompare .ge) false)),
  ("if_icmpgt", some (.jump (.ifIntCompare .gt) false)),
  ("if_icmple", some (.jump (.ifIntCompare .le) false)),
  ("if_acmpeq", some (.jump (.ifReferenceCompare true) false)),
  ("if_acmpne", some (.jump (.ifReferenceCompare false) false)),
  ("goto", some (.jump .goto false)),
  ("jsr", some (.jump .jsr false)),
  ("ret", some (.ret)),
  ("tableswitch", some (.tableSwitch)),
  ("lookupswitch", some (.lookupSwitch)),
  ("ireturn", some (.plain (.returnValue (some .int)))),
  ("lreturn", some (.plain (.returnValue (some .long)))),
  ("freturn", some (.plain (.returnValue (some .float)))),
  ("dreturn", some (.plain (.returnValue (some .double)))),
  ("areturn", some (.plain (.returnValue (some .reference)))),
  ("return", some (.plain (.returnValue none))),
  ("getstatic", some (.field .getStatic)),
  ("putstatic", some (.field .putStatic)),
  ("getfield", some (.field .getField)),
  ("putfield", some (.field .putField)),
  ("invokevirtual", some (.invoke .virtual)),
  ("invokespecial", some (.invoke .special)),
  ("invokestatic", some (.invoke .static)),
  ("invokeinterface", some (.invoke .interface)),
  ("invokedynamic", none),
  ("new", some (.newObject)),
  ("newarray", some (.newArray)),
  ("anewarray", some (.newReferenceArray)),
  ("arraylength", some (.plain .arrayLength)),
  ("athrow", some (.plain .athrow)),
  ("checkcast", some (.checkCast)),
  ("instanceof", some (.instanceOf)),
  ("monitorenter", some (.plain .monitorEnter)),
  ("monitorexit", some (.plain .monitorExit)),
  ("wide", some (.wide)),
  ("multianewarray", some (.newMultiArray)),
  ("ifnull", some (.jump (.ifNull true) false)),
  ("ifnonnull", some (.jump (.ifNull false) false)),
  ("goto_w", some (.jump .goto true)),
  ("jsr_w", some (.jump .jsr true))]

/-- The layout that an opcode has in some version. -/
def layout? (byte : UInt8) : Option Layout := table[byte.toNat]?.bind (·.2)

/-- The length of `invokedynamic`. -/
def callSiteLength : InstructionLength := .fixed 5

/-- An opcode that is not in the table. -/
def outside (mnemonic : String) (rejection : Rejection) : Opcode :=
  ⟨mnemonic, .fixed 1, .error rejection⟩

/-- An opcode of the table, for the versions of a profile. -/
def ofRow (profile : Profile) : String × Option Layout → Opcode
  | (mnemonic, none) =>
    ⟨mnemonic, callSiteLength,
      .error (if profile = .legacy then .notInVersion else .notYetSupported)⟩
  | (mnemonic, some layout) =>
    ⟨mnemonic, layout.length,
      if layout.isSubroutine && profile = .modern then .error .notInVersion else .ok layout⟩

/-- The opcode with a number, for the versions of a profile. -/
def ofByte (profile : Profile) (byte : UInt8) : Opcode :=
  match table[byte.toNat]? with
  | some row => ofRow profile row
  | none =>
    if byte = 0xca then outside "breakpoint" .reserved
    else if byte = 0xfe then outside "impdep1" .reserved
    else if byte = 0xff then outside "impdep2" .reserved
    else outside "unknown" .unknown

/-- Whether instructions with an opcode can be accepted. -/
def isSupported (opcode : Opcode) : Bool :=
  match opcode.layout with
  | .ok _ => true
  | .error _ => false

end Opcode

instance : Outlined Opcode where
  outline opcode := .record "OpcodeEntry"
    [("mnemonic", .leaf (Text.quotedString opcode.mnemonic)), ("length", outline opcode.length),
      ("supported", outline opcode.isSupported)]

end ClassFile
