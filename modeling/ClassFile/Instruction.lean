import ClassFile.Pool.Value

/-! Decoded instructions. Instructions are grouped into families; what the opcode fixes, such as the type
that is worked on or the comparison, is part of the instruction. Branch targets are offsets from the
start of the code. -/

namespace ClassFile

/-- The kinds of values that arithmetic works on. -/
inductive NumericKind where
  | int | long | float | double
  deriving DecidableEq, Repr

namespace NumericKind

/-- The kinds of numbers in the order of their opcodes. -/
def all : List NumericKind := [.int, .long, .float, .double]

/-- The category of numbers of a kind. -/
def category : NumericKind → Category
  | .int => .int
  | .long => .long
  | .float => .float
  | .double => .double

/-- The kind of numbers that the values of a primitive type are computed as. -/
def ofPrimitive : Primitive → NumericKind
  | .byte | .char | .int | .short | .boolean => .int
  | .double => .double
  | .float => .float
  | .long => .long

/-- Whether arithmetic on this kind rounds, so that strictness makes a difference. -/
def isFloating : NumericKind → Bool
  | .float | .double => true
  | .int | .long => false

/-- The name of a kind of numbers. -/
def name : NumericKind → String
  | .int => "Int"
  | .long => "Long"
  | .float => "Float"
  | .double => "Double"

theorem category_ofPrimitive (p : Primitive) : (ofPrimitive p).category = p.category := by
  cases p <;> rfl

end NumericKind

/-- The kinds of values that are loaded, stored and returned. -/
inductive ValueKind where
  | int | long | float | double | reference
  deriving DecidableEq, Repr

namespace ValueKind

/-- The kinds of values in the order of their opcodes. -/
def all : List ValueKind := [.int, .long, .float, .double, .reference]

def category : ValueKind → Category
  | .int => .int
  | .long => .long
  | .float => .float
  | .double => .double
  | .reference => .reference

/-- The kind of numbers that values of a kind are, unless they are references. -/
def numeric? : ValueKind → Option NumericKind
  | .int => some .int
  | .long => some .long
  | .float => some .float
  | .double => some .double
  | .reference => none

def name : ValueKind → String
  | .int => "Int"
  | .long => "Long"
  | .float => "Float"
  | .double => "Double"
  | .reference => "Reference"

end ValueKind

/-- The kinds of array elements. One kind stands for both bytes and booleans. -/
inductive ElementKind where
  | int | long | float | double | reference | byteOrBoolean | char | short
  deriving DecidableEq, Repr

namespace ElementKind

/-- The kinds of array elements in the order of their opcodes. -/
def all : List ElementKind :=
  [.int, .long, .float, .double, .reference, .byteOrBoolean, .char, .short]

/-- The category of elements of a kind on the operand stack. -/
def category : ElementKind → Category
  | .long => .long
  | .float => .float
  | .double => .double
  | .reference => .reference
  | .int | .byteOrBoolean | .char | .short => .int

/-- The kind of numbers that elements of a kind are computed as, unless they are references. -/
def numeric? : ElementKind → Option NumericKind
  | .long => some .long
  | .float => some .float
  | .double => some .double
  | .reference => none
  | .int | .byteOrBoolean | .char | .short => some .int

/-- The name of a kind of array elements. -/
def name : ElementKind → String
  | .int => "Int"
  | .long => "Long"
  | .float => "Float"
  | .double => "Double"
  | .reference => "Reference"
  | .byteOrBoolean => "ByteOrBoolean"
  | .char => "Char"
  | .short => "Short"

/-- The kind of elements of a primitive type. -/
def ofPrimitive : Primitive → ElementKind
  | .byte | .boolean => .byteOrBoolean
  | .char => .char
  | .double => .double
  | .float => .float
  | .int => .int
  | .long => .long
  | .short => .short

def ofType (t : FieldType) : ElementKind :=
  if t.isArray then .reference
  else
    match t.base with
    | .object _ => .reference
    | .primitive kind => ofPrimitive kind

end ElementKind

/-- The constants that an instruction carries itself. -/
inductive Constant where
  | null
  | int (value : Int32)
  | long (value : Int64)
  | float (bits : UInt32)
  | double (bits : UInt64)
  deriving DecidableEq

def Constant.category : Constant → Category
  | .null => .reference
  | .int _ => .int
  | .long _ => .long
  | .float _ => .float
  | .double _ => .double

/-- The operations of arithmetic. -/
inductive ArithmeticOp where
  | add | sub | mul | div | rem
  deriving DecidableEq, Repr

/-- The arithmetic operations in the order of their opcodes. -/
def ArithmeticOp.all : List ArithmeticOp := [.add, .sub, .mul, .div, .rem]

/-- The name of an arithmetic operation. -/
def ArithmeticOp.name : ArithmeticOp → String
  | .add => "Add"
  | .sub => "Sub"
  | .mul => "Mul"
  | .div => "Div"
  | .rem => "Rem"

/-- The shifts. -/
inductive ShiftOp where
  | left | right | unsignedRight
  deriving DecidableEq, Repr

/-- The shifts in the order of their opcodes. -/
def ShiftOp.all : List ShiftOp := [.left, .right, .unsignedRight]

def ShiftOp.name : ShiftOp → String
  | .left => "Left"
  | .right => "Right"
  | .unsignedRight => "UnsignedRight"

/-- The bitwise operations. -/
inductive BitwiseOp where
  | and | or | xor
  deriving DecidableEq, Repr

/-- The bitwise operations in the order of their opcodes. -/
def BitwiseOp.all : List BitwiseOp := [.and, .or, .xor]

/-- The name of a bitwise operation. -/
def BitwiseOp.name : BitwiseOp → String
  | .and => "And"
  | .or => "Or"
  | .xor => "Xor"

/-- The conditions of conditional branches. -/
inductive Condition where
  | eq | ne | lt | ge | gt | le
  deriving DecidableEq, Repr

/-- The conditions in the order of their opcodes. -/
def Condition.all : List Condition := [.eq, .ne, .lt, .ge, .gt, .le]

def Condition.name : Condition → String
  | .eq => "Eq"
  | .ne => "Ne"
  | .lt => "Lt"
  | .ge => "Ge"
  | .gt => "Gt"
  | .le => "Le"

/-- The kinds of method invocations. -/
inductive InvokeKind where
  | virtual | special | static | interface
  deriving DecidableEq, Repr

/-- The name of a kind of invocations. -/
def InvokeKind.name : InvokeKind → String
  | .virtual => "Virtual"
  | .special => "Special"
  | .static => "Static"
  | .interface => "Interface"

/-- Dropping two slots drops two narrow items or a wide one. -/
inductive Pop2Form where
  | twoNarrow | oneWide
  deriving DecidableEq, Repr

/-- `form1` copies a narrow item below two narrow ones, `form2` below a wide one. -/
inductive DupX2Form where
  | form1 | form2
  deriving DecidableEq, Repr

/-- `form1` copies two narrow items, `form2` a wide one. -/
inductive Dup2Form where
  | form1 | form2
  deriving DecidableEq, Repr

/-- `form1` copies two narrow items below a narrow one, `form2` a wide one below a narrow one. -/
inductive Dup2X1Form where
  | form1 | form2
  deriving DecidableEq, Repr

/-- `form1` copies two narrow items below two narrow ones, `form2` a wide one below two narrow ones,
`form3` two narrow ones below a wide one and `form4` a wide one below a wide one. -/
inductive Dup2X2Form where
  | form1 | form2 | form3 | form4
  deriving DecidableEq, Repr

def Pop2Form.name : Pop2Form → String
  | .twoNarrow => "TwoCategory1"
  | .oneWide => "OneCategory2"

def DupX2Form.name : DupX2Form → String
  | .form1 => "Form1"
  | .form2 => "Form2"

def Dup2Form.name : Dup2Form → String
  | .form1 => "Form1"
  | .form2 => "Form2"

def Dup2X1Form.name : Dup2X1Form → String
  | .form1 => "Form1"
  | .form2 => "Form2"

def Dup2X2Form.name : Dup2X2Form → String
  | .form1 => "Form1"
  | .form2 => "Form2"
  | .form3 => "Form3"
  | .form4 => "Form4"

/-- The instructions that rearrange the operand stack, with the form that the items on it chose. -/
inductive Shuffle where
  | pop
  | pop2 (form : Pop2Form)
  | dup
  | dupX1
  | dupX2 (form : DupX2Form)
  | dup2 (form : Dup2Form)
  | dup2X1 (form : Dup2X1Form)
  | dup2X2 (form : Dup2X2Form)
  | swap
  deriving DecidableEq, Repr

/-- A decoded instruction. Where arithmetic rounds, `strict` tells whether it does so strictly. -/
inductive Instruction where
  | nop
  | constant (value : Constant)
  | ldc (value : Loadable)
  | load (kind : ValueKind) (index : UInt16)
  | store (kind : ValueKind) (index : UInt16)
  | arrayLoad (kind : ElementKind)
  | arrayStore (kind : ElementKind)
  | shuffle (op : Shuffle)
  | arithmetic (op : ArithmeticOp) (kind : NumericKind) (strict : Bool)
  | negate (kind : NumericKind) (strict : Bool)
  | shift (op : ShiftOp) (kind : NumericKind)
  | bitwise (op : BitwiseOp) (kind : NumericKind)
  | increment (index : UInt16) (delta : Int16)
  | convert (source target : NumericKind) (strict : Bool)
  | truncate (kind : Primitive)
  | longCompare
  /-- `nanResult` is pushed if one of the values is not a number. -/
  | floatingCompare (kind : NumericKind) (nanResult : Int8)
  | ifZero (condition : Condition) (target : UInt16)
  | ifIntCompare (condition : Condition) (target : UInt16)
  | ifReferenceCompare (equal : Bool) (target : UInt16)
  | ifNull (null : Bool) (target : UInt16)
  | goto (target : UInt16)
  | jsr (target : UInt16)
  | ret (index : UInt16)
  | tableSwitch (default : UInt16) (low high : Int32) (targets : List UInt16)
  | lookupSwitch (default : UInt16) (pairs : List (Int32 × UInt16))
  | returnValue (kind : Option ValueKind)
  | getStatic (field : FieldRef)
  | putStatic (field : FieldRef)
  | getField (field : FieldRef)
  | putField (field : FieldRef)
  | invoke (kind : InvokeKind) (method : MethodRef)
  | newObject (type : ClassName)
  | newArray (element : Primitive)
  | newReferenceArray (element : ClassName)
  | arrayLength
  | athrow
  | checkCast (type : ClassName)
  | instanceOf (type : ClassName)
  | monitorEnter
  | monitorExit
  | newMultiArray (type : ClassName) (dimensions : UInt8)
  deriving DecidableEq

namespace Instruction

/-- The offsets that an instruction may transfer control to, other than the next instruction. -/
def branchTargets : Instruction → List UInt16
  | .ifZero _ target | .ifIntCompare _ target | .ifReferenceCompare _ target | .ifNull _ target
  | .goto target | .jsr target => [target]
  | .tableSwitch default _ _ targets => default :: targets
  | .lookupSwitch default pairs => default :: pairs.map (·.2)
  | _ => []

/-- Whether control never continues with the next instruction. -/
def isTransfer : Instruction → Bool
  | .goto _ | .ret _ | .tableSwitch _ _ _ _ | .lookupSwitch _ _ | .returnValue _ | .athrow => true
  | _ => false

/-- Whether this calls a subroutine, which comes back to the next instruction. -/
def isSubroutineCall : Instruction → Bool
  | .jsr _ => true
  | _ => false

end Instruction

def returnMnemonic : Option ValueKind → String
  | none => "return"
  | some .int => "ireturn"
  | some .long => "lreturn"
  | some .float => "freturn"
  | some .double => "dreturn"
  | some .reference => "areturn"

instance : Outlined Constant where
  outline
    | .null => .leaf "Null"
    | .int value => .node "Int" [outline value]
    | .long value => .node "Long" [outline value]
    | .float bits => .node "Float" [outline bits]
    | .double bits => .node "Double" [outline bits]

instance : Outlined Shuffle where
  outline
    | .pop => .leaf "Pop"
    | .pop2 form => .node "Pop2" [.leaf form.name]
    | .dup => .leaf "Dup"
    | .dupX1 => .leaf "DupX1"
    | .dupX2 form => .node "DupX2" [.leaf form.name]
    | .dup2 form => .node "Dup2" [.leaf form.name]
    | .dup2X1 form => .node "Dup2X1" [.leaf form.name]
    | .dup2X2 form => .node "Dup2X2" [.leaf form.name]
    | .swap => .leaf "Swap"

instance : Outlined Instruction where
  outline
    | .nop => .leaf "Nop"
    | .constant value => .node "Constant" [outline value]
    | .ldc value => .node "Ldc" [outline value]
    | .load kind index => .record "Load" [("kind", .leaf kind.name), ("index", outline index)]
    | .store kind index => .record "Store" [("kind", .leaf kind.name), ("index", outline index)]
    | .arrayLoad kind => .node "ArrayLoad" [.leaf kind.name]
    | .arrayStore kind => .node "ArrayStore" [.leaf kind.name]
    | .shuffle op => .node "Stack" [outline op]
    | .arithmetic op kind strict => .record "Arithmetic"
      [("op", .leaf op.name), ("kind", .leaf kind.name), ("strict", outline strict)]
    | .negate kind strict => .record "Negate"
      [("kind", .leaf kind.name), ("strict", outline strict)]
    | .shift op kind => .record "Shift" [("op", .leaf op.name), ("kind", .leaf kind.name)]
    | .bitwise op kind => .record "Bitwise" [("op", .leaf op.name), ("kind", .leaf kind.name)]
    | .increment index delta => .record "Increment"
      [("index", outline index), ("delta", outline delta)]
    | .convert source target strict => .record "Convert"
      [("from", .leaf source.name), ("to", .leaf target.name), ("strict", outline strict)]
    | .truncate kind => .node "Truncate" [outline kind]
    | .longCompare => .leaf "LongCompare"
    | .floatingCompare kind nanResult => .record "FloatingCompare"
      [("kind", .leaf kind.name), ("nan_result", outline nanResult)]
    | .ifZero condition target => .record "If"
      [("condition", .leaf condition.name), ("target", outline target)]
    | .ifIntCompare condition target => .record "IfIntCompare"
      [("condition", .leaf condition.name), ("target", outline target)]
    | .ifReferenceCompare equal target => .record "IfReferenceCompare"
      [("equal", outline equal), ("target", outline target)]
    | .ifNull null target => .record "IfNull" [("null", outline null), ("target", outline target)]
    | .goto target => .record "Goto" [("target", outline target)]
    | .jsr target => .record "Jsr" [("target", outline target)]
    | .ret index => .record "Ret" [("index", outline index)]
    | .tableSwitch default low high targets => .record "TableSwitch"
      [("default", outline default), ("low", outline low), ("high", outline high),
        ("targets", outline targets)]
    | .lookupSwitch default pairs => .record "LookupSwitch"
      [("default", outline default), ("pairs", outline pairs)]
    | .returnValue kind =>
      .node "Return" [match kind with
        | none => .leaf "None"
        | some kind => .node "Some" [.leaf kind.name]]
    | .getStatic field => .node "GetStatic" [outline field]
    | .putStatic field => .node "PutStatic" [outline field]
    | .getField field => .node "GetField" [outline field]
    | .putField field => .node "PutField" [outline field]
    | .invoke kind method => .record "Invoke"
      [("kind", .leaf kind.name), ("method", outline method)]
    | .newObject type => .node "New" [outline type]
    | .newArray element => .node "NewArray" [outline element]
    | .newReferenceArray element => .node "ANewArray" [outline element]
    | .arrayLength => .leaf "ArrayLength"
    | .athrow => .leaf "AThrow"
    | .checkCast type => .node "CheckCast" [outline type]
    | .instanceOf type => .node "InstanceOf" [outline type]
    | .monitorEnter => .leaf "MonitorEnter"
    | .monitorExit => .leaf "MonitorExit"
    | .newMultiArray type dimensions => .record "MultiANewArray"
      [("class", outline type), ("dimensions", outline dimensions)]

end ClassFile
