import ClassFile.Code.Lines
import ClassFile.Verification.Machine

/-! What the verification of a method starts from, and what that tells about single offsets: the frame that
is given for an offset, and the exception that is caught there. -/

namespace ClassFile

/-- What verification starts from: the method, the limits of its code, and the tables beside it. -/
structure Premises where
  method : MethodContext
  maxStack : UInt16
  maxLocals : UInt16
  handlers : List ExceptionHandler
  lines : LineIndex
  localVariables : List LocalVariable
  frames : List StackMapFrame

/-- What a path brings to an instruction: the items on the stack, the top one first, and the local
variables. -/
structure Arrival where
  items : List StackItem
  locals : Locals
  deriving DecidableEq

/-- The category of the values of a type on the stack of a frame. -/
def VerificationType.stackCategory : VerificationType → Category
  | .integer => .int
  | .float => .float
  | .long => .long
  | .double => .double
  | _ => .reference

/-- The categories on the stack of a frame, from the bottom up. -/
def StackMapFrame.shape (frame : StackMapFrame) : List Category :=
  frame.stack.map VerificationType.stackCategory

namespace Premises

/-- The frame that is given for an offset. -/
def frameAt? (p : Premises) (pc : UInt16) : Option StackMapFrame :=
  p.frames.find? fun frame => frame.offset = pc

/-- What a frame says about its offset. -/
def arrivalOf (p : Premises) (frame : StackMapFrame) : Except CodeFault Arrival := do
  let items ← frame.stack.mapM (StackItem.ofVerificationType · frame.offset)
  let locals ← Locals.ofFrame p.maxLocals frame.locals
  .ok ⟨items.reverse, locals⟩

/-- The types of the exceptions that are caught at an offset, with none for the handlers of everything. -/
def catchTypesAt (p : Premises) (pc : UInt16) : List (Option FieldType) :=
  (p.handlers.filter fun handler => handler.handler = pc).map fun handler =>
    handler.catchType.map ClassName.type

/-- Whether exceptions are caught at an offset. -/
def isHandler (p : Premises) (pc : UInt16) : Bool := !(p.catchTypesAt pc).isEmpty

/-- The exception that is caught at an offset. Its type is known if all handlers there agree. -/
def caughtAt? (p : Premises) (pc : UInt16) : Option StackItem :=
  match p.catchTypesAt pc with
  | [] => none
  | type :: rest =>
    some (.ofObject (if rest.all (· = type) then type else none) ⟨pc, .caughtException⟩)

/-- What an offset starts with if no path to it is known: the exception that is caught there, or
nothing. -/
def unknownArrival (p : Premises) (pc : UInt16) : Arrival :=
  ⟨(p.caughtAt? pc).toList, Locals.unknown p.maxLocals⟩

end Premises

end ClassFile
