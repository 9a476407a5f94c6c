import ClassFile.Code
import ClassFile.FileReader
import ClassFile.Pool.Resolve
import ClassFile.Verification.Method

/-! Stack map frames. Frames are written as changes to the frame before them, the first one as a change to
the frame that the method starts with; older class files write each frame in full and in any order. -/

namespace ClassFile

namespace VerificationType

/-- The type that frames give to values of a type. -/
def ofField (type : FieldType) : VerificationType :=
  if type.isArray then
    match ClassName.ofText? type.descriptor with
    | .ok name => .object name
    | .error _ => .top
  else
    match type.base with
    | .primitive .float => .float
    | .primitive .long => .long
    | .primitive .double => .double
    | .primitive _ => .integer
    | .object name => .object (ClassName.ofBinary name)

def read (pool : Pool) : FileReader VerificationType := do
  let tag ← Reader.u8
  match tag with
  | 0 => return .top
  | 1 => return .integer
  | 2 => return .float
  | 3 => return .double
  | 4 => return .long
  | 5 => return .null
  | 6 => return .uninitializedThis
  | 7 => return .object (← pool.classAt (← Reader.u16))
  | 8 => return .uninitialized (← Reader.u16)
  | tag => FileReader.failStructure (.verificationTag tag)

end VerificationType

/-- The types of the local variables that a method starts with: the receiver, which is not initialized yet
if the method is there to initialize it, and the parameters. -/
def MethodContext.initialLocals (method : MethodContext) : List VerificationType :=
  let parameters := method.descriptor.parameters.map VerificationType.ofField
  if method.isStatic then parameters
  else if method.name.isInit then .uninitializedThis :: parameters
  else .object method.owner :: parameters

/-- A frame as a change to the one before it. The delta is the number of bytes between the two. -/
inductive FrameForm where
  | same (delta : UInt16)
  | sameWithItem (delta : UInt16) (item : VerificationType)
  /-- The last locals are gone. -/
  | chop (count : Nat) (delta : UInt16)
  /-- Locals are added behind the others. -/
  | append (delta : UInt16) (types : List VerificationType)
  | full (delta : UInt16) (locals stack : List VerificationType)
  deriving DecidableEq

namespace FrameForm

/-- Reads the change of a kind. -/
def readKind (pool : Pool) (kind : UInt8) : FileReader FrameForm := do
  let type := VerificationType.read pool
  if kind < 64 then return .same kind.toUInt16
  else if kind < 128 then return .sameWithItem (kind - 64).toUInt16 (← type)
  else if kind < 247 then FileReader.failStructure (.frameKind kind)
  else
    let delta ← Reader.u16
    if kind = 247 then return .sameWithItem delta (← type)
    else if kind < 251 then return .chop (251 - kind.toNat) delta
    else if kind = 251 then return .same delta
    else if kind < 255 then return .append delta (← collect (kind.toNat - 251) type)
    else return .full delta (← Reader.list type) (← Reader.list type)

/-- Reads a change. -/
def read (pool : Pool) : FileReader FrameForm := do readKind pool (← Reader.u8)

/-- The number of bytes between a frame and the one before it. -/
def delta : FrameForm → UInt16
  | .same delta | .sameWithItem delta _ | .chop _ delta | .append delta _ | .full delta _ _ => delta

/-- The types of the locals after a change. -/
def localsAfter (previous : List VerificationType) :
    FrameForm → Except StructureFault (List VerificationType)
  | .same _ | .sameWithItem _ _ => .ok previous
  | .chop count _ =>
    if previous.length < count then .error (.chop count previous.length)
    else .ok (previous.take (previous.length - count))
  | .append _ types => .ok (previous ++ types)
  | .full _ types _ => .ok types

/-- The types on the stack after a change. -/
def stackAfter : FrameForm → List VerificationType
  | .same _ | .chop _ _ | .append _ _ => []
  | .sameWithItem _ item => [item]
  | .full _ _ stack => stack

end FrameForm

/-- Takes an offset of a frame, which has to lie within the code. -/
def frameOffset (codeLength : UInt16) (offset : Nat) : FileReader UInt16 :=
  if codeLength.toNat ≤ offset then
    FileReader.fail (.code (UInt16.ofNat (min offset 0xffff))
      (.exceedsCodeLength .frameOffset offset codeLength))
  else
    pure (UInt16.ofNat offset)

/-- The frames read so far, the last one first, the locals of the last one, and the least offset that the
next one can have. -/
structure FrameSequence where
  frames : List StackMapFrame
  locals : List VerificationType
  next : Nat

/-- Reads the next frame. -/
def FrameSequence.extend (pool : Pool) (codeLength : UInt16) (so : FrameSequence) :
    FileReader FrameSequence := do
  let form ← FrameForm.read pool
  match form.localsAfter so.locals with
  | .error fault => FileReader.failStructure fault
  | .ok locals =>
    let offset ← frameOffset codeLength (so.next + form.delta.toNat)
    return ⟨⟨offset, locals, form.stackAfter⟩ :: so.frames, locals, offset.toNat + 1⟩

/-- Reads frames that are written as changes. -/
def readFrames (pool : Pool) (initial : List VerificationType) (codeLength : UInt16) :
    FileReader (List StackMapFrame) := do
  let count ← Reader.u16
  let all ← iterate (FrameSequence.extend pool codeLength) ⟨[], initial, 0⟩ count.toNat
  return all.frames.reverse

/-- Reads a frame that is written in full. -/
def readFullFrame (pool : Pool) (codeLength : UInt16) : FileReader StackMapFrame := do
  let offset ← frameOffset codeLength (← Reader.u16).toNat
  let locals ← Reader.list (VerificationType.read pool)
  let stack ← Reader.list (VerificationType.read pool)
  return ⟨offset, locals, stack⟩

/-- The first offset that a frame shares with the one before it. -/
def sharedOffset? : List StackMapFrame → Option UInt16
  | a :: b :: rest => if a.offset = b.offset then some a.offset else sharedOffset? (b :: rest)
  | _ => none

/-- Reads frames that are written in full, and puts them in order. -/
def readFullFrames (pool : Pool) (codeLength : UInt16) : FileReader (List StackMapFrame) := do
  let frames ← Reader.list (readFullFrame pool codeLength)
  let sorted := frames.mergeSort fun a b => a.offset ≤ b.offset
  match sharedOffset? sorted with
  | some offset => FileReader.failStructure (.sameFrameOffset offset)
  | none => return sorted

end ClassFile
