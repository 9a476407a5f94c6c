import ClassFile.Error
import ClassFile.Pool.Resolve

/-! Validity of a constant pool as a whole: no index is vacant, no entry refers to itself, and everything
that an entry refers to exists, is of the right kind and has valid content. -/

namespace ClassFile.Pool

/-- The first version in which method handles may invoke static and private methods of interfaces. -/
def interfaceHandleMajor : UInt16 := 52

/-- Checks that a version allows a method handle to refer to a method of an interface. -/
def checkInterfaceHandle (version : Version) (reference : UInt16) (handle : MethodHandle) :
    Except Located Unit :=
  match handle.member with
  | .field _ => .ok ()
  | .method ref =>
    if ref.ofInterface && !version.atLeast interfaceHandleMajor
        && (handle.kind = .invokeStatic || handle.kind = .invokeSpecial) then
      contentFault reference .interfaceHandle
    else
      .ok ()

/-- Checks that the descriptor of a name and type is one, be it of a field or of a method. -/
def checkDescriptor (pair : NameAndType) : Except Located Unit :=
  if pair.descriptor.startsWith '(' then discard (methodDescriptorOf pair)
  else discard (fieldTypeOf pair)

/-- Checks what the entry at an index refers to. -/
def checkEntry (pool : Pool) (version : Version) (index : UInt16) : Entry → Except Located Unit
  | .utf8 _ | .integer _ | .float _ | .long _ | .double _ => .ok ()
  | .classInfo _ => discard (pool.classAt index)
  | .string text => discard (pool.utf8At text)
  | .fieldRef _ _ => discard (pool.fieldAt index)
  | .methodRef _ _ => discard (pool.methodAt index)
  | .interfaceMethodRef _ _ => discard (pool.interfaceMethodAt index)
  | .nameAndType _ _ => do checkDescriptor (← pool.nameAndTypeAt index)
  | .methodHandle _ reference => do
    checkInterfaceHandle version reference (← pool.methodHandleAt index)
  | .methodType _ => discard (pool.methodTypeAt index)
  | .dynamic _ _ => discard (pool.dynamicAt index)
  | .invokeDynamic _ _ => discard (pool.callSiteAt index)
  | .moduleInfo name | .packageInfo name => discard (pool.utf8At name)

/-- Checks what an index of a pool holds. -/
def checkSlot (pool : Pool) (version : Version) (index : UInt16) : Slot → Except Error Unit
  | .phantom => .ok ()
  | .vacant => .error ⟨[], .pool ⟨index, .vacant⟩⟩
  | .entry entry =>
    if entry.references.contains index then .error ⟨[], .pool ⟨index, .selfReference⟩⟩
    else
      (pool.checkEntry version index entry).mapError fun located =>
        ⟨[.validatingEntry index entry.tag], .pool located⟩

/-- Checks a pool of a class file of a version, index by index. -/
def validate (pool : Pool) (version : Version) : Except Error Unit :=
  pool.indexed.tail.forM fun (index, slot) => pool.checkSlot version index slot

end ClassFile.Pool
