import ClassFile.Pool.Basic

/-! Resolving the entries of a pool into the values they stand for. Each function here resolves entries
of one kind and refuses all others at the index it was given; what such an entry refers to is checked at
the index that it names. -/

namespace ClassFile.Pool

/-- The fault of an entry that does not meet an expectation. -/
def misfit {α : Type} (index : UInt16) (expected : Expected) (entry : Entry) : Except Located α :=
  .error ⟨index, .wrongTag expected entry.tag⟩

/-- Finds a fault of content at an index. -/
def contentFault {α : Type} (index : UInt16) (content : Content) : Except Located α :=
  .error ⟨index, .invalidContent content⟩

/-- Takes a text that came from an index as a name. -/
def nameAt {α : Type} (index : UInt16) (result : Except NameFault α) : Except Located α :=
  result.mapError fun fault => ⟨index, .invalidContent (.name fault)⟩

/-- Takes a text that came from an index as a descriptor. -/
def descriptorAt {α : Type} (index : UInt16) (result : Except DescriptorFault α) :
    Except Located α :=
  result.mapError fun fault => ⟨index, .invalidContent (.descriptor fault)⟩

def utf8At (pool : Pool) (index : UInt16) : Except Located Text := do
  match ← pool.entry index with
  | .utf8 text => .ok text
  | entry => misfit index .utf8 entry

def classAt (pool : Pool) (index : UInt16) : Except Located ClassName := do
  match ← pool.entry index with
  | .classInfo name => descriptorAt name (ClassName.ofText? (← pool.utf8At name))
  | entry => misfit index .classInfo entry

/-- The string constant at an index. -/
def stringAt (pool : Pool) (index : UInt16) : Except Located Text := do
  match ← pool.entry index with
  | .string text => pool.utf8At text
  | entry => misfit index .string entry

/-- The name and the descriptor at an index. -/
def nameAndTypeAt (pool : Pool) (index : UInt16) : Except Located NameAndType := do
  match ← pool.entry index with
  | .nameAndType name descriptor =>
    let nameText ← pool.utf8At name
    let descriptorText ← pool.utf8At descriptor
    .ok ⟨nameText, name, descriptorText, descriptor⟩
  | entry => misfit index .nameAndType entry

def fieldNameOf (pair : NameAndType) : Except Located FieldName :=
  nameAt pair.nameIndex (FieldName.ofText? pair.name)

def methodNameOf (pair : NameAndType) : Except Located MethodName :=
  nameAt pair.nameIndex (MethodName.ofText? pair.name)

def fieldTypeOf (pair : NameAndType) : Except Located FieldType :=
  descriptorAt pair.descriptorIndex (FieldType.parse pair.descriptor)

def methodDescriptorOf (pair : NameAndType) : Except Located MethodDescriptor :=
  descriptorAt pair.descriptorIndex (MethodDescriptor.parse pair.descriptor)

/-- The field reference at an index. -/
def fieldAt (pool : Pool) (index : UInt16) : Except Located FieldRef := do
  match ← pool.entry index with
  | .fieldRef owner member =>
    let owner ← pool.classAt owner
    let pair ← pool.nameAndTypeAt member
    let name ← fieldNameOf pair
    let type ← fieldTypeOf pair
    .ok ⟨owner, name, type⟩
  | entry => misfit index .fieldRef entry

/-- The method reference made of two entries. Class initialization methods can't be referred to, and
instance initialization methods return nothing. -/
def methodOf (pool : Pool) (owner member : UInt16) (ofInterface : Bool) :
    Except Located MethodRef := do
  let owner ← pool.classAt owner
  let pair ← pool.nameAndTypeAt member
  let name ← methodNameOf pair
  let descriptor ← methodDescriptorOf pair
  if name.isClinit then
    contentFault pair.nameIndex .clinitReference
  else if name.isInit && !descriptor.returnType.isVoid then
    contentFault pair.descriptorIndex (.initReturns descriptor)
  else
    .ok ⟨owner, name, descriptor, ofInterface⟩

/-- The reference at an index to a method of a class or of an interface. -/
def methodAt (pool : Pool) (index : UInt16) : Except Located MethodRef := do
  match ← pool.entry index with
  | .methodRef owner member => pool.methodOf owner member false
  | .interfaceMethodRef owner member => pool.methodOf owner member true
  | entry => misfit index .anyMethodRef entry

/-- The reference at an index to a method of a class. -/
def classMethodAt (pool : Pool) (index : UInt16) : Except Located MethodRef := do
  match ← pool.entry index with
  | .methodRef owner member => pool.methodOf owner member false
  | entry => misfit index .methodRef entry

/-- The reference at an index to a method of an interface. -/
def interfaceMethodAt (pool : Pool) (index : UInt16) : Except Located MethodRef := do
  match ← pool.entry index with
  | .interfaceMethodRef owner member => pool.methodOf owner member true
  | entry => misfit index .interfaceMethodRef entry

/-- What a method handle of a kind refers to at an index. -/
def memberAt (pool : Pool) (kind : HandleKind) (index : UInt16) : Except Located MemberRef :=
  match kind with
  | .getField | .getStatic | .putField | .putStatic => .field <$> pool.fieldAt index
  | .invokeVirtual | .newInvokeSpecial => .method <$> pool.classMethodAt index
  | .invokeStatic | .invokeSpecial => .method <$> pool.methodAt index
  | .invokeInterface => .method <$> pool.interfaceMethodAt index

/-- Checks that a method handle refers to an instance initialization method exactly if it creates
instances. -/
def checkHandle (index : UInt16) (kind : HandleKind) : MemberRef → Except Located Unit
  | .field _ => .ok ()
  | .method ref =>
    if kind = .newInvokeSpecial then
      if ref.name.isInit then .ok () else contentFault index (.handleNeedsInit ref.name)
    else
      if ref.name.isInit then contentFault index (.handleOfInit kind) else .ok ()

def methodHandleAt (pool : Pool) (index : UInt16) : Except Located MethodHandle := do
  match ← pool.entry index with
  | .methodHandle number reference =>
    match HandleKind.ofNumber? number with
    | none => contentFault index (.handleNumber number)
    | some kind =>
      let member ← pool.memberAt kind reference
      checkHandle index kind member
      .ok ⟨kind, member⟩
  | entry => misfit index .methodHandle entry

def methodTypeAt (pool : Pool) (index : UInt16) : Except Located MethodDescriptor := do
  match ← pool.entry index with
  | .methodType text => descriptorAt text (MethodDescriptor.parse (← pool.utf8At text))
  | entry => misfit index .methodType entry

/-- The computed constant at an index. -/
def dynamicAt (pool : Pool) (index : UInt16) : Except Located DynamicRef := do
  match ← pool.entry index with
  | .dynamic bootstrap member =>
    let pair ← pool.nameAndTypeAt member
    let name ← fieldNameOf pair
    let type ← fieldTypeOf pair
    .ok ⟨bootstrap, name, type⟩
  | entry => misfit index .dynamic entry

/-- The computed call site at an index. Call sites have ordinary names. -/
def callSiteAt (pool : Pool) (index : UInt16) : Except Located CallSiteRef := do
  match ← pool.entry index with
  | .invokeDynamic bootstrap member =>
    let pair ← pool.nameAndTypeAt member
    let name ← methodNameOf pair
    if name.isInit || name.isClinit then
      contentFault pair.nameIndex (.callSiteName name)
    else
      let descriptor ← methodDescriptorOf pair
      .ok ⟨bootstrap, name, descriptor⟩
  | entry => misfit index .invokeDynamic entry

/-- The loadable constant at an index. -/
def loadableAt (pool : Pool) (index : UInt16) : Except Located Loadable := do
  match ← pool.entry index with
  | .integer value => .ok (.integer value)
  | .float bits => .ok (.float bits)
  | .long value => .ok (.long value)
  | .double bits => .ok (.double bits)
  | .string _ => .string <$> pool.stringAt index
  | .classInfo _ => .classInfo <$> pool.classAt index
  | .methodHandle _ _ => .methodHandle <$> pool.methodHandleAt index
  | .methodType _ => .methodType <$> pool.methodTypeAt index
  | .dynamic _ _ => .dynamic <$> pool.dynamicAt index
  | entry => misfit index .loadable entry

def constantAt (pool : Pool) (index : UInt16) : Except Located ConstantValue := do
  match ← pool.entry index with
  | .integer value => .ok (.integer value)
  | .float bits => .ok (.float bits)
  | .long value => .ok (.long value)
  | .double bits => .ok (.double bits)
  | .string _ => .string <$> pool.stringAt index
  | entry => misfit index .constant entry

/-- Resolves an index where zero stands for nothing. -/
def optional {α : Type} (resolve : UInt16 → Except Located α) (index : UInt16) :
    Except Located (Option α) :=
  if index = 0 then .ok none else some <$> resolve index

end ClassFile.Pool
