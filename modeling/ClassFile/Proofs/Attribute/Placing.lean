import ClassFile.Proofs.Attribute.Order
import ClassFile.Proofs.Attribute.Placeless

/-! What each attribute of fields, methods, types and code changes. Attributes with different names change
different parts, except for the two that hold stack map frames, of which only one may be there. -/

namespace ClassFile

open FileReader Reader

theorem Placing.once_add {α β : Type} [Outlined β] (get : α → Option β) (set : α → Option β → α)
    (attributes : List Attribute) (reader : FileReader β) (so : α) :
    (Placing.once get set attributes reader).add so = (do
      let value ← reader
      return set so (← fillOnce attributes (get so) value)) := by
  unfold Placing.add Placing.once
  rw [bind_assoc]

theorem Placing.extending_add {α β : Type} (get : α → List β) (set : α → List β → α)
    (reader : FileReader (List β)) (so : α) :
    (Placing.extending get set reader).add so = (do return set so (get so ++ (← reader))) := by
  unfold Placing.add Placing.extending
  rw [bind_assoc]
  rfl

namespace FieldDecl

/-- What the attributes of a field change. A constant value is checked against the type of the field, which
none of them changes. -/
def placing (pool : Pool) : Attribute → Placing FieldDecl
  | .constantValue =>
    { Held := FieldType × Option ConstantValue
      get := fun so => (so.type, so.constantValue)
      set := fun so held => { so with constantValue := held.2 }
      change := fun held => do
        let value ← readConstant pool held.1
        return (held.1, ← fillOnce [.constantValue] held.2 value) }
  | .signature =>
    .once signature (fun so signature => { so with signature }) [.signature]
      (do FileReader.ofPool (pool.utf8At (← u16)))
  | .synthetic => .mark isSynthetic fun so isSynthetic => { so with isSynthetic }
  | .deprecated => .mark isDeprecated fun so isDeprecated => { so with isDeprecated }
  | _ => .ignored

theorem add_eq (pool : Pool) (so : FieldDecl) (found : Attribute) :
    add pool so found = (placing pool found).add so := by
  cases found with
  | constantValue =>
      unfold add placing Placing.add
      simp only [bind_assoc, pure_bind]
  | signature =>
      unfold add placing
      rw [Placing.once_add, bind_assoc]
      rfl
  | _ => rfl

theorem exchange (pool : Pool) (a b : Attribute) (h : a ≠ b) :
    (placing pool a).Exchange (placing pool b) := by
  refine Placing.Apart.exchange ?_
  unfold placing
  split <;> split
  all_goals try exact (h rfl).elim
  all_goals exact ⟨fun _ _ => rfl, fun _ _ => rfl, fun _ _ _ => rfl⟩

end FieldDecl

namespace MethodAttributes

/-- Reads the code of a method that has some. -/
def readCode (pool : Pool) (method : MethodContext) (hasCode keepBytes : Bool) : FileReader Code := do
  if !hasCode then FileReader.failStructure .unexpectedCode
  Code.read pool method keepBytes

/-- What the attributes of a method change. -/
def placing (pool : Pool) (method : MethodContext) (hasCode keepBytes : Bool) :
    Attribute → Placing MethodAttributes
  | .code =>
    .once code (fun so code => { so with code }) [.code] (readCode pool method hasCode keepBytes)
  | .exceptions =>
    .once exceptions (fun so exceptions => { so with exceptions }) [.exceptions]
      (list (do FileReader.ofPool (pool.classAt (← u16))))
  | .signature =>
    .once signature (fun so signature => { so with signature }) [.signature]
      (do FileReader.ofPool (pool.utf8At (← u16)))
  | .synthetic => .mark isSynthetic fun so isSynthetic => { so with isSynthetic }
  | .deprecated => .mark isDeprecated fun so isDeprecated => { so with isDeprecated }
  | _ => .ignored

variable (pool : Pool) (method : MethodContext) (hasCode keepBytes : Bool)

theorem add_eq (so : MethodAttributes) (found : Attribute) :
    add pool method hasCode keepBytes so found = (placing pool method hasCode keepBytes found).add so := by
  cases found with
  | code =>
      unfold add placing
      rw [Placing.once_add]
      cases hasCode <;> rfl
  | exceptions =>
      unfold add placing
      rw [Placing.once_add]
      rfl
  | signature =>
      unfold add placing
      rw [Placing.once_add, bind_assoc]
      rfl
  | _ => rfl

theorem exchange (a b : Attribute) (h : a ≠ b) :
    (placing pool method hasCode keepBytes a).Exchange (placing pool method hasCode keepBytes b) := by
  refine Placing.Apart.exchange ?_
  unfold placing
  split <;> split
  all_goals try exact (h rfl).elim
  all_goals exact ⟨fun _ _ => rfl, fun _ _ => rfl, fun _ _ _ => rfl⟩

end MethodAttributes

namespace TypeAttributes

/-- What the attributes of a type change. -/
def placing (pool : Pool) : Attribute → Placing TypeAttributes
  | .sourceFile =>
    .once sourceFile (fun so sourceFile => { so with sourceFile }) [.sourceFile]
      (do FileReader.ofPool (pool.utf8At (← u16)))
  | .signature =>
    .once signature (fun so signature => { so with signature }) [.signature]
      (do FileReader.ofPool (pool.utf8At (← u16)))
  | .innerClasses =>
    .once innerClasses (fun so innerClasses => { so with innerClasses }) [.innerClasses]
      (list (InnerClass.read pool))
  | .enclosingMethod =>
    .once enclosingMethod (fun so enclosingMethod => { so with enclosingMethod }) [.enclosingMethod]
      (EnclosingMethod.read pool)
  | .bootstrapMethods =>
    .once bootstrapMethods (fun so bootstrapMethods => { so with bootstrapMethods }) [.bootstrapMethods]
      (list (BootstrapMethod.read pool))
  | .nestHost =>
    .once nestHost (fun so nestHost => { so with nestHost }) [.nestHost]
      (do FileReader.ofPool (pool.classAt (← u16)))
  | .nestMembers =>
    .once nestMembers (fun so nestMembers => { so with nestMembers }) [.nestMembers] (readClasses pool)
  | .permittedSubclasses =>
    .once permittedSubclasses (fun so permittedSubclasses => { so with permittedSubclasses })
      [.permittedSubclasses] (readClasses pool)
  | .synthetic => .mark isSynthetic fun so isSynthetic => { so with isSynthetic }
  | .deprecated => .mark isDeprecated fun so isDeprecated => { so with isDeprecated }
  | _ => .ignored

theorem add_eq (pool : Pool) (so : TypeAttributes) (found : Attribute) :
    add pool so found = (placing pool found).add so := by
  cases found with
  | sourceFile | signature | nestHost =>
      unfold add placing
      rw [Placing.once_add, bind_assoc]
      rfl
  | innerClasses | enclosingMethod | bootstrapMethods | nestMembers | permittedSubclasses =>
      unfold add placing
      rw [Placing.once_add]
  | _ => rfl

theorem exchange (pool : Pool) (a b : Attribute) (h : a ≠ b) :
    (placing pool a).Exchange (placing pool b) := by
  refine Placing.Apart.exchange ?_
  unfold placing
  split <;> split
  all_goals try exact (h rfl).elim
  all_goals exact ⟨fun _ _ => rfl, fun _ _ => rfl, fun _ _ _ => rfl⟩

end TypeAttributes

namespace CodeAttributes

/-- What the attributes of code change. -/
def placing (pool : Pool) (method : MethodContext) (codeLength : UInt16) :
    Attribute → Placing CodeAttributes
  | .lineNumberTable => .extending lines (fun so lines => { so with lines }) (list LineNumber.read)
  | .localVariableTable =>
    .extending localVariables (fun so localVariables => { so with localVariables })
      (within (.variableTable .localVariableTable) (list (LocalVariable.read pool)))
  | .localVariableTypeTable =>
    .extending signatures (fun so signatures => { so with signatures })
      (within (.variableTable .localVariableTypeTable) (list (VariableSignature.read pool)))
  | .stackMapTable =>
    .once frames (fun so frames => { so with frames }) frameAttributes
      (readFrames pool method.initialLocals codeLength)
  | .stackMap =>
    .once frames (fun so frames => { so with frames }) frameAttributes (readFullFrames pool codeLength)
  | _ => .ignored

variable (pool : Pool) (method : MethodContext) (codeLength : UInt16)

theorem add_eq (so : CodeAttributes) (found : Attribute) :
    add pool method codeLength so found = (placing pool method codeLength found).add so := by
  cases found with
  | lineNumberTable | localVariableTable | localVariableTypeTable =>
      unfold add placing
      rw [Placing.extending_add]
  | stackMapTable | stackMap =>
      unfold add placing
      rw [Placing.once_add]
      rfl
  | _ => rfl

theorem exchange (a b : Attribute) (h : a ≠ b) :
    (placing pool method codeLength a).Exchange (placing pool method codeLength b) := by
  by_cases hframes : a ∈ frameAttributes ∧ b ∈ frameAttributes
  · simp only [frameAttributes, List.mem_cons, List.not_mem_nil, or_false] at hframes
    obtain ⟨rfl | rfl, rfl | rfl⟩ := hframes
    · exact (h rfl).elim
    · exact Placing.exchange_once (fun _ _ => rfl) _ _ _
    · exact Placing.exchange_once (fun _ _ => rfl) _ _ _
    · exact (h rfl).elim
  · refine Placing.Apart.exchange ?_
    unfold placing
    split <;> split
    all_goals try exact (h rfl).elim
    all_goals try exact (hframes (by decide)).elim
    all_goals exact ⟨fun _ _ => rfl, fun _ _ => rfl, fun _ _ _ => rfl⟩

end CodeAttributes

end ClassFile
