import ClassFile.Declaration.Type
import ClassFile.Proofs.Attribute.Table

/-! The contents of attributes are read in the same way wherever an attribute stands. Only errors tell at
which offset of the data they were found. -/

namespace ClassFile

open FileReader Reader

section Code

variable (pool : Pool)

theorem ExceptionHandler.placeless_read : Placeless (ExceptionHandler.read pool) :=
  .bind placeless_u16 fun _ => .bind placeless_u16 fun _ => .bind placeless_u16 fun _ =>
    .bind placeless_u16 fun _ => .bind (placeless_within _ (placeless_ofPool _)) fun _ => .pure _

theorem LineNumber.placeless_read : Placeless LineNumber.read :=
  .bind placeless_u16 fun _ => .bind placeless_u16 fun _ => .pure _

theorem LocalVariable.placeless_read : Placeless (LocalVariable.read pool) :=
  .bind placeless_u16 fun _ => .bind placeless_u16 fun _ => placeless_atIndex pool.utf8At fun _ =>
    .bind placeless_u16 fun _ => .bind (placeless_ofPool _) fun _ => .bind (placeless_ofPool _) fun _ =>
      .bind placeless_u16 fun _ => .pure _

theorem VariableSignature.placeless_read : Placeless (VariableSignature.read pool) :=
  .bind placeless_u16 fun _ => .bind placeless_u16 fun _ => placeless_atIndex pool.utf8At fun _ =>
    placeless_atIndex pool.utf8At fun _ => .bind placeless_u16 fun _ => .pure _

theorem VerificationType.placeless_read : Placeless (VerificationType.read pool) := by
  refine .bind placeless_u8 fun tag => ?_
  split
  case h_8 => exact placeless_atIndex pool.classAt fun _ => .pure _
  case h_9 => exact .bind placeless_u16 fun _ => .pure _
  case h_10 => exact .throw _
  all_goals exact .pure _

theorem FrameForm.placeless_read : Placeless (FrameForm.read pool) := by
  have htype := VerificationType.placeless_read pool
  refine .bind placeless_u8 fun kind => ?_
  unfold readKind
  dsimp only
  split
  · exact .pure _
  split
  · exact .bind htype fun _ => .pure _
  split
  · exact .throw _
  refine .bind placeless_u16 fun delta => ?_
  split
  · exact .bind htype fun _ => .pure _
  split
  · exact .pure _
  split
  · exact .pure _
  split
  · generalize kind.toNat - 251 = count
    exact .bind (htype.collect count) fun _ => .pure _
  · exact .bind (placeless_list htype) fun _ => .bind (placeless_list htype) fun _ => .pure _

theorem placeless_frameOffset (codeLength : UInt16) (offset : Nat) :
    Placeless (frameOffset codeLength offset) := by
  unfold frameOffset
  split
  · exact .throw _
  · exact .pure _

theorem placeless_readFrames (initial : List VerificationType) (codeLength : UInt16) :
    Placeless (readFrames pool initial codeLength) := by
  refine .bind placeless_u16 fun count => .bind (.iterate (fun so => ?_) _ _) fun _ => .pure _
  refine .bind (FrameForm.placeless_read pool) fun form => ?_
  split
  · exact .throw _
  · exact .bind (placeless_frameOffset _ _) fun _ => .pure _

theorem placeless_readFullFrames (codeLength : UInt16) : Placeless (readFullFrames pool codeLength) := by
  have htypes := placeless_list (VerificationType.placeless_read pool)
  have hframe : Placeless (readFullFrame pool codeLength) :=
    .bind placeless_u16 fun _ => .bind (placeless_frameOffset _ _) fun _ => .bind htypes fun _ =>
      .bind htypes fun _ => .pure _
  refine .bind (placeless_list hframe) fun frames => ?_
  dsimp only
  split
  · exact .throw _
  · exact .pure _

theorem CodeAttributes.placeless_add (method : MethodContext) (codeLength : UInt16) (so : CodeAttributes)
    (found : Attribute) : Placeless (CodeAttributes.add pool method codeLength so found) := by
  have hframes : ∀ frames, Placeless (so.addFrames frames) := fun frames =>
    .bind (placeless_fillOnce _ _ _) fun _ => .pure _
  unfold CodeAttributes.add
  split
  · exact .bind (placeless_list LineNumber.placeless_read) fun _ => .pure _
  · exact .bind (placeless_within _ (placeless_list (LocalVariable.placeless_read pool))) fun _ => .pure _
  · exact .bind (placeless_within _ (placeless_list (VariableSignature.placeless_read pool))) fun _ =>
      .pure _
  · exact .bind (placeless_readFrames _ _ _) hframes
  · exact .bind (placeless_readFullFrames _ _) hframes
  · exact .bind placeless_skipRest fun _ => .pure _

theorem RawCode.placeless_read (method : MethodContext) : Placeless (RawCode.read pool method) := by
  refine .bind placeless_u16 fun _ => .bind placeless_u16 fun _ => .bind placeless_u32 fun length => ?_
  split
  · exact .throw_bind _ _
  · exact .bind (placeless_bytes _) fun _ =>
      .bind (placeless_list (ExceptionHandler.placeless_read pool)) fun _ =>
        .bind (AttributeTable.placeless_read (CodeAttributes.placeless_add pool method _) _) fun _ => .pure _

theorem Code.placeless_read (method : MethodContext) (keepBytes : Bool) :
    Placeless (Code.read pool method keepBytes) :=
  .bind (RawCode.placeless_read pool method) fun _ => placeless_ofExcept _

end Code

section Declarations

variable (pool : Pool)

theorem FieldDecl.placeless_readConstant (type : FieldType) :
    Placeless (FieldDecl.readConstant pool type) := by
  refine placeless_atIndex pool.constantAt fun value => ?_
  split
  · exact .throw_bind _ _
  · exact .pure _

theorem FieldDecl.placeless_add (so : FieldDecl) (found : Attribute) :
    Placeless (FieldDecl.add pool so found) := by
  unfold FieldDecl.add
  split
  · exact .bind (FieldDecl.placeless_readConstant pool _) fun _ => .bind (placeless_fillOnce _ _ _) fun _ =>
      .pure _
  · exact placeless_atIndex pool.utf8At fun _ => .bind (placeless_fillOnce _ _ _) fun _ => .pure _
  · exact .pure _
  · exact .pure _
  · exact .bind placeless_skipRest fun _ => .pure _

theorem MethodAttributes.placeless_add (method : MethodContext) (hasCode keepBytes : Bool)
    (so : MethodAttributes) (found : Attribute) :
    Placeless (MethodAttributes.add pool method hasCode keepBytes so found) := by
  unfold MethodAttributes.add
  split
  · split
    · exact .throw_bind _ _
    · exact .bind (Code.placeless_read pool method keepBytes) fun _ =>
        .bind (placeless_fillOnce _ _ _) fun _ => .pure _
  · exact .bind (placeless_list (.bind placeless_u16 fun _ => placeless_ofPool _)) fun _ =>
      .bind (placeless_fillOnce _ _ _) fun _ => .pure _
  · exact placeless_atIndex pool.utf8At fun _ => .bind (placeless_fillOnce _ _ _) fun _ => .pure _
  · exact .pure _
  · exact .pure _
  · exact .bind placeless_skipRest fun _ => .pure _

theorem TypeAttributes.placeless_add (so : TypeAttributes) (found : Attribute) :
    Placeless (TypeAttributes.add pool so found) := by
  have hinner : Placeless (InnerClass.read pool) :=
    placeless_atIndex pool.classAt fun _ => placeless_atIndex (Pool.optional pool.classAt) fun _ =>
      placeless_atIndex (Pool.optional pool.utf8At) fun _ => .bind placeless_u16 fun _ => .pure _
  have henclosing : Placeless (EnclosingMethod.read pool) := by
    refine placeless_atIndex pool.classAt fun _ =>
      placeless_atIndex (Pool.optional pool.nameAndTypeAt) fun pair => ?_
    cases pair with
    | none => exact .pure _
    | some pair => exact .bind (.bind (placeless_ofPool _) fun _ => .pure _) fun _ => .pure _
  have hbootstrap : Placeless (BootstrapMethod.read pool) :=
    placeless_atIndex pool.methodHandleAt fun _ =>
      .bind (placeless_list (.bind placeless_u16 fun _ => placeless_ofPool _)) fun _ => .pure _
  have hclasses : Placeless (readClasses pool) :=
    placeless_list (.bind placeless_u16 fun _ => placeless_ofPool _)
  have hfill : ∀ {α : Type} [Outlined α] {reader : FileReader α} (attributes : List Attribute)
      (old : Option α) (set : Option α → TypeAttributes), Placeless reader →
      Placeless (do
        let value ← reader
        return set (← fillOnce attributes old value)) :=
    fun _ _ _ hreader => .bind hreader fun _ => .bind (placeless_fillOnce _ _ _) fun _ => .pure _
  unfold add
  split
  · exact placeless_atIndex pool.utf8At fun _ => .bind (placeless_fillOnce _ _ _) fun _ => .pure _
  · exact placeless_atIndex pool.utf8At fun _ => .bind (placeless_fillOnce _ _ _) fun _ => .pure _
  · exact hfill _ _ _ (placeless_list hinner)
  · exact hfill _ _ _ henclosing
  · exact hfill _ _ _ (placeless_list hbootstrap)
  · exact placeless_atIndex pool.classAt fun _ => .bind (placeless_fillOnce _ _ _) fun _ => .pure _
  · exact hfill _ _ _ hclasses
  · exact hfill _ _ _ hclasses
  · exact .pure _
  · exact .pure _
  · exact .bind placeless_skipRest fun _ => .pure _

end Declarations

end ClassFile
