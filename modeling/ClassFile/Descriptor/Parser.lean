import ClassFile.Descriptor.Method

/-! Reading descriptors. A field type is any number of brackets followed by the letter of a primitive
type or by a class name between `L` and `;`. A method descriptor holds its parameter types between
parentheses and ends with its return type. The readers return the text that they leave over, which is
always shorter than the text they were given. -/

namespace ClassFile.Descriptor

/-- Reads the base type that begins with a given code point. `whole` is the descriptor that is read,
for the wording of faults. -/
def readBase (whole : Text) (first : CodePoint) (rest : Text) :
    Except DescriptorFault (BaseType × Text) :=
  match Primitive.ofLetter? first with
  | some kind => .ok (.primitive kind, rest)
  | none =>
    if first = CodePoint.ofChar 'L' then
      match rest.dropWhile (· ≠ CodePoint.ofChar ';') with
      | [] => .error (.endsAbruptly whole)
      | _ :: after =>
        match BinaryName.ofText? (rest.takeWhile (· ≠ CodePoint.ofChar ';')) with
        | .error fault => .error (.badClassName fault)
        | .ok name => .ok (.object name, after)
    else
      .error (.unexpected whole first)

/-- Reads a field type from the beginning of a text. -/
def readField (whole t : Text) : Except DescriptorFault (FieldType × Text) :=
  let dimensions := (t.takeWhile (· = CodePoint.ofChar '[')).length
  if 255 < dimensions then .error (.tooManyDimensions whole)
  else
    match t.dropWhile (· = CodePoint.ofChar '[') with
    | [] => .error (.endsAbruptly whole)
    | first :: rest =>
      match readBase whole first rest with
      | .error fault => .error fault
      | .ok (base, rest) => .ok (⟨base, UInt8.ofNat dimensions⟩, rest)

theorem length_readBase {whole rest after : Text} {first : CodePoint} {base : BaseType}
    (h : readBase whole first rest = .ok (base, after)) : after.length ≤ rest.length := by
  unfold readBase at h
  split at h
  · injection h with h
    injection h with _ h
    subst h
    exact Nat.le_refl _
  · split at h
    · have hlen := (List.dropWhile_sublist (l := rest) (· ≠ CodePoint.ofChar ';')).length_le
      split at h
      · cases h
      · rename_i heq
        rw [heq, List.length_cons] at hlen
        split at h
        · cases h
        · injection h with h
          injection h with _ h
          subst h
          omega
    · cases h

theorem length_readField {whole t rest : Text} {type : FieldType}
    (h : readField whole t = .ok (type, rest)) : rest.length < t.length := by
  unfold readField at h
  simp only at h
  split at h
  · cases h
  · have hlen := (List.dropWhile_sublist (l := t) (· = CodePoint.ofChar '[')).length_le
    split at h
    · cases h
    · rename_i heq
      rw [heq, List.length_cons] at hlen
      split at h
      · cases h
      · rename_i hbase
        have := length_readBase hbase
        injection h with h
        injection h with _ h
        subst h
        omega

/-- Reads parameter types up to the closing parenthesis; `read` holds the ones read so far, the last
one first. -/
def readParameters (whole : Text) (read : List FieldType) (t : Text) :
    Except DescriptorFault (List FieldType × Text) :=
  if t.startsWith ')' then .ok (read.reverse, t.tail)
  else
    match h : readField whole t with
    | .error fault => .error fault
    | .ok (type, rest) =>
      have := length_readField h
      readParameters whole (type :: read) rest
  termination_by t.length

/-- Reads a return type from the beginning of a text. -/
def readReturn (whole t : Text) : Except DescriptorFault (ReturnType × Text) :=
  if t.startsWith 'V' then .ok (.void, t.tail)
  else
    match readField whole t with
    | .error fault => .error fault
    | .ok (type, rest) => .ok (.value type, rest)

/-- Refuses a text that is left over. -/
def expectEnd {α : Type} (whole : Text) : α × Text → Except DescriptorFault α
  | (value, []) => .ok value
  | (_, rest) => .error (.leftOver whole rest)

end Descriptor

/-- Takes a text as a field descriptor. -/
def FieldType.parse (t : Text) : Except DescriptorFault FieldType :=
  Descriptor.readField t t >>= Descriptor.expectEnd t

/-- Takes a text as a return descriptor. -/
def ReturnType.parse (t : Text) : Except DescriptorFault ReturnType :=
  Descriptor.readReturn t t >>= Descriptor.expectEnd t

/-- Takes a text as a method descriptor. -/
def MethodDescriptor.parse (t : Text) : Except DescriptorFault MethodDescriptor :=
  if t.startsWith '(' then do
    let (parameters, rest) ← Descriptor.readParameters t [] t.tail
    let returnType ← Descriptor.readReturn t rest >>= Descriptor.expectEnd t
    MethodDescriptor.ofParameters? parameters returnType
  else
    .error (.noParenthesis t)

end ClassFile
