import ClassFile.Version
import ClassFile.Outline

/-! The predefined attributes: where they may stand, and from which version on they are known. All other
attributes are ignored. -/

namespace ClassFile

/-- The structures that have attributes. -/
inductive Location where
  | inClass | inField | inMethod | inCode
  deriving DecidableEq, Repr

/-- The words for a location. -/
def Location.label : Location → String
  | .inClass => "ClassFile"
  | .inField => "field_info"
  | .inMethod => "method_info"
  | .inCode => "Code"

/-- The predefined attributes. -/
inductive Attribute where
  | constantValue | code | stackMapTable | stackMap | exceptions | innerClasses | enclosingMethod
  | synthetic | signature | sourceFile | sourceDebugExtension | lineNumberTable
  | localVariableTable | localVariableTypeTable | deprecated | visibleAnnotations
  | invisibleAnnotations | visibleParameterAnnotations | invisibleParameterAnnotations
  | visibleTypeAnnotations | invisibleTypeAnnotations | annotationDefault | bootstrapMethods
  | methodParameters | moduleInfo | modulePackages | moduleMainClass | nestHost | nestMembers
  | record | permittedSubclasses
  deriving DecidableEq, Repr

namespace Attribute

/-- All predefined attributes. -/
def all : List Attribute :=
  [.constantValue, .code, .stackMapTable, .stackMap, .exceptions, .innerClasses, .enclosingMethod,
    .synthetic, .signature, .sourceFile, .sourceDebugExtension, .lineNumberTable,
    .localVariableTable, .localVariableTypeTable, .deprecated, .visibleAnnotations,
    .invisibleAnnotations, .visibleParameterAnnotations, .invisibleParameterAnnotations,
    .visibleTypeAnnotations, .invisibleTypeAnnotations, .annotationDefault, .bootstrapMethods,
    .methodParameters, .moduleInfo, .modulePackages, .moduleMainClass, .nestHost, .nestMembers,
    .record, .permittedSubclasses]

def name : Attribute → String
  | .constantValue => "ConstantValue"
  | .code => "Code"
  | .stackMapTable => "StackMapTable"
  | .stackMap => "StackMap"
  | .exceptions => "Exceptions"
  | .innerClasses => "InnerClasses"
  | .enclosingMethod => "EnclosingMethod"
  | .synthetic => "Synthetic"
  | .signature => "Signature"
  | .sourceFile => "SourceFile"
  | .sourceDebugExtension => "SourceDebugExtension"
  | .lineNumberTable => "LineNumberTable"
  | .localVariableTable => "LocalVariableTable"
  | .localVariableTypeTable => "LocalVariableTypeTable"
  | .deprecated => "Deprecated"
  | .visibleAnnotations => "RuntimeVisibleAnnotations"
  | .invisibleAnnotations => "RuntimeInvisibleAnnotations"
  | .visibleParameterAnnotations => "RuntimeVisibleParameterAnnotations"
  | .invisibleParameterAnnotations => "RuntimeInvisibleParameterAnnotations"
  | .visibleTypeAnnotations => "RuntimeVisibleTypeAnnotations"
  | .invisibleTypeAnnotations => "RuntimeInvisibleTypeAnnotations"
  | .annotationDefault => "AnnotationDefault"
  | .bootstrapMethods => "BootstrapMethods"
  | .methodParameters => "MethodParameters"
  | .moduleInfo => "Module"
  | .modulePackages => "ModulePackages"
  | .moduleMainClass => "ModuleMainClass"
  | .nestHost => "NestHost"
  | .nestMembers => "NestMembers"
  | .record => "Record"
  | .permittedSubclasses => "PermittedSubclasses"

/-- The first major version in which an attribute is known. -/
def since : Attribute → UInt16
  | .constantValue | .code | .stackMap | .exceptions | .innerClasses | .synthetic | .sourceFile
  | .lineNumberTable | .localVariableTable | .deprecated => 45
  | .enclosingMethod | .signature | .sourceDebugExtension | .localVariableTypeTable
  | .visibleAnnotations | .invisibleAnnotations | .visibleParameterAnnotations
  | .invisibleParameterAnnotations | .annotationDefault => 49
  | .stackMapTable => 50
  | .bootstrapMethods => 51
  | .visibleTypeAnnotations | .invisibleTypeAnnotations | .methodParameters => 52
  | .moduleInfo | .modulePackages | .moduleMainClass => 53
  | .nestHost | .nestMembers => 55
  | .record => 60
  | .permittedSubclasses => 61

/-- The locations in which an attribute may stand. -/
def locations : Attribute → List Location
  | .constantValue => [.inField]
  | .code | .exceptions | .visibleParameterAnnotations | .invisibleParameterAnnotations
  | .annotationDefault | .methodParameters => [.inMethod]
  | .stackMapTable | .stackMap | .lineNumberTable | .localVariableTable
  | .localVariableTypeTable => [.inCode]
  | .synthetic | .deprecated | .signature | .visibleAnnotations | .invisibleAnnotations =>
    [.inClass, .inField, .inMethod]
  | .visibleTypeAnnotations | .invisibleTypeAnnotations =>
    [.inClass, .inField, .inMethod, .inCode]
  | .innerClasses | .enclosingMethod | .sourceFile | .sourceDebugExtension | .bootstrapMethods
  | .moduleInfo | .modulePackages | .moduleMainClass | .nestHost | .nestMembers | .record
  | .permittedSubclasses => [.inClass]

/-- The predefined attribute with a name. -/
def ofText? (t : Text) : Option Attribute := all.find? fun a => Text.ofString a.name = t

end Attribute

/-- Attributes that may not stand where they were found. -/
inductive AttributeFault where
  | tooNew (found : Attribute) (version : Version)
  | misplaced (found : Attribute) (location : Location)
  deriving DecidableEq

def AttributeFault.message : AttributeFault → String
  | .tooNew found version =>
    "the " ++ found.name ++ " attribute is not allowed before class file version "
      ++ toString found.since.toNat ++ ", this is " ++ version.display
  | .misplaced found location =>
    "the " ++ found.name ++ " attribute is not allowed in a " ++ location.label ++ " structure"

/-- Checks that an attribute may stand where it was found. -/
def Attribute.check (a : Attribute) (location : Location) (version : Version) :
    Except AttributeFault Unit :=
  if !version.atLeast a.since then .error (.tooNew a version)
  else if a.locations.contains location then .ok ()
  else .error (.misplaced a location)

end ClassFile
