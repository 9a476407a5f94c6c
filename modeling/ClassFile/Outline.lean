import ClassFile.Text.Quoted

/-! Outlines of values. An outline names the parts of a value in the order in which they were
declared; messages that have to show a whole value write its outline. -/

namespace ClassFile

/-- The parts of a value. -/
inductive Outline where
  /-- A value without parts, already written out. -/
  | leaf (text : String)
  /-- A named value whose parts stand in order. -/
  | node (name : String) (parts : List Outline)
  /-- A named value whose parts have names of their own. -/
  | record (name : String) (parts : List (String × Outline))
  | list (items : List Outline)
  | tuple (items : List Outline)

namespace Outline

/-- Puts a separator between the strings of a list. -/
def separated (separator : String) : List String → String
  | [] => ""
  | [s] => s
  | s :: rest => s ++ separator ++ separated separator rest

mutual

/-- The written form of an outline, on one line. -/
def render : Outline → String
  | .leaf text => text
  | .node name [] => name
  | .node name parts => name ++ "(" ++ separated ", " (renderAll parts) ++ ")"
  | .record name [] => name
  | .record name parts => name ++ " \x7b " ++ separated ", " (renderParts parts) ++ " \x7d"
  | .list items => "[" ++ separated ", " (renderAll items) ++ "]"
  | .tuple items => "(" ++ separated ", " (renderAll items) ++ ")"

/-- The written forms of the items of a list. -/
def renderAll : List Outline → List String
  | [] => []
  | item :: rest => item.render :: renderAll rest

/-- The written forms of named parts. -/
def renderParts : List (String × Outline) → List String
  | [] => []
  | (name, part) :: rest => (name ++ ": " ++ part.render) :: renderParts rest

end

end Outline

/-- Values that can be shown in full. -/
class Outlined (α : Type) where
  outline : α → Outline

export Outlined (outline)

namespace Outlined

instance : Outlined Nat := ⟨fun n => .leaf (toString n)⟩
instance : Outlined UInt8 := ⟨fun n => .leaf (toString n.toNat)⟩
instance : Outlined UInt16 := ⟨fun n => .leaf (toString n.toNat)⟩
instance : Outlined UInt32 := ⟨fun n => .leaf (toString n.toNat)⟩
instance : Outlined UInt64 := ⟨fun n => .leaf (toString n.toNat)⟩
instance : Outlined Int := ⟨fun n => .leaf (toString n)⟩
instance : Outlined Int8 := ⟨fun n => .leaf (toString n.toInt)⟩
instance : Outlined Int16 := ⟨fun n => .leaf (toString n.toInt)⟩
instance : Outlined Int32 := ⟨fun n => .leaf (toString n.toInt)⟩
instance : Outlined Int64 := ⟨fun n => .leaf (toString n.toInt)⟩
instance : Outlined Bool := ⟨fun b => .leaf (if b then "true" else "false")⟩
instance : Outlined Text := ⟨fun t => .leaf t.quoted⟩

instance {α : Type} [Outlined α] : Outlined (List α) := ⟨fun items => .list (items.map outline)⟩

instance {α : Type} [Outlined α] : Outlined (Option α) where
  outline
    | none => .leaf "None"
    | some value => .node "Some" [outline value]

instance {α β : Type} [Outlined α] [Outlined β] : Outlined (α × β) :=
  ⟨fun pair => .tuple [outline pair.1, outline pair.2]⟩

end Outlined

end ClassFile
