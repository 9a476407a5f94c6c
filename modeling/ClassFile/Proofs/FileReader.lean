import ClassFile.Proofs.Blaming
import ClassFile.Proofs.Verification.Foreseen

/-! Readers of parts of a class file that fail with nothing but foreseen errors. Only faults of code are in
question, so that a reader which looks at no code has none, and what is left to show for it is that the
readers that it is made of have none. Where something is said about what is read, it is carried along. -/

namespace ClassFile

/-- An action comes to a result that has a property, or to a foreseen error. -/
abbrev Finds {σ α : Type} (action : EStateM Error σ α) (result : α → Prop) : Prop :=
  ComesTo action result Error.Foreseen

/-- However an action fails, the error is a foreseen one. -/
abbrev Foreseeing {σ α : Type} (action : EStateM Error σ α) : Prop := Blames Error.Foreseen action

namespace Finds

variable {σ α : Type} {result : α → Prop}

theorem foreseeing {action : EStateM Error σ α} (h : Finds action result) : Foreseeing action :=
  ComesTo.mono h (fun _ _ => trivial) fun _ herror => herror

/-- What is known of all results of an action is known of the one that it comes to. -/
theorem of_foreseeing {action : EStateM Error σ α} (h : Foreseeing action)
    (hresult : ∀ s a s', action s = .ok a s' → result a) : Finds action result := by
  intro s hs
  cases hrun : action s with
  | ok a s' => exact hresult s a s' hrun
  | error error s' => exact h.failed hs hrun

end Finds

/-- Errors that are no faults of code, and plain ones, are foreseen. -/
theorem Error.foreseen_ofInstructions : OfInstructions Foreseen where
  others _ h := fun pc fault hfault => absurd hfault (h pc fault)
  plain _ _ h := Error.foreseen_code h.foreseen
  within _ _ h := h

namespace FileReader

variable {α : Type}

theorem foreseen_structural (fault : StructureFault) : Error.Foreseen ⟨[], .structural fault⟩ := by
  rintro _ _ ⟨⟩

theorem foreseen_container (fault : ContainerFault) : Error.Foreseen ⟨[], .container fault⟩ := by
  rintro _ _ ⟨⟩

theorem foreseen_encoding (fault : ModifiedUtf8.Fault) : Error.Foreseen ⟨[], .encoding fault⟩ := by
  rintro _ _ ⟨⟩

theorem foreseen_pool (places : List Place) (located : Pool.Located) :
    Error.Foreseen ⟨places, .pool located⟩ := by
  rintro _ _ ⟨⟩

theorem foreseeing_failStructure (fault : StructureFault) :
    Foreseeing (failStructure fault : FileReader α) := Error.foreseen_ofInstructions.failStructure fault

theorem foreseeing_ofPool (result : Except Pool.Located α) : Foreseeing (ofPool result) :=
  Error.foreseen_ofInstructions.ofPool result

theorem foreseeing_ofExcept {result : Except Error α} (h : FailsOnly Error.Foreseen result) :
    Foreseeing (ofExcept result) := Blames.ofExcept h

theorem finds_within (place : Place) {reader : FileReader α} {result : α → Prop}
    (h : Finds reader result) : Finds (within place reader) result :=
  Error.foreseen_ofInstructions.inPlace place h

theorem foreseeing_finish (what : String) : Foreseeing (finish what) :=
  Error.foreseen_ofInstructions.finish what

theorem finds_fillOnce [Outlined α] (attributes : List Attribute) (old : Option α) (new : α) :
    Finds (fillOnce attributes old new) fun filled => filled = some new := by
  cases old with
  | none => exact .pure rfl
  | some old =>
      unfold fillOnce
      exact finds_within _ (.throw (foreseen_structural _))

theorem foreseeing_fillOnce [Outlined α] (attributes : List Attribute) (old : Option α) (new : α) :
    Foreseeing (fillOnce attributes old new) := (finds_fillOnce attributes old new).foreseeing

end FileReader

namespace Reader

open FileReader

variable {α : Type}

theorem foreseeing_bytes (n : Nat) : Foreseeing (bytes n : FileReader (List UInt8)) :=
  Error.foreseen_ofInstructions.bytes n

theorem foreseeing_skipRest : Foreseeing (skipRest : FileReader Unit) :=
  Error.foreseen_ofInstructions.skipRest

theorem foreseeing_u8 : Foreseeing (u8 : FileReader UInt8) := Error.foreseen_ofInstructions.u8

theorem foreseeing_u16 : Foreseeing (u16 : FileReader UInt16) := Error.foreseen_ofInstructions.u16

theorem foreseeing_u32 : Foreseeing (u32 : FileReader UInt32) := Error.foreseen_ofInstructions.u32

theorem foreseeing_u64 : Foreseeing (u64 : FileReader UInt64) :=
  .bind (foreseeing_bytes 8) fun _ => .pure _

theorem foreseeing_list {item : FileReader α} (h : Foreseeing item) : Foreseeing (list item) :=
  .bind foreseeing_u16 fun _ => h.collect _

theorem finds_runOn (contents : Cursor) {reader : FileReader α} {result : α → Prop}
    (h : Finds reader result) : Finds (runOn contents reader) result := comesTo_runOn contents h

/-- An entry of a constant pool at an index that is read. -/
theorem foreseeing_atIndex {β : Type} (resolve : UInt16 → Except Pool.Located α) {next : α → FileReader β}
    (h : ∀ a, Foreseeing (next a)) :
    Foreseeing (do next (← FileReader.ofPool (resolve (← u16)))) :=
  .bind foreseeing_u16 fun index => .bind (foreseeing_ofPool (resolve index)) h

end Reader

namespace AttributeTable

open FileReader Reader

variable {α : Type}

theorem foreseeing_frame (pool : Pool) (location : Location) (version : Version) :
    Foreseeing (frame pool location version) := Error.foreseen_ofInstructions.frame pool location version

/-- What every attribute leaves as it is holds of what a table says. -/
theorem finds_read (pool : Pool) (location : Location) (version : Version)
    {add : α → Attribute → FileReader α} {none : α} {result : α → Prop} (hnone : result none)
    (hadd : ∀ so found, result so → Finds (add so found) result) :
    Finds (read pool location version add none) result := by
  refine .after foreseeing_u16 fun count => .iterate (fun so hso => ?_) hnone _
  refine .after (foreseeing_frame pool location version) fun framed => ?_
  cases framed with
  | none => exact .pure hso
  | some framed =>
      obtain ⟨found, contents⟩ := framed
      exact finds_runOn contents (.bind (hadd so found hso) fun after hafter =>
        .after (foreseeing_finish _) fun _ => .pure hafter)

theorem foreseeing_read (pool : Pool) (location : Location) (version : Version)
    {add : α → Attribute → FileReader α} (hadd : ∀ so found, Foreseeing (add so found)) (none : α) :
    Foreseeing (read pool location version add none) :=
  finds_read pool location version trivial fun so found _ => hadd so found

end AttributeTable

end ClassFile
