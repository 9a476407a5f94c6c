import ClassFile.Proofs.Attribute.Placing
import ClassFile.Proofs.Code.Contents
import ClassFile.Proofs.Code.Relaxed

/-! Code without its debug tables. Line numbers and the names, types and signatures of local variables can be
taken out of code that is accepted. It stays accepted, and nothing but what the tables say is missing from what
is found: types that were known only from the tables become unknown, and whatever is asked of a known type is
granted to an unknown one. -/

namespace ClassFile

open FileReader Reader FramedAttribute

/-- The attributes of code that are there for debuggers. -/
def Attribute.debugTables : List Attribute :=
  [.lineNumberTable, .localVariableTable, .localVariableTypeTable]

/-- Whether an attribute is a debug table. -/
def FramedAttribute.isDebugTable {pool : Pool} (f : FramedAttribute pool) : Bool :=
  f.predefined?.any Attribute.debugTables.contains

/-- Attributes without the debug tables. -/
def FramedAttribute.withoutDebugTables {pool : Pool} (attributes : List (FramedAttribute pool)) :
    List (FramedAttribute pool) := attributes.filter fun f => !f.isDebugTable

/-- What is left without the debug tables. -/
def CodeAttributes.undebugged (so : CodeAttributes) : CodeAttributes :=
  { so with lines := [], localVariables := [], signatures := [] }

/-- Code without line numbers and local variables. -/
def Code.undebugged (code : Code) : Code :=
  { code with
    instructions := code.instructions.map fun i => { i with line := none }
    lineNumbers := []
    localVariables := [] }

namespace CodeAttributes

variable {pool : Pool} {method : MethodContext} {codeLength : UInt16}

/-- A debug table changes nothing that is left without the debug tables. -/
theorem placing_debugTable {found : Attribute} (h : found ∈ Attribute.debugTables) (so : CodeAttributes)
    (held : (placing pool method codeLength found).Held) :
    ((placing pool method codeLength found).set so held).undebugged = so.undebugged := by
  simp only [Attribute.debugTables, List.mem_cons, List.not_mem_nil, or_false] at h
  rcases h with rfl | rfl | rfl <;> rfl

/-- No other attribute looks at the debug tables or changes them. -/
theorem placing_undebugged {found : Attribute} (h : found ∉ Attribute.debugTables) (so : CodeAttributes) :
    (placing pool method codeLength found).get so.undebugged = (placing pool method codeLength found).get so ∧
      ∀ held, (placing pool method codeLength found).set so.undebugged held =
        ((placing pool method codeLength found).set so held).undebugged := by
  cases found with
  | lineNumberTable | localVariableTable | localVariableTypeTable => exact (h (by decide)).elim
  | _ => exact ⟨rfl, fun _ => rfl⟩

theorem said?_undebugged {so after : CodeAttributes} {f : FramedAttribute pool}
    (h : AttributeTable.said? .inCode method.version (add pool method codeLength) so f = some after) :
    if f.isDebugTable then after.undebugged = so.undebugged
    else AttributeTable.said? .inCode method.version (add pool method codeLength) so.undebugged f =
      some after.undebugged := by
  unfold AttributeTable.said? FramedAttribute.isDebugTable at *
  cases hf : f.predefined? with
  | none =>
      rw [hf] at h
      cases h
      rfl
  | some found =>
      simp only [hf] at h ⊢
      cases hcheck : found.check .inCode method.version with
      | error fault =>
          rw [hcheck] at h
          cases h
      | ok _ =>
          rw [hcheck] at h
          dsimp only at h ⊢
          rw [add_eq, Placing.parseAll_add, Option.map_eq_some_iff] at h
          obtain ⟨held, hheld, rfl⟩ := h
          by_cases hdebug : found ∈ Attribute.debugTables
          · rw [if_pos (by simpa using hdebug)]
            exact placing_debugTable hdebug so held
          · obtain ⟨hget, hset⟩ := placing_undebugged hdebug so
            rw [if_neg (by simpa using hdebug), add_eq, Placing.parseAll_add, hget, hheld, Option.map_some,
              hset]

theorem foldlM_said?_undebugged {attributes : List (FramedAttribute pool)} {so after : CodeAttributes}
    (h : attributes.foldlM (AttributeTable.said? .inCode method.version (add pool method codeLength)) so =
      some after) :
    (withoutDebugTables attributes).foldlM
        (AttributeTable.said? .inCode method.version (add pool method codeLength)) so.undebugged =
      some after.undebugged := by
  induction attributes generalizing so with
  | nil =>
      cases h
      rfl
  | cons f rest ih =>
      rw [List.foldlM_cons, Option.bind_eq_bind, Option.bind_eq_some_iff] at h
      obtain ⟨between, hone, hrest⟩ := h
      have hone := said?_undebugged hone
      unfold FramedAttribute.withoutDebugTables
      -- a debug table is left out and has said nothing that is left, any other attribute says the same
      cases hdebug : f.isDebugTable with
      | true =>
          rw [if_pos hdebug] at hone
          rw [List.filter_cons_of_neg (by simp [hdebug]), ← hone]
          exact ih hrest
      | false =>
          rw [if_neg (by simp [hdebug])] at hone
          rw [List.filter_cons_of_pos (by simp [hdebug]), List.foldlM_cons, hone]
          exact ih hrest

end CodeAttributes

theorem LineIndex.lineAt?_ofLines_nil (pc : UInt16) : (ofLines []).lineAt? pc = none := by
  have hnone : (ofLines []).firstBehind pc 0 (ofLines []).entries.size = 0 := by
    rw [firstBehind, if_neg]
    simp [ofLines]
  unfold lineAt?
  rw [hnone]

section Check

variable {raw : RawCode} {pool : Pool} {method : MethodContext} {keepBytes : Bool} {code : Code}

/-- Code that is accepted is accepted without its debug tables. -/
theorem RawCode.check_undebugged (h : raw.check pool method keepBytes = .ok code) :
    { raw with attributes := raw.attributes.undebugged }.check pool method keepBytes =
      .ok code.undebugged := by
  have hrelaxed : raw.Relaxed { raw with attributes := raw.attributes.undebugged } :=
    ⟨UInt16.le_refl _, UInt16.le_refl _, rfl, rfl, fun _ hline => absurd hline List.not_mem_nil, .inr rfl, rfl⟩
  have hself := RawCode.relaxedCode_self h
  have hstack : raw.maxStack = code.maxStack := congrArg Code.maxStack hself
  have hlocals : raw.maxLocals = code.maxLocals := congrArg Code.maxLocals hself
  have hinstructions : code.instructions.map (·.onLine (.ofLines [])) =
      code.instructions.map fun i => { i with line := none } := by
    refine List.map_congr_left fun i _ => ?_
    rw [VerifiedInstruction.onLine, LineIndex.lineAt?_ofLines_nil]
  rw [hrelaxed.check h, Code.undebugged, ← hstack, ← hlocals, ← hinstructions]
  rfl

variable {front : CodeFront}

/-- What is found in code is found without its debug tables too, as far as they did not say it. -/
theorem CodeFront.code?_undebugged {so : CodeAttributes}
    (h : front.code? pool method keepBytes so = some code) :
    front.code? pool method keepBytes so.undebugged = some code.undebugged := by
  unfold code? raw? at h ⊢
  split at h
  · cases h
  · rename_i hlength
    rw [if_neg hlength]
    rw [Option.bind_map, Option.bind_eq_some_iff] at h
    obtain ⟨handlers, hhandlers, hcheck⟩ := h
    rw [hhandlers, Option.map_some, Option.bind_some]
    have hundebugged := RawCode.check_undebugged (toOption_eq_some.mp hcheck)
    exact toOption_eq_some.mpr hundebugged

end Check

/-- Code that is accepted was written as a front and a table of attributes. Without the debug tables it is
accepted too, wherever it stands, and all that is found is the same but for the line numbers, the local
variables and the lines of the instructions. -/
theorem Code.read_undebugged {pool : Pool} {method : MethodContext} {keepBytes : Bool} {source rest : Cursor}
    {code : Code} (h : Code.read pool method keepBytes source = .ok code rest) :
    (∃ (front : CodeFront) (attributes : List (FramedAttribute pool)), attributes.length < 65536 ∧
      source.rest = front.bytes ++ (table attributes ++ rest.rest)) ∧
    ∀ (front : CodeFront) (attributes : List (FramedAttribute pool)) (behind : List UInt8),
      attributes.length < 65536 → source.rest = front.bytes ++ (table attributes ++ behind) →
        ∀ (more : List UInt8) (c : Cursor),
          c.rest = front.bytes ++ (table (withoutDebugTables attributes) ++ more) →
            ∃ after, Code.read pool method keepBytes c = .ok code.undebugged after ∧ after.rest = more := by
  have hplaceless := Code.placeless_read pool method keepBytes
  have hparse : parse (Code.read pool method keepBytes) source.rest = some (code, rest.rest) :=
    (parse_rest hplaceless source).mpr ⟨rest, h, rfl⟩
  constructor
  · obtain ⟨raw, left, hraw, hcheck⟩ := parse_bind_ok (fun _ => placeless_ofExcept _) hparse
    rw [parse_ofExcept] at hcheck
    obtain ⟨_, _, hsame⟩ := Option.map_eq_some_iff.mp hcheck
    cases hsame
    exact RawCode.read_spells pool method hraw
  · intro front attributes behind hcount hsource more c hc
    have hfewer : (withoutDebugTables attributes).length < 65536 :=
      Nat.lt_of_le_of_lt (List.length_filter_le _ _) hcount
    rw [hsource, Code.parse_read pool method keepBytes front hcount, Option.map_eq_some_iff] at hparse
    obtain ⟨_, hfound, hsame⟩ := hparse
    cases hsame
    obtain ⟨so, hsaid, hfound⟩ := Option.bind_eq_some_iff.mp hfound
    have hsaid' : front.said? pool method (withoutDebugTables attributes) = some so.undebugged :=
      CodeAttributes.foldlM_said?_undebugged hsaid
    refine (parse_rest hplaceless c).mp ?_
    rw [hc, Code.parse_read pool method keepBytes front hfewer, hsaid', Option.bind_some,
      CodeFront.code?_undebugged hfound]
    rfl

section Sample

/-- A pool with the names of debug tables, and the name and the type of a variable. -/
def debugPool : Pool :=
  ⟨#[.vacant, .entry (.utf8 (.ofString "LineNumberTable")), .entry (.utf8 (.ofString "LocalVariableTable")),
    .entry (.utf8 (.ofString "items")), .entry (.utf8 (.ofString "[I"))]⟩

/-- Code that asks for the length of an array in a local variable. -/
def lengthFront : CodeFront := ⟨1, 1, [0x01, 0x4b, 0x2a, 0xbe, 0x57, 0xb1], [], by decide, by decide⟩

def lengthTables : List (FramedAttribute debugPool) :=
  [⟨1, .ofString "LineNumberTable", [0, 1, 0, 0, 0, 7], rfl, by decide⟩,
    ⟨2, .ofString "LocalVariableTable", [0, 1, 0, 2, 0, 4, 0, 3, 0, 4, 0, 0], rfl, by decide⟩]

/-- The array is known from its variable. Without it the length is found all the same. -/
theorem lengthFront_undebugged :
    withoutDebugTables lengthTables = [] ∧ ∃ code rest after,
      Code.read debugPool sampleMethod false (.ofBytes (lengthFront.bytes ++ table lengthTables)) =
        .ok code rest ∧
      code.lineNumbers = [⟨0, 7⟩] ∧ code.localVariables.length = 1 ∧
      Code.read debugPool sampleMethod false
          (.ofBytes (lengthFront.bytes ++ table (withoutDebugTables lengthTables))) =
        .ok code.undebugged after := by
  obtain ⟨code, rest, hread, hlines, hvariables⟩ : ∃ code rest,
      Code.read debugPool sampleMethod false (.ofBytes (lengthFront.bytes ++ table lengthTables)) =
        .ok code rest ∧ (code.lineNumbers = [⟨0, 7⟩] ∧ code.localVariables.length = 1) :=
    ok_of_success? (by decide +kernel)
  obtain ⟨after, hread', _⟩ :=
    (Code.read_undebugged hread).2 lengthFront lengthTables [] (by decide) (by rw [List.append_nil]; rfl) []
      (.ofBytes (lengthFront.bytes ++ table (withoutDebugTables lengthTables))) (by rw [List.append_nil]; rfl)
  exact ⟨List.filter_eq_nil_iff.mpr (by decide +kernel), code, rest, after, hread, hlines, hvariables, hread'⟩

end Sample

end ClassFile
