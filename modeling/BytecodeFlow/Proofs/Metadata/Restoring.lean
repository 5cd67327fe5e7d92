/-
This file reads metadata back from what is written for it. Each kind of record
is restored from its JSON value if its parts are (`Restores`), from the operand
of an instruction up to a whole assembly. The values that are written hold
texts, truth values and whole numbers of 64 bits only, so they are also
restored from their text.
-/

import BytecodeFlow.Files.Scan
import BytecodeFlow.Proofs.Graph.Saving

namespace BytecodeFlow

/-! ### Parts of records -/

namespace Json

/-- A value is restored from a JSON value: it is decoded from it, and the JSON value is
`Restorable`. -/
structure Restores {α : Type} (decode : Json → Option α) (json : Json) (value : α) : Prop where
  read : decode json = some value
  restorable : json.Restorable

theorem restores_text (text : String) : Restores text? (.string text) text := ⟨rfl, .string text⟩

theorem restores_word (word : UInt32) : Restores word32? (.ofWord word) word where
  read := by simp [word32?, ofWord, word.toNat_lt_size]
  restorable := .ofWord32 word

theorem restores_signed (value : Int64) : Restores signed64? (.int value.toInt) value where
  read := by simp [signed64?, Int64.toInt_le]
  restorable := .int ⟨value.le_toInt, Int.lt_trans value.toInt_lt (by decide)⟩

variable {α : Type} {decode : Json → Option α} {encode : α → Json}

theorem restores_list {values : List α}
    (each : ∀ value ∈ values, Restores decode (encode value) value) :
    Restores (listOf decode) (.ofList encode values) values where
  read := by
    show (values.map encode).mapM decode = some values
    induction values with
    | nil => rfl
    | cons value rest inductionHypothesis =>
      obtain ⟨first, others⟩ := List.forall_mem_cons.mp each
      rw [List.map_cons, List.mapM_cons, first.read, inductionHypothesis others]
      rfl
  restorable := by
    refine .array fun item member => ?_
    obtain ⟨value, listed, rfl⟩ := List.mem_map.mp member
    exact (each value listed).restorable

/-- A value that may be missing is restored if `null` does not stand for a value. -/
theorem restores_option {value : Option α} (refuses : decode .null = none)
    (each : ∀ given ∈ value, Restores decode (encode given) given) :
    Restores (nullable decode) (.ofOption encode value) value := by
  cases value with
  | none => exact ⟨rfl, .null⟩
  | some given =>
    have restores := each given rfl
    refine ⟨?_, restores.restorable⟩
    show nullable decode (encode given) = some (some given)
    unfold nullable
    split
    · rename_i null
      have read := restores.read
      rw [null, refuses] at read
      cases read
    · rw [restores.read]
      rfl

theorem restores_texts (texts : List String) :
    Restores (listOf text?) (.ofList .string texts) texts :=
  restores_list fun text _ => restores_text text

theorem restores_optionalText (text : Option String) :
    Restores (nullable text?) (.ofOption .string text) text :=
  restores_option rfl fun given _ => restores_text given

theorem restores_optionalWord (word : Option UInt32) :
    Restores (nullable word32?) (.ofOption .ofWord word) word :=
  restores_option rfl fun given _ => restores_word given

end Json

open Json

/-! ### Instructions -/

theorem MethodRef.restores (callee : MethodRef) : Restores decode callee.encode callee := by
  have parameters := restores_texts callee.parameters
  constructor
  · simp [decode, encode, record?, fieldNames, Record.required, Record.withDefault,
      List.lookup_cons, text?, bool?, parameters.read]
  · refine .object ?_
    simp only [List.forall_mem_cons]
    exact ⟨.string _, .string _, parameters.restorable, .string _, .bool _, List.forall_mem_nil _⟩

theorem FieldRef.restores (member : FieldRef) : Restores decode member.encode member := by
  constructor
  · simp [decode, encode, record?, fieldNames, Record.required, List.lookup_cons, text?]
  · refine .object ?_
    simp only [List.forall_mem_cons]
    exact ⟨.string _, .string _, .string _, List.forall_mem_nil _⟩

namespace Operand

def isFloat : Operand → Bool
  | .float _ => true
  | _ => false

/-- `Restores` holds of an operand with a value if it does of the value, read as its kind says. -/
theorem restores_tagged {kind : String} {value : Json} {operand : Operand}
    (restores : Restores (decodeValue kind) value operand) :
    Restores decode (tagged kind value) operand := by
  constructor
  · simp [decode, tagged, record?, Record.required, List.lookup_cons, caseName?, valueComesFirst,
      restores.read]
  · refine .object ?_
    simp only [List.forall_mem_cons]
    exact ⟨.string _, restores.restorable, List.forall_mem_nil _⟩

theorem restores_value {α : Type} {decode : Json → Option α} {kind : String} {json : Json}
    {value : α} {operand : α → Operand} (restores : Restores decode json value)
    (kindRead : decodeValue kind json = (decode json).map operand) :
    Restores (decodeValue kind) json (operand value) :=
  ⟨by rw [kindRead, restores.read]; rfl, restores.restorable⟩

theorem restores {operand : Operand} (plain : operand.isFloat = false) :
    Restores decode operand.encode operand := by
  cases operand with
  | none =>
    refine ⟨?_, .object (List.forall_mem_singleton.mpr (.string _))⟩
    simp [decode, encode, record?, Record.required, List.lookup_cons, caseName?]
  | int value => exact restores_tagged (restores_value (restores_signed value) rfl)
  | float value => cases plain
  | string value => exact restores_tagged (restores_value (restores_text value) rfl)
  | target offset => exact restores_tagged (restores_value (restores_word offset) rfl)
  | targets offsets =>
    exact restores_tagged (restores_value (restores_list fun word _ => restores_word word) rfl)
  | method callee => exact restores_tagged (restores_value callee.restores rfl)
  | field member => exact restores_tagged (restores_value member.restores rfl)
  | type name => exact restores_tagged (restores_value (restores_text name) rfl)

end Operand

theorem Instruction.restores {instruction : Instruction}
    (plain : instruction.operand.isFloat = false) :
    Restores decode instruction.encode instruction := by
  have offset := restores_word instruction.offset
  have operand := Operand.restores plain
  have line := restores_optionalWord instruction.line
  constructor
  · simp [decode, encode, record?, fieldNames, Record.required, Record.withDefault,
      List.lookup_cons, text?, offset.read, operand.read, line.read]
  · refine .object ?_
    simp only [List.forall_mem_cons]
    exact ⟨offset.restorable, .string _, operand.restorable, line.restorable,
      List.forall_mem_nil _⟩

/-! ### Bodies -/

theorem HandlerKind.restores (kind : HandlerKind) : Restores decode (.string kind.name) kind :=
  ⟨by cases kind <;> rfl, .string _⟩

theorem HandlerEntry.restores (entry : HandlerEntry) : Restores decode entry.encode entry := by
  have kind := entry.kind.restores
  have tryStart := restores_word entry.tryStart
  have tryEnd := restores_word entry.tryEnd
  have handlerStart := restores_optionalWord entry.handlerStart
  have handlerEnd := restores_optionalWord entry.handlerEnd
  have catchType := restores_optionalText entry.catchType
  constructor
  · simp [decode, encode, record?, fieldNames, Record.required, Record.withDefault,
      List.lookup_cons, kind.read, tryStart.read, tryEnd.read, handlerStart.read, handlerEnd.read,
      catchType.read]
  · refine .object ?_
    simp only [List.forall_mem_cons]
    exact ⟨kind.restorable, tryStart.restorable, tryEnd.restorable, handlerStart.restorable,
      handlerEnd.restorable, catchType.restorable, List.forall_mem_nil _⟩

theorem MethodBody.restores {body : MethodBody}
    (plain : ∀ instruction ∈ body.instructions, instruction.operand.isFloat = false) :
    Restores decode body.encode body := by
  have locals := restores_texts body.locals
  have instructions : Restores (listOf Instruction.decode)
      (.ofList Instruction.encode body.instructions) body.instructions :=
    restores_list fun instruction listed => Instruction.restores (plain instruction listed)
  have handlers : Restores (listOf HandlerEntry.decode)
      (.ofList HandlerEntry.encode body.handlers) body.handlers :=
    restores_list fun entry _ => entry.restores
  constructor
  · simp [decode, encode, record?, fieldNames, Record.withDefault, List.lookup_cons, locals.read,
      instructions.read, handlers.read]
  · refine .object ?_
    simp only [List.forall_mem_cons]
    exact ⟨locals.restorable, instructions.restorable, handlers.restorable, List.forall_mem_nil _⟩

/-! ### Declarations -/

theorem Parameter.restores (parameter : Parameter) :
    Restores decode parameter.encode parameter := by
  constructor
  · simp [decode, encode, record?, fieldNames, Record.required, List.lookup_cons, text?]
  · refine .object ?_
    simp only [List.forall_mem_cons]
    exact ⟨.string _, .string _, List.forall_mem_nil _⟩

/-- No instruction of a method has a double for its operand. -/
def MethodDef.FloatFree (method : MethodDef) : Prop :=
  ∀ body ∈ method.body, ∀ instruction ∈ body.instructions, instruction.operand.isFloat = false

theorem MethodDef.restores {method : MethodDef} (plain : method.FloatFree) :
    Restores decode method.encode method := by
  have parameters : Restores (listOf Parameter.decode)
      (.ofList Parameter.encode method.parameters) method.parameters :=
    restores_list fun parameter _ => parameter.restores
  have sourceFile := restores_optionalText method.sourceFile
  have body : Restores (nullable MethodBody.decode) (.ofOption MethodBody.encode method.body)
      method.body := restores_option rfl fun body given => MethodBody.restores (plain body given)
  constructor
  · simp [decode, encode, record?, fieldNames, Record.required, Record.withDefault,
      List.lookup_cons, text?, bool?, parameters.read, sourceFile.read, body.read]
  · refine .object ?_
    simp only [List.forall_mem_cons]
    exact ⟨.string _, parameters.restorable, .string _, .bool _, .bool _, sourceFile.restorable,
      body.restorable, List.forall_mem_nil _⟩

theorem FieldDef.restores (field : FieldDef) : Restores decode field.encode field := by
  constructor
  · simp [decode, encode, record?, fieldNames, Record.required, Record.withDefault,
      List.lookup_cons, text?, bool?]
  · refine .object ?_
    simp only [List.forall_mem_cons]
    exact ⟨.string _, .string _, .bool _, List.forall_mem_nil _⟩

theorem TypeDef.restores {type : TypeDef} (plain : ∀ method ∈ type.methods, method.FloatFree) :
    Restores decode type.encode type := by
  have base := restores_optionalText type.base
  have interfaces := restores_texts type.interfaces
  have fields : Restores (listOf FieldDef.decode) (.ofList FieldDef.encode type.fields)
      type.fields := restores_list fun field _ => field.restores
  have methods : Restores (listOf MethodDef.decode) (.ofList MethodDef.encode type.methods)
      type.methods := restores_list fun method listed => MethodDef.restores (plain method listed)
  constructor
  · simp [decode, encode, record?, fieldNames, Record.required, Record.withDefault,
      List.lookup_cons, text?, base.read, interfaces.read, fields.read, methods.read]
  · refine .object ?_
    simp only [List.forall_mem_cons]
    exact ⟨.string _, base.restorable, interfaces.restorable, fields.restorable,
      methods.restorable, List.forall_mem_nil _⟩

namespace Assembly

/-- Every method of an assembly is `MethodDef.FloatFree`. -/
def FloatFree (assembly : Assembly) : Prop :=
  ∀ type ∈ assembly.types, ∀ method ∈ type.methods, method.FloatFree

theorem restores {assembly : Assembly} (plain : assembly.FloatFree) :
    Restores decode assembly.encode assembly := by
  have types : Restores (listOf TypeDef.decode) (.ofList TypeDef.encode assembly.types)
      assembly.types := restores_list fun type listed => TypeDef.restores (plain type listed)
  constructor
  · simp [decode, encode, record?, fieldNames, Record.required, Record.withDefault,
      List.lookup_cons, text?, types.read]
  · refine .object ?_
    simp only [List.forall_mem_cons]
    exact ⟨.string _, types.restorable, List.forall_mem_nil _⟩

/-- An assembly without doubles (`Assembly.FloatFree`) is read back from the JSON value that
`Assembly.encode` writes for it, and so `Scan.assemblyOf?` loads it from the text of this value. -/
theorem encoded_reads_back (assembly : Assembly) (plain : assembly.FloatFree) :
    decode assembly.encode = some assembly ∧
      Scan.assemblyOf? (assembly.encode.pretty ++ "\n") = some assembly := by
  obtain ⟨read, restorable⟩ := restores plain
  refine ⟨read, ?_⟩
  rw [Scan.assemblyOf?, restorable.parse?_pretty]
  exact read

/-- An assembly in which every kind of record, of handler and of operand but a double occurs, with
optional parts that are given and parts that are missing. -/
def ledgerAssembly : Assembly where
  name := "Ledger \"1\""
  types := [
    ⟨"App.Ledger", some "System.Object", ["System.IDisposable"],
      [⟨"open", "System.Boolean", false⟩, ⟨"count", "System.Int32", true⟩],
      [⟨"Close", [⟨"reason", "System.String"⟩], voidName, false, false, some "Ledger.cs",
          some ⟨["System.Int64"],
            [⟨0, "ldc.i4", .int (-1), some 3⟩, ⟨1, "ldstr", .string "a\nb", none⟩,
              ⟨2, "br", .target 3, none⟩, ⟨3, "switch", .targets [0, 4294967295], none⟩,
              ⟨4, "call", .method ⟨"App.Ledger", "Flush", ["System.Int32"], voidName, true⟩,
                some 4⟩,
              ⟨5, "ldfld", .field ⟨"App.Ledger", "open", "System.Boolean"⟩, none⟩,
              ⟨6, "box", .type "System.Int32", none⟩, ⟨7, "ret", .none, none⟩],
            [⟨.catch, 0, 2, some 2, some 4, some "System.Exception"⟩,
              ⟨.finally, 0, 4, some 4, some 6, none⟩, ⟨.filter, 0, 2, none, none, none⟩,
              ⟨.fault, 0, 2, none, some 4, none⟩]⟩⟩,
        ⟨"Flush", [], "System.Int32", true, true, none, none⟩]⟩,
    ⟨"App.Empty", none, [], [], []⟩]

theorem ledgerAssembly_reads_back :
    ledgerAssembly.FloatFree ∧ decode ledgerAssembly.encode = some ledgerAssembly ∧
      Scan.assemblyOf? (ledgerAssembly.encode.pretty ++ "\n") = some ledgerAssembly := by
  have plain : ledgerAssembly.FloatFree := by
    unfold FloatFree MethodDef.FloatFree
    decide
  exact ⟨plain, encoded_reads_back ledgerAssembly plain⟩

end Assembly

end BytecodeFlow
