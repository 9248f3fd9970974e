import Workplan.Definition
import Workplan.Expression.Template

/-! Decoding: how definitions are read from a document. The decoder is the same for all document
formats; a format says what its nodes are as texts, numbers, lists, records and values. Entries are
visited in the order of the document, the first fault counts, and a missing field is noticed at the
end of its record. A node may only stand for another one; the decoder asks for that one where it
needs it, and the format may keep count. -/
namespace Workplan
set_option autoImplicit false

/-- Why a document holds no definitions. -/
inductive DecodeError where
  /-- A text in it is no expression or reference. -/
  | expression (e : ExpressionError)
  /-- A record lacks a field. -/
  | missingField (name : String)
  /-- A record has a field twice. -/
  | repeatedField (name : String)
  /-- Something has the wrong type, lies out of range or is superfluous. -/
  | wrongType
deriving DecidableEq, Repr

def DecodeError.message : DecodeError → String
  | .expression e => e.message
  | .missingField name => s!"missing field \x60{name}\x60"
  | .repeatedField name => s!"duplicate field \x60{name}\x60"
  | .wrongType => "invalid type"

/-- A node as a record: fields with the nodes of their names, or fields in the order of their
declaration. -/
inductive RecordNode (ν : Type) where
  | named (fields : List (ν × ν))
  | positional (fields : List ν)

/-- What the nodes of a document format are; `σ` is what the format keeps count of. -/
structure DocumentFormat (σ ν : Type) where
  /-- The node that a node stands for, often itself. -/
  follow : ν → StateT σ Option ν
  value? : ν → StateT σ Option Value
  text? : ν → Option String
  /-- A whole number below `2 ^ 64`. -/
  natural? : ν → Option Nat
  items? : ν → Option (List ν)
  entries? : ν → Option (List (ν × ν))
  record? : ν → Option (RecordNode ν)
  /-- True of nodes that count as nothing where a field is optional; `none` of those that claim to
  be nothing and are not. -/
  isAbsent? : ν → Option Bool

abbrev Decoder (σ : Type) := StateT σ (Except DecodeError)

namespace Decoding

variable {σ ν : Type} (format : DocumentFormat σ ν)

def typed {α : Type} (answer : StateT σ Option α) : Decoder σ α := fun s =>
  match answer s with
  | some result => .ok result
  | none => .error .wrongType

/-- What a text was read as, or the complaint about the text. -/
def parsed {α : Type} (result : Except ExpressionError α) : Decoder σ α :=
  monadLift (result.mapError DecodeError.expression)

/-- What a node, or the one it stands for, is as something. -/
def view {α : Type} (read? : ν → Option α) (n : ν) : Decoder σ α :=
  typed do
    let n ← format.follow n
    read? n

def text (n : ν) : Decoder σ String := view format format.text? n

def expression (n : ν) : Decoder σ Expression := do
  let v ← typed (format.value? n)
  parsed (Expression.ofValue v)

def optional {α : Type} (decode : ν → Decoder σ α) (n : ν) : Decoder σ (Option α) := do
  let n ← typed (format.follow n)
  if ← view format format.isAbsent? n then return none else some <$> decode n

def list {α : Type} (decode : ν → Decoder σ α) (n : ν) : Decoder σ (List α) := do
  (← view format format.items? n).mapM decode

def reference (n : ν) : Decoder σ Reference := do
  parsed (Reference.parse (← text format n))

/-- An entry of `uses`: a reference, or the bare name of a resource. -/
def parseUses (entry : String) : Except ExpressionError Reference :=
  if entry.toList.contains '.' then Reference.parse entry
  else .ok (Reference.resource (Text.trim entry))

/-- The entries of `uses`; all of them are read as texts first. -/
def uses (n : ν) : Decoder σ (List Reference) := do
  let texts ← list format (text format) n
  parsed (texts.mapM parseUses)

def arguments (n : ν) : Decoder σ (SortedMap String Expression) := do
  let entries ← view format format.entries? n
  let pairs ← entries.mapM fun e => do
    let name ← text format e.1
    let value ← expression format e.2
    return (name, value)
  return SortedMap.ofList pairs

def naturalBelow (bound : Nat) (n : ν) : Decoder σ Nat := do
  let i ← view format format.natural? n
  if i < bound then return i else throw .wrongType

/-- Takes the fields of a record into a draft, one after the other. -/
def fields {δ : Type} (names : List String) (take : δ → String → ν → Decoder σ δ) (start : δ)
    (n : ν) : Decoder σ (δ × Bool) := do
  match ← view format format.record? n with
  | .named entries =>
    let draft ← entries.foldlM (fun draft e => do
      let name ← text format e.1
      if names.contains name then take draft name e.2 else return draft) start
    return (draft, true)
  | .positional values =>
    let draft ← (names.zip values).foldlM (fun draft e => take draft e.1 e.2) start
    if names.length < values.length then throw .wrongType else return (draft, false)

def once {α : Type} (name : String) (old : Option α) (decode : Decoder σ α) :
    Decoder σ (Option α) :=
  if old.isSome then throw (.repeatedField name) else some <$> decode

/-- A field that must be there. A record with named fields names the one it lacks. -/
def required {α : Type} (isNamed : Bool) (name : String) : Option α → Except DecodeError α
  | some a => .ok a
  | none => .error (if isNamed then .missingField name else .wrongType)

/-! ## Retry policies -/

/-- The fields of a retry policy seen so far. -/
structure RetryDraft where
  maxAttempts : Option Nat
  backoffMs : Option Nat

def takeRetryField (d : RetryDraft) (name : String) (n : ν) : Decoder σ RetryDraft :=
  match name with
  | "max_attempts" => do
    return { d with maxAttempts := ← once name d.maxAttempts (naturalBelow format (2 ^ 32) n) }
  | "backoff_ms" => do
    return { d with backoffMs := ← once name d.backoffMs (naturalBelow format (2 ^ 64) n) }
  | _ => return d

/-- A retry policy; by default there is one attempt and no waiting. -/
def retry (n : ν) : Decoder σ RetryPolicy := do
  let (d, _) ← fields format ["max_attempts", "backoff_ms"] (takeRetryField format) ⟨none, none⟩ n
  return ⟨d.maxAttempts.getD 1, d.backoffMs.getD 0⟩

/-! ## Resources -/

/-- The fields of a resource seen so far. -/
structure ResourceDraft where
  name : Option String
  kind : Option String
  arguments : Option (SortedMap String Expression)

def takeResourceField (d : ResourceDraft) (name : String) (n : ν) :
    Decoder σ ResourceDraft :=
  match name with
  | "name" => do return { d with name := ← once name d.name (text format n) }
  | "kind" => do return { d with kind := ← once name d.kind (text format n) }
  | "arguments" => do return { d with arguments := ← once name d.arguments (arguments format n) }
  | _ => return d

def resource (n : ν) : Decoder σ ResourceDefinition := do
  let (d, isNamed) ← fields format ["name", "kind", "arguments"] (takeResourceField format)
    ⟨none, none, none⟩ n
  let name ← required isNamed "name" d.name
  let kind ← required isNamed "kind" d.kind
  return ⟨name, kind, d.arguments.getD .empty⟩

/-! ## Steps -/

/-- The fields of a step seen so far. -/
structure StepDraft where
  name : Option String
  runner : Option String
  arguments : Option (SortedMap String Expression)
  count : Option (Option Expression)
  forEach : Option (Option Expression)
  dependsOn : Option (List Reference)
  uses : Option (List Reference)
  timeoutMs : Option (Option Nat)
  retry : Option (Option RetryPolicy)

/-- The names of the fields of a step, in the order of their declaration. -/
def stepFields : List String :=
  ["name", "runner", "arguments", "count", "for_each", "depends_on", "uses", "timeout_ms", "retry"]

def takeStepField (d : StepDraft) (name : String) (n : ν) : Decoder σ StepDraft :=
  match name with
  | "name" => do return { d with name := ← once name d.name (text format n) }
  | "runner" => do return { d with runner := ← once name d.runner (text format n) }
  | "arguments" => do return { d with arguments := ← once name d.arguments (arguments format n) }
  | "count" => do
    return { d with count := ← once name d.count (optional format (expression format) n) }
  | "for_each" => do
    return { d with forEach := ← once name d.forEach (optional format (expression format) n) }
  | "depends_on" => do
    return { d with dependsOn := ← once name d.dependsOn (list format (reference format) n) }
  | "uses" => do return { d with uses := ← once name d.uses (Decoding.uses format n) }
  | "timeout_ms" => do
    return { d with
      timeoutMs := ← once name d.timeoutMs (optional format (naturalBelow format (2 ^ 64)) n) }
  | "retry" => do
    return { d with retry := ← once name d.retry (optional format (Decoding.retry format) n) }
  | _ => return d

def step (n : ν) : Decoder σ StepDefinition := do
  let (d, isNamed) ← fields format stepFields (takeStepField format)
    ⟨none, none, none, none, none, none, none, none, none⟩ n
  let name ← required isNamed "name" d.name
  let runner ← required isNamed "runner" d.runner
  return ⟨name, runner, d.arguments.getD .empty, d.count.getD none, d.forEach.getD none,
    d.dependsOn.getD [], d.uses.getD [], d.timeoutMs.getD none, d.retry.getD none⟩

/-! ## Definitions -/

/-- The fields of definitions seen so far. -/
structure DefinitionsDraft where
  resources : Option (List ResourceDefinition)
  steps : Option (List StepDefinition)

def takeDefinitionsField (d : DefinitionsDraft) (name : String) (n : ν) :
    Decoder σ DefinitionsDraft :=
  match name with
  | "resources" => do
    return { d with resources := ← once name d.resources (list format (resource format) n) }
  | "steps" => do return { d with steps := ← once name d.steps (list format (step format) n) }
  | _ => return d

def definitions (n : ν) : Decoder σ Definitions := do
  let (d, _) ← fields format ["resources", "steps"] (takeDefinitionsField format) ⟨none, none⟩ n
  return ⟨d.resources.getD [], d.steps.getD []⟩

end Decoding

/-! ## Values as documents -/

/-- A value as a document: maps are records by name, lists are records by position, only null is
absent, and everything stands for itself. -/
def valueFormat : DocumentFormat Unit Value where
  follow := pure
  value? := pure
  text? := Value.toString?
  natural? := Value.toNat?
  items?
    | .list items => some items
    | _ => none
  entries?
    | .map entries => some (entries.map fun e => (.string e.1, e.2))
    | _ => none
  record?
    | .map entries => some (.named (entries.map fun e => (.string e.1, e.2)))
    | .list items => some (.positional items)
    | _ => none
  isAbsent? v := some (v = .null)

def Definitions.ofValue (v : Value) : Except DecodeError Definitions :=
  (Decoding.definitions valueFormat v).run' ()

end Workplan
