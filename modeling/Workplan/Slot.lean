import Workplan.Handler
import Workplan.Run.Error
import Workplan.Text.Quoted

/-! Resource slots: one for every resource of a run. A slot is filled by the first creation that
succeeds, hands the same instance to everyone, and gives it back for destruction once, when its last
consumer is released or when the run drains what is left. -/
namespace Workplan
set_option autoImplicit false

/-- The slot of a resource. -/
structure Slot where
  kind : String
  /-- The created instance. It stays here after it has been handed back. -/
  created : Option ResourceInstance
  /-- The nodes that still need the instance. -/
  consumers : SortedSet NodeId
  /-- True once the instance has been handed back for destruction. -/
  handedBack : Bool

/-- An instance that is handed back for destruction. -/
structure Released where
  name : String
  kind : String
  inst : ResourceInstance
deriving DecidableEq, Repr

def Released.describe (r : Released) : String :=
  s!"Released \x7b name: {Text.quoted r.name}, kind: {Text.quoted r.kind}, .. \x7d"

namespace Slot

def new (kind : String) (consumers : List NodeId) : Slot :=
  ⟨kind, none, SortedSet.ofList consumers, false⟩

/-- The instance, if it has been created and not been handed back. -/
def live? (s : Slot) : Option ResourceInstance := if s.handedBack then none else s.created

def handBack (name : String) (s : Slot) : Option (Released × Slot) :=
  s.live?.map fun i => (⟨name, s.kind, i⟩, { s with handedBack := true })

/-- Removes a consumer. The instance is handed back if this was the last one. -/
def release (name : String) (consumer : NodeId) (s : Slot) : Option Released × Slot :=
  let removed := { s with consumers := s.consumers.erase consumer }
  if consumer ∈ s.consumers ∧ removed.consumers.isEmpty then
    match removed.handBack name with
    | some (r, handed) => (some r, handed)
    | none => (none, removed)
  else (none, removed)

end Slot

abbrev Slots := SortedMap String Slot

namespace Slots

/-- Declares a resource and the nodes that will use it. -/
def register (s : Slots) (name kind : String) (consumers : List NodeId) : Slots :=
  s.insert name (Slot.new kind consumers)

def addConsumers (s : Slots) (name : String) (consumers : List NodeId) : Slots :=
  s.modify name fun slot =>
    { slot with consumers := consumers.foldl SortedSet.insert slot.consumers }

/-- True when a caller that wants the instance has to create it first. -/
def needsCreation (s : Slots) (name : String) : Bool :=
  match s.get? name with
  | some slot => slot.created.isNone
  | none => false

/-- The instance of a resource for one caller. An empty slot is filled by the outcome of its
creation; a failed creation leaves it empty. -/
def acquire (s : Slots) (name : String) (creation : Except RunError ResourceInstance) :
    Except RunError ResourceInstance × Slots :=
  match s.get? name with
  | none => (.error (.resourceUnavailable name), s)
  | some slot =>
    match slot.created, creation with
    | some i, _ => (.ok i, s)
    | none, .ok i => (.ok i, s.insert name { slot with created := some i })
    | none, .error e => (.error e, s)

/-- The instance of a resource that has been created and not been handed back. -/
def instance? (s : Slots) (name : String) : Option ResourceInstance :=
  (s.get? name).bind Slot.live?

/-- Changes every slot and collects what is handed back, in ascending order of the names. -/
def handBackWith (f : String → Slot → Option Released × Slot) (s : Slots) :
    List Released × Slots :=
  (s.toList.filterMap fun e => (f e.1 e.2).1, s.mapValues fun name slot => (f name slot).2)

/-- Removes a consumer from every slot. Answers the instances that this leaves without any. -/
def release (s : Slots) (consumer : NodeId) : List Released × Slots :=
  s.handBackWith fun name slot => slot.release name consumer

def drain (s : Slots) : List Released × Slots :=
  s.handBackWith fun name slot =>
    match slot.handBack name with
    | some (r, handed) => (some r, handed)
    | none => (none, slot)

def describe (s : Slots) : String :=
  s!"ResourceManager \x7b resources: {Text.quotedList s.keys} \x7d"

end Slots

end Workplan
