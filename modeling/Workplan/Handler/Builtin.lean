import Workplan.Registry
import Workplan.Text.Quoted

/-! The built-in runners: `echo` answers its message, `sleep` waits first, `fail` always fails, and
`increment` adds to every counter it uses. The resource kind `counter` is a counter of 64 bits. -/
namespace Workplan.Builtin
set_option autoImplicit false

def required (name : String) (kind : ValueKind) : InputSpec := ⟨name, kind, true⟩

def optional (name : String) (kind : ValueKind) : InputSpec := ⟨name, kind, false⟩

/-- The reaction that answers after a waiting time without touching the world. -/
def answerAfter {α : Type} (ms : Nat) (answer : Answer α) : Reaction α :=
  .wait ms fun w => (answer, w)

def messageOf (input : Value) : Value := (input.field? "message").getD .null

def echo : Runner where
  shape := ⟨[optional "message" .any], ["message"], []⟩
  handle call w :=
    (answerAfter 0 (.value (Value.ofEntries [("message", messageOf call.input)])), w)

def sleep : Runner where
  shape := ⟨[required "ms" .integer, optional "message" .any], ["message", "slept_ms"], []⟩
  handle call w :=
    let ms := ((call.input.field? "ms").bind Value.toNat?).getD 0
    let output := Value.ofEntries [("message", messageOf call.input), ("slept_ms", Value.ofNat ms)]
    (answerAfter ms (.value output), w)

def fail : Runner where
  shape := ⟨[optional "message" .string], [], []⟩
  handle call w :=
    let message := ((call.input.field? "message").bind Value.toString?).getD "step failed"
    (answerAfter 0 (.error message), w)

def counterRange : Nat := 2 ^ 64

/-- The value of a counter after `n` has been added to it. -/
def addToCounter (value n : Nat) : Nat := (value + n) % counterRange

/-- Adds `n` to counters, one after the other, and answers the value of the last. An addition that
leaves the range of a counter panics after the counter has wrapped around. -/
def incrementEach (n : Nat) :
    List (String × ResourceInstance) → Nat → World → Answer Value × World
  | [], value, w => (.value (Value.ofEntries [("value", Value.ofNat value)]), w)
  | (name, inst) :: rest, _, w =>
    match w.object? inst with
    | some (.counter old) =>
      let w := w.store inst (.counter (addToCounter old n))
      if old + n < counterRange then incrementEach n rest (old + n) w
      else (.panic "attempt to add with overflow", w)
    | _ => (.error s!"resource {name} is not a counter", w)

/-- Adds `by` to every counter it uses. Without a whole number that is not negative it adds one. -/
def increment : Runner where
  shape := ⟨[optional "by" .integer], ["value"], ["counter"]⟩
  handle call w :=
    let n := ((call.input.field? "by").bind Value.toNat?).getD 1
    (.wait 0 (incrementEach n call.resources.toList 0), w)

/-- A counter that begins at `start`, or at zero without a whole number that is not negative. -/
def counter : ResourceKind where
  shape := ⟨[optional "start" .integer]⟩
  create call w :=
    let start := ((call.input.field? "start").bind Value.toNat?).getD 0
    (.wait 0 fun w =>
      let (inst, w) := w.allocate (.counter start)
      (.value inst, w), w)
  destroy _ w := (answerAfter 0 (.value ()), w)

/-- The registry of the built-in runners and resource kinds. -/
def registry : Registry :=
  Registry.empty
    |>.withRunner "echo" echo
    |>.withRunner "sleep" sleep
    |>.withRunner "fail" fail
    |>.withRunner "increment" increment
    |>.withKind "counter" counter

end Workplan.Builtin
