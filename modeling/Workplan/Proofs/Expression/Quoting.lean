import Workplan.Proofs.Expression.Reading
import Workplan.Proofs.Expression.Template

/-! Quoting: every value can be written so that it is read as itself. Each string in it is escaped, and
the keys of maps are left alone, because no template is looked for in a key. What is read is an expression
with literals at its leaves (`Expression.constant`), which asks no scope for anything. -/
namespace Workplan
open Outcome
set_option autoImplicit false

/-! ## Quoted values -/

/-- The string with a dollar sign before every `${`. -/
def Text.escapeTemplate (s : String) : String := String.ofList (Text.escapeDollars s.toList)

namespace Value

mutual

/-- The value with all its strings escaped. -/
def escape : Value → Value
  | .null => .null
  | .bool b => .bool b
  | .number n => .number n
  | .string s => .string (Text.escapeTemplate s)
  | .list items => .list (escapeItems items)
  | .map entries => .map (escapeEntries entries)

def escapeItems : List Value → List Value
  | [] => []
  | v :: rest => v.escape :: escapeItems rest

def escapeEntries : List (String × Value) → List (String × Value)
  | [] => []
  | (k, v) :: rest => (k, v.escape) :: escapeEntries rest

end

mutual

/-- All strings of a value, at any depth. Keys do not count. -/
def strings : Value → List String
  | .null => []
  | .bool _ => []
  | .number _ => []
  | .string s => [s]
  | .list items => stringsOfItems items
  | .map entries => stringsOfEntries entries

def stringsOfItems : List Value → List String
  | [] => []
  | v :: rest => v.strings ++ stringsOfItems rest

def stringsOfEntries : List (String × Value) → List String
  | [] => []
  | (_, v) :: rest => v.strings ++ stringsOfEntries rest

end

/-- No string of the value has a `${` in it. -/
def Unmarked (v : Value) : Prop := ∀ s ∈ v.strings, ¬['$', '{'] <:+: s.toList

end Value

/-! ### Values without marks -/

theorem Text.escapeDollars_of_unmarked {cs : List Char} (h : ¬['$', '{'] <:+: cs) :
    escapeDollars cs = cs := by
  fun_induction escapeDollars cs with
  | case1 rest ih => exact absurd ⟨[], rest, rfl⟩ h
  | case2 c rest hplain ih => rw [ih fun hrest => h (hrest.trans (List.suffix_cons c rest).isInfix)]
  | case3 => rfl

theorem Text.escapeTemplate_of_unmarked {s : String} (h : ¬['$', '{'] <:+: s.toList) :
    escapeTemplate s = s := by
  rw [escapeTemplate, escapeDollars_of_unmarked h, String.ofList_toList]

namespace Value

mutual

theorem Unmarked.escape_eq : ∀ {v : Value}, v.Unmarked → v.escape = v
  | .null, _ => rfl
  | .bool _, _ => rfl
  | .number _, _ => rfl
  | .string s, h => by rw [escape, Text.escapeTemplate_of_unmarked (h s (List.mem_singleton_self s))]
  | .list items, h => by rw [escape, escapeItems_of_unmarked h]
  | .map entries, h => by rw [escape, escapeEntries_of_unmarked h]

theorem escapeItems_of_unmarked : ∀ {items : List Value},
    (∀ s ∈ stringsOfItems items, ¬['$', '{'] <:+: s.toList) → escapeItems items = items
  | [], _ => rfl
  | v :: rest, h => by
    have hv : v.Unmarked := fun s hs => h s (List.mem_append_left _ hs)
    rw [escapeItems, hv.escape_eq, escapeItems_of_unmarked fun s hs => h s (List.mem_append_right _ hs)]

theorem escapeEntries_of_unmarked : ∀ {entries : List (String × Value)},
    (∀ s ∈ stringsOfEntries entries, ¬['$', '{'] <:+: s.toList) → escapeEntries entries = entries
  | [], _ => rfl
  | (k, v) :: rest, h => by
    have hv : v.Unmarked := fun s hs => h s (List.mem_append_left _ hs)
    rw [escapeEntries, hv.escape_eq,
      escapeEntries_of_unmarked fun s hs => h s (List.mem_append_right _ hs)]

end

end Value

/-! ## Reading quoted values -/

theorem Segment.parseAll_escapeTemplate (s : String) :
    parseAll (Text.escapeTemplate s) = .ok (ofText s.toList.reverse) := by
  have hread : parseFrom (Text.escapeTemplate s) (textState []) (Text.escapeDollars s.toList ++ []) =
      parseFrom (Text.escapeTemplate s) (textState (s.toList.reverse ++ [])) [] :=
    parseFrom_escapeDollars (by simp) s.toList []
  rw [List.append_nil, List.append_nil, parseFrom_nil] at hread
  rw [parseAll]
  nth_rewrite 2 [Text.escapeTemplate]
  rw [String.toList_ofList]
  exact hread

namespace Expression

/-- A quoted string is the literal that it was before. -/
theorem parse_escapeTemplate (s : String) :
    parse (Text.escapeTemplate s) = .ok (.literal (.string s)) := by
  rw [parse, Segment.parseAll_escapeTemplate]
  by_cases hs : s = ""
  · rw [hs]
    rfl
  · have htext : Segment.ofText s.toList.reverse = [.text s] := by simp [Segment.ofText, hs]
    rw [htext]
    rfl

mutual

/-- The expression of a value in which nothing is to be replaced. -/
def constant : Value → Expression
  | .null => .literal .null
  | .bool b => .literal (.bool b)
  | .number n => .literal (.number n)
  | .string s => .literal (.string s)
  | .list items => .list (constantItems items)
  | .map entries => .map (constantEntries entries)

def constantItems : List Value → List Expression
  | [] => []
  | v :: rest => constant v :: constantItems rest

def constantEntries : List (String × Value) → List (String × Expression)
  | [] => []
  | (k, v) :: rest => (k, constant v) :: constantEntries rest

end

mutual

theorem ofValue_escape : ∀ v : Value, ofValue v.escape = .ok (constant v)
  | .null => rfl
  | .bool _ => rfl
  | .number _ => rfl
  | .string s => parse_escapeTemplate s
  | .list items => by
    rw [Value.escape, ofValue, ofItems_escapeItems items]
    rfl
  | .map entries => by
    rw [Value.escape, ofValue, ofEntries_escapeEntries entries]
    rfl

theorem ofItems_escapeItems : ∀ items : List Value,
    ofItems (Value.escapeItems items) = .ok (constantItems items)
  | [] => rfl
  | v :: rest => by
    rw [Value.escapeItems, ofItems, ofValue_escape v, ofItems_escapeItems rest]
    rfl

theorem ofEntries_escapeEntries : ∀ entries : List (String × Value),
    ofEntries (Value.escapeEntries entries) = .ok (constantEntries entries)
  | [] => rfl
  | (_, v) :: rest => by
    rw [Value.escapeEntries, ofEntries, ofValue_escape v, ofEntries_escapeEntries rest]
    rfl

end

/-! ## Constants -/

mutual

theorem placeholders_constant : ∀ v : Value, (constant v).placeholders = []
  | .null => rfl
  | .bool _ => rfl
  | .number _ => rfl
  | .string _ => rfl
  | .list items => placeholdersOfItems_constant items
  | .map entries => placeholdersOfEntries_constant entries

theorem placeholdersOfItems_constant : ∀ items : List Value,
    placeholdersOfItems (constantItems items) = []
  | [] => rfl
  | v :: rest => by
    rw [constantItems, placeholdersOfItems, placeholders_constant v, placeholdersOfItems_constant rest]
    rfl

theorem placeholdersOfEntries_constant : ∀ entries : List (String × Value),
    placeholdersOfEntries (constantEntries entries) = []
  | [] => rfl
  | (_, v) :: rest => by
    rw [constantEntries, placeholdersOfEntries, placeholders_constant v,
      placeholdersOfEntries_constant rest]
    rfl

end

mutual

theorem evaluate_constant (scope : Scope) : ∀ v : Value, (constant v).evaluate scope = .ok v
  | .null => rfl
  | .bool _ => rfl
  | .number _ => rfl
  | .string _ => rfl
  | .list items => by
    rw [constant, evaluate, evaluateItems_constant scope items]
    rfl
  | .map entries => by
    rw [constant, evaluate, evaluateEntries_constant scope entries]
    rfl

theorem evaluateItems_constant (scope : Scope) : ∀ items : List Value,
    evaluateItems scope (constantItems items) = .ok items
  | [] => rfl
  | v :: rest => by
    rw [constantItems, evaluateItems, evaluate_constant scope v, evaluateItems_constant scope rest]
    rfl

theorem evaluateEntries_constant (scope : Scope) : ∀ entries : List (String × Value),
    evaluateEntries scope (constantEntries entries) = .ok entries
  | [] => rfl
  | (_, v) :: rest => by
    rw [constantEntries, evaluateEntries, evaluate_constant scope v,
      evaluateEntries_constant scope rest]
    rfl

end

/-- An expression that asks for nothing and has one value in every scope. -/
structure Denotes (e : Expression) (v : Value) : Prop where
  references : e.references = []
  loopVariables : e.loopVariables = []
  evaluate : ∀ scope, e.evaluate scope = .ok v

theorem denotes_constant (v : Value) : (constant v).Denotes v where
  references := by
    rw [references, referenceOccurrences_eq, placeholders_constant]
    rfl
  loopVariables := by
    rw [loopVariables, variableOccurrences_eq, placeholders_constant]
    rfl
  evaluate scope := evaluate_constant scope v

end Expression

/-- A quoted value is read as an expression that stands for the value, in every scope and without asking
for anything. A value without `${` in its strings need not be quoted. -/
theorem Value.denotes_of_escape (v : Value) :
    (∃ e, Expression.ofValue v.escape = .ok e ∧ e.Denotes v) ∧
      (v.Unmarked → v.escape = v ∧ ∃ e, Expression.ofValue v = .ok e ∧ e.Denotes v) := by
  have hescape := Expression.ofValue_escape v
  have hdenotes := Expression.denotes_constant v
  refine ⟨⟨_, hescape, hdenotes⟩, fun hv => ⟨hv.escape_eq, _, ?_, hdenotes⟩⟩
  rw [hv.escape_eq] at hescape
  exact hescape

namespace Value

/-- A map with dollar signs and braces in its key and its strings. -/
def marked : Value :=
  .map [("$\x7bk\x7d", .list [.string "$$\x7b$$$\x7ba\x7d$", .string "", .null, .string "$\x7b$\x7b"])]

def unmarked : Value := .map [("$\x7bk\x7d", .list [.string "\x7b$ \x7ba\x7d$$", .bool true])]

/-- The marks are escaped and read back, and what has none is read as it stands. -/
theorem marked_denotes :
    (∃ e, Expression.ofValue (.map [("$\x7bk\x7d", .list [.string "$$$\x7b$$$$\x7ba\x7d$", .string "",
      .null, .string "$$\x7b$$\x7b"])]) = .ok e ∧ e.Denotes marked) ∧
    unmarked.Unmarked ∧ ∃ e, Expression.ofValue unmarked = .ok e ∧ e.Denotes unmarked := by
  have hescape : marked.escape = .map [("$\x7bk\x7d", .list [.string "$$$\x7b$$$$\x7ba\x7d$", .string "",
      .null, .string "$$\x7b$$\x7b"])] := by
    decide +kernel
  have hun : unmarked.Unmarked := by
    unfold Unmarked
    decide +kernel
  refine ⟨?_, hun, ((denotes_of_escape unmarked).2 hun).2⟩
  rw [← hescape]
  exact (denotes_of_escape marked).1

end Value

end Workplan
