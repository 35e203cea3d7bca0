/-!
# Structured output

Values of numbers, texts, lists and records, and how they are printed: one item a line, each level
indented by two spaces, and an empty list or record on one line.
-/

namespace EvmCore

/-- A structured value. -/
inductive Json where
  | null
  | number (n : Int)
  /-- A text without characters that would have to be escaped. -/
  | text (s : String)
  | list (items : List Json)
  | record (fields : List (String × Json))

namespace Json

/-- The start of a line at an indentation level. -/
def newline (level : Nat) : String := "\n" ++ "".pushn ' ' (2 * level)

/-- A text in quotation marks. -/
def quote (s : String) : String := "\"" ++ s ++ "\""

/-- Printed items between an opening and a closing bracket. -/
def bracket (opening closing : String) (level : Nat) (items : List String) : String :=
  if items.isEmpty then opening ++ closing
  else
    opening ++ newline (level + 1) ++ String.intercalate ("," ++ newline (level + 1)) items ++
      newline level ++ closing

/-- A value as it is printed at an indentation level. -/
def render (level : Nat) : Json → String
  | .null => "null"
  | .number n => toString n
  | .text s => quote s
  | .list items => bracket "[" "]" level (items.map fun item => item.render (level + 1))
  | .record fields =>
    bracket "\x7b" "\x7d" level
      (fields.map fun field => quote field.1 ++ ": " ++ field.2.render (level + 1))
termination_by v => sizeOf v
decreasing_by
  · decreasing_tactic
  · rename_i h
    have hfield : sizeOf field.2 < sizeOf field := by
      rcases field with ⟨name, value⟩
      change sizeOf value < sizeOf (name, value)
      rw [Prod.mk.sizeOf_spec]
      omega
    have hfields := List.sizeOf_lt_of_mem h
    rw [Json.record.sizeOf_spec]
    omega

end Json

end EvmCore
