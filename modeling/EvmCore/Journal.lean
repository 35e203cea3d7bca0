/-!
# Journals

A journal records how to undo what was done, in layers. A checkpoint opens a layer; committing it
adds its entries to the layer around it, and reverting it hands them out, newest first, to be
undone. The outermost layer is always open and can be neither committed nor reverted.
-/

namespace EvmCore

/-- The layers of recorded entries, each with its newest entry first. -/
structure Journal (Entry : Type) where
  /-- The innermost layer. -/
  current : List Entry := []
  /-- The layers around it, from the inside out. -/
  outer : List (List Entry) := []

namespace Journal

variable {Entry : Type}

/-- The number of layers that can be committed or reverted. -/
def depth (j : Journal Entry) : Nat := j.outer.length

/-- Adds an entry to the innermost layer. -/
def record (j : Journal Entry) (e : Entry) : Journal Entry :=
  { j with current := e :: j.current }

/-- Opens a layer. -/
def checkpoint (j : Journal Entry) : Journal Entry :=
  { current := [], outer := j.current :: j.outer }

/-- Adds the entries of the innermost layer to the one around it, if there is one. -/
def commit? (j : Journal Entry) : Option (Journal Entry) :=
  match j.outer with
  | [] => none
  | layer :: rest => some { current := j.current ++ layer, outer := rest }

/-- Takes the innermost layer off, if it is not the outermost, and gives its entries, newest
first. -/
def revert? (j : Journal Entry) : Option (List Entry × Journal Entry) :=
  match j.outer with
  | [] => none
  | layer :: rest => some (j.current, { current := layer, outer := rest })

end Journal

end EvmCore
