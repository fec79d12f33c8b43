set_option autoImplicit false

namespace PipeExpr

/-- An offset in characters from zero, a line from one and a column from one. They count characters
    of a text, and no text is so long that they could not be written out. -/
structure Location where
  position : Nat := 0
  line : Nat := 1
  column : Nat := 1
deriving DecidableEq

namespace Location

def start : Location := {}

def step (l : Location) (c : Char) : Location :=
  if c = '\n' then ⟨l.position + 1, l.line + 1, 1⟩ else ⟨l.position + 1, l.line, l.column + 1⟩

def advance (l : Location) (text : List Char) : Location :=
  text.foldl step l

def lastLine (text : List Char) : List Char :=
  (text.reverse.takeWhile (· ≠ '\n')).reverse

def past (l : Location) (text : List Char) : Location :=
  let feeds := text.count '\n'
  if feeds = 0 then ⟨l.position + text.length, l.line, l.column + text.length⟩
  else ⟨l.position + text.length, l.line + feeds, (lastLine text).length + 1⟩

def endOf (source : String) : Location :=
  start.past source.toList

@[simp] theorem advance_nil (l : Location) : l.advance [] = l := rfl

@[simp] theorem advance_cons (l : Location) (c : Char) (text : List Char) :
    l.advance (c :: text) = (l.step c).advance text := rfl

theorem advance_append (l : Location) (a b : List Char) :
    l.advance (a ++ b) = (l.advance a).advance b :=
  List.foldl_append ..

theorem lastLine_concat (text : List Char) (c : Char) :
    lastLine (text ++ [c]) = if c = '\n' then [] else lastLine text ++ [c] := by
  by_cases h : c = '\n' <;> simp [lastLine, h]

/-- Carrying a location along and counting line feeds come to the same. -/
theorem advance_eq_past (l : Location) (text : List Char) : l.advance text = l.past text := by
  rw [← List.reverse_reverse text]
  generalize text.reverse = back
  induction back with
  | nil => rfl
  | cons c back ih =>
    rw [List.reverse_cons, advance_append, ih]
    by_cases h : c = '\n'
    · subst h
      by_cases feeds : back.reverse.count '\n' = 0 <;>
        simp_all [past, step, lastLine_concat] <;> omega
    · by_cases feeds : back.reverse.count '\n' = 0 <;>
        simp_all [past, step, lastLine_concat] <;> omega

end Location

end PipeExpr
