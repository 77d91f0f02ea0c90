/-
  Message passing — program text as a tree.

  Code is lines and blocks in braces.  `Code.text` writes it with one line per line
  and four spaces per level.
-/

namespace MessagePassing

/-- A line, or a head with a body in braces. -/
inductive Code where
  | line (text : String)
  | block (head : String) (body : List Code)

namespace Code

/-- The indentation of a level. -/
def indent (level : Nat) : String := String.ofList (List.replicate (4 * level) ' ')

mutual

/-- Code at a level. -/
def textAt (level : Nat) : Code → String
  | line text => indent level ++ text ++ "\n"
  | block head body =>
    indent level ++ head ++ " \x7b\n" ++ listTextAt (level + 1) body ++
      indent level ++ "\x7d\n"

/-- Code after code at a level. -/
def listTextAt (level : Nat) : List Code → String
  | [] => ""
  | c :: rest => textAt level c ++ listTextAt level rest

end

/-- The text of code. -/
def text (code : List Code) : String := listTextAt 0 code

end Code

end MessagePassing
