/-
  Message passing — identifiers from model names.

  A model's name may be any text, conventionally a file name.  The name of its
  program is made from it: without the extension, with only ASCII letters, digits
  and underscores, not starting with a digit, and not a reserved word of the
  language that programs are written in.
-/

namespace MessagePassing.Identifier

/-- Words that cannot be identifiers in any edition of the program language. -/
def reserved : List String :=
  ["Self", "abstract", "as", "async", "await", "become", "box", "break", "const", "continue",
    "crate", "do", "dyn", "else", "enum", "extern", "false", "final", "fn", "for", "gen", "if",
    "impl", "in", "let", "loop", "macro", "match", "mod", "move", "mut", "override", "priv",
    "pub", "ref", "return", "self", "static", "struct", "super", "trait", "true", "try", "type",
    "typeof", "unsafe", "unsized", "use", "virtual", "where", "while", "yield"]

/-- The name up to its last dot; all of it if nothing precedes the dot. -/
def stem (name : List Char) : List Char :=
  let before := (name.reverse.dropWhile (· != '.')).tail.reverse
  if before.isEmpty then name else before

/-- Letters and digits stay, anything else becomes an underscore. -/
def plain (c : Char) : Char := if c.isAlphanum then c else '_'

/-- The name used where no letter or digit is left. -/
def fallback : List Char := ['m', 'o', 'd', 'e', 'l']

/-- The identifier for a name. -/
def ofName (name : String) : String :=
  let letters := (stem name.toList).map plain
  let letters := if letters.all (· == '_') then fallback else letters
  let letters := if letters.head?.any Char.isDigit then '_' :: letters else letters
  let word := String.ofList letters
  if reserved.contains word then word.push '_' else word

end MessagePassing.Identifier
