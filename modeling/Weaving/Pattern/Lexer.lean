import Weaving.Pattern.Error

/-!
Cutting pattern text into tokens. Each token is as long as it can be, blanks between tokens are
skipped, and the first character that starts no token is the error.
-/

namespace Weaving.Pattern

/-- The tokens of a text that starts at a place. -/
def lex (offset : Nat) (cs : List Char) : Except PatternError (List Lexeme) :=
  match cs with
  | [] => .ok []
  | c :: rest =>
    if isBlank c then lex (offset + 1) rest
    else match found : token? (c :: rest) with
      | none => .error ⟨.unexpectedCharacter c, offset⟩
      | some (token, rest) =>
        have := length_lt_of_token? found
        (lex (offset + token.text.utf8ByteSize) rest).map (⟨token, offset⟩ :: ·)
termination_by cs.length
decreasing_by
  · exact Nat.lt_succ_self rest.length
  · assumption

/-- The tokens of a pattern. -/
def tokenize (source : String) : Except PatternError (List Lexeme) := lex 0 source.toList

end Weaving.Pattern
