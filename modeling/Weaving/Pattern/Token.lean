/-!
The words and marks of pattern text. Keywords are words like any other: whether `get` is a modifier or
the name of a member depends on where it stands. A pattern is made of ASCII, so the place of a token is
a count of bytes and of characters at once.
-/

namespace Weaving.Pattern

inductive Token where
  | pathSeparator
  | ellipsis
  | dot
  | star
  | openParen
  | closeParen
  | comma
  | word (name : String)
  deriving DecidableEq, Repr

namespace Token

/-- The token as it stands in a pattern. -/
def text : Token → String
  | .pathSeparator => "::"
  | .ellipsis => ".."
  | .dot => "."
  | .star => "*"
  | .openParen => "("
  | .closeParen => ")"
  | .comma => ","
  | .word name => name

/-- The token as it stands in messages. -/
def quoted (token : Token) : String := "`" ++ token.text ++ "`"

end Token

/-- A token and the place where it starts. -/
structure Lexeme where
  token : Token
  start : Nat
  deriving DecidableEq, Repr

/-- The place after a token. -/
def Lexeme.stop (lexeme : Lexeme) : Nat := lexeme.start + lexeme.token.text.utf8ByteSize

/-- The characters that may stand between tokens. -/
def isBlank (c : Char) : Bool := c = ' ' || c = '\t' || c = '\r' || c = '\n'

/-- The characters that a word may start with. -/
def startsWord (c : Char) : Bool :=
  ('A' ≤ c && c ≤ 'Z') || ('a' ≤ c && c ≤ 'z') || c = '_'

def isWordChar (c : Char) : Bool := startsWord c || ('0' ≤ c && c ≤ '9')

/-- The rest of a word and what follows it. A hyphen belongs to the word only if the word goes on
behind it. -/
def wordTail : List Char → List Char × List Char
  | [] => ([], [])
  | c :: cs =>
    if isWordChar c || (c = '-' && cs.head?.any isWordChar) then
      let (tail, rest) := wordTail cs
      (c :: tail, rest)
    else ([], c :: cs)

/-- The longest token at the front of a text, and what follows it. -/
def token? : List Char → Option (Token × List Char)
  | ':' :: ':' :: rest => some (.pathSeparator, rest)
  | '.' :: '.' :: rest => some (.ellipsis, rest)
  | '.' :: rest => some (.dot, rest)
  | '*' :: rest => some (.star, rest)
  | '(' :: rest => some (.openParen, rest)
  | ')' :: rest => some (.closeParen, rest)
  | ',' :: rest => some (.comma, rest)
  | c :: rest =>
    if startsWord c then
      let (tail, rest) := wordTail rest
      some (.word (String.ofList (c :: tail)), rest)
    else none
  | [] => none

/-- A word loses nothing, and its rest is no longer than the text. -/
theorem wordTail_append (cs : List Char) : (wordTail cs).1 ++ (wordTail cs).2 = cs := by
  induction cs with
  | nil => rfl
  | cons c cs ih =>
    rw [wordTail]
    split <;> simp [ih]

/-- A token takes its own text off the front. -/
theorem text_append_of_token? {cs rest : List Char} {token : Token}
    (found : token? cs = some (token, rest)) : token.text.toList ++ rest = cs := by
  unfold token? at found
  split at found
  case h_8 =>
    split at found
    · cases found
      simpa [Token.text] using wordTail_append _
    · cases found
  all_goals (cases found <;> rfl)

/-- A token is never empty. -/
theorem length_lt_of_token? {cs rest : List Char} {token : Token}
    (found : token? cs = some (token, rest)) : rest.length < cs.length := by
  have shape := congrArg List.length (text_append_of_token? found)
  have some_text : token.text.toList ≠ [] := by
    unfold token? at found
    split at found
    case h_8 =>
      split at found
      · cases found
        simp [Token.text]
      · cases found
    all_goals (cases found <;> decide)
  have := List.length_pos_iff.mpr some_text
  simp only [List.length_append] at shape
  omega

end Weaving.Pattern
