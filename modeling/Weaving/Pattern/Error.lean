import Weaving.Pattern.Token

/-!
What may be wrong with a pattern, and where.
-/

namespace Weaving.Pattern

/-- What a pattern needs at some place. -/
inductive Need where
  | segment
  | interfaceName
  | token (token : Token)
  deriving DecidableEq, Repr

def Need.text : Need → String
  | .segment => "a name or `*`"
  | .interfaceName => "an interface name"
  | .token needed => needed.quoted

inductive Defect where
  | unexpectedCharacter (c : Char)
  /-- Something else was found than needed, or the end of the pattern. -/
  | missing (need : Need) (found : Option Token)
  | trailing (token : Token)
  | starInsideNamespace
  | longPath
  | explicitLength
  | explicitWildcard
  deriving DecidableEq, Repr

def Defect.text : Defect → String
  | .unexpectedCharacter c => "unexpected character `" ++ String.singleton c ++ "`"
  | .missing need none => "expected " ++ need.text ++ ", found end of pattern"
  | .missing need (some token) => "expected " ++ need.text ++ ", found " ++ token.quoted
  | .trailing token => "unexpected " ++ token.quoted ++ " after pattern"
  | .starInsideNamespace => "`*` may only end a namespace"
  | .longPath => "member path must be `[Type.]Member`; qualify namespaces with `::`"
  | .explicitLength => "explicit pattern must be `[Type.]Member.Name`"
  | .explicitWildcard => "explicit pattern must name its member and join point literally"

end Weaving.Pattern

namespace Weaving

/-- A defect of a pattern at a place, counted in bytes. -/
structure PatternError where
  defect : Pattern.Defect
  offset : Nat
  deriving DecidableEq, Repr

namespace PatternError

/-- The message without the place. -/
def text (error : PatternError) : String := error.defect.text

def message (error : PatternError) : String :=
  error.text ++ " (at offset " ++ Nat.repr error.offset ++ ")"

end PatternError

end Weaving
