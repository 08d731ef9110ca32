import Weaving.Pattern
import Weaving.Pattern.Lexer

/-!
Reading patterns. A pattern is

    modifier* [namespace '::'] path [ '(' params ')' ] [ 'implements' word (',' word)* ]

where a modifier is a keyword that a word or a star follows, a namespace or path is a list of words and
stars between dots, and the parameters are nothing, two dots, or words and stars between commas. Each
reader takes what it reads off the front of the tokens; the end of the text is where an error stands
that has no token.
-/

namespace Weaving.Pattern

/-- The tokens that are still to be read. -/
abbrev Rest := List Lexeme

/-- The next token. -/
def nextToken? (rest : Rest) : Option Token := rest.head?.map (·.token)

/-- The place of the next token. -/
def place (stop : Nat) : Rest → Nat
  | [] => stop
  | lexeme :: _ => lexeme.start

/-- The error of needing something else than the next token. -/
def missing (stop : Nat) (need : Need) (rest : Rest) : PatternError :=
  ⟨.missing need (nextToken? rest), place stop rest⟩

/-- The next token must be this one. -/
def expect (stop : Nat) (token : Token) : Rest → Except PatternError (Rest)
  | [] => .error (missing stop (.token token) [])
  | lexeme :: rest =>
    if lexeme.token = token then .ok rest else .error (missing stop (.token token) (lexeme :: rest))

/-- Nothing may follow. -/
def finish : Rest → Except PatternError Unit
  | [] => .ok ()
  | lexeme :: _ => .error ⟨.trailing lexeme.token, lexeme.start⟩

/-- A token that is a name position. -/
def Token.asSegment? : Token → Option Segment
  | .star => some .any
  | .word name => some (.name name)
  | _ => none

/-- One name position, with its place. -/
def readSegment (stop : Nat) : Rest → Except PatternError ((Segment × Nat) × Rest)
  | [] => .error (missing stop .segment [])
  | lexeme :: rest =>
    match lexeme.token.asSegment? with
    | some segment => .ok ((segment, lexeme.start), rest)
    | none => .error (missing stop .segment (lexeme :: rest))

/-- Further name positions, each behind a separator. -/
def readSegments (stop : Nat) (separator : Token) : Rest → Except PatternError ((List (Segment × Nat)) × Rest)
  | [] => .ok ([], [])
  | first :: rest =>
    if first.token = separator then
      match rest with
      | [] => .error (missing stop .segment [])
      | lexeme :: rest =>
        match lexeme.token.asSegment? with
        | some segment => do
          let (segments, rest) ← readSegments stop separator rest
          .ok ((segment, lexeme.start) :: segments, rest)
        | none => .error (missing stop .segment (lexeme :: rest))
    else .ok ([], first :: rest)

/-- One or more name positions between separators. -/
def readSeparated (stop : Nat) (separator : Token) (lexemes : Rest) :
    Except PatternError ((List (Segment × Nat)) × Rest) := do
  let (first, rest) ← readSegment stop lexemes
  let (others, rest) ← readSegments stop separator rest
  .ok (first :: others, rest)

/-- The words of a namespace, and whether a star ends them. -/
def namespaceWords : List (Segment × Nat) → Except PatternError (List String × Bool)
  | [] => .ok ([], false)
  | [(.any, _)] => .ok ([], true)
  | (.any, offset) :: _ :: _ => .error ⟨.starInsideNamespace, offset⟩
  | (.name word, _) :: segments => do
    let (words, star) ← namespaceWords segments
    .ok (word :: words, star)

/-- The namespace filter that name positions stand for. A star alone accepts every namespace. -/
def Namespace.ofSegments (segments : List (Segment × Nat)) : Except PatternError Namespace := do
  let (words, star) ← namespaceWords segments
  .ok ⟨words, star && !words.isEmpty⟩

/-- A word in modifier position. -/
inductive Modifier where
  | point
  | visibility (visibility : Visibility)
  | kind (kind : MemberKind)
  deriving DecidableEq

/-- The modifier that a word stands for. -/
def Modifier.ofWord? (word : String) : Option Modifier :=
  if word = "point" then some .point
  else match Visibility.ofName? word with
    | some found => some (.visibility found)
    | none => (MemberKind.ofKeyword? word).map .kind

/-- A token that is a modifier when a name position follows it. -/
def Token.asModifier? : Token → Option Modifier
  | .word text => Modifier.ofWord? text
  | _ => none

/-- The modifiers at the front. -/
def readModifiers : Rest → List Modifier × Rest
  | first :: second :: rest =>
    match first.token.asModifier?, second.token.asSegment? with
    | some modifier, some _ =>
      let (modifiers, rest) := readModifiers (second :: rest)
      (modifier :: modifiers, rest)
    | _, _ => ([], first :: second :: rest)
  | rest => ([], rest)

/-- The parameter list, if there is one. -/
def readParams (stop : Nat) : Rest → Except PatternError (Params × Rest)
  | [] => .ok (.any, [])
  | lexeme :: rest =>
    if lexeme.token = .openParen then
      match nextToken? rest with
      | some .closeParen => .ok (.exactly [], rest.tail)
      | some .ellipsis => do
        let rest ← expect stop .closeParen rest.tail
        .ok (.any, rest)
      | _ => do
        let (types, rest) ← readSeparated stop .comma rest
        let rest ← expect stop .closeParen rest
        .ok (.exactly (types.map (·.1)), rest)
    else .ok (.any, lexeme :: rest)

/-- One or more interface names between commas. -/
def readInterfaceNames (stop : Nat) : Rest → Except PatternError (List String × Rest)
  | [] => .error (missing stop .interfaceName [])
  | lexeme :: rest =>
    match lexeme.token with
    | .word name =>
      match rest with
      | [] => .ok ([name], [])
      | next :: rest =>
        if next.token = .comma then do
          let (names, rest) ← readInterfaceNames stop rest
          .ok (name :: names, rest)
        else .ok ([name], next :: rest)
    | _ => .error (missing stop .interfaceName (lexeme :: rest))

/-- The required interfaces, if any. -/
def readInterfaces (stop : Nat) : Rest → Except PatternError (List String × Rest)
  | [] => .ok ([], [])
  | lexeme :: rest =>
    if lexeme.token = .word "implements" then readInterfaceNames stop rest
    else .ok ([], lexeme :: rest)

/-- The type, member and join point that a path names. An explicit path ends in two words, and any
path may start with a type. -/
def splitPath (explicit : Bool) (offset : Nat) (path : List Segment) :
    Except PatternError (Option Segment × Segment × Option String) :=
  if explicit then
    match path with
    | [.name member, .name point] => .ok (none, .name member, some point)
    | [type, .name member, .name point] => .ok (some type, .name member, some point)
    | [_, _] | [_, _, _] => .error ⟨.explicitWildcard, offset⟩
    | _ => .error ⟨.explicitLength, offset⟩
  else
    match path with
    | [] => .ok (none, .any, none)
    | [member] => .ok (none, member, none)
    | [type, member] => .ok (some type, member, none)
    | _ => .error ⟨.longPath, offset⟩

/-- The namespace, if a path separator follows it, and the path. -/
def readPath (stop : Nat) (lexemes : Rest) :
    Except PatternError ((Option Namespace × List (Segment × Nat)) × Rest) := do
  let (segments, rest) ← readSeparated stop .dot lexemes
  match rest with
  | [] => .ok ((none, segments), [])
  | lexeme :: rest =>
    if lexeme.token = .pathSeparator then do
      let scope ← Namespace.ofSegments segments
      let (path, rest) ← readSeparated stop .dot rest
      .ok ((some scope, path), rest)
    else .ok ((none, segments), lexeme :: rest)

/-- The pattern that the tokens of a text stand for. -/
def ofLexemes (stop : Nat) (lexemes : Rest) : Except PatternError Pattern := do
  let (modifiers, rest) := readModifiers lexemes
  let explicit := modifiers.contains .point
  let start := place stop rest
  let ((scope, path), rest) ← readPath stop rest
  let (typeName, member, point) ← splitPath explicit start (path.map (·.1))
  let (params, rest) ← readParams stop rest
  let (interfaces, rest) ← readInterfaces stop rest
  finish rest
  .ok
    { visibilities := modifiers.filterMap fun
        | .visibility visibility => some visibility
        | _ => none
      kinds := modifiers.filterMap fun
        | .kind kind => some kind
        | _ => none
      explicit, scope, typeName, member, point, params, interfaces }

/-- The pattern that a text stands for. -/
def parse (source : String) : Except PatternError Pattern := do
  let lexemes ← tokenize source
  ofLexemes source.utf8ByteSize lexemes

namespace Namespace

/-- The namespace filter that a text stands for. -/
def parse (source : String) : Except PatternError Namespace := do
  let lexemes ← tokenize source
  let (segments, rest) ← readSeparated source.utf8ByteSize .dot lexemes
  let filter ← ofSegments segments
  finish rest
  .ok filter

end Namespace

end Weaving.Pattern
