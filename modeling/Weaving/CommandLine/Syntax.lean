/-!
The words of a command line. An option is a letter behind one dash or a word behind two; letters may
share a dash, and a value may stand in the same word or in the next one. Behind two dashes alone every
word is plain.
-/

namespace Weaving.CommandLine

/-- How often an option may be given. -/
inductive Repetition where
  | once
  | counted
  | collected
  deriving DecidableEq, Repr

structure Flag where
  short : Option Char := none
  long : String
  /-- What the value is called, if the option takes one. -/
  value : Option String := none
  repetition : Repetition := .once
  /-- The value is the name of a file, which is not empty. -/
  isFile : Bool := false
  help : String
  deriving DecidableEq, Repr

/-- A plain word that a command takes. -/
structure Operand where
  name : String
  isFile : Bool := false
  /-- Any number of words may stand here, or none. -/
  repeated : Bool := false
  help : String
  deriving DecidableEq, Repr

/-- A command with the options and plain words that it takes. -/
structure Command where
  name : String
  operands : List Operand := []
  flags : List Flag
  help : String
  deriving DecidableEq, Repr

/-- Why a command line is not carried out. -/
inductive Stop where
  | misuse
  | help
  | version
  deriving DecidableEq, Repr

/-- What has been read of a command line: options by their long names with their values, and plain words
in order. -/
structure Reading where
  given : List (String × String) := []
  words : List String := []
  deriving DecidableEq, Repr

namespace Reading

def has (reading : Reading) (long : String) : Bool := reading.given.any (·.1 = long)

/-- The values of an option in order. -/
def values (reading : Reading) (long : String) : List String :=
  (reading.given.filter (·.1 = long)).map (·.2)

def value? (reading : Reading) (long : String) : Option String := (reading.values long).head?

/-- One more option. Help and version are answered at once. -/
def addFlag (reading : Reading) (flag : Flag) (value : String) : Except Stop Reading :=
  if flag.long = "help" then .error .help
  else if flag.long = "version" then .error .version
  else if flag.repetition = .once ∧ reading.has flag.long then .error .misuse
  else if flag.isFile ∧ value = "" then .error .misuse
  else .ok { reading with given := reading.given ++ [(flag.long, value)] }

/-- One more plain word. -/
def addWord (reading : Reading) (command : Command) (word : String) : Except Stop Reading :=
  match command.operands[reading.words.length]? with
  | none => .error .misuse
  | some operand =>
    if operand.isFile ∧ word = "" then .error .misuse
    else .ok { reading with words := reading.words ++ [word] }

end Reading

/-- What a word is by its dashes. -/
inductive Form where
  | word
  /-- Two dashes alone. -/
  | rest
  | long (name : List Char) (value : Option (List Char))
  | short (letters : List Char)
  deriving DecidableEq, Repr

/-- The name of an option, and the value behind an equals sign. -/
def splitValue (cs : List Char) : List Char × Option (List Char) :=
  match cs.span (· ≠ '=') with
  | (name, []) => (name, none)
  | (name, _ :: value) => (name, some value)

def Form.of (word : String) : Form :=
  match word.toList with
  | ['-', '-'] => .rest
  | '-' :: '-' :: cs => .long (splitValue cs).1 (splitValue cs).2
  | '-' :: c :: cs => .short (c :: cs)
  | _ => .word

/-- What a word of options leads to: the options in it, and one that waits for its value. -/
abbrev Given := Reading × Option Flag

/-- A long option. -/
def readLong (command : Command) (reading : Reading) (name : List Char)
    (value : Option (List Char)) : Except Stop Given :=
  match command.flags.find? (·.long.toList = name) with
  | none => .error .misuse
  | some flag =>
    match flag.value, value with
    | none, none => do .ok (← reading.addFlag flag "", none)
    | none, some _ => .error .misuse
    | some _, some value => do .ok (← reading.addFlag flag (String.ofList value), none)
    | some _, none => .ok (reading, some flag)

/-- Letters behind one dash. What follows a letter that takes a value is the value, less an equals sign
in front of it. -/
def readShort (command : Command) (reading : Reading) : List Char → Except Stop Given
  | [] => .ok (reading, none)
  | letter :: letters =>
    match command.flags.find? (·.short = some letter) with
    | none => .error .misuse
    | some flag =>
      if flag.value.isNone then do
        readShort command (← reading.addFlag flag "") letters
      else
        match letters with
        | [] => .ok (reading, some flag)
        | '=' :: value | value => do .ok (← reading.addFlag flag (String.ofList value), none)

/-- The words of a command, plain words included. -/
def readWords (command : Command) (reading : Reading) : List String → Except Stop Reading
  | [] => .ok reading
  | word :: words => do
    readWords command (← reading.addWord command word) words

/-- A word as the value of an option that waits for it. -/
def readValue (reading : Reading) (flag : Flag) (word : String) : Except Stop Reading :=
  match Form.of word with
  | .word => reading.addFlag flag word
  | _ => .error .misuse

/-- The options and plain words of a command. -/
def read (command : Command) (reading : Reading) (waiting : Option Flag) :
    List String → Except Stop Reading
  | [] => if waiting.isSome then .error .misuse else .ok reading
  | word :: words =>
    match waiting with
    | some flag => do
      read command (← readValue reading flag word) none words
    | none =>
      match Form.of word with
      | .rest => readWords command reading words
      | .word => do
        read command (← reading.addWord command word) none words
      | .long name value => do
        let (reading, waiting) ← readLong command reading name value
        read command reading waiting words
      | .short letters => do
        let (reading, waiting) ← readShort command reading letters
        read command reading waiting words

/-- The options before the first plain word, and that word with those behind it. -/
structure Front where
  reading : Reading
  /-- The last option, if its value is a word of its own: it is taken in after the plain words. -/
  last : Option (Flag × String) := none
  words : List String
  deriving DecidableEq, Repr

/-- All options of a front. -/
def Front.options (front : Front) : Except Stop Reading :=
  match front.last with
  | none => .ok front.reading
  | some (flag, value) => front.reading.addFlag flag value

/-- The front of a command line. -/
def readFront (command : Command) (reading : Reading) (waiting : Option Flag) :
    List String → Except Stop Front
  | [] => if waiting.isSome then .error .misuse else .ok { reading, words := [] }
  | word :: words =>
    match waiting with
    | some flag =>
      if Form.of word = .word ∧ words.head?.map Form.of = some .word then
        .ok { reading, last := some (flag, word), words }
      else do
        readFront command (← readValue reading flag word) none words
    | none =>
      match Form.of word with
      | .rest => .error .misuse
      | .word => .ok { reading, words := word :: words }
      | .long name value => do
        let (reading, waiting) ← readLong command reading name value
        readFront command reading waiting words
      | .short letters => do
        let (reading, waiting) ← readShort command reading letters
        readFront command reading waiting words

end Weaving.CommandLine
