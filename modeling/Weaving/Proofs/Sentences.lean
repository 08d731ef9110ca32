import Mathlib.Control.Monad.Basic
import Weaving.Pattern.Parser

/-!
Every sentence of the pattern grammar is read as it is meant, but for one family. The reader takes modifiers
for as long as a keyword stands before a name, and the word `implements` is a name like any other: a lone
member whose name is a keyword is taken for a modifier when required interfaces follow it, and then
`implements` is the member and the interfaces are left over (`Pattern.parse_of_sentence`).

A sentence is what the grammar derives, before it is spelt: its modifier words, its namespace, its path, its
parameters and its interfaces. Names may be any words, keywords and `implements` among them.
-/

namespace Weaving.Pattern

/-! ## Sentences -/

/-- The words of the grammar that are modifiers. -/
def modifierWords : List String :=
  "point" :: Visibility.all.map Visibility.name ++ MemberKind.all.flatMap fun kind => [kind.keyword, kind.name]

def visibilityWords : List String := Visibility.all.map Visibility.name

def kindWords : List String := MemberKind.all.flatMap fun kind => [kind.keyword, kind.name]

/-- The path of a sentence: a member, or a join point of a member, maybe with a type before it. -/
inductive Path where
  | toMember (type : Option Segment) (member : Segment)
  | toPoint (type : Option Segment) (member point : String)

namespace Path

def explicit : Path → Bool
  | .toMember .. => false
  | .toPoint .. => true

def segments : Path → List Segment
  | .toMember type member => type.toList ++ [member]
  | .toPoint type member point => type.toList ++ [.name member, .name point]

def type : Path → Option Segment
  | .toMember type _ | .toPoint type _ _ => type

def member : Path → Segment
  | .toMember _ member => member
  | .toPoint _ member _ => .name member

def pointName : Path → Option String
  | .toMember .. => none
  | .toPoint _ _ point => some point

end Path

/-- The parameter list of a sentence. -/
inductive Listing where
  | absent
  | anything
  | types (listed : List Segment)

/-- The filter over parameters that a list means. -/
def Listing.params : Listing → Params
  | .absent | .anything => .any
  | .types listed => .exactly listed

/-- What the grammar derives. A path names a join point just if `point` is among the modifiers, and a star
alone is the namespace that accepts every other. -/
structure Sentence where
  modifiers : List String
  keywords : ∀ word ∈ modifiers, word ∈ modifierWords
  scope : Option Namespace
  lone : ∀ filter ∈ scope, filter.segments = [] → filter.directOnly = false
  path : Path
  explicit : path.explicit = true ↔ "point" ∈ modifiers
  params : Listing
  interfaces : List String

/-! ## Spelling -/

def Segment.token : Segment → Token
  | .any => .star
  | .name text => .word text

@[simp] theorem Segment.asSegment?_token (segment : Segment) : segment.token.asSegment? = some segment := by
  cases segment <;> rfl

theorem Segment.token_ne {segment : Segment} {token : Token} (other : token.asSegment? = none) :
    segment.token ≠ token := by
  rintro rfl
  simp at other

/-- Further name positions, each behind a separator. -/
def behind (separator : Token) (segments : List Segment) : List Token :=
  segments.flatMap fun segment => [separator, segment.token]

/-- Name positions between separators. -/
def between (separator : Token) : List Segment → List Token
  | [] => []
  | first :: others => first.token :: behind separator others

/-- The name positions of a namespace. A star ends it if it excludes what is nested, or is all there is. -/
def Namespace.written (filter : Namespace) : List Segment :=
  filter.segments.map .name ++ if filter.directOnly ∨ filter.segments = [] then [.any] else []

def Listing.tokens : Listing → List Token
  | .absent => []
  | .anything => [.openParen, .ellipsis, .closeParen]
  | .types listed => .openParen :: between .comma listed ++ [.closeParen]

/-- The clause of required interfaces, which names at least one. -/
def interfaceTokens : List String → List Token
  | [] => []
  | interfaces => .word "implements" :: between .comma (interfaces.map .name)

namespace Sentence

/-- What follows the modifiers up to the end of the path. -/
def pathTokens (sentence : Sentence) : List Token :=
  (match sentence.scope with
    | none => []
    | some filter => between .dot filter.written ++ [.pathSeparator]) ++ between .dot sentence.path.segments

/-- What follows the path. -/
def closing (sentence : Sentence) : List Token := sentence.params.tokens ++ interfaceTokens sentence.interfaces

def tokens (sentence : Sentence) : List Token :=
  sentence.modifiers.map .word ++ (sentence.pathTokens ++ sentence.closing)

/-- The pattern that a sentence means. -/
def pattern (sentence : Sentence) : Pattern where
  visibilities := (sentence.modifiers.filterMap Modifier.ofWord?).filterMap fun
    | .visibility visibility => some visibility
    | _ => none
  kinds := (sentence.modifiers.filterMap Modifier.ofWord?).filterMap fun
    | .kind kind => some kind
    | _ => none
  explicit := sentence.path.explicit
  scope := sentence.scope
  typeName := sentence.path.type
  member := sentence.path.member
  point := sentence.path.pointName
  params := sentence.params.params
  interfaces := sentence.interfaces

/-- The path is a lone member with the name of a modifier, right before the required interfaces. -/
def Swallowed (sentence : Sentence) : Prop :=
  ∃ word ∈ modifierWords, sentence.scope = none ∧ sentence.path = .toMember none (.name word) ∧
    sentence.params = .absent ∧ sentence.interfaces ≠ []

end Sentence

/-! ## Name positions -/

section Reading

variable (stop : Nat) {lexemes : Rest} {more : List Token}

/-- The tokens of some lexemes, front first. -/
theorem lexeme_of_tokens (token : Token) (spelt : lexemes.map (·.token) = token :: more) :
    ∃ start rest, lexemes = ⟨token, start⟩ :: rest ∧ rest.map (·.token) = more := by
  obtain ⟨⟨_, start⟩, rest, rfl, rfl, rest_spelt⟩ := List.map_eq_cons_iff.mp spelt
  exact ⟨start, rest, rfl, rest_spelt⟩

/-- Name positions are read up to the first token that is no separator. -/
theorem readSegments_of_tokens {separator : Token} (segments : List Segment) {lexemes : Rest}
    (spelt : lexemes.map (·.token) = behind separator segments ++ more) (ends : more.head? ≠ some separator) :
    ∃ found rest, readSegments stop separator lexemes = .ok (found, rest) ∧
      found.map (·.1) = segments ∧ rest.map (·.token) = more := by
  induction segments generalizing lexemes with
  | nil =>
    cases lexemes with
    | nil => exact ⟨[], [], readSegments.eq_1 stop separator, rfl, spelt⟩
    | cons first rest =>
      refine ⟨[], first :: rest, ?_, rfl, spelt⟩
      have other : first.token ≠ separator := by
        rintro rfl
        have spelt : first.token :: rest.map (·.token) = more := spelt
        simp [← spelt] at ends
      rw [readSegments.eq_def]
      simp only [if_neg other]
  | cons segment segments ih =>
    obtain ⟨_, rest, rfl, first_spelt⟩ := lexeme_of_tokens separator spelt
    obtain ⟨start, rest, rfl, others_spelt⟩ := lexeme_of_tokens segment.token first_spelt
    obtain ⟨found, left, read, named, left_spelt⟩ := ih others_spelt
    refine ⟨(segment, start) :: found, left, ?_, by simp [named], left_spelt⟩
    simp [readSegments, read, bind, Except.bind]

theorem readSeparated_of_tokens {separator : Token} {segments : List Segment} (there : segments ≠ [])
    (spelt : lexemes.map (·.token) = between separator segments ++ more) (ends : more.head? ≠ some separator) :
    ∃ found rest, readSeparated stop separator lexemes = .ok (found, rest) ∧
      found.map (·.1) = segments ∧ rest.map (·.token) = more := by
  obtain ⟨first, others, rfl⟩ := List.exists_cons_of_ne_nil there
  obtain ⟨start, rest, rfl, others_spelt⟩ := lexeme_of_tokens first.token spelt
  obtain ⟨found, left, read, named, left_spelt⟩ := readSegments_of_tokens stop others others_spelt ends
  refine ⟨(first, start) :: found, left, ?_, by simp [named], left_spelt⟩
  simp [readSeparated, readSegment, read, bind, Except.bind]

/-! ## The namespace and the path -/

theorem Namespace.written_ne (filter : Namespace) : filter.written ≠ [] := by
  unfold written
  by_cases empty : filter.segments = [] <;> simp [empty]

/-- The words of a namespace and its final star are found again. -/
theorem namespaceWords_of_written (words : List String) (star : Bool) {found : List (Segment × Nat)}
    (named : found.map (·.1) = words.map .name ++ if star then [.any] else []) :
    namespaceWords found = .ok (words, star) := by
  induction words generalizing found with
  | nil =>
    cases star with
    | false => rw [List.map_eq_nil_iff.mp named, namespaceWords]
    | true =>
      obtain ⟨⟨_, place⟩, rest, rfl, rfl, rest_named⟩ := List.map_eq_cons_iff.mp named
      rw [List.map_eq_nil_iff.mp rest_named, namespaceWords]
  | cons word words ih =>
    obtain ⟨⟨_, place⟩, rest, rfl, rfl, rest_named⟩ := List.map_eq_cons_iff.mp named
    simp [namespaceWords, ih rest_named, bind, Except.bind]

theorem Namespace.ofSegments_of_written {filter : Namespace}
    (lone : filter.segments = [] → filter.directOnly = false) {found : List (Segment × Nat)}
    (named : found.map (·.1) = filter.written) : ofSegments found = .ok filter := by
  have read := namespaceWords_of_written filter.segments (filter.directOnly || filter.segments.isEmpty) (by
    simpa [written] using named)
  obtain ⟨words, direct⟩ := filter
  cases words with
  | nil => simp_all [ofSegments, bind, Except.bind]
  | cons word words => simp_all [ofSegments, bind, Except.bind]

theorem Path.segments_ne (path : Path) : path.segments ≠ [] := by
  cases path <;> simp [segments]

theorem splitPath_segments (path : Path) (offset : Nat) :
    splitPath path.explicit offset path.segments = .ok (path.type, path.member, path.pointName) := by
  cases path with
  | toMember type member => cases type <;> rfl
  | toPoint type member point =>
    rcases type with _ | _ | _ <;> rfl

/-- A path without a namespace is read up to the first token that does not continue it. -/
theorem readPath_of_path {path : List Segment} (there : path ≠ [])
    (spelt : lexemes.map (·.token) = between .dot path ++ more)
    (dot : more.head? ≠ some .dot) (colons : more.head? ≠ some .pathSeparator) :
    ∃ found rest, readPath stop lexemes = .ok ((none, found), rest) ∧
      found.map (·.1) = path ∧ rest.map (·.token) = more := by
  obtain ⟨found, rest, read, named, rest_spelt⟩ := readSeparated_of_tokens stop there spelt dot
  refine ⟨found, rest, ?_, named, rest_spelt⟩
  cases rest with
  | nil => simp [readPath, read, bind, Except.bind]
  | cons next rest =>
    have other : next.token ≠ .pathSeparator := by
      rintro same
      simp [← rest_spelt, same] at colons
    simp [readPath, read, bind, Except.bind, other]

/-- A namespace and a path are read up to the first token that continues neither. -/
theorem readPath_of_tokens (sentence : Sentence) (spelt : lexemes.map (·.token) = sentence.pathTokens ++ more)
    (dot : more.head? ≠ some .dot) (colons : more.head? ≠ some .pathSeparator) :
    ∃ found rest, readPath stop lexemes = .ok ((sentence.scope, found), rest) ∧
      found.map (·.1) = sentence.path.segments ∧ rest.map (·.token) = more := by
  cases scope : sentence.scope with
  | none =>
    have path_spelt : lexemes.map (·.token) = between .dot sentence.path.segments ++ more := by
      simpa [Sentence.pathTokens, scope] using spelt
    exact readPath_of_path stop sentence.path.segments_ne path_spelt dot colons
  | some filter =>
    have filter_spelt : lexemes.map (·.token) = between .dot filter.written ++
        .pathSeparator :: (between .dot sentence.path.segments ++ more) := by
      simpa [Sentence.pathTokens, scope] using spelt
    obtain ⟨front, rest, read, front_named, rest_spelt⟩ :=
      readSeparated_of_tokens stop filter.written_ne filter_spelt (by simp)
    obtain ⟨_, rest, rfl, path_spelt⟩ := lexeme_of_tokens _ rest_spelt
    obtain ⟨found, left, read_path, named, left_spelt⟩ :=
      readSeparated_of_tokens stop sentence.path.segments_ne path_spelt dot
    have filtered := Namespace.ofSegments_of_written (sentence.lone filter scope) front_named
    exact ⟨found, left, by simp [readPath, read, filtered, read_path, bind, Except.bind], named, left_spelt⟩

/-! ## What follows the path -/

theorem readParams_of_tokens (listing : Listing) (spelt : lexemes.map (·.token) = listing.tokens ++ more)
    (ends : more.head? ≠ some .openParen) :
    ∃ rest, readParams stop lexemes = .ok (listing.params, rest) ∧ rest.map (·.token) = more := by
  cases listing with
  | absent =>
    have spelt : lexemes.map (·.token) = more := spelt
    refine ⟨lexemes, ?_, spelt⟩
    cases lexemes with
    | nil => rfl
    | cons next rest =>
      have other : next.token ≠ .openParen := by
        rintro same
        simp [← spelt, same] at ends
      rw [readParams, if_neg other]
      rfl
  | anything =>
    obtain ⟨_, rest, rfl, inside⟩ := lexeme_of_tokens .openParen spelt
    obtain ⟨_, rest, rfl, behind⟩ := lexeme_of_tokens .ellipsis inside
    obtain ⟨_, rest, rfl, left_spelt⟩ := lexeme_of_tokens .closeParen behind
    exact ⟨rest, by simp [readParams, nextToken?, expect, Listing.params, bind, Except.bind], left_spelt⟩
  | types listed =>
    obtain ⟨_, rest, rfl, inside⟩ := lexeme_of_tokens .openParen spelt
    rcases listed with _ | ⟨first, others⟩
    · obtain ⟨_, rest, rfl, left_spelt⟩ := lexeme_of_tokens .closeParen inside
      exact ⟨rest, by simp [readParams, nextToken?, Listing.params], left_spelt⟩
    have types_spelt : rest.map (·.token) = between .comma (first :: others) ++ .closeParen :: more := by
      simpa using inside
    obtain ⟨found, left, read, named, left_spelt⟩ :=
      readSeparated_of_tokens stop (List.cons_ne_nil _ _) types_spelt (by simp)
    obtain ⟨_, left, rfl, more_spelt⟩ := lexeme_of_tokens _ left_spelt
    -- The first type is no token that a list without types goes on with.
    obtain ⟨_, rest, rfl, _⟩ := lexeme_of_tokens first.token inside
    refine ⟨left, ?_, more_spelt⟩
    have no_end : first.token ≠ .closeParen := Segment.token_ne rfl
    have no_dots : first.token ≠ .ellipsis := Segment.token_ne rfl
    simp only [readParams, if_true, nextToken?, List.head?_cons, Option.map_some]
    split
    · simp_all
    · simp_all
    · simp [read, expect, named, Listing.params, bind, Except.bind]

theorem readInterfaceNames_of_tokens (name : String) (names : List String) {lexemes : Rest}
    (spelt : lexemes.map (·.token) = between .comma ((name :: names).map .name)) :
    readInterfaceNames stop lexemes = .ok (name :: names, []) := by
  induction names generalizing name lexemes with
  | nil =>
    obtain ⟨_, rest, rfl, last⟩ := lexeme_of_tokens (.word name) spelt
    rw [List.map_eq_nil_iff.mp last, readInterfaceNames]
  | cons second names ih =>
    obtain ⟨_, rest, rfl, comma⟩ := lexeme_of_tokens (.word name) spelt
    obtain ⟨_, rest, rfl, others⟩ := lexeme_of_tokens .comma comma
    simp [readInterfaceNames, ih second others, bind, Except.bind]

theorem readInterfaces_of_tokens (interfaces : List String)
    (spelt : lexemes.map (·.token) = interfaceTokens interfaces) :
    readInterfaces stop lexemes = .ok (interfaces, []) := by
  cases interfaces with
  | nil => rw [List.map_eq_nil_iff.mp spelt, readInterfaces]
  | cons name names =>
    obtain ⟨_, rest, rfl, named⟩ := lexeme_of_tokens (.word "implements") spelt
    simp [readInterfaces, readInterfaceNames_of_tokens stop name names named]

/-- What follows a path starts with a parenthesis or with the word that announces interfaces. -/
theorem Sentence.closing_head (sentence : Sentence) {token : Token} (head : sentence.closing.head? = some token) :
    token = .openParen ∨
      token = .word "implements" ∧ sentence.params = .absent ∧ sentence.interfaces ≠ [] := by
  unfold closing at head
  cases params : sentence.params with
  | absent =>
    cases interfaces : sentence.interfaces with
    | nil => simp [params, interfaces, Listing.tokens, interfaceTokens] at head
    | cons name names =>
      simp only [params, interfaces, Listing.tokens, interfaceTokens, List.nil_append, List.head?_cons,
        Option.some.injEq] at head
      exact .inr ⟨head.symm, rfl, List.cons_ne_nil _ _⟩
  | anything | types listed =>
    simp only [params, Listing.tokens, List.cons_append, List.head?_cons, Option.some.injEq] at head
    exact .inl head.symm

theorem interfaceTokens_head_ne (interfaces : List String) :
    (interfaceTokens interfaces).head? ≠ some .openParen := by
  cases interfaces <;> simp [interfaceTokens]

/-! ## Modifiers -/

theorem mem_visibilityWords_iff (word : String) :
    word ∈ visibilityWords ↔ (Visibility.ofName? word).isSome := by
  simp only [visibilityWords, Visibility.ofName?, List.find?_isSome, decide_eq_true_eq, List.mem_map]

theorem mem_kindWords_iff (word : String) : word ∈ kindWords ↔ (MemberKind.ofKeyword? word).isSome := by
  simp only [kindWords, MemberKind.ofKeyword?, List.find?_isSome, decide_eq_true_eq, List.mem_flatMap,
    List.mem_cons, List.not_mem_nil, or_false, eq_comm (a := word)]

theorem Modifier.ofWord?_isSome_iff {word : String} : (ofWord? word).isSome ↔ word ∈ modifierWords := by
  have words : modifierWords = "point" :: visibilityWords ++ kindWords := rfl
  unfold ofWord?
  rw [words, List.cons_append, List.mem_cons, List.mem_append, mem_visibilityWords_iff, mem_kindWords_iff]
  by_cases point : word = "point"
  · simp [point]
  · cases Visibility.ofName? word <;> simp [point]

theorem Modifier.ofWord?_eq_point {word : String} : ofWord? word = some .point ↔ word = "point" := by
  unfold ofWord?
  by_cases point : word = "point"
  · simp [point]
  · cases Visibility.ofName? word <;> simp [point]

/-- Modifiers are read up to the path, and then the reader may go on into it. -/
theorem readModifiers_of_tokens (words : List String) (keywords : ∀ word ∈ words, word ∈ modifierWords)
    {lexemes : Rest} {segment : Segment} {more : List Token}
    (spelt : lexemes.map (·.token) = words.map .word ++ segment.token :: more) :
    ∃ rest, readModifiers lexemes =
        (words.filterMap Modifier.ofWord? ++ (readModifiers rest).1, (readModifiers rest).2) ∧
      rest.map (·.token) = segment.token :: more := by
  induction words generalizing lexemes with
  | nil => exact ⟨lexemes, by simp, spelt⟩
  | cons word words ih =>
    obtain ⟨start, rest, rfl, rest_spelt⟩ := lexeme_of_tokens (.word word) spelt
    obtain ⟨left, read, left_spelt⟩ := ih (fun other held => keywords other (.tail _ held)) rest_spelt
    refine ⟨left, ?_, left_spelt⟩
    obtain ⟨modifier, known⟩ :=
      Option.isSome_iff_exists.mp (Modifier.ofWord?_isSome_iff.mpr (keywords word (.head _)))
    obtain ⟨second, rest, rfl, follows⟩ : ∃ second others, rest = second :: others ∧
        ∃ segment, second.token.asSegment? = some segment := by
      cases words with
      | nil =>
        obtain ⟨_, others, rfl, _⟩ := lexeme_of_tokens _ rest_spelt
        exact ⟨_, others, rfl, segment, by simp⟩
      | cons second words =>
        obtain ⟨_, others, rfl, _⟩ := lexeme_of_tokens (.word second) rest_spelt
        exact ⟨_, others, rfl, .name second, rfl⟩
    obtain ⟨_, follows⟩ := follows
    simp [readModifiers, Token.asModifier?, known, follows, read]

/-- No modifier is read where no keyword stands, or no name behind it. -/
theorem readModifiers_nil {segment : Segment} {more : List Token}
    (spelt : lexemes.map (·.token) = segment.token :: more)
    (stops : ∀ word ∈ modifierWords, segment = .name word → ∀ next ∈ more.head?, next.asSegment? = none) :
    readModifiers lexemes = ([], lexemes) := by
  obtain ⟨start, rest, rfl, rest_spelt⟩ := lexeme_of_tokens _ spelt
  rcases rest with _ | ⟨second, rest⟩
  · rw [readModifiers]
    simp
  rw [readModifiers]
  cases known : segment.token.asModifier? with
  | none => rfl
  | some modifier =>
    have last : second.token.asSegment? = none := by
      cases segment with
      | any => simp [Segment.token, Token.asModifier?] at known
      | name word =>
        have keyword := Modifier.ofWord?_isSome_iff.mp (Option.isSome_of_eq_some known)
        exact stops word keyword rfl second.token (by simp [← rest_spelt])
    simp [last]

/-- Tokens that no modifier starts: a name position, and no name behind it if it is a keyword. -/
def PathStarts (tokens : List Token) : Prop :=
  ∃ (segment : Segment) (more : List Token), tokens = segment.token :: more ∧
    ∀ word ∈ modifierWords, segment = .name word → ∀ next ∈ more.head?, next.asSegment? = none

/-- Modifiers are read up to where a path starts. -/
theorem readModifiers_of_starts {words : List String} (keywords : ∀ word ∈ words, word ∈ modifierWords)
    (starts : PathStarts more) (spelt : lexemes.map (·.token) = words.map .word ++ more) :
    ∃ rest, readModifiers lexemes = (words.filterMap Modifier.ofWord?, rest) ∧ rest.map (·.token) = more := by
  obtain ⟨segment, others, rfl, stops⟩ := starts
  obtain ⟨rest, read, rest_spelt⟩ := readModifiers_of_tokens words keywords spelt
  rw [readModifiers_nil rest_spelt stops, List.append_nil] at read
  exact ⟨rest, read, rest_spelt⟩

/-! ## Whole sentences -/

/-- A sentence goes on after its modifiers with a name position. If that is a keyword with another name
behind it, then it is a lone member before required interfaces. -/
theorem Sentence.path_first (sentence : Sentence) :
    ∃ (segment : Segment) (more : List Token), sentence.pathTokens ++ sentence.closing = segment.token :: more ∧
      ∀ word ∈ modifierWords, segment = .name word → ∀ next ∈ more.head?, next.asSegment?.isSome →
        sentence.Swallowed := by
  cases scope : sentence.scope with
  | some filter =>
    obtain ⟨first, others, written⟩ := List.exists_cons_of_ne_nil filter.written_ne
    refine ⟨first, behind .dot others ++ .pathSeparator :: (between .dot sentence.path.segments ++
      sentence.closing), by simp [pathTokens, scope, written, between], fun _ _ _ next follows named => ?_⟩
    cases others <;> (cases follows; cases named)
  | none =>
    obtain ⟨first, others, path⟩ := List.exists_cons_of_ne_nil sentence.path.segments_ne
    refine ⟨first, behind .dot others ++ sentence.closing, by simp [pathTokens, scope, path, between],
      fun word keyword named next follows name => ?_⟩
    cases others with
    | cons second others =>
      cases follows
      cases name
    | nil =>
      obtain rfl | ⟨-, params, interfaces⟩ := sentence.closing_head follows
      · cases name
      refine ⟨word, keyword, scope, ?_, params, interfaces⟩
      rw [← named]
      cases shape : sentence.path with
      | toMember type member => cases type <;> simp_all [Path.segments]
      | toPoint type member point => cases type <;> simp_all [Path.segments]

/-- The modifiers of a sentence end where its path starts. -/
theorem Sentence.starts {sentence : Sentence} (whole : ¬ sentence.Swallowed) :
    PathStarts (sentence.pathTokens ++ sentence.closing) := by
  obtain ⟨segment, more, body, keeps⟩ := sentence.path_first
  exact ⟨segment, more, body, fun word keyword named next follows =>
    Option.not_isSome_iff_eq_none.mp fun name => whole (keeps word keyword named next follows name)⟩

/-- A sentence whose modifiers end where its path starts is read as it is meant. -/
theorem ofLexemes_of_sentence {sentence : Sentence} (whole : ¬ sentence.Swallowed)
    (spelt : lexemes.map (·.token) = sentence.tokens) : ofLexemes stop lexemes = .ok sentence.pattern := by
  obtain ⟨rest, modified, rest_spelt⟩ := readModifiers_of_starts sentence.keywords (Sentence.starts whole) spelt
  obtain ⟨found, after, path_read, named, after_spelt⟩ := readPath_of_tokens stop sentence rest_spelt
    (fun head => by simpa using sentence.closing_head head)
    (fun head => by simpa using sentence.closing_head head)
  obtain ⟨last, params_read, last_spelt⟩ := readParams_of_tokens stop sentence.params after_spelt
    (interfaceTokens_head_ne sentence.interfaces)
  have interfaces_read := readInterfaces_of_tokens stop sentence.interfaces last_spelt
  have explicit : (sentence.modifiers.filterMap Modifier.ofWord?).contains .point = sentence.path.explicit := by
    rw [Bool.eq_iff_iff, sentence.explicit]
    simp [Modifier.ofWord?_eq_point]
  simp only [ofLexemes, modified, explicit, path_read, named, splitPath_segments,
    params_read, interfaces_read, finish, bind, Except.bind]
  rfl

/-- Names after the word that announces interfaces, but with that word read before, are left over. -/
theorem readInterfaces_of_names (name : String) (names : List String)
    (spelt : lexemes.map (·.token) = between .comma ((name :: names).map .name)) {interfaces : List String}
    {rest : Rest} (read : readInterfaces stop lexemes = .ok (interfaces, rest)) : rest ≠ [] := by
  obtain ⟨start, others, rfl, others_spelt⟩ := lexeme_of_tokens (.word name) spelt
  by_cases announces : name = "implements"
  · simp only [readInterfaces, announces, if_true] at read
    cases names with
    | nil =>
      rw [List.map_eq_nil_iff.mp others_spelt, readInterfaceNames] at read
      cases read
    | cons second names =>
      obtain ⟨_, rest, rfl, _⟩ := lexeme_of_tokens .comma others_spelt
      simp [readInterfaceNames] at read
  · simp only [readInterfaces, Token.word.injEq, announces, if_false] at read
    cases read
    exact List.cons_ne_nil _ _

/-- A lone member with the name of a modifier is refused before required interfaces. -/
theorem ofLexemes_of_swallowed {sentence : Sentence} (swallowed : sentence.Swallowed)
    (spelt : lexemes.map (·.token) = sentence.tokens) : ∃ error, ofLexemes stop lexemes = .error error := by
  obtain ⟨word, keyword, scope, path, params, there⟩ := swallowed
  obtain ⟨name, names, interfaces⟩ := List.exists_cons_of_ne_nil there
  -- The member is one more modifier, and the word that announces interfaces is the path.
  have respelt : lexemes.map (·.token) = (sentence.modifiers ++ [word]).map Token.word ++
      (Segment.name "implements").token :: between .comma ((name :: names).map .name) := by
    rw [spelt]
    simp [Sentence.tokens, Sentence.pathTokens, Sentence.closing, scope, path, params, interfaces, Path.segments,
      between, behind, Listing.tokens, interfaceTokens, Segment.token]
  have starts : PathStarts ((Segment.name "implements").token :: between .comma ((name :: names).map .name)) := by
    refine ⟨_, _, rfl, fun other keyword named => ?_⟩
    cases named
    exact absurd keyword (by decide)
  obtain ⟨rest, modified, rest_spelt⟩ := readModifiers_of_starts
    (by simpa [or_imp, forall_and] using ⟨sentence.keywords, keyword⟩) starts respelt
  obtain ⟨found, after, path_read, named, after_spelt⟩ :=
    readPath_of_path stop (List.cons_ne_nil (Segment.name "implements") []) rest_spelt
      (by simp [Segment.token]) (by simp [Segment.token])
  obtain ⟨last, params_read, last_spelt⟩ := readParams_of_tokens stop .absent after_spelt
    (by simp [Segment.token])
  simp only [ofLexemes, modified, path_read, named, bind, Except.bind]
  split
  · exact ⟨_, rfl⟩
  simp only [params_read]
  cases read : readInterfaces stop last with
  | error error => exact ⟨error, rfl⟩
  | ok answer =>
    obtain ⟨required, rest⟩ := answer
    obtain ⟨next, left, rfl⟩ := List.exists_cons_of_ne_nil (readInterfaces_of_names stop name names last_spelt read)
    exact ⟨_, rfl⟩

end Reading

/-- **Every sentence of the grammar is read, and as it is meant,** unless it is a lone member with the name of a
modifier before required interfaces: then it is refused. -/
theorem parse_of_sentence (sentence : Sentence) {source : String} {lexemes : List Lexeme}
    (cut : tokenize source = .ok lexemes) (spelt : lexemes.map (·.token) = sentence.tokens) :
    (¬ sentence.Swallowed → parse source = .ok sentence.pattern) ∧
      (sentence.Swallowed → ∃ error, parse source = .error error) := by
  simp only [parse, cut, bind, Except.bind]
  exact ⟨fun whole => ofLexemes_of_sentence _ whole spelt, fun swallowed => ofLexemes_of_swallowed _ swallowed spelt⟩

/-- The member `implements` of a type `get`, with a required interface. -/
def namesLikeKeywords : Sentence where
  modifiers := ["public"]
  keywords := by decide
  scope := some ⟨["set", "point"], true⟩
  lone := by simp
  path := .toMember (some (.name "get")) (.name "implements")
  explicit := by decide
  params := .types [.name "private", .any]
  interfaces := ["implements"]

theorem parse_namesLikeKeywords :
    parse "public set.point.* :: get.implements(private, *) implements implements" =
      .ok namesLikeKeywords.pattern := by
  have cut : tokenize "public set.point.* :: get.implements(private, *) implements implements" = .ok
      [⟨.word "public", 0⟩, ⟨.word "set", 7⟩, ⟨.dot, 10⟩, ⟨.word "point", 11⟩, ⟨.dot, 16⟩, ⟨.star, 17⟩,
        ⟨.pathSeparator, 19⟩, ⟨.word "get", 22⟩, ⟨.dot, 25⟩, ⟨.word "implements", 26⟩, ⟨.openParen, 36⟩,
        ⟨.word "private", 37⟩, ⟨.comma, 44⟩, ⟨.star, 46⟩, ⟨.closeParen, 47⟩, ⟨.word "implements", 49⟩,
        ⟨.word "implements", 60⟩] := by
    decide +kernel
  refine (parse_of_sentence namesLikeKeywords cut (by decide)).1 ?_
  rintro ⟨word, -, unscoped, -⟩
  cases unscoped

/-- A member with the name of a modifier and with a required interface. -/
def lonePropertyName : Sentence where
  modifiers := []
  keywords := by simp
  scope := none
  lone := by simp
  path := .toMember none (.name "get")
  explicit := by decide
  params := .absent
  interfaces := ["IAudit"]

/-- It is a sentence of the grammar, but the text with its tokens is refused. -/
theorem parse_lonePropertyName :
    (∃ lexemes, tokenize "get implements IAudit" = .ok lexemes ∧
      lexemes.map (·.token) = lonePropertyName.tokens) ∧
      parse "get implements IAudit" = .error ⟨.trailing (.word "IAudit"), 15⟩ :=
  ⟨⟨[⟨.word "get", 0⟩, ⟨.word "implements", 4⟩, ⟨.word "IAudit", 15⟩], by decide +kernel, by decide⟩,
    by decide +kernel⟩

end Weaving.Pattern
