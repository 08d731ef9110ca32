import Weaving.Proofs.Lexemes
import Weaving.Proofs.Readings

/-!
Where errors point. Each reader takes tokens off the front, and where it fails it points at one of the tokens it
was given or behind the last one (`Points`); readers that run one behind the other do so too (`Points.bind`). A
text that is cut into tokens loses nothing by it, can be put together from them again, and is refused at one of
them or at its end; a text that cannot be cut is refused where the cutting stopped (`tokenize_lossless`).
-/

namespace Weaving.Pattern

/-- A place where a token starts, or the end. -/
def Marks (stop : Nat) (lexemes : List Lexeme) (offset : Nat) : Prop :=
  offset = stop ∨ ∃ lexeme ∈ lexemes, offset = lexeme.start

/-- What is left is a rest of what was given, and an error points at a token of it or at the end. -/
def Points {α : Type} (stop : Nat) (lexemes : Rest) (left : α → Rest) : Except PatternError α → Prop
  | .ok a => left a <:+ lexemes
  | .error error => Marks stop lexemes error.offset

section Readers

variable {stop : Nat} {lexemes rest : Rest} {α β : Type} {left : α → Rest} {right : β → Rest}

theorem Marks.of_suffix {offset : Nat} (marks : Marks stop rest offset) (suffix : rest <:+ lexemes) :
    Marks stop lexemes offset := by
  rcases marks with ends | ⟨lexeme, held, starts⟩
  · exact .inl ends
  · exact .inr ⟨lexeme, suffix.subset held, starts⟩

theorem marks_place (stop : Nat) (lexemes : Rest) : Marks stop lexemes (place stop lexemes) := by
  cases lexemes with
  | nil => exact .inl rfl
  | cons lexeme rest => exact .inr ⟨lexeme, .head _, rfl⟩

theorem Points.of_suffix {result : Except PatternError α} (points : Points stop rest left result)
    (suffix : rest <:+ lexemes) : Points stop lexemes left result := by
  cases result with
  | ok a => exact List.IsSuffix.trans points suffix
  | error error => exact Marks.of_suffix points suffix

/-- Readers that run one behind the other point where each of them does. -/
theorem Points.bind {read : Except PatternError α} {next : α → Except PatternError β}
    (first : Points stop lexemes left read)
    (more : ∀ a, read = .ok a → left a <:+ lexemes → Points stop lexemes right (next a)) :
    Points stop lexemes right (read >>= next) := by
  cases read with
  | ok a => exact more a rfl first
  | error error => exact first

theorem points_expect (token : Token) : Points stop lexemes id (expect stop token lexemes) := by
  cases lexemes with
  | nil => exact .inl rfl
  | cons lexeme rest =>
    rw [expect]
    by_cases same : lexeme.token = token
    · rw [if_pos same]
      exact List.suffix_cons lexeme rest
    · rw [if_neg same]
      exact marks_place stop (lexeme :: rest)

theorem points_finish : Points stop lexemes (fun _ => []) (finish lexemes) := by
  cases lexemes with
  | nil => exact List.suffix_refl []
  | cons lexeme rest => exact .inr ⟨lexeme, .head _, rfl⟩

theorem points_readSegment : Points stop lexemes Prod.snd (readSegment stop lexemes) := by
  cases lexemes with
  | nil => exact .inl rfl
  | cons lexeme rest =>
    rw [readSegment]
    cases lexeme.token.asSegment? with
    | some segment => exact List.suffix_cons lexeme rest
    | none => exact marks_place stop (lexeme :: rest)

theorem points_readSegments (separator : Token) :
    Points stop lexemes Prod.snd (readSegments stop separator lexemes) := by
  fun_induction readSegments stop separator lexemes with
  | case1 => exact List.suffix_refl []
  | case2 => exact .inl rfl
  | case3 first separates lexeme others segment named ih =>
    have suffix : others <:+ first :: lexeme :: others := ⟨[first, lexeme], rfl⟩
    exact (ih.of_suffix suffix).bind fun _ _ left => left
  | case4 first separates lexeme others unnamed =>
    exact (marks_place stop (lexeme :: others)).of_suffix (List.suffix_cons first _)
  | case5 => exact List.suffix_refl _

theorem points_readSeparated (separator : Token) :
    Points stop lexemes Prod.snd (readSeparated stop separator lexemes) := by
  apply points_readSegment.bind
  intro first _ suffix
  apply ((points_readSegments separator).of_suffix suffix).bind
  intro others _ suffix
  exact suffix

/-! ## Namespaces -/

/-- The name positions stand where tokens start. -/
theorem starts_of_readSegments {separator : Token} {found : List (Segment × Nat)}
    (read : readSegments stop separator lexemes = .ok (found, rest)) :
    ∀ position ∈ found, ∃ lexeme ∈ lexemes, position.2 = lexeme.start := by
  fun_induction readSegments stop separator lexemes generalizing found with
  | case1 => cases read; exact List.forall_mem_nil _
  | case2 => cases read
  | case3 first separates lexeme others segment named ih =>
    obtain ⟨⟨segments, left⟩, more, whole⟩ := exists_of_bind read
    cases whole
    refine List.forall_mem_cons.mpr ⟨⟨lexeme, .tail _ (.head _), rfl⟩, fun position held => ?_⟩
    obtain ⟨other, inside, starts⟩ := ih more position held
    exact ⟨other, .tail _ (.tail _ inside), starts⟩
  | case4 => cases read
  | case5 => cases read; exact List.forall_mem_nil _

theorem starts_of_readSeparated {separator : Token} {found : List (Segment × Nat)}
    (read : readSeparated stop separator lexemes = .ok (found, rest)) :
    ∀ position ∈ found, ∃ lexeme ∈ lexemes, position.2 = lexeme.start := by
  obtain ⟨⟨⟨segment, start⟩, left⟩, first, read⟩ := exists_of_bind read
  obtain ⟨⟨segments, left⟩, others, whole⟩ := exists_of_bind read
  cases whole
  cases lexemes with
  | nil => cases first
  | cons lexeme more =>
    rw [readSegment] at first
    split at first
    · cases first
      refine List.forall_mem_cons.mpr ⟨⟨lexeme, .head _, rfl⟩, fun position held => ?_⟩
      obtain ⟨other, inside, starts⟩ := starts_of_readSegments others position held
      exact ⟨other, .tail _ inside, starts⟩
    · cases first

/-- A star inside a namespace is reported where it stands. -/
theorem exists_of_namespaceWords {found : List (Segment × Nat)} {error : PatternError}
    (refused : namespaceWords found = .error error) : ∃ position ∈ found, error.offset = position.2 := by
  fun_induction namespaceWords found with
  | case1 => cases refused
  | case2 => cases refused
  | case3 offset second others =>
    cases refused
    exact ⟨_, .head _, rfl⟩
  | case4 word offset segments ih =>
    cases listed : namespaceWords segments with
    | error other =>
      rw [listed] at refused
      cases refused
      obtain ⟨position, held, offset⟩ := ih listed
      exact ⟨position, .tail _ held, offset⟩
    | ok words =>
      rw [listed] at refused
      cases refused

/-- A namespace is refused at one of its name positions. -/
theorem points_ofSegments {separator : Token} {found : List (Segment × Nat)}
    (read : readSeparated stop separator lexemes = .ok (found, rest)) :
    Points stop lexemes (fun _ => []) (Namespace.ofSegments found) := by
  unfold Namespace.ofSegments
  cases listed : namespaceWords found with
  | ok words => exact List.nil_suffix
  | error error =>
    obtain ⟨position, held, offset⟩ := exists_of_namespaceWords listed
    obtain ⟨lexeme, inside, starts⟩ := starts_of_readSeparated read position held
    exact .inr ⟨lexeme, inside, offset.trans starts⟩

theorem points_readPath : Points stop lexemes Prod.snd (readPath stop lexemes) := by
  apply (points_readSeparated .dot).bind
  rintro ⟨segments, rest⟩ read suffix
  cases rest with
  | nil => exact suffix
  | cons lexeme rest =>
    dsimp only
    by_cases colons : lexeme.token = .pathSeparator
    · rw [if_pos colons]
      apply (points_ofSegments read).bind
      intro scope _ _
      have behind : rest <:+ lexemes := (List.suffix_cons lexeme rest).trans suffix
      apply ((points_readSeparated .dot).of_suffix behind).bind
      intro path _ suffix
      exact suffix
    · rw [if_neg colons]
      exact suffix

/-! ## What follows the path -/

/-- The length of a path is reported where the path starts. -/
theorem points_splitPath {explicit : Bool} {offset : Nat} {path : List Segment} (marks : Marks stop lexemes offset) :
    Points stop lexemes (fun _ => []) (splitPath explicit offset path) := by
  unfold splitPath
  split
  · split
    · exact List.nil_suffix
    · exact List.nil_suffix
    · exact marks
    · exact marks
    · exact marks
  · split
    · exact List.nil_suffix
    · exact List.nil_suffix
    · exact List.nil_suffix
    · exact marks

theorem points_readParams : Points stop lexemes Prod.snd (readParams stop lexemes) := by
  cases lexemes with
  | nil => exact List.suffix_refl []
  | cons lexeme rest =>
    have suffix : rest <:+ lexeme :: rest := List.suffix_cons lexeme rest
    have behind : rest.tail <:+ lexeme :: rest := (List.tail_suffix rest).trans suffix
    rw [readParams]
    by_cases opens : lexeme.token = .openParen
    · rw [if_pos opens]
      split
      · exact behind
      · exact ((points_expect .closeParen).of_suffix behind).bind fun _ _ left => left
      · apply ((points_readSeparated .comma).of_suffix suffix).bind
        intro types _ suffix
        exact ((points_expect .closeParen).of_suffix suffix).bind fun _ _ left => left
    · rw [if_neg opens]
      exact List.suffix_refl _

theorem points_readInterfaceNames : Points stop lexemes Prod.snd (readInterfaceNames stop lexemes) := by
  fun_induction readInterfaceNames stop lexemes with
  | case1 => exact .inl rfl
  | case2 lexeme name isName => exact List.nil_suffix
  | case3 lexeme name isName comma others separates ih =>
    have suffix : others <:+ lexeme :: comma :: others := ⟨[lexeme, comma], rfl⟩
    exact (ih.of_suffix suffix).bind fun _ _ left => left
  | case4 lexeme name isName next others => exact List.suffix_cons lexeme _
  | case5 lexeme others => exact marks_place stop (lexeme :: others)

theorem points_readInterfaces : Points stop lexemes Prod.snd (readInterfaces stop lexemes) := by
  cases lexemes with
  | nil => exact List.suffix_refl []
  | cons lexeme rest =>
    rw [readInterfaces]
    by_cases announces : lexeme.token = .word "implements"
    · rw [if_pos announces]
      exact points_readInterfaceNames.of_suffix (List.suffix_cons lexeme rest)
    · rw [if_neg announces]
      exact List.suffix_refl _

theorem readModifiers_suffix (lexemes : Rest) : (readModifiers lexemes).2 <:+ lexemes := by
  fun_induction readModifiers lexemes with
  | case1 first second others modifier segment named known modifiers left more ih =>
    rw [more] at ih
    exact ih.trans (List.suffix_cons first _)
  | case2 => exact List.suffix_refl _
  | case3 => exact List.suffix_refl _

/-- A text is refused at one of its tokens or at its end. -/
theorem points_ofLexemes : Points stop lexemes (fun _ => []) (ofLexemes stop lexemes) := by
  have path := readModifiers_suffix lexemes
  unfold ofLexemes
  dsimp only
  apply (points_readPath.of_suffix path).bind
  intro found _ suffix
  apply (points_splitPath ((marks_place stop _).of_suffix path)).bind
  intro named _ _
  apply (points_readParams.of_suffix suffix).bind
  intro params _ suffix
  apply (points_readInterfaces.of_suffix suffix).bind
  intro interfaces _ suffix
  apply (points_finish.of_suffix suffix).bind
  intro _ _ _
  exact List.nil_suffix

end Readers

/-- The readers of patterns and of namespaces fail where the text cannot be cut. -/
theorem parse_of_tokenize_error {source : String} {error : PatternError} (stuck : tokenize source = .error error) :
    parse source = .error error ∧ Namespace.parse source = .error error := by
  simp only [parse, Namespace.parse, stuck, bind, Except.bind, and_self]

/-- Else they fail at a token or at the end. -/
theorem marks_of_parse_error {source : String} {lexemes : List Lexeme} (cut : tokenize source = .ok lexemes)
    {error : PatternError} (refused : parse source = .error error ∨ Namespace.parse source = .error error) :
    Marks source.utf8ByteSize lexemes error.offset := by
  rcases refused with refused | refused
  · have points : Points source.utf8ByteSize lexemes (fun _ => []) (parse source) := by
      simp only [parse, cut]
      exact points_ofLexemes
    rw [refused] at points
    exact points
  · have points : Points source.utf8ByteSize lexemes (fun _ => []) (Namespace.parse source) := by
      simp only [Namespace.parse, cut]
      apply (points_readSeparated .dot).bind
      intro found read suffix
      apply (points_ofSegments read).bind
      intro filter _ _
      apply (points_finish.of_suffix suffix).bind
      intro _ _ _
      exact List.nil_suffix
    rw [refused] at points
    exact points

/-- **Cutting a text into tokens loses nothing, and errors point exactly.** The tokens are slices of the text, in
order and apart, each the longest at its place, with blanks only around them; written again with a blank between any
two they are cut into the same tokens; and a text of tokens is refused at the start of one of them or at its end.
A text that cannot be cut is refused at its first character that is no blank and starts no token. -/
theorem tokenize_lossless (source : String) :
    match tokenize source with
    | .ok lexemes => Lossless source 0 source.utf8ByteSize lexemes ∧
        (∃ again, tokenize (" ".intercalate (lexemes.map (·.token.text))) = .ok again ∧
          again.map (·.token) = lexemes.map (·.token)) ∧
        ∀ error, parse source = .error error ∨ Namespace.parse source = .error error →
          Marks source.utf8ByteSize lexemes error.offset
    | .error error => parse source = .error error ∧ Namespace.parse source = .error error ∧
        ∃ lexemes before c after, source.toList = before ++ c :: after ∧
          error = ⟨.unexpectedCharacter c, Text.byteCount before⟩ ∧
          Lossless source 0 (Text.byteCount before) lexemes ∧ isBlank c = false ∧
          ∀ token : Token, token.Spelt → ¬ token.text.toList <+: c :: after := by
  have faithful := faithful_tokenize source
  cases cut : tokenize source with
  | ok lexemes =>
    rw [cut] at faithful
    refine ⟨faithful, ?_, fun error refused => marks_of_parse_error cut refused⟩
    have reads := reads_intercalate (reads_of_lex cut).spelt
    rw [List.map_map] at reads
    exact reads.lex 0
  | error error =>
    rw [cut] at faithful
    obtain ⟨same, others⟩ := parse_of_tokenize_error cut
    obtain ⟨lexemes, before, c, after, shape, offset, -, lossless, visible, stuck⟩ := faithful
    exact ⟨same, others, lexemes, before, c, after, shape, offset, lossless, visible, stuck⟩

end Weaving.Pattern
