import Weaving.Proofs.Readings
import Weaving.Proofs.Spelling

/-!
Namespaces in texts. A namespace filter is read back from its text (`Namespace.parse_text`), and it is found again
in front of a pattern, behind the modifiers: what stands behind a namespace is the pattern that it is alone, with
that namespace (`scope_of_under`). Nothing of a namespace is taken for a modifier, for a dot or the separator stands
behind its first word.
-/

namespace Weaving.Pattern

/-! ## The text of a namespace -/

@[simp] theorem Segment.text_token (segment : Segment) : segment.token.text = segment.text := by
  cases segment <;> rfl

/-- The text of a namespace are its name positions with dots between them. -/
theorem Namespace.text_eq {filter : Namespace} (lone : filter.segments = [] → filter.directOnly = false) :
    filter.text = ".".intercalate (filter.written.map Segment.text) := by
  obtain ⟨segments, directOnly⟩ := filter
  have names (words : List String) : (words.map Segment.name).map Segment.text = words := by
    simp [Segment.text, Function.comp_def]
  cases segments with
  | nil =>
    obtain rfl : directOnly = false := lone rfl
    rfl
  | cons word words =>
    cases directOnly with
    | false =>
      have all : (written ⟨word :: words, false⟩).map Segment.text = word :: words := by
        simpa [written] using names (word :: words)
      rw [all]
      exact String.append_empty
    | true =>
      have last : (written ⟨word :: words, true⟩).map Segment.text = word :: words ++ ["*"] := by
        change List.map Segment.text (List.map Segment.name (word :: words) ++ [.any]) = _
        rw [List.map_append, names]
        rfl
      rw [last, String.intercalate_append_of_ne_nil (List.cons_ne_nil _ _) (List.cons_ne_nil _ _),
        String.intercalate_singleton, String.append_assoc]
      rfl

/-- No name position starts with a dot. -/
theorem head?_ne_dot {segment : Segment} {tokens : List Token} {cs : List Char}
    (reads : Reads cs (segment.token :: tokens)) : cs.head? ≠ some '.' := by
  intro first
  obtain ⟨tail, rfl⟩ := List.head?_eq_some_iff.mp first
  cases reads with
  | blank blank _ => exact absurd blank (by decide)
  | token found _ =>
    have spelt := (spelt_of_token? found).1
    have front := text_append_of_token? found
    cases segment with
    | any => exact absurd (List.cons.inj front).1 (by decide)
    | name word =>
      obtain ⟨c, others, shape, starts, -⟩ := spelt
      change word.toList ++ _ = _ at front
      rw [shape] at front
      rw [(List.cons.inj front).1] at starts
      exact absurd starts (by decide)

/-- No name position goes on with a dot. -/
theorem Segment.endsBefore_dot (segment : Segment) (cs : List Char) : segment.token.EndsBefore ('.' :: cs) := by
  have stops : ¬ GoesOn '.' cs := by simp [GoesOn, isWordChar, startsWord]
  cases segment with
  | any => trivial
  | name word => exact congrArg Prod.fst (wordTail_of_stops stops)

/-- A dot is a token of its own in front of a name position. -/
theorem Reads.dot {segment : Segment} {tokens : List Token} {cs : List Char}
    (reads : Reads cs (segment.token :: tokens)) : Reads ('.' :: cs) (.dot :: segment.token :: tokens) := by
  have spelt : Token.dot.Spelt := trivial
  have ends : Token.dot.EndsBefore cs := head?_ne_dot reads
  exact .token (token?_text_append spelt ends) reads

/-- Name positions with dots between them are read again. -/
theorem reads_dotted {segments : List Segment} (spelt : ∀ segment ∈ segments, segment.token.Spelt) :
    Reads (".".intercalate (segments.map Segment.text)).toList (between .dot segments) := by
  induction segments with
  | nil => exact .done
  | cons segment segments ih =>
    obtain ⟨first, others⟩ := List.forall_mem_cons.mp spelt
    have own : segment.text = segment.token.text := segment.text_token.symm
    cases segments with
    | nil =>
      rw [List.map_singleton, String.intercalate_singleton, own]
      exact .token (token?_text first) .done
    | cons next segments =>
      rw [List.map_cons, List.map_cons, String.intercalate_cons_cons, ← List.map_cons, String.toList_append,
        String.toList_append, List.append_assoc, own]
      exact .token (token?_text_append first (segment.endsBefore_dot _)) (ih others).dot

namespace Namespace

/-- What is read as a namespace is the spelling of one. -/
theorem parse_iff_reads {source : String} {filter : Namespace} : parse source = .ok filter ↔
    Reads source.toList (between .dot filter.written) ∧ (filter.segments = [] → filter.directOnly = false) := by
  constructor
  · intro read
    obtain ⟨lexemes, cut, read⟩ := exists_of_bind read
    obtain ⟨⟨segments, rest⟩, separated, read⟩ := exists_of_bind read
    obtain ⟨found, named, read⟩ := exists_of_bind read
    obtain ⟨⟨⟩, ends, whole⟩ := exists_of_bind read
    cases whole
    obtain ⟨there, spelt⟩ := readSeparated_tokens separated
    obtain ⟨written, lone⟩ := ofSegments_written there named
    obtain rfl := eq_nil_of_finish ends
    have reads := reads_of_lex cut
    rw [spelt, written, List.map_nil, List.append_nil] at reads
    exact ⟨reads, lone⟩
  · rintro ⟨reads, lone⟩
    obtain ⟨lexemes, cut, spelt⟩ := reads.lex 0
    obtain ⟨segments, rest, separated, written, left⟩ := readSeparated_of_tokens source.utf8ByteSize
      filter.written_ne (spelt.trans (List.append_nil _).symm) nofun
    obtain rfl := List.map_eq_nil_iff.mp left
    have named := ofSegments_of_written lone written
    change tokenize source = .ok lexemes at cut
    simp only [parse, cut, separated, named, finish, bind, Except.bind]

/-- The name positions of a namespace that was read are names and stars. -/
theorem spelt_of_reads {filter : Namespace} {cs : List Char} (reads : Reads cs (between .dot filter.written)) :
    ∀ segment ∈ filter.written, segment.token.Spelt := by
  intro segment held
  apply reads.spelt
  obtain ⟨first, others, written⟩ := List.exists_cons_of_ne_nil filter.written_ne
  rw [written] at held ⊢
  rcases List.mem_cons.mp held with rfl | behind
  · exact .head _
  · exact .tail _ (List.mem_flatMap.mpr ⟨segment, behind, .tail _ (.head _)⟩)

theorem reads_text {source : String} {filter : Namespace} (read : parse source = .ok filter) :
    Reads filter.text.toList (between .dot filter.written) := by
  obtain ⟨reads, lone⟩ := parse_iff_reads.mp read
  rw [text_eq lone]
  exact reads_dotted (spelt_of_reads reads)

/-- A namespace is read back from its text. -/
theorem parse_text {source : String} {filter : Namespace} (read : parse source = .ok filter) :
    parse filter.text = .ok filter :=
  parse_iff_reads.mpr ⟨reads_text read, (parse_iff_reads.mp read).2⟩

end Namespace

/-! ## Sentences behind a namespace -/

/-- Any tokens are those of some text. -/
theorem exists_lexemes (tokens : List Token) : ∃ lexemes : Rest, lexemes.map (·.token) = tokens :=
  ⟨tokens.map fun token => ⟨token, 0⟩, by simp [Function.comp_def]⟩

/-- Name positions end where no separator follows. -/
theorem between_inj {separator : Token} {segments others : List Segment} {more left : List Token}
    (there : segments ≠ []) (ends : more.head? ≠ some separator) (there' : others ≠ [])
    (ends' : left.head? ≠ some separator)
    (same : between separator segments ++ more = between separator others ++ left) :
    segments = others ∧ more = left := by
  -- the reader finds both in the same tokens
  obtain ⟨lexemes, spelt⟩ := exists_lexemes (between separator segments ++ more)
  obtain ⟨found, rest, read, rfl, rfl⟩ := readSeparated_of_tokens 0 there spelt ends
  obtain ⟨found', rest', read', rfl, rfl⟩ := readSeparated_of_tokens 0 there' (spelt.trans same) ends'
  cases read.symm.trans read'
  exact ⟨rfl, rfl⟩

/-- Modifiers end where a path starts. -/
theorem modifiers_inj {words others : List String} {more left : List Token}
    (keywords : ∀ word ∈ words, word ∈ modifierWords) (starts : PathStarts more)
    (keywords' : ∀ word ∈ others, word ∈ modifierWords) (starts' : PathStarts left)
    (same : words.map Token.word ++ more = others.map Token.word ++ left) : words = others ∧ more = left := by
  obtain ⟨lexemes, spelt⟩ := exists_lexemes (words.map Token.word ++ more)
  obtain ⟨rest, read, rfl⟩ := readModifiers_of_starts keywords starts spelt
  obtain ⟨rest', read', rfl⟩ := readModifiers_of_starts keywords' starts' (spelt.trans same)
  cases (Prod.ext_iff.mp (read.symm.trans read')).2
  have injective : Function.Injective Token.word := fun _ _ => Token.word.inj
  exact ⟨List.map_injective_iff.mpr injective (List.append_cancel_right same), rfl⟩

theorem Namespace.written_inj {filter other : Namespace} (lone : filter.segments = [] → filter.directOnly = false)
    (lone' : other.segments = [] → other.directOnly = false) (same : filter.written = other.written) :
    filter = other := by
  let found : List (Segment × Nat) := filter.written.map fun segment => (segment, 0)
  have named : found.map (·.1) = filter.written := by simp [found, Function.comp_def]
  have read := Namespace.ofSegments_of_written lone named
  exact Except.ok.inj (read.symm.trans (Namespace.ofSegments_of_written lone' (named.trans same)))

/-- A namespace starts a path, whatever its words are: a dot or the separator stands behind the first. -/
theorem pathStarts_namespace (filter : Namespace) (more : List Token) :
    PathStarts (between .dot filter.written ++ .pathSeparator :: more) := by
  obtain ⟨first, others, written⟩ := List.exists_cons_of_ne_nil filter.written_ne
  refine ⟨first, behind .dot others ++ .pathSeparator :: more, by rw [written]; rfl, fun _ _ _ next follows => ?_⟩
  cases others with
  | nil => cases follows; rfl
  | cons second others => cases follows; rfl

/-- Modifiers, a namespace and what follows them are found again in a sentence that is spelt so. -/
theorem Sentence.eq_of_tokens {sentence : Sentence} (whole : ¬ sentence.Swallowed) {words : List String}
    (keywords : ∀ word ∈ words, word ∈ modifierWords) {filter : Namespace}
    (lone : filter.segments = [] → filter.directOnly = false) {more : List Token}
    (spelt : sentence.tokens = words.map .word ++ (between .dot filter.written ++ .pathSeparator :: more)) :
    sentence.modifiers = words ∧ sentence.scope = some filter ∧
      more = between .dot sentence.path.segments ++ sentence.closing := by
  have undotted : sentence.closing.head? ≠ some .dot := fun head => by simpa using sentence.closing_head head
  obtain ⟨modifiers, path⟩ := modifiers_inj sentence.keywords (starts whole) keywords
    (pathStarts_namespace filter more) spelt
  cases scope : sentence.scope with
  | none =>
    rw [pathTokens, scope, List.nil_append] at path
    obtain ⟨-, closing⟩ := between_inj sentence.path.segments_ne undotted filter.written_ne (by simp) path
    have head : sentence.closing.head? = some .pathSeparator := by rw [closing]; rfl
    simpa using sentence.closing_head head
  | some other =>
    rw [pathTokens, scope, List.append_assoc, List.append_assoc] at path
    obtain ⟨written, rest⟩ := between_inj other.written_ne (by simp) filter.written_ne (by simp) path
    have same := Namespace.written_inj (sentence.lone other scope) lone written
    exact ⟨modifiers, congrArg some same, (List.cons.inj rest).2.symm⟩

/-- A sentence of which no modifier was read has none. -/
theorem Sentence.modifiers_eq_nil {sentence : Sentence} (visibilities : sentence.pattern.visibilities = [])
    (kinds : sentence.pattern.kinds = []) (plain : sentence.pattern.explicit = false) : sentence.modifiers = [] := by
  rw [visibilities_pattern, List.filterMap_eq_nil_iff] at visibilities
  rw [kinds_pattern, List.filterMap_eq_nil_iff] at kinds
  refine List.eq_nil_iff_forall_not_mem.mpr fun word held => ?_
  have known := Modifier.ofWord?_isSome_iff.mpr (sentence.keywords word held)
  by_cases point : word = "point"
  · have explicit := sentence.explicit.mpr (point ▸ held)
    exact nomatch explicit.symm.trans plain
  · simp [Modifier.ofWord?, point, visibilities word held, kinds word held] at known

/-! ## Texts behind a namespace -/

/-- Words in front of a text, with a blank behind each. -/
def led (words : List String) (text : String) : String :=
  words.foldr (fun word behind => word ++ " " ++ behind) text

theorem led_toList (word : String) (words : List String) (text : String) :
    (led (word :: words) text).toList = word.toList ++ ' ' :: (led words text).toList := by
  change (word ++ " " ++ led words text).toList = _
  rw [String.toList_append, String.toList_append, List.append_assoc]
  rfl

theorem under_toList (source body : String) :
    (source ++ " :: " ++ body).toList = source.toList ++ ' ' :: ':' :: ':' :: ' ' :: body.toList := by
  rw [String.toList_append, String.toList_append, List.append_assoc]
  rfl

/-- Every modifier is a word, and all of its text belongs to it. -/
theorem reads_keyword {word : String} (keyword : word ∈ modifierWords) : Reads word.toList [.word word] := by
  have keywords : ∀ word ∈ modifierWords, token? word.toList = some (.word word, []) := by decide
  exact .token (keywords word keyword) .done

section Texts

variable {words : List String} (keywords : ∀ word ∈ words, word ∈ modifierWords) {text : String}

include keywords

theorem reads_led {tokens : List Token} (reads : Reads text.toList tokens) :
    Reads (led words text).toList (words.map .word ++ tokens) := by
  induction words with
  | nil => exact reads
  | cons word words ih =>
    obtain ⟨keyword, others⟩ := List.forall_mem_cons.mp keywords
    rw [led_toList]
    exact (reads_keyword keyword).append (ih others)

theorem reads_of_led {all : List Token} (reads : Reads (led words text).toList all) :
    ∃ tokens, all = words.map .word ++ tokens ∧ Reads text.toList tokens := by
  induction words generalizing all with
  | nil => exact ⟨all, rfl, reads⟩
  | cons word words ih =>
    obtain ⟨keyword, others⟩ := List.forall_mem_cons.mp keywords
    rw [led_toList] at reads
    obtain ⟨more, rfl, behind⟩ := (reads_keyword keyword).of_append reads
    obtain ⟨tokens, rfl, left⟩ := ih others behind
    exact ⟨tokens, rfl, left⟩

end Texts

section Under

variable {source body : String} {front : List Token} (scope : Reads source.toList front)

include scope

theorem reads_under {tokens : List Token} (reads : Reads body.toList tokens) :
    Reads (source ++ " :: " ++ body).toList (front ++ .pathSeparator :: tokens) := by
  rw [under_toList]
  exact scope.append (.token rfl (.blank rfl reads))

theorem reads_of_under {all : List Token} (reads : Reads (source ++ " :: " ++ body).toList all) :
    ∃ tokens, all = front ++ .pathSeparator :: tokens ∧ Reads body.toList tokens := by
  rw [under_toList] at reads
  obtain ⟨more, rfl, behind⟩ := scope.of_append reads
  obtain ⟨tokens, rfl, left⟩ := behind.of_token rfl
  exact ⟨tokens, rfl, left.of_blank rfl⟩

end Under

/-- A text that is read as a pattern is a sentence, and none that is swallowed. -/
theorem exists_sentence_of_parse {source : String} {pattern : Pattern} (read : parse source = .ok pattern) :
    ∃ sentence : Sentence, Reads source.toList sentence.tokens ∧ ¬ sentence.Swallowed ∧
      sentence.pattern = pattern := by
  obtain ⟨lexemes, cut, read⟩ := exists_of_bind read
  obtain ⟨sentence, spelt, means⟩ := exists_sentence_of_ofLexemes read
  refine ⟨sentence, spelt ▸ reads_of_lex cut, fun swallowed => ?_, means⟩
  obtain ⟨error, refused⟩ := ofLexemes_of_swallowed source.utf8ByteSize swallowed spelt
  exact nomatch refused.symm.trans read

/-- A text that reads as a sentence is read as one if it is read at all. -/
theorem parse_of_reads {source : String} {sentence : Sentence} (reads : Reads source.toList sentence.tokens) :
    (¬ sentence.Swallowed → parse source = .ok sentence.pattern) ∧
      ∀ pattern, parse source = .ok pattern → pattern = sentence.pattern := by
  obtain ⟨lexemes, cut, spelt⟩ := reads.lex 0
  change tokenize source = .ok lexemes at cut
  simp only [parse, cut, bind, Except.bind]
  refine ⟨fun whole => ofLexemes_of_sentence _ whole spelt, fun pattern read => ?_⟩
  by_cases swallowed : sentence.Swallowed
  · obtain ⟨error, refused⟩ := ofLexemes_of_swallowed source.utf8ByteSize swallowed spelt
    cases refused.symm.trans read
  · exact Except.ok.inj (read.symm.trans (ofLexemes_of_sentence _ swallowed spelt))

section Prefixed

variable {source : String} {filter : Namespace} (read : Namespace.parse source = .ok filter)

include read

/-- A pattern without modifiers may stand behind a namespace. -/
theorem parse_under {body : String} {pattern : Pattern} (plain : parse body = .ok pattern)
    (visibilities : pattern.visibilities = []) (kinds : pattern.kinds = []) (implicit : pattern.explicit = false)
    (unscoped : pattern.scope = none) :
    parse (source ++ " :: " ++ body) = .ok { pattern with scope := some filter } := by
  obtain ⟨scope, lone⟩ := Namespace.parse_iff_reads.mp read
  obtain ⟨sentence, reads, -, rfl⟩ := exists_sentence_of_parse plain
  have none : sentence.modifiers = [] := Sentence.modifiers_eq_nil visibilities kinds implicit
  change sentence.scope = _ at unscoped
  let behind : Sentence := { sentence with scope := some filter, lone := by simpa using lone }
  have spelt : behind.tokens = between .dot filter.written ++ .pathSeparator :: sentence.tokens := by
    simp [behind, Sentence.tokens, Sentence.pathTokens, Sentence.closing, none, unscoped]
  have whole : ¬ behind.Swallowed := by
    rintro ⟨word, -, unscoped, -⟩
    cases unscoped
  have under := reads_under scope reads
  rw [← spelt] at under
  exact (parse_of_reads under).1 whole

/-- **A pattern behind a namespace is the pattern with that namespace.** Where modifiers stand in front, the
namespace stands behind them. -/
theorem scope_of_under {words : List String} (keywords : ∀ word ∈ words, word ∈ modifierWords) {body : String}
    {pattern prefixed : Pattern} (plain : parse (led words body) = .ok pattern)
    (under : parse (led words (source ++ " :: " ++ body)) = .ok prefixed) :
    pattern.scope = none ∧ prefixed = { pattern with scope := some filter } := by
  obtain ⟨scope, lone⟩ := Namespace.parse_iff_reads.mp read
  obtain ⟨sentence, reads, whole, rfl⟩ := exists_sentence_of_parse under
  obtain ⟨behind, spelt, reads_behind⟩ := reads_of_led keywords reads
  obtain ⟨more, rfl, reads_body⟩ := reads_of_under scope reads_behind
  obtain ⟨rfl, isScope, rfl⟩ := Sentence.eq_of_tokens whole keywords lone spelt
  -- Without the namespace it is the sentence that the pattern is.
  let unscoped : Sentence := { sentence with scope := none, lone := nofun }
  have body_spelt : unscoped.tokens = sentence.modifiers.map .word ++
      (between .dot sentence.path.segments ++ sentence.closing) := by
    simp [unscoped, Sentence.tokens, Sentence.pathTokens, Sentence.closing]
  have reads_plain := reads_led keywords reads_body
  rw [← body_spelt] at reads_plain
  obtain rfl := (parse_of_reads reads_plain).2 pattern plain
  refine ⟨rfl, ?_⟩
  simp [unscoped, Sentence.pattern, isScope]

end Prefixed

end Weaving.Pattern
