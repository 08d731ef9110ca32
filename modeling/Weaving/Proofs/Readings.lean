import Mathlib.Data.List.Forall2
import Weaving.Proofs.Sentences

/-!
Readings. A text that is read as a pattern is a sentence of the grammar with nothing left over, and the
pattern says what is written there (`Pattern.parse_eq_ok_iff`). Each reader that succeeds has taken the
spelling of its answer off the front of the tokens; the readers run one behind the other, so that the
spellings put together are the whole text.

What a sentence means is said here of its words and name positions, without the tables of the reader.
-/

namespace Weaving.Pattern

/-! ## Meanings -/

/-- A pattern says what is written in a sentence. -/
structure Sentence.Means (sentence : Sentence) (pattern : Pattern) : Prop where
  /-- The visibilities are the words for them, in the order in which they stand. -/
  visibilities : List.Forall₂ (fun word visibility => word = visibility.name)
    (sentence.modifiers.filter (· ∈ visibilityWords)) pattern.visibilities
  /-- So are the kinds, each of which goes by a keyword and by its name. -/
  kinds : List.Forall₂ (fun word kind => word = kind.keyword ∨ word = kind.name)
    (sentence.modifiers.filter (· ∈ kindWords)) pattern.kinds
  explicit : pattern.explicit = true ↔ "point" ∈ sentence.modifiers
  scope : pattern.scope = sentence.scope
  /-- The path of an explicit pattern ends in the names of a member and of a join point. -/
  toPoint : pattern.explicit = true → ∃ member point, pattern.member = .name member ∧
    pattern.point = some point ∧
    sentence.path.segments = pattern.typeName.toList ++ [.name member, .name point]
  toMember : pattern.explicit = false → pattern.point = none ∧
    sentence.path.segments = pattern.typeName.toList ++ [pattern.member]
  params : pattern.params = sentence.params.params
  interfaces : pattern.interfaces = sentence.interfaces

theorem visibility_named_iff (word : String) (visibility : Visibility) :
    word = visibility.name ↔ Visibility.ofName? word = some visibility := by
  constructor
  · rintro rfl
    exact Visibility.ofName?_name visibility
  · intro found
    have named := List.find?_some found
    exact (of_decide_eq_true named).symm

theorem kind_named_iff (word : String) (kind : MemberKind) :
    word = kind.keyword ∨ word = kind.name ↔ MemberKind.ofKeyword? word = some kind := by
  constructor
  · rintro (rfl | rfl) <;> cases kind <;> decide
  · intro found
    have named := List.find?_some found
    exact (of_decide_eq_true named).imp Eq.symm Eq.symm

/-- The words that stand for something stand for what is found under them. -/
theorem forall₂_filter_iff {α : Type} {denotes : String → α → Prop} {find? : String → Option α}
    (known : List String) (finds : ∀ word a, denotes word a ↔ find? word = some a)
    (knows : ∀ word, word ∈ known ↔ (find? word).isSome) {words : List String} {found : List α} :
    List.Forall₂ denotes (words.filter (· ∈ known)) found ↔ words.filterMap find? = found := by
  induction words generalizing found with
  | nil => simp [eq_comm]
  | cons word words ih =>
    cases lookup : find? word with
    | none =>
      have unknown : word ∉ known := fun held => by simpa [lookup] using (knows word).mp held
      rw [List.filter_cons_of_neg (by simpa using unknown), List.filterMap_cons_none lookup, ih]
    | some a =>
      have held : word ∈ known := (knows word).mpr (by simp [lookup])
      rw [List.filter_cons_of_pos (by simpa using held), List.filterMap_cons_some lookup,
        List.forall₂_cons_left_iff]
      simp only [finds, lookup, Option.some.injEq, ih]
      constructor
      · rintro ⟨_, _, rfl, rfl, rfl⟩
        rfl
      · rintro rfl
        exact ⟨a, _, rfl, rfl, rfl⟩

/-- A word is in one table of modifiers only. -/
theorem Modifier.ofWord?_eq_visibility {word : String} {visibility : Visibility} :
    ofWord? word = some (.visibility visibility) ↔ Visibility.ofName? word = some visibility := by
  unfold ofWord?
  by_cases point : word = "point"
  · subst point
    cases visibility <;> decide
  · cases Visibility.ofName? word <;> simp [point]

theorem Modifier.ofWord?_eq_kind {word : String} {kind : MemberKind} :
    ofWord? word = some (.kind kind) ↔ MemberKind.ofKeyword? word = some kind := by
  constructor
  · unfold ofWord?
    by_cases point : word = "point"
    · simp [point]
    · cases Visibility.ofName? word <;> simp [point]
  · rw [← kind_named_iff]
    rintro (rfl | rfl) <;> cases kind <;> decide

theorem Sentence.visibilities_pattern (sentence : Sentence) :
    sentence.pattern.visibilities = sentence.modifiers.filterMap Visibility.ofName? := by
  change (sentence.modifiers.filterMap _).filterMap _ = _
  rw [List.filterMap_filterMap]
  refine List.filterMap_congr fun word _ => Option.ext fun visibility => ?_
  rw [← Modifier.ofWord?_eq_visibility]
  cases Modifier.ofWord? word with
  | none => simp
  | some modifier => cases modifier <;> simp

theorem Sentence.kinds_pattern (sentence : Sentence) :
    sentence.pattern.kinds = sentence.modifiers.filterMap MemberKind.ofKeyword? := by
  change (sentence.modifiers.filterMap _).filterMap _ = _
  rw [List.filterMap_filterMap]
  refine List.filterMap_congr fun word _ => Option.ext fun kind => ?_
  rw [← Modifier.ofWord?_eq_kind]
  cases Modifier.ofWord? word with
  | none => simp
  | some modifier => cases modifier <;> simp

theorem Path.eq_toPoint {path : Path} (explicit : path.explicit = true) {type : Option Segment}
    {member point : String} (spelt : path.segments = type.toList ++ [.name member, .name point]) :
    path = .toPoint type member point := by
  cases path with
  | toMember => cases explicit
  | toPoint =>
    obtain ⟨types, names⟩ := List.append_inj' spelt rfl
    cases names
    exact congrArg (Path.toPoint · member point) (by simpa using congrArg List.head? types)

theorem Path.eq_toMember {path : Path} (plain : path.explicit = false) {type : Option Segment}
    {member : Segment} (spelt : path.segments = type.toList ++ [member]) : path = .toMember type member := by
  cases path with
  | toPoint => cases plain
  | toMember =>
    obtain ⟨types, names⟩ := List.append_inj' spelt rfl
    cases names
    exact congrArg (Path.toMember · member) (by simpa using congrArg List.head? types)

/-- There is one pattern that says what is written in a sentence. -/
theorem Sentence.means_iff {sentence : Sentence} {pattern : Pattern} :
    sentence.Means pattern ↔ pattern = sentence.pattern := by
  have visible {found : List Visibility} : List.Forall₂ (fun word visibility => word = visibility.name)
      (sentence.modifiers.filter (· ∈ visibilityWords)) found ↔ sentence.pattern.visibilities = found := by
    rw [visibilities_pattern]
    exact forall₂_filter_iff visibilityWords visibility_named_iff mem_visibilityWords_iff
  have kindly {found : List MemberKind} :
      List.Forall₂ (fun word kind => word = kind.keyword ∨ word = kind.name)
        (sentence.modifiers.filter (· ∈ kindWords)) found ↔ sentence.pattern.kinds = found := by
    rw [kinds_pattern]
    exact forall₂_filter_iff kindWords kind_named_iff mem_kindWords_iff
  constructor
  · intro means
    have explicit : sentence.path.explicit = pattern.explicit := by
      rw [Bool.eq_iff_iff, means.explicit, sentence.explicit]
    have named : sentence.path.type = pattern.typeName ∧ sentence.path.member = pattern.member ∧
        sentence.path.pointName = pattern.point := by
      cases plain : pattern.explicit with
      | true =>
        obtain ⟨member, point, isMember, isPoint, spelt⟩ := means.toPoint plain
        rw [Path.eq_toPoint (explicit.trans plain) spelt, isMember, isPoint]
        exact ⟨rfl, rfl, rfl⟩
      | false =>
        obtain ⟨noPoint, spelt⟩ := means.toMember plain
        rw [Path.eq_toMember (explicit.trans plain) spelt, noPoint]
        exact ⟨rfl, rfl, rfl⟩
    obtain ⟨type, member, point⟩ := named
    have visibilities := visible.mp means.visibilities
    have kinds := kindly.mp means.kinds
    cases pattern
    unfold Sentence.pattern at visibilities kinds ⊢
    rw [Pattern.mk.injEq]
    exact ⟨visibilities.symm, kinds.symm, explicit.symm, means.scope, type.symm, member.symm, point.symm,
      means.params, means.interfaces⟩
  · rintro rfl
    refine ⟨visible.mpr rfl, kindly.mpr rfl, sentence.explicit, rfl, fun explicit => ?_, fun plain => ?_,
      rfl, rfl⟩
    · change sentence.path.explicit = true at explicit
      rw [pattern]
      dsimp only
      cases path : sentence.path with
      | toMember => simp [path, Path.explicit] at explicit
      | toPoint type member point => exact ⟨member, point, rfl, rfl, rfl⟩
    · change sentence.path.explicit = false at plain
      rw [pattern]
      dsimp only
      cases path : sentence.path with
      | toPoint => simp [path, Path.explicit] at plain
      | toMember type member => exact ⟨rfl, rfl⟩

/-! ## Readers -/

section Reading

variable {stop : Nat} {lexemes rest : Rest}

/-- Where two readers succeed one behind the other, each does. -/
theorem exists_of_bind {α β : Type} {read : Except PatternError α} {next : α → Except PatternError β}
    {b : β} (whole : (read >>= next) = .ok b) : ∃ a, read = .ok a ∧ next a = .ok b := by
  cases read with
  | error error => cases whole
  | ok a => exact ⟨a, rfl, whole⟩

theorem Token.eq_of_asSegment? {token : Token} {segment : Segment} (named : token.asSegment? = some segment) :
    token = segment.token := by
  cases token <;> cases named <;> rfl

theorem readSegment_tokens {segment : Segment} {start : Nat}
    (read : readSegment stop lexemes = .ok ((segment, start), rest)) :
    lexemes.map (·.token) = segment.token :: rest.map (·.token) := by
  cases lexemes with
  | nil => cases read
  | cons lexeme others =>
    rw [readSegment] at read
    split at read
    · rename_i named
      cases read
      simp [Token.eq_of_asSegment? named]
    · cases read

theorem readSegments_tokens {separator : Token} {lexemes : Rest} {found : List (Segment × Nat)}
    (read : readSegments stop separator lexemes = .ok (found, rest)) :
    lexemes.map (·.token) = behind separator (found.map (·.1)) ++ rest.map (·.token) := by
  fun_induction readSegments stop separator lexemes generalizing found with
  | case1 => cases read; rfl
  | case2 => cases read
  | case3 first separates lexeme others segment named ih =>
    obtain ⟨⟨segments, left⟩, more, whole⟩ := exists_of_bind read
    cases whole
    rw [List.map_cons, List.map_cons, separates, Token.eq_of_asSegment? named, ih more]
    rfl
  | case4 => cases read
  | case5 => cases read; rfl

theorem readSeparated_tokens {separator : Token} {found : List (Segment × Nat)}
    (read : readSeparated stop separator lexemes = .ok (found, rest)) :
    found ≠ [] ∧ lexemes.map (·.token) = between separator (found.map (·.1)) ++ rest.map (·.token) := by
  obtain ⟨⟨⟨segment, start⟩, left⟩, first, read⟩ := exists_of_bind read
  obtain ⟨⟨segments, left⟩, others, whole⟩ := exists_of_bind read
  cases whole
  refine ⟨List.cons_ne_nil _ _, ?_⟩
  rw [readSegment_tokens first, readSegments_tokens others]
  rfl

theorem namespaceWords_written {found : List (Segment × Nat)} {words : List String} {star : Bool}
    (read : namespaceWords found = .ok (words, star)) :
    found.map (·.1) = words.map .name ++ if star then [.any] else [] := by
  fun_induction namespaceWords found generalizing words with
  | case1 => cases read; rfl
  | case2 => cases read; rfl
  | case3 => cases read
  | case4 word offset segments ih =>
    obtain ⟨⟨words, star⟩, more, whole⟩ := exists_of_bind read
    cases whole
    simp [ih more]

/-- A namespace is written as it is read, and what accepts every namespace is not limited to its own types. -/
theorem Namespace.ofSegments_written {found : List (Segment × Nat)} {filter : Namespace} (there : found ≠ [])
    (read : ofSegments found = .ok filter) :
    found.map (·.1) = filter.written ∧ (filter.segments = [] → filter.directOnly = false) := by
  obtain ⟨⟨words, star⟩, listed, whole⟩ := exists_of_bind read
  cases whole
  have spelt := namespaceWords_written listed
  cases words with
  | nil => cases star <;> simp_all [written]
  | cons word words => simp_all [written]

/-- How the namespace of a path is spelt, with the separator behind it. -/
def scopeTokens : Option Namespace → List Token
  | none => []
  | some filter => between .dot filter.written ++ [.pathSeparator]

theorem readPath_tokens {scope : Option Namespace} {path : List (Segment × Nat)}
    (read : readPath stop lexemes = .ok ((scope, path), rest)) :
    path ≠ [] ∧ (∀ filter ∈ scope, filter.segments = [] → filter.directOnly = false) ∧
      lexemes.map (·.token) =
        scopeTokens scope ++ between .dot (path.map (·.1)) ++ rest.map (·.token) := by
  obtain ⟨⟨segments, left⟩, front, read⟩ := exists_of_bind read
  obtain ⟨there, spelt⟩ := readSeparated_tokens front
  dsimp only at read
  split at read
  · cases read
    exact ⟨there, nofun, spelt⟩
  · split at read
    · rename_i colons
      obtain ⟨filter, filtered, read⟩ := exists_of_bind read
      obtain ⟨⟨path, left⟩, back, whole⟩ := exists_of_bind read
      cases whole
      obtain ⟨written, lone⟩ := Namespace.ofSegments_written there filtered
      obtain ⟨there, path_spelt⟩ := readSeparated_tokens back
      refine ⟨there, by simpa using lone, ?_⟩
      rw [spelt, List.map_cons, colons, path_spelt, written]
      simp [scopeTokens]
    · cases read
      exact ⟨there, nofun, spelt⟩

/-- The name positions of a path are a path of the grammar. -/
theorem exists_path_of_splitPath {explicit : Bool} {offset : Nat} {path : List Segment} (there : path ≠ [])
    {type : Option Segment} {member : Segment} {point : Option String}
    (split : splitPath explicit offset path = .ok (type, member, point)) :
    ∃ named : Path, named.segments = path ∧ named.explicit = explicit ∧ named.type = type ∧
      named.member = member ∧ named.pointName = point := by
  unfold splitPath at split
  split at split
  · rename_i isExplicit
    split at split <;> cases split
    · exact ⟨.toPoint none _ _, rfl, isExplicit.symm, rfl, rfl, rfl⟩
    · exact ⟨.toPoint (some _) _ _, rfl, isExplicit.symm, rfl, rfl, rfl⟩
  · rename_i isPlain
    have isPlain : explicit = false := Bool.eq_false_iff.mpr isPlain
    split at split <;> cases split
    · exact absurd rfl there
    · exact ⟨.toMember none _, rfl, isPlain.symm, rfl, rfl, rfl⟩
    · exact ⟨.toMember (some _) _, rfl, isPlain.symm, rfl, rfl, rfl⟩

theorem expect_tokens {token : Token} (read : expect stop token lexemes = .ok rest) :
    lexemes.map (·.token) = token :: rest.map (·.token) := by
  cases lexemes with
  | nil => cases read
  | cons lexeme others =>
    rw [expect] at read
    split at read
    · rename_i same
      cases read
      rw [List.map_cons, same]
    · cases read

theorem nextToken?_tokens {token : Token} (next : nextToken? lexemes = some token) :
    lexemes.map (·.token) = token :: lexemes.tail.map (·.token) := by
  cases lexemes with
  | nil => cases next
  | cons lexeme others => cases next; rfl

theorem readParams_tokens {params : Params} (read : readParams stop lexemes = .ok (params, rest)) :
    ∃ listing : Listing, listing.params = params ∧
      lexemes.map (·.token) = listing.tokens ++ rest.map (·.token) := by
  cases lexemes with
  | nil =>
    cases read
    exact ⟨.absent, rfl, rfl⟩
  | cons lexeme others =>
    rw [readParams] at read
    split at read
    · rename_i opens
      rw [List.map_cons, opens]
      split at read
      · rename_i closes
        cases read
        exact ⟨.types [], rfl, by rw [nextToken?_tokens closes]; rfl⟩
      · rename_i dots
        obtain ⟨left, closes, whole⟩ := exists_of_bind read
        cases whole
        exact ⟨.anything, rfl, by rw [nextToken?_tokens dots, expect_tokens closes]; rfl⟩
      · obtain ⟨⟨types, left⟩, listed, read⟩ := exists_of_bind read
        obtain ⟨left, closes, whole⟩ := exists_of_bind read
        cases whole
        refine ⟨.types (types.map (·.1)), rfl, ?_⟩
        rw [(readSeparated_tokens listed).2, expect_tokens closes]
        simp [Listing.tokens]
    · cases read
      exact ⟨.absent, rfl, rfl⟩

theorem readInterfaceNames_tokens {lexemes : Rest} {names : List String}
    (read : readInterfaceNames stop lexemes = .ok (names, rest)) :
    names ≠ [] ∧ lexemes.map (·.token) = between .comma (names.map .name) ++ rest.map (·.token) := by
  fun_induction readInterfaceNames stop lexemes generalizing names with
  | case1 => cases read
  | case2 lexeme name isName =>
    cases read
    exact ⟨List.cons_ne_nil _ _, congrArg (· :: []) isName⟩
  | case3 lexeme name isName comma others separates ih =>
    obtain ⟨⟨names, left⟩, more, whole⟩ := exists_of_bind read
    cases whole
    obtain ⟨there, spelt⟩ := ih more
    obtain ⟨second, names, rfl⟩ := List.exists_cons_of_ne_nil there
    refine ⟨List.cons_ne_nil _ _, ?_⟩
    rw [List.map_cons, List.map_cons, isName, separates, spelt]
    rfl
  | case4 lexeme name isName =>
    cases read
    exact ⟨List.cons_ne_nil _ _, congrArg (· :: _) isName⟩
  | case5 => cases read

theorem readInterfaces_tokens {interfaces : List String}
    (read : readInterfaces stop lexemes = .ok (interfaces, rest)) :
    lexemes.map (·.token) = interfaceTokens interfaces ++ rest.map (·.token) := by
  cases lexemes with
  | nil => cases read; rfl
  | cons lexeme others =>
    rw [readInterfaces] at read
    split at read
    · rename_i announces
      obtain ⟨there, spelt⟩ := readInterfaceNames_tokens read
      obtain ⟨name, names, rfl⟩ := List.exists_cons_of_ne_nil there
      rw [List.map_cons, announces, spelt]
      rfl
    · cases read; rfl

theorem Token.exists_word_of_asModifier? {token : Token} {modifier : Modifier}
    (known : token.asModifier? = some modifier) :
    ∃ word, token = .word word ∧ Modifier.ofWord? word = some modifier := by
  cases token with
  | word text => exact ⟨text, rfl, known⟩
  | _ => cases known

theorem readModifiers_tokens {lexemes : Rest} {modifiers : List Modifier}
    (read : readModifiers lexemes = (modifiers, rest)) :
    ∃ words : List String, (∀ word ∈ words, word ∈ modifierWords) ∧
      words.filterMap Modifier.ofWord? = modifiers ∧
      lexemes.map (·.token) = words.map .word ++ rest.map (·.token) := by
  fun_induction readModifiers lexemes generalizing modifiers with
  | case1 first second others modifier segment named known modifiers left more ih =>
    cases read
    obtain ⟨words, keywords, rfl, spelt⟩ := ih more
    obtain ⟨word, isWord, known⟩ := Token.exists_word_of_asModifier? known
    refine ⟨word :: words, ?_, List.filterMap_cons_some known, ?_⟩
    · exact List.forall_mem_cons.mpr
        ⟨Modifier.ofWord?_isSome_iff.mp (Option.isSome_of_eq_some known), keywords⟩
    · rw [List.map_cons, isWord, spelt]
      rfl
  | case2 => cases read; exact ⟨[], nofun, rfl, rfl⟩
  | case3 => cases read; exact ⟨[], nofun, rfl, rfl⟩

theorem eq_nil_of_finish (ends : finish lexemes = .ok ()) : lexemes = [] := by
  cases lexemes with
  | nil => rfl
  | cons lexeme others => cases ends

/-- Tokens that are read as a pattern are those of a sentence, which means that pattern. -/
theorem exists_sentence_of_ofLexemes {pattern : Pattern} (read : ofLexemes stop lexemes = .ok pattern) :
    ∃ sentence : Sentence, lexemes.map (·.token) = sentence.tokens ∧ sentence.pattern = pattern := by
  unfold ofLexemes at read
  cases modified : readModifiers lexemes with
  | mk modifiers rest =>
  rw [modified] at read
  dsimp only at read
  obtain ⟨⟨⟨scope, found⟩, rest⟩, path, read⟩ := exists_of_bind read
  obtain ⟨⟨type, member, point⟩, split, read⟩ := exists_of_bind read
  obtain ⟨⟨params, rest⟩, listed, read⟩ := exists_of_bind read
  obtain ⟨⟨interfaces, rest⟩, required, read⟩ := exists_of_bind read
  obtain ⟨⟨⟩, ends, whole⟩ := exists_of_bind read
  cases whole
  obtain ⟨words, keywords, rfl, words_spelt⟩ := readModifiers_tokens modified
  obtain ⟨there, lone, path_spelt⟩ := readPath_tokens path
  obtain ⟨named, segments, explicit, rfl, rfl, rfl⟩ := exists_path_of_splitPath (by simpa using there) split
  obtain ⟨listing, rfl, params_spelt⟩ := readParams_tokens listed
  have interfaces_spelt := readInterfaces_tokens required
  obtain rfl := eq_nil_of_finish ends
  have pointed : named.explicit = true ↔ "point" ∈ words := by
    rw [explicit]
    simp [Modifier.ofWord?_eq_point]
  refine ⟨⟨words, keywords, scope, lone, named, pointed, listing, interfaces⟩, ?_, ?_⟩
  · rw [words_spelt, path_spelt, params_spelt, interfaces_spelt, ← segments]
    cases scope <;> simp [Sentence.tokens, Sentence.pathTokens, Sentence.closing, scopeTokens]
  · exact explicit ▸ rfl

end Reading

/-- **What is read as a pattern is a sentence, and the pattern says what is written.** The tokens of the text
are those of a sentence, with nothing left over; and of sentences all are read but those that are swallowed. -/
theorem parse_eq_ok_iff {source : String} {pattern : Pattern} :
    parse source = .ok pattern ↔
      ∃ (lexemes : List Lexeme) (sentence : Sentence), tokenize source = .ok lexemes ∧
        lexemes.map (·.token) = sentence.tokens ∧ ¬ sentence.Swallowed ∧ sentence.Means pattern := by
  constructor
  · intro read
    obtain ⟨lexemes, cut, read⟩ := exists_of_bind read
    obtain ⟨sentence, spelt, means⟩ := exists_sentence_of_ofLexemes read
    refine ⟨lexemes, sentence, cut, spelt, fun swallowed => ?_, Sentence.means_iff.mpr means.symm⟩
    obtain ⟨error, refused⟩ := ofLexemes_of_swallowed _ swallowed spelt
    exact nomatch refused.symm.trans read
  · rintro ⟨lexemes, sentence, cut, spelt, whole, means⟩
    rw [Sentence.means_iff.mp means]
    simp only [parse, cut, bind, Except.bind]
    exact ofLexemes_of_sentence _ whole spelt

end Weaving.Pattern
