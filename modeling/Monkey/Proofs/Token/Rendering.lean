import Monkey.Proofs.Token.Spelling

/-!
# Rendering and reading lexemes

A row of lexemes is written down one after another, with blanks in between, and read back as the
row it was.  Which lexemes there are is said once more here, without the reader: by tables of the
keywords and of the symbols, and by the characters of words and numbers.  Every text is made of
such lexemes, so that what is read of any text can be written down and read again.

## Main definitions

* `Lexeme.keywords`, `Lexeme.symbols` — the tables.
* `Lexeme.WellFormed` — the lexemes that there are.
* `Lexeme.render`, `Lexeme.Spaced` — a row of lexemes with blanks in between, as a text.
* `Token.origin` — the lexeme to which a token goes back.

## Main results

* `Lexeme.WellFormed.standsBefore` — a lexeme in front of a blank or of the end is read as itself.
* `wellFormed_origin_of_mem_tokens` — every token goes back to a lexeme of the tables.
* `tokenize_render` — a row of lexemes is read as that row.
* `reading_inverts_rendering` — both directions, and their round trip.
-/

namespace Monkey

namespace Lexeme

open Token

/-! ### Tables -/

/-- The keywords. -/
def keywords : List (String × Kind) :=
  [("fn", .fnWord), ("let", .letWord), ("true", .trueWord), ("false", .falseWord),
    ("if", .ifWord), ("else", .elseWord), ("return", .returnWord), ("for", .forWord)]

/-- The operators and delimiters. -/
def symbols : List (List Char × Kind) :=
  [(['=', '='], .eq), (['!', '='], .notEq), (['='], .assign), (['+'], .plus), (['-'], .minus),
    (['!'], .bang), (['*'], .asterisk), (['/'], .slash), (['<'], .lt), (['>'], .gt),
    ([','], .comma), ([';'], .semicolon), ([':'], .colon), (['('], .lparen), ([')'], .rparen),
    (['{'], .lbrace), (['}'], .rbrace), (['['], .lbracket), ([']'], .rbracket)]

/-- A character that belongs to an operator or a delimiter. -/
def IsSymbolPart (c : Char) : Prop := ∃ s ∈ symbols, c ∈ s.1

/-- The lexemes that there are.  A word is an identifier if it is no keyword, and a character is
illegal if nothing else has a use for it. -/
inductive WellFormed : Lexeme → Prop
  | keyword {word : String} {kind : Kind} (listed : (word, kind) ∈ keywords) :
    WellFormed (plain kind word.toList)
  | identifier {c : Char} {cs : List Char} (letter : isLetter c) (parts : ∀ d ∈ cs, isWordPart d)
    (other : ∀ k ∈ keywords, k.1.toList ≠ c :: cs) : WellFormed (plain .ident (c :: cs))
  | number {c : Char} {cs : List Char} (digits : ∀ d ∈ c :: cs, isDigit d) :
    WellFormed (plain .int (c :: cs))
  | string {content : List Char} (closed : '"' ∉ content) :
    WellFormed ⟨.string, content, '"' :: (content ++ ['"'])⟩
  | symbol {spelling : List Char} {kind : Kind} (listed : (spelling, kind) ∈ symbols) :
    WellFormed (plain kind spelling)
  | illegal {c : Char} (not_blank : isBlank c = false) (not_part : isWordPart c = false)
    (not_quote : c ≠ '"') (not_symbol : ¬ IsSymbolPart c) : WellFormed (plain .illegal [c])

/-! ### Lexemes are read as themselves -/

/-- Some text is empty or begins with a blank. -/
def BlankAhead (rest : List Char) : Prop := ∀ c ∈ rest.head?, isBlank c

theorem BlankAhead.apart {p : Char → Bool} {rest : List Char} (h : BlankAhead rest)
    (hp : ∀ c, isBlank c → p c = false) : Apart p rest :=
  fun c hc => hp c (h c hc)

theorem not_isWordPart_of_isBlank (c : Char) (h : isBlank c) : isWordPart c = false := by
  rw [Bool.eq_false_iff]
  intro hp
  rw [not_isBlank_of_isWordPart hp] at h
  contradiction

theorem not_isDigit_of_isBlank (c : Char) (h : isBlank c) : isDigit c = false :=
  (Bool.or_eq_false_iff.mp (not_isWordPart_of_isBlank c h)).2

theorem not_equals_of_isBlank (c : Char) (h : isBlank c) : decide (c = '=') = false := by
  refine decide_eq_false ?_
  rintro rfl
  contradiction

/-- Behind a symbol of one character no second one is looked for, unless it is an equals sign. -/
theorem symbol_of_apart (c : Char) {rest : List Char} (h : Apart (· = '=') rest) :
    symbol c rest = plain ((Kind.ofChar? c).getD .illegal) [c] := by
  unfold symbol
  split
  · exact absurd (h '=' rfl) (by decide)
  · exact absurd (h '=' rfl) (by decide)
  · rfl

/-- A character that begins nothing longer stands before everything but an equals sign. -/
theorem standsBefore_single {c : Char} {rest : List Char} (not_blank : isBlank c = false)
    (not_part : isWordPart c = false) (not_quote : c ≠ '"') (h : Apart (· = '=') rest) :
    (plain ((Kind.ofChar? c).getD .illegal) [c]).StandsBefore rest := by
  obtain ⟨not_letter, not_digit⟩ := Bool.or_eq_false_iff.mp not_part
  refine ⟨c, [], rfl, not_blank, ?_⟩
  rw [List.nil_append, first, if_neg not_quote, if_neg (Bool.eq_false_iff.mp not_letter),
    if_neg (Bool.eq_false_iff.mp not_digit), symbol_of_apart c h]

theorem ofWord_of_mem_keywords {word : String} {kind : Kind} (h : (word, kind) ∈ keywords) :
    Kind.ofWord word = kind := by
  have all : ∀ k ∈ keywords, Kind.ofWord k.1 = k.2 := by decide
  exact all _ h

/-- A keyword is spelled as a word is. -/
theorem exists_cons_of_mem_keywords {word : String} {kind : Kind} (h : (word, kind) ∈ keywords) :
    ∃ c cs, word.toList = c :: cs ∧ isLetter c ∧ ∀ d ∈ cs, isWordPart d := by
  have all : ∀ k ∈ keywords,
      k.1.toList.head?.any isLetter = true ∧ k.1.toList.tail.all isWordPart = true := by
    decide
  obtain ⟨hletter, hparts⟩ := all _ h
  cases hw : word.toList with
  | nil =>
    rw [hw] at hletter
    contradiction
  | cons c cs =>
    rw [hw] at hletter hparts
    exact ⟨c, cs, rfl, hletter, List.all_eq_true.mp hparts⟩

/-- A word that is in no table is an identifier. -/
theorem ofWord_of_forall_ne {cs : List Char} (h : ∀ k ∈ keywords, k.1.toList ≠ cs) :
    Kind.ofWord (String.ofList cs) = .ident := by
  have hne : ∀ k ∈ keywords, String.ofList cs ≠ k.1 := by
    intro k hk heq
    refine h k hk ?_
    rw [← heq, String.toList_ofList]
  unfold Kind.ofWord
  simp only [keywords, List.forall_mem_cons] at hne
  obtain ⟨h₁, h₂, h₃, h₄, h₅, h₆, h₇, h₈, -⟩ := hne
  rw [if_neg h₁, if_neg h₂, if_neg h₃, if_neg h₄, if_neg h₅, if_neg h₆, if_neg h₇, if_neg h₈]

/-- The symbols of one character are those that the reader knows. -/
theorem ofChar?_eq_some_iff {c : Char} {kind : Kind} :
    Kind.ofChar? c = some kind ↔ ([c], kind) ∈ symbols := by
  unfold Kind.ofChar?
  split
  case h_18 => simp_all [symbols]
  all_goals simp [symbols, eq_comm]

theorem ofChar?_eq_none_iff {c : Char} : Kind.ofChar? c = none ↔ ¬ IsSymbolPart c := by
  constructor
  · rintro h ⟨s, hs, hc⟩
    have all : ∀ s ∈ symbols, s.1.all (fun c => (Kind.ofChar? c).isSome) = true := by decide
    have hsome := List.all_eq_true.mp (all s hs) c hc
    rw [h] at hsome
    contradiction
  · intro h
    cases hk : Kind.ofChar? c with
    | none => rfl
    | some kind => exact absurd ⟨_, ofChar?_eq_some_iff.mp hk, List.mem_cons_self⟩ h

/-- A symbol of one character is none of the characters that begin another lexeme. -/
theorem not_of_mem_symbols {c : Char} {kind : Kind} (h : ([c], kind) ∈ symbols) :
    isBlank c = false ∧ isWordPart c = false ∧ c ≠ '"' := by
  have all : ∀ s ∈ symbols,
      s.1.all (fun c => !isBlank c && !isWordPart c && c != '"') = true := by
    decide
  have hc := List.all_eq_true.mp (all _ h) c List.mem_cons_self
  simpa [and_assoc] using hc

/-- **A lexeme in front of a blank or of the end is read as itself.** -/
theorem WellFormed.standsBefore {l : Lexeme} (h : l.WellFormed) {rest : List Char}
    (hr : BlankAhead rest) : l.StandsBefore rest := by
  have hparts : Apart isWordPart rest := hr.apart not_isWordPart_of_isBlank
  have hequals : Apart (· = '=') rest := hr.apart not_equals_of_isBlank
  cases h with
  | keyword listed =>
    obtain ⟨c, cs, hword, hc, hcs⟩ := exists_cons_of_mem_keywords listed
    have stands := standsBefore_word hc hcs hparts
    rw [← hword, String.ofList_toList, ofWord_of_mem_keywords listed] at stands
    exact stands
  | @identifier c cs letter parts other =>
    have stands := standsBefore_word letter parts hparts
    rw [ofWord_of_forall_ne other] at stands
    exact stands
  | number digits =>
    obtain ⟨hc, hcs⟩ := List.forall_mem_cons.mp digits
    exact standsBefore_digits hc hcs (hr.apart not_isDigit_of_isBlank)
  | string closed =>
    refine standsBefore_closed (fun c hc => decide_eq_true ?_) rest
    rintro rfl
    exact closed hc
  | @symbol spelling kind listed =>
    -- only two symbols have a second character, and they take it whatever follows
    have shapes : ∀ s ∈ symbols,
        s = (['=', '='], .eq) ∨ s = (['!', '='], .notEq) ∨ ∃ c, s.1 = [c] := by
      simp [symbols]
    rcases shapes _ listed with heq | heq | ⟨c, heq⟩
    · cases heq
      exact standsBefore_eq rest
    · cases heq
      exact standsBefore_notEq rest
    · obtain rfl : spelling = [c] := heq
      obtain ⟨not_blank, not_part, not_quote⟩ := not_of_mem_symbols listed
      have stands := standsBefore_single not_blank not_part not_quote hequals
      rw [ofChar?_eq_some_iff.mpr listed] at stands
      exact stands
  | illegal not_blank not_part not_quote not_symbol =>
    have stands := standsBefore_single not_blank not_part not_quote hequals
    rw [ofChar?_eq_none_iff.mpr not_symbol] at stands
    exact stands

end Lexeme

/-! ### Every token goes back to a lexeme -/

namespace Token

/-- The lexeme to which a token goes back.  A string is closed, as its token does not show whether
it was. -/
def origin (t : Token) : Lexeme :=
  if t.kind = .string then
    ⟨.string, t.literal.toList, '"' :: (t.literal.toList ++ ['"'])⟩
  else .plain t.kind t.literal.toList

/-- The kind and the literal of a token. -/
def signature (t : Token) : Kind × String := (t.kind, t.literal)

end Token

namespace Lexeme

open Token

/-- The kind and the literal of a lexeme's token. -/
def signature (l : Lexeme) : Kind × String := (l.kind, String.ofList l.literal)

theorem signature_token (l : Lexeme) (p : Place) : (l.token p).signature = l.signature := rfl

theorem signature_origin (t : Token) : t.origin.signature = t.signature := by
  unfold Token.origin Lexeme.signature Token.signature
  split
  · next h => simp only [h, String.ofList_toList]
  · simp only [plain, String.ofList_toList]

/-- A plain lexeme is the one to which its token goes back. -/
theorem origin_token_plain {kind : Kind} (h : kind ≠ .string) (spelling : List Char) (p : Place) :
    ((plain kind spelling).token p).origin = plain kind spelling := by
  unfold Token.origin token plain
  rw [if_neg h, String.toList_ofList]

/-- A word is a keyword or an identifier. -/
theorem wellFormed_word {c : Char} {cs : List Char} (hc : isLetter c)
    (hcs : ∀ d ∈ cs, isWordPart d) :
    (plain (Kind.ofWord (String.ofList (c :: cs))) (c :: cs)).WellFormed := by
  by_cases h : ∃ k ∈ keywords, k.1.toList = c :: cs
  · obtain ⟨⟨word, kind⟩, hk, hword⟩ := h
    rw [← hword, String.ofList_toList, ofWord_of_mem_keywords hk]
    exact .keyword hk
  · have other : ∀ k ∈ keywords, k.1.toList ≠ c :: cs := fun k hk heq => h ⟨k, hk, heq⟩
    rw [ofWord_of_forall_ne other]
    exact .identifier hc hcs other

theorem ofWord_ne_string (word : String) : Kind.ofWord word ≠ .string := by
  unfold Kind.ofWord
  repeat' split
  all_goals decide

/-- A symbol is in the table, or the character is illegal. -/
theorem wellFormed_symbol {c : Char} (not_blank : isBlank c = false)
    (not_part : isWordPart c = false) (not_quote : c ≠ '"') (cs : List Char) (p : Place) :
    ((symbol c cs).token p).origin.WellFormed := by
  fun_cases symbol c cs with
  | case1 | case2 =>
    rw [origin_token_plain (by decide)]
    exact .symbol (by decide)
  | case3 =>
    cases hk : Kind.ofChar? c with
    | none =>
      rw [Option.getD_none, origin_token_plain (by decide)]
      exact .illegal not_blank not_part not_quote (ofChar?_eq_none_iff.mp hk)
    | some kind =>
      have listed := ofChar?_eq_some_iff.mp hk
      have all : ∀ s ∈ symbols, s.2 ≠ .string := by decide
      rw [Option.getD_some, origin_token_plain (all _ listed)]
      exact .symbol listed

/-- The token of what is read somewhere goes back to a lexeme of the tables. -/
theorem StandsBefore.wellFormed {l : Lexeme} {rest : List Char} (h : l.StandsBefore rest)
    (p : Place) : (l.token p).origin.WellFormed := by
  obtain ⟨c, cs, -, not_blank, rfl⟩ := h
  -- the cases are those in which the reader asks what begins here
  unfold first
  split
  · have is_string : ((quoted (cs ++ rest)).token p).kind = .string := rfl
    rw [Token.origin, if_pos is_string, token, String.toList_ofList]
    refine .string fun hmem => ?_
    have := List.all_eq_true.mp List.all_takeWhile _ hmem
    simp at this
  next not_quote =>
  split
  · next letter =>
    rw [origin_token_plain (ofWord_ne_string _)]
    exact wellFormed_word letter (List.all_eq_true.mp List.all_takeWhile)
  next not_letter =>
  split
  · next digit =>
    rw [origin_token_plain (by decide)]
    refine .number (List.forall_mem_cons.mpr ⟨digit, ?_⟩)
    exact List.all_eq_true.mp List.all_takeWhile
  next not_digit =>
  have not_part : isWordPart c = false := by
    rw [isWordPart, Bool.eq_false_iff.mpr not_letter, Bool.eq_false_iff.mpr not_digit,
      Bool.or_false]
  exact wellFormed_symbol not_blank not_part not_quote _ p

end Lexeme

/-- **Every token of a text goes back to a lexeme of the tables.** -/
theorem wellFormed_origin_of_mem_tokens {text : String} {t : Token} (h : t ∈ tokens text) :
    t.origin.WellFormed := by
  obtain ⟨l, q, rest, hl, rfl⟩ := exists_lexeme_of_mem_tokens _ _ h
  exact hl.wellFormed q

/-! ### Rows of lexemes -/

namespace Lexeme

/-- Some lexemes as a text, each with what stands in front of it. -/
def render (rows : List (List Char × Lexeme)) : List Char :=
  rows.flatMap fun r => r.1 ++ r.2.spelling

/-- Nothing but blanks stands between the lexemes, and neighbours are set apart by one at
least. -/
structure Spaced (rows : List (List Char × Lexeme)) : Prop where
  blanks : ∀ r ∈ rows, ∀ c ∈ r.1, Token.isBlank c
  apart : ∀ r ∈ rows.tail, r.1 ≠ []

theorem spaced_iff {rows : List (List Char × Lexeme)} :
    Spaced rows ↔
      (∀ r ∈ rows, r.1.all Token.isBlank = true) ∧ ∀ r ∈ rows.tail, r.1 ≠ [] := by
  simp only [List.all_eq_true]
  exact ⟨fun h => ⟨h.blanks, h.apart⟩, fun h => ⟨h.1, h.2⟩⟩

instance (rows : List (List Char × Lexeme)) : Decidable (Spaced rows) :=
  decidable_of_iff _ spaced_iff.symm

theorem Spaced.tail {row : List Char × Lexeme} {rows : List (List Char × Lexeme)}
    (h : Spaced (row :: rows)) : Spaced rows where
  blanks := (List.forall_mem_cons.mp h.blanks).2
  apart r hr := h.apart r (List.mem_of_mem_tail hr)

/-- Behind a lexeme of such a row comes a blank or the end. -/
theorem Spaced.blankAhead {row : List Char × Lexeme} {rows : List (List Char × Lexeme)}
    (h : Spaced (row :: rows)) {behind : List Char} (hbehind : ∀ c ∈ behind, Token.isBlank c) :
    BlankAhead (render rows ++ behind) := by
  cases rows with
  | nil =>
    intro c hc
    exact hbehind c (List.mem_of_mem_head? hc)
  | cons next rows =>
    have hgap : next.1 ≠ [] := h.apart next List.mem_cons_self
    obtain ⟨c, cs, hc⟩ := List.exists_cons_of_ne_nil hgap
    have hblank := h.blanks next (List.mem_cons_of_mem row List.mem_cons_self) c
      (hc ▸ List.mem_cons_self)
    rw [render, List.flatMap_cons, hc]
    rintro d ⟨⟩
    exact hblank

end Lexeme

/-- The blanks in front of a text are skipped. -/
theorem Scanner.tokens_blanks {blanks : List Char} (h : ∀ c ∈ blanks, Token.isBlank c) (p : Place)
    (rest : List Char) :
    (⟨p, blanks ++ rest⟩ : Scanner).tokens = (⟨p.afterAll blanks, rest⟩ : Scanner).tokens := by
  induction blanks generalizing p with
  | nil => rfl
  | cons c cs ih =>
    obtain ⟨hc, hcs⟩ := List.forall_mem_cons.mp h
    rw [List.cons_append, tokens_blank hc, ih hcs, Place.afterAll_cons]

open Lexeme in
/-- A row of lexemes is read one by one, wherever it begins. -/
theorem map_signature_tokens_render {rows : List (List Char × Lexeme)} {behind : List Char}
    (hrows : ∀ r ∈ rows, r.2.WellFormed) (hspaced : Spaced rows)
    (hbehind : ∀ c ∈ behind, Token.isBlank c) (p : Place) :
    (⟨p, render rows ++ behind⟩ : Scanner).tokens.map Token.signature =
      rows.map fun r => r.2.signature := by
  induction rows generalizing p with
  | nil =>
    have hblank := Scanner.tokens_blanks hbehind p []
    rw [List.append_nil, Scanner.tokens_nil] at hblank
    rw [render, List.flatMap_nil, List.nil_append, hblank]
    rfl
  | cons row rows ih =>
    obtain ⟨hrow, hrows⟩ := List.forall_mem_cons.mp hrows
    have hblanks := (List.forall_mem_cons.mp hspaced.blanks).1
    have stands := hrow.standsBefore (hspaced.blankAhead hbehind)
    have hsplit : render (row :: rows) ++ behind =
        row.1 ++ (row.2.spelling ++ (render rows ++ behind)) := by
      simp only [render, List.flatMap_cons, List.append_assoc]
    rw [hsplit, Scanner.tokens_blanks hblanks, Scanner.tokens_lexeme stands, List.map_cons,
      ih hrows hspaced.tail, signature_token, List.map_cons]

open Lexeme in
/-- **A row of lexemes with blanks in between is read as that row**, and then comes the end. -/
theorem tokenize_render {rows : List (List Char × Lexeme)} {behind : List Char}
    (hrows : ∀ r ∈ rows, r.2.WellFormed) (hspaced : Spaced rows)
    (hbehind : ∀ c ∈ behind, Token.isBlank c) :
    (tokenize (String.ofList (render rows ++ behind))).map Token.signature =
      rows.map (fun r => r.2.signature) ++ [(.eof, "")] := by
  rw [tokenize, List.map_append, tokens, Scanner.ofText, String.toList_ofList,
    map_signature_tokens_render hrows hspaced hbehind]
  rfl

open Lexeme in
/-- **Reading inverts rendering.**  A row of lexemes, rendered with blanks in between, is read as
just these lexemes and the end.  And every text is read as such a row and the end, so that what is
read of it, rendered anew, is read as it was. -/
theorem reading_inverts_rendering :
    (∀ (rows : List (List Char × Lexeme)) (behind : List Char),
      (∀ r ∈ rows, r.2.WellFormed) → Spaced rows → (∀ c ∈ behind, Token.isBlank c) →
      (tokenize (String.ofList (render rows ++ behind))).map Token.signature =
        rows.map (fun r => r.2.signature) ++ [(.eof, "")]) ∧
    (∀ text : String,
      (tokenize text).map Token.signature = (tokens text).map Token.signature ++ [(.eof, "")] ∧
      ∀ t ∈ tokens text, t.kind ≠ .eof ∧ t.origin.WellFormed ∧ t.origin.signature = t.signature) ∧
    ∀ (text : String) (rows : List (List Char × Lexeme)) (behind : List Char),
      rows.map Prod.snd = (tokens text).map Token.origin → Spaced rows →
      (∀ c ∈ behind, Token.isBlank c) →
      (tokenize (String.ofList (render rows ++ behind))).map Token.signature =
        (tokenize text).map Token.signature := by
  have hend : ∀ text : String, (tokenize text).map Token.signature =
      (tokens text).map Token.signature ++ [(.eof, "")] := by
    intro text
    rw [tokenize, List.map_append]
    rfl
  refine ⟨fun rows behind => tokenize_render, fun text => ⟨hend text, fun t ht => ?_⟩, ?_⟩
  · obtain ⟨l, q, rest, hl, rfl⟩ := exists_lexeme_of_mem_tokens _ _ ht
    exact ⟨hl.kind_ne_eof, hl.wellFormed q, signature_origin _⟩
  · intro text rows behind hsame hspaced hbehind
    -- the lexemes are those of the tokens, which are of the tables
    have hrows : ∀ r ∈ rows, r.2.WellFormed := by
      intro r hr
      have hmem : r.2 ∈ (tokens text).map Token.origin := hsame ▸ List.mem_map_of_mem hr
      obtain ⟨t, ht, heq⟩ := List.mem_map.mp hmem
      exact heq ▸ wellFormed_origin_of_mem_tokens ht
    have hwords : rows.map (fun r => r.2.signature) = (tokens text).map Token.signature := by
      calc rows.map (fun r => r.2.signature) = (rows.map Prod.snd).map Lexeme.signature := by
            rw [List.map_map]; rfl
        _ = (tokens text).map fun t => t.origin.signature := by rw [hsame, List.map_map]; rfl
        _ = (tokens text).map Token.signature := by simp only [signature_origin]
    rw [tokenize_render hrows hspaced hbehind, hend, hwords]

open Lexeme in
/-- A lexeme of each sort with blanks of each sort in between; and a text that ends inside of a
string, rendered anew. -/
theorem reading_inverts_rendering_sorts :
    let rows := [([], plain .letWord "let".toList), ([' '], plain .ident "lets".toList),
      (['\n', '\t'], plain .int ['0', '7']),
      (['\r'], ⟨.string, ['a', ' ', 'b'], ['"', 'a', ' ', 'b', '"']⟩),
      ([' ', ' '], plain .notEq ['!', '=']), ([' '], plain .illegal ['é'])]
    ((∀ r ∈ rows, r.2.WellFormed) ∧ Spaced rows ∧
      (tokenize (String.ofList (render rows ++ ['\n']))).map Token.signature =
        [(.letWord, "let"), (.ident, "lets"), (.int, "07"), (.string, "a b"), (.notEq, "!="),
          (.illegal, "é"), (.eof, "")]) ∧
    (∃ t ∈ tokens "x=\"a", t.kind ≠ .eof ∧ t.origin.WellFormed ∧
      t.origin.signature = t.signature) ∧
    (tokenize "x\n= \"a\"").map Token.signature = (tokenize "x=\"a").map Token.signature := by
  intro rows
  have formed : ∀ l ∈ rows.map Prod.snd, l.WellFormed := by
    simp only [rows, List.map_cons, List.map_nil, List.forall_mem_cons]
    have parts : ∀ d ∈ ['e', 't', 's'], Token.isWordPart d := List.all_eq_true.mp (by decide)
    have digits : ∀ d ∈ ['0', '7'], Token.isDigit d := List.all_eq_true.mp (by decide)
    have closed : '"' ∉ ['a', ' ', 'b'] := by decide
    have not_symbol : ¬ IsSymbolPart 'é' := ofChar?_eq_none_iff.mp (by decide)
    exact ⟨.keyword (by decide), .identifier (by decide) parts (by decide), .number digits,
      .string closed, .symbol (by decide), .illegal (by decide) (by decide) (by decide) not_symbol,
      List.forall_mem_nil _⟩
  have hrows : ∀ r ∈ rows, r.2.WellFormed := fun r hr => formed r.2 (List.mem_map_of_mem hr)
  have hspaced : Spaced rows := by decide
  have hend : ∀ c ∈ ['\n'], Token.isBlank c := List.all_eq_true.mp (by decide)
  refine ⟨⟨hrows, hspaced, ?_⟩, ⟨⟨.string, "a", 1, 3⟩, by decide +kernel, ?_⟩, ?_⟩
  · exact reading_inverts_rendering.1 rows ['\n'] hrows hspaced hend
  · exact (reading_inverts_rendering.2.1 "x=\"a").2 ⟨.string, "a", 1, 3⟩ (by decide +kernel)
  · exact reading_inverts_rendering.2.2 "x=\"a"
      [([], plain .ident ['x']), (['\n'], plain .assign ['=']),
        ([' '], ⟨.string, ['a'], ['"', 'a', '"']⟩)] []
      (by decide +kernel) (by decide) (List.forall_mem_nil _)

end Monkey
