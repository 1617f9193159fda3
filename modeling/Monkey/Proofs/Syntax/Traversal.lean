import Monkey.Proofs.Syntax.Exact

/-!
# The tokens of a tree

A tree that was read without complaints has the tokens of its text, each one once and in
their order, apart from the punctuation that no node keeps.

## Main definitions

* `Node.sourceTokens` — the tokens of a tree in the order of the text.
* `Token.isStored` — whether some node keeps the token.

## Main results

* `filter_of_reads` — what a phrase goes over is what its trees keep.
* `sourceTokens_of_parse` — nothing is lost, nothing comes twice, nothing changes places.
-/

namespace Monkey

namespace Node

mutual

/-- The tokens of a tree in the order of the text.  A statement that is an expression keeps
the first token of the expression once more; it is left out, and so is the parenthesis of a
call. -/
def sourceTokens : Node → List Token
  | missing => []
  | bare token | identifier token _ | integer token _ | boolean token _ | string token _ => [token]
  | program statements => sourceTokensAll statements
  | letStatement token name value => token :: (sourceTokens name ++ sourceTokens value)
  | returnStatement token value => token :: sourceTokens value
  | expressionStatement _ expression => sourceTokens expression
  | block token statements => token :: sourceTokensAll statements
  | prefixed token _ right => token :: sourceTokens right
  | infixed token left _ right => sourceTokens left ++ token :: sourceTokens right
  | conditional token condition consequence alternative =>
    token :: (sourceTokens condition ++ sourceTokens consequence ++ sourceTokens alternative)
  | function token parameters body => token :: (sourceTokensAll parameters ++ sourceTokens body)
  | call _ callee arguments => sourceTokens callee ++ sourceTokensAll arguments
  | array token elements => token :: sourceTokensAll elements
  | hash token pairs => token :: sourceTokensPairs pairs
  | index token left subscript => sourceTokens left ++ token :: sourceTokens subscript

/-- The tokens of trees in a row. -/
def sourceTokensAll : List Node → List Token
  | [] => []
  | n :: ns => sourceTokens n ++ sourceTokensAll ns

/-- The tokens of the pairs of a hash. -/
def sourceTokensPairs : List (Node × Node) → List Token
  | [] => []
  | (key, value) :: pairs => sourceTokens key ++ sourceTokens value ++ sourceTokensPairs pairs

end

end Node

/-- The kinds of token that no node keeps where it stands: punctuation, `else`, and the
end. -/
def Token.Kind.punctuation : List Token.Kind :=
  [.lparen, .rparen, .semicolon, .comma, .colon, .assign, .rbracket, .rbrace, .elseWord, .eof]

/-- Whether some node keeps the token where it stands. -/
def Token.isStored (t : Token) : Bool := t.kind ∉ Kind.punctuation

namespace Phrase

open Grammar (IsInfix IsPrefix)

/-- The tokens that the trees of a phrase keep. -/
@[simp] def stored : Phrase → List Token
  | statements ns | items ns | moreItems ns | parameters ns | moreParameters ns =>
    Node.sourceTokensAll ns
  | sentence n | expression _ n | primary n | block n => n.sourceTokens
  | pairs ps => Node.sourceTokensPairs ps
  | pair k v => k.sourceTokens ++ v.sourceTokens

attribute [simp] Node.sourceTokens Node.sourceTokensAll Node.sourceTokensPairs

section Filter

variable {t : Token} {kind : Token.Kind}

theorem filter_stored (h : t.kind = kind) (hk : kind ∉ Token.Kind.punctuation)
    (ts : List Token) : (t :: ts).filter Token.isStored = t :: ts.filter Token.isStored :=
  List.filter_cons_of_pos (decide_eq_true (h ▸ hk))

theorem filter_punctuation (h : t.kind = kind) (hk : kind ∈ Token.Kind.punctuation)
    (ts : List Token) : (t :: ts).filter Token.isStored = ts.filter Token.isStored := by
  refine List.filter_cons_of_neg fun hs => ?_
  exact of_decide_eq_true hs (h ▸ hk)

theorem not_punctuation_of_isInfix (h : IsInfix kind) : kind ∉ Token.Kind.punctuation := by
  cases kind <;> revert h <;> decide

theorem not_punctuation_of_isPrefix (h : IsPrefix kind) : kind ∉ Token.Kind.punctuation := by
  cases kind <;> revert h <;> decide

end Filter

/-- What a phrase goes over is what its trees keep, and punctuation. -/
theorem filter_of_reads {p : Phrase} {ts rest : List Token} (h : Reads p ts rest) :
    ts.filter Token.isStored = p.stored ++ rest.filter Token.isStored := by
  -- one rewriting for each token and each part of the rule, from left to right
  induction h with
  | none | noItem | lastItem | noParameter | lastParameter | noPair => rfl
  | ended _ hk _ ih ih' =>
    rw [ih, filter_punctuation hk (by decide), ih']
    simp
  | unended _ _ _ ih ih' | someItems _ _ ih ih' =>
    rw [ih, ih']
    simp
  | letSentence hw hn hs _ ih =>
    rw [filter_stored hw (by decide), filter_stored hn (by decide),
      filter_punctuation hs (by decide), ih]
    simp
  | returnSentence hw _ ih =>
    rw [filter_stored hw (by decide), ih]
    simp
  | expressionSentence _ ih | simple _ ih =>
    rw [ih]
    simp
  | infixed _ _ operator _ ih ih' =>
    rw [ih, filter_stored rfl (not_punctuation_of_isInfix operator), ih']
    simp
  | prefixed _ operator _ ih =>
    rw [filter_stored rfl (not_punctuation_of_isPrefix operator), ih]
    simp
  | call _ hl _ hr ih ih' =>
    rw [ih, filter_punctuation hl (by decide), ih', filter_punctuation hr (by decide)]
    simp
  | index _ hl _ hr ih ih' =>
    rw [ih, filter_stored hl (by decide), ih', filter_punctuation hr (by decide)]
    simp
  | identifier hk | string hk | true hk | false hk | integer hk =>
    rw [filter_stored hk (by decide)]
    simp
  | grouped hl _ hr ih =>
    rw [filter_punctuation hl (by decide), ih, filter_punctuation hr (by decide)]
    simp
  | conditional hw hl _ hr _ ih ih' =>
    rw [filter_stored hw (by decide), filter_punctuation hl (by decide), ih,
      filter_punctuation hr (by decide), ih']
    simp
  | alternative hw hl _ hr _ ho _ ih ih' ih'' =>
    rw [filter_stored hw (by decide), filter_punctuation hl (by decide), ih,
      filter_punctuation hr (by decide), ih', filter_punctuation ho (by decide), ih'']
    simp
  | function hw hl _ hr _ ih ih' =>
    rw [filter_stored hw (by decide), filter_punctuation hl (by decide), ih,
      filter_punctuation hr (by decide), ih']
    simp
  | array hl _ hr ih | hash hl _ hr ih =>
    rw [filter_stored hl (by decide), ih, filter_punctuation hr (by decide)]
    simp
  | nextItem hc _ _ ih ih' =>
    rw [filter_punctuation hc (by decide), ih, ih']
    simp
  | closed hl _ hr ih =>
    rw [filter_stored hl (by decide), ih, filter_punctuation hr (by decide)]
    simp
  | unclosed hl _ ih =>
    rw [filter_stored hl (by decide), ih]
    simp
  | someParameters hn _ ih =>
    rw [filter_stored hn (by decide), ih]
    simp
  | nextParameter hc hn _ ih =>
    rw [filter_punctuation hc (by decide), filter_stored hn (by decide), ih]
    simp
  | lastPair _ ih =>
    rw [ih]
    simp
  | nextPair _ hc _ ih ih' =>
    rw [ih, filter_punctuation hc (by decide), ih']
    simp
  | pair _ hc _ ih ih' =>
    rw [ih, filter_punctuation hc (by decide), ih']
    simp

end Phrase

/-- **The parser loses nothing, repeats nothing and changes no order.**  The tree of a text
that is read without complaints has the tokens of the text, apart from punctuation. -/
theorem sourceTokens_of_parse {text : String} {depth : Nat} {p : Parsed}
    (h : parse depth text = some p) (hc : p.complaints = []) :
    p.program.sourceTokens = (tokenize text).filter Token.isStored := by
  obtain ⟨ns, hns, hreads⟩ := reads_of_parse h hc
  have key := Phrase.filter_of_reads hreads
  rw [List.filter_nil, List.append_nil] at key
  have hend : [Scanner.endToken (Place.start.afterAll text.toList)].filter Token.isStored = [] :=
    rfl
  rw [hns, tokenize, List.filter_append, hend, List.append_nil, key]
  rfl

/-- A text with a call, a subscript, a conditional and a hash. -/
theorem sourceTokens_of_parse_call :
    ∃ p, parse 30 "let x = f(1, -y)[2]; if (x) { {a: 1,} } else { return x }" = some p ∧
      p.complaints = [] ∧ p.program.sourceTokens =
        (tokenize "let x = f(1, -y)[2]; if (x) { {a: 1,} } else { return x }").filter
          Token.isStored := by
  have h : ((parse 30 "let x = f(1, -y)[2]; if (x) { {a: 1,} } else { return x }").map
      Parsed.complaints) = some [] := by decide +kernel
  obtain ⟨p, hp, hc⟩ := Option.map_eq_some_iff.mp h
  exact ⟨p, hp, hc, sourceTokens_of_parse hp hc⟩

end Monkey
