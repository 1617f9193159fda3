import Monkey.Proofs.Syntax.Balance
import Monkey.Proofs.Syntax.Exact
import Monkey.Proofs.Token.Seam

/-!
# Programs in a row

A phrase is read without a look at what stands behind the token that follows it.  So when a text
is read without complaints, no bracket is open at its end and its last token is a semicolon, then
a text behind it is read as it is alone: the statements of both stand in a row, and the complaints
are those about the second text.

## Main results

* `Reads.append` — more tokens behind a phrase.
* `iterate_moreStatements_append` — the loop over the statements comes to the end of the first
  text, and goes on from there.
* `parse_append` — the program of two texts in a row.
* `parse_behind_semicolon` — the same at any depths, with the wordings of the complaints.
-/

namespace Monkey

namespace Phrase

variable {p : Phrase} {ts rest : List Token}

theorem ne_nil_of_reads (h : Reads p ts rest) (hr : rest ≠ []) : ts ≠ [] := by
  have hle := h.length_le
  have hpos := List.length_pos_iff.mpr hr
  exact List.ne_nil_of_length_pos (Nat.lt_of_lt_of_le hpos hle)

theorem head?_append_of_ne_nil (h : ts ≠ []) (more : List Token) :
    (ts ++ more).head? = ts.head? := by
  cases ts with
  | nil => contradiction
  | cons t ts => rfl

/-- What stands behind the token that follows a phrase may be anything. -/
theorem Reads.append (h : Reads p ts rest) (hr : rest ≠ []) (more : List Token) :
    Reads p (ts ++ more) (rest ++ more) := by
  induction h with
  | none => exact .none
  | ended _ hs _ ih ih' => exact .ended (ih (List.cons_ne_nil _ _)) hs (ih' hr)
  | @unended ts ts' rest n ns first apart others ih ih' =>
    have hmid : ts' ≠ [] := ne_nil_of_reads others hr
    refine .unended (ih hmid) (fun hne t ht => ?_) (ih' hr)
    refine apart (fun heq => hne (by rw [heq])) t ?_
    rwa [head?_append_of_ne_nil hmid] at ht
  | letSentence hw hn hs _ ih => exact .letSentence hw hn hs (ih hr)
  | returnSentence hw _ ih => exact .returnSentence hw (ih hr)
  | expressionSentence _ ih => exact .expressionSentence (ih hr)
  | infixed tight _ operator _ ih ih' =>
    exact .infixed tight (ih (List.cons_ne_nil _ _)) operator (ih' hr)
  | prefixed tight operator _ ih => exact .prefixed tight operator (ih hr)
  | call _ hl _ hk ih ih' =>
    exact .call (ih (List.cons_ne_nil _ _)) hl (ih' (List.cons_ne_nil _ _)) hk
  | index _ hl _ hk ih ih' =>
    exact .index (ih (List.cons_ne_nil _ _)) hl (ih' (List.cons_ne_nil _ _)) hk
  | simple _ ih => exact .simple (ih hr)
  | identifier h => exact .identifier h
  | string h => exact .string h
  | true h => exact .true h
  | false h => exact .false h
  | integer h range => exact .integer h range
  | grouped hl _ hk ih => exact .grouped hl (ih (List.cons_ne_nil _ _)) hk
  | conditional hw hl _ hk _ ih ih' =>
    exact .conditional hw hl (ih (List.cons_ne_nil _ _)) hk (ih' hr)
  | alternative hw hl _ hk _ ho _ ih ih' ih'' =>
    exact .alternative hw hl (ih (List.cons_ne_nil _ _)) hk (ih' (List.cons_ne_nil _ _)) ho
      (ih'' hr)
  | function hw hl _ hk _ ih ih' =>
    exact .function hw hl (ih (List.cons_ne_nil _ _)) hk (ih' hr)
  | array hl _ hk ih => exact .array hl (ih (List.cons_ne_nil _ _)) hk
  | hash hl _ hk ih => exact .hash hl (ih (List.cons_ne_nil _ _)) hk
  | noItem => exact .noItem
  | someItems _ others ih ih' => exact .someItems (ih (ne_nil_of_reads others hr)) (ih' hr)
  | lastItem => exact .lastItem
  | nextItem hc _ others ih ih' => exact .nextItem hc (ih (ne_nil_of_reads others hr)) (ih' hr)
  | closed hl _ hk ih => exact .closed hl (ih (List.cons_ne_nil _ _)) hk
  | unclosed => contradiction
  | noParameter => exact .noParameter
  | someParameters hn _ ih => exact .someParameters hn (ih hr)
  | lastParameter => exact .lastParameter
  | nextParameter hc hn _ ih => exact .nextParameter hc hn (ih hr)
  | noPair => exact .noPair
  | lastPair _ ih => exact .lastPair (ih hr)
  | nextPair _ hc _ ih ih' => exact .nextPair (ih (List.cons_ne_nil _ _)) hc (ih' hr)
  | pair _ hc _ ih ih' => exact .pair (ih (List.cons_ne_nil _ _)) hc (ih' hr)

/-- A phrase that ends with the text, with no bracket open, has its own last token. -/
theorem not_endsWithSemicolon {n : Node} (h : Reads (.sentence n) ts [])
    (hdepth : depthBehind 0 ts = 0) : ¬ EndsWithSemicolon ts := by
  intro hlast
  rcases h.balanced.2 with ⟨-, hends⟩ | ⟨-, hopen⟩
  · obtain ⟨us, t, rfl, ht⟩ := hends trivial
    exact ht (hlast t List.getLast?_concat)
  · exact absurd (hopen 0) (by rw [hdepth]; exact Nat.lt_irrefl 0)

/-- In front of what is left as many brackets are open as in front of the phrase. -/
theorem depthBehind_eq_of_reads (h : Reads p ts rest) (hr : rest ≠ []) (depth : Nat) :
    depthBehind depth rest = depthBehind depth ts := by
  rcases h.balanced.2 with ⟨heven, -⟩ | ⟨hnil, -⟩
  · exact (heven depth).symm
  · contradiction

end Phrase

/-! ### What is found -/

/-- What a reading finds, however many tokens it goes over. -/
def Reading.found {α : Type} (r : Reading α) : α × List Complaint := (r.value, r.complaints)

namespace Parse

open Monkey.Parser Phrase

variable {ends : Token.Kind → Bool} {depth : Nat} {ts mid more : List Token} {n : Node}
  {ns : List Node}

/-- A round of a loop that makes no complaint does not show in what is found. -/
theorem found_iterate_of_yields {α σ : Type} {step : σ → Parser (σ ⊕ α)} {s s' : σ}
    {ts ts' : List Token} (h : (step s).Yields ts (.inl s') ts') (hlt : ts'.length < ts.length) :
    (iterate step s ts).map Reading.found = (iterate step s' ts').map Reading.found := by
  obtain ⟨count, hs, rfl⟩ := h
  rw [List.length_drop] at hlt
  rw [iterate_of_inl hs (List.ne_nil_of_length_pos (by omega)) (by omega), Option.map_map]
  rfl

theorem found_iterate_of_sentence (hn : Reads (.sentence n) ts mid)
    (hmid : IsLoose (nextKind mid)) (hd : ts.length < depth)
    (hends : ∀ kind, ends kind → kind = .rbrace) (acc : List Node) :
    (iterate (moreStatements (expression depth) ends) acc ts).map Reading.found =
      (iterate (moreStatements (expression depth) ends) (n :: acc) (dropSemicolon mid)).map
        Reading.found := by
  obtain ⟨h, hlt⟩ :=
    yields_moreStatements_of_sentence hn (accepted_of_reads hn) hmid hd hends acc
  exact found_iterate_of_yields h hlt

/-- The loop over the statements goes over those of a text that ends with a semicolon, and goes
on with whatever stands behind it. -/
theorem iterate_moreStatements_append (h : Reads (.statements ns) ts [])
    (hlast : EndsWithSemicolon ts) (hdepth : depthBehind 0 ts = 0)
    (hd : (ts ++ more).length < depth) (acc : List Node) :
    (iterate (moreStatements (expression depth) fun _ => false) acc (ts ++ more)).map
        Reading.found =
      (iterate (moreStatements (expression depth) fun _ => false) (ns.reverse ++ acc) more).map
        Reading.found := by
  have hends : ∀ kind : Token.Kind, false = true → kind = .rbrace := fun _ h => by contradiction
  -- along the statements; in each round the last token and the depth stay what they are
  induction ns generalizing ts acc with
  | nil =>
    cases h
    rfl
  | cons n ns ih =>
    rw [List.reverse_cons, List.append_assoc]
    cases h with
    | @ended _ ts' _ t _ _ first hs others =>
      have hmore := first.append (List.cons_ne_nil t ts') more
      have hdrop : dropSemicolon (t :: ts' ++ more) = ts' ++ more := if_pos hs
      have hlast' : EndsWithSemicolon ts' := hlast.suffix first.suffix
      have hdepth' : depthBehind 0 ts' = 0 := by
        have hkind : depthBehind 0 (t :: ts') = depthBehind 0 ts' := by
          rw [depthBehind_cons, hs]
          rfl
        rw [← hkind, depthBehind_eq_of_reads first (List.cons_ne_nil t ts'), hdepth]
      have hle := first.length_le
      have hd' : (ts' ++ more).length < depth := by
        simp only [List.length_append, List.length_cons] at hd hle ⊢
        omega
      have hloose : IsLoose (nextKind (t :: ts' ++ more)) := isLoose_of_kind hs (by decide)
      rw [found_iterate_of_sentence hmore hloose hd hends, hdrop]
      exact ih others hlast' hdepth' hd' (n :: acc)
    | @unended _ ts' _ _ _ first apart others =>
      by_cases hnil : ts' = []
      · subst hnil
        exact absurd hlast (not_endsWithSemicolon first hdepth)
      · have hmore := first.append hnil more
        have hlast' : EndsWithSemicolon ts' := hlast.suffix first.balanced.1
        have hdepth' : depthBehind 0 ts' = 0 := by
          rw [depthBehind_eq_of_reads first hnil, hdepth]
        have hle := first.length_le
        have hd' : (ts' ++ more).length < depth := by
          simp only [List.length_append] at hd ⊢
          omega
        -- what follows the statement starts another one, with or without more behind it
        have hnext : nextKind (ts' ++ more) = nextKind ts' := by
          rw [nextKind, nextKind, head?_append_of_ne_nil hnil]
        have hend : EndsAt (fun _ => false) [] := ⟨by rintro _ ⟨⟩, hends⟩
        obtain ⟨hloose, hne⟩ := isLoose_of_apart others apart hend
        have hdrop : dropSemicolon (ts' ++ more) = ts' ++ more := if_neg (hnext ▸ hne)
        rw [found_iterate_of_sentence hmore (hnext ▸ hloose) hd hends, hdrop]
        exact ih others hlast' hdepth' hd' (n :: acc)

/-! ### Statements that have been read before -/

/-- The statements that have been read already stay in front. -/
theorem carries_moreStatements_behind (E : Expressions) (ends : Token.Kind → Bool)
    (acc ns : List Node) :
    Carries .stay (Sum.map (· ++ acc) (acc.reverse ++ ·)) (moreStatements E ends ns)
      (moreStatements E ends (ns ++ acc)) := by
  have hsame : ∀ {α : Type} {p : Parser α}, Carries .stay id p p := by
    intro α p ts r h
    rw [show ts.map Relocation.stay.move = ts from List.map_id ts, h]
    simp only [Reading.mapTokens, Relocation.stay, Complaint.mapToken_id, List.map_id, id]
  refine carries_bind hsame fun token => ?_
  cases token with
  | none => exact carries_pure (by rw [List.reverse_append]; rfl)
  | some token =>
    refine carries_ite (fun _ => carries_pure (by rw [List.reverse_append]; rfl)) fun _ => ?_
    refine carries_bind hsame fun s => carries_bind hsame fun _ => carries_pure ?_
    simp only [id, addPresent]
    split <;> rfl

theorem iterate_moreStatements_acc {r : Reading (List Node)} (acc : List Node)
    (h : iterate (moreStatements (expression depth) ends) [] ts = some r) :
    iterate (moreStatements (expression depth) ends) acc ts =
      some ⟨acc.reverse ++ r.value, r.count, r.complaints⟩ := by
  have key := carries_iterate
    (carries_moreStatements_behind (expression depth) ends acc) [] ts r h
  rw [show ts.map Relocation.stay.move = ts from List.map_id ts, List.nil_append] at key
  rw [key]
  simp only [Reading.mapTokens, Relocation.stay, Complaint.mapToken_id, List.map_id]

end Parse

/-! ### Programs -/

open Parse Monkey.Parser in
/-- A text is read as the statements that the loop finds. -/
theorem parse_eq (depth : Nat) (text : String) :
    parse depth text =
      ((iterate (moreStatements (expression depth) fun _ => false) [] (tokens text)).map
        Reading.found).map fun q => ⟨.program q.1, q.2⟩ := by
  rw [parse, Parse.program, bind_apply]
  cases iterate (moreStatements (expression depth) fun _ => false) [] (tokens text) with
  | none => rfl
  | some r =>
    simp only [pure_apply, Option.map_some, Reading.followedBy, Reading.found, List.append_nil]

open Parse Monkey.Parser in
/-- **Programs in a row.**  Behind a text without complaints that ends with a semicolon outside
of all brackets, a text is read as it is alone, complaints included, apart from the places of its
tokens. -/
theorem parse_append {depth : Nat} {text text' : String} {p p₁ p₂ : Parsed}
    (h : parse depth (text ++ text') = some p) (h₁ : parse depth text = some p₁)
    (h₂ : parse depth text' = some p₂) (clean : p₁.complaints = [])
    (hlast : EndsWithSemicolon (tokens text)) (hdepth : bracketDepth text = 0) :
    ∃ ns ms ms₂, p₁.program = .program ns ∧ p₂.program = .program ms₂ ∧
      p.program = .program (ns ++ ms) ∧
      Node.mapTokensAll Relocation.forget.move ms = Node.mapTokensAll Relocation.forget.move ms₂ ∧
      p.complaints.map (Complaint.mapToken Relocation.forget.move) =
        p₂.complaints.map (Complaint.mapToken Relocation.forget.move) := by
  obtain ⟨ns, hns, hreads⟩ := reads_of_parse h₁ clean
  obtain ⟨ts, hts, hmoved⟩ := tokens_append hlast text'
  -- at a depth at which nothing is given up
  let big := depth + (tokens (text ++ text')).length + 1
  have h := parse_of_le h (show depth ≤ big by omega)
  have h₂ := parse_of_le h₂ (show depth ≤ big by omega)
  have hd : (tokens text ++ ts).length < big := by rw [← hts]; omega
  have hE := safe_expression (big - 1)
  rw [show big - 1 + 1 = big by omega] at hE
  obtain ⟨r, hr⟩ := Option.isSome_iff_exists.mp
    (holds_iterate (holds_moreStatements hE fun _ => false) (shortens_moreStatements _) [] ts
      (by rw [List.length_append] at hd; omega))
  rw [parse_eq, hts, iterate_moreStatements_append hreads hlast hdepth hd, List.append_nil,
    iterate_moreStatements_acc _ hr, List.reverse_reverse] at h
  obtain rfl := Option.some.inj h
  rw [parse_eq] at h₂
  obtain ⟨q, hq, rfl⟩ := Option.map_eq_some_iff.mp h₂
  obtain ⟨r₂, hr₂, rfl⟩ := Option.map_eq_some_iff.mp hq
  -- the second text and the tokens behind the first one are the same when places are forgotten
  have hcarry := carries_iterate
    (carries_moreStatements (carries_expression .forget (Nat.le_refl big)) fun _ => false) []
  have key := hcarry ts r hr
  rw [hmoved, hcarry _ _ hr₂, Option.some.injEq, Reading.mapTokens, Reading.mapTokens,
    Reading.mk.injEq] at key
  refine ⟨ns, r.value, r₂.value, hns, rfl, rfl, ?_, key.2.2.symm⟩
  rw [Node.mapTokensAll_eq_map, Node.mapTokensAll_eq_map]
  exact key.1.symm

/-- **Parsing goes on behind a semicolon.**  Let a text be read without complaints, at whatever
depth, with no bracket open at its end and a semicolon as its last token.  Then any text behind it
is read as it is alone: the same is complained about, in the same order, and its statements stand
behind those of the first text, with other places.  A depth that is enough for both texts in a row
is enough for the second one. -/
theorem parse_behind_semicolon {depth₁ : Nat} {text : String} {p₁ : Parsed}
    (first : parse depth₁ text = some p₁) (clean : p₁.complaints = [])
    (hlast : EndsWithSemicolon (tokens text)) (hdepth : bracketDepth text = 0)
    (text' : String) :
    (∀ depth, (tokens (text ++ text')).length < depth →
      (parse depth (text ++ text')).isSome ∧ (parse depth text').isSome) ∧
    ∀ depth depth₂ p p₂, parse depth (text ++ text') = some p → parse depth₂ text' = some p₂ →
      p.complaints.map Complaint.message = p₂.complaints.map Complaint.message ∧
      ∃ ns ms ms₂, p₁.program = .program ns ∧ p₂.program = .program ms₂ ∧
        p.program = .program (ns ++ ms) ∧
        Node.mapTokensAll Relocation.forget.move ms =
          Node.mapTokensAll Relocation.forget.move ms₂ := by
  constructor
  · intro depth hd
    obtain ⟨ts, hts, hmoved⟩ := tokens_append hlast text'
    have hlength : ts.length = (tokens text').length := by
      rw [← List.length_map, hmoved, List.length_map]
    refine ⟨isSome_parse hd, isSome_parse ?_⟩
    rw [hts, List.length_append] at hd
    omega
  · intro depth depth₂ p p₂ h h₂
    -- the three readings, at a depth that is as great as each of theirs
    have h₁ := parse_of_le first (show depth₁ ≤ max depth₁ (max depth depth₂) by omega)
    have h := parse_of_le h (show depth ≤ max depth₁ (max depth depth₂) by omega)
    have h₂ := parse_of_le h₂ (show depth₂ ≤ max depth₁ (max depth depth₂) by omega)
    obtain ⟨ns, ms, ms₂, hns, hms₂, hprogram, hsame, hcomplaints⟩ :=
      parse_append h h₁ h₂ clean hlast hdepth
    have hmessages := congrArg (List.map Complaint.message) hcomplaints
    rw [Complaint.map_message_map, Complaint.map_message_map] at hmessages
    exact ⟨hmessages, ns, ms, ms₂, hns, hms₂, hprogram, hsame⟩

/-- A second text with several mistakes, the last of them a bracket that is never closed. -/
theorem parse_behind_semicolon_mistakes :
    let text := "let f = fn(x) \x7b x; \x7d; if (f) \x7b 1 \x7d;"
    let text' := "let 5 = 2; ) f(1"
    ∃ p₁ p p₂, parse 40 text = some p₁ ∧ p₁.complaints = [] ∧
      EndsWithSemicolon (tokens text) ∧ bracketDepth text = 0 ∧
      parse 60 (text ++ text') = some p ∧ parse 20 text' = some p₂ ∧ p₂.complaints.length = 4 ∧
      p.complaints.map Complaint.message = p₂.complaints.map Complaint.message ∧
      ∃ ns ms ms₂, p₁.program = .program ns ∧ p₂.program = .program ms₂ ∧
        p.program = .program (ns ++ ms) ∧
        Node.mapTokensAll Relocation.forget.move ms =
          Node.mapTokensAll Relocation.forget.move ms₂ := by
  intro text text'
  have hfirst : (parse 40 text).map Parsed.complaints = some [] := by decide +kernel
  have hsecond : (parse 20 text').map (fun p => p.complaints.length) = some 4 := by
    decide +kernel
  have hlast : EndsWithSemicolon (tokens text) := by decide +kernel
  have hdepth : bracketDepth text = 0 := by decide +kernel
  obtain ⟨p₁, first, clean⟩ := Option.map_eq_some_iff.mp hfirst
  obtain ⟨p₂, second, hlength⟩ := Option.map_eq_some_iff.mp hsecond
  obtain ⟨henough, hbehind⟩ := parse_behind_semicolon first clean hlast hdepth text'
  obtain ⟨p, both⟩ := Option.isSome_iff_exists.mp (henough 60 (by decide +kernel)).1
  exact ⟨p₁, p, p₂, first, clean, hlast, hdepth, both, second, hlength,
    hbehind 60 20 p p₂ both second⟩

end Monkey
