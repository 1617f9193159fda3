import Monkey.Proofs.Syntax.Exact
import Monkey.Proofs.Syntax.Lookahead
import Monkey.Proofs.Syntax.Stall

/-!
# Complaints come as early as they can

The first complaint about a text is about a certain token of it.  The tokens in front of that one
are the beginning of a program, so nothing was wrong before; and no program begins with the tokens
up to it and itself, so it is not a complaint about something that could still have turned out
well.

The first half is where the parser stalls: what it has read can be completed, and what completes
it can be spelled.  The second half is how far it looks: another text that begins with the same
tokens makes it complain in the same way.  Tokens are compared without their places, since the
other text may be laid out differently.

## Main definitions

* `Complaint.tokenIn` — the token of a text that a complaint is about.

## Main results

* `length_of_split` — where the token of a complaint stands.
* `exists_text_of_mends` — what can be completed is the beginning of a text without complaints.
* `complaints_ne_nil_of_take_eq` — texts that begin in the same way are complained about alike.
* `complains_at_earliest_token` — **the parser complains at the earliest token.**
-/

namespace Monkey

/-- The token of a text that a complaint is about.  At the end that is the end token. -/
def Complaint.tokenIn (text : String) (c : Complaint) : Token :=
  c.token?.getD (Scanner.endToken (Place.start.afterAll text.toList))

variable {text text' : String} {depth depth' : Nat} {p p' : Parsed} {c : Complaint}
  {cs : List Complaint} {before rest : List Token}

/-! ### The token of a complaint -/

/-- A complaint about the token at some place of a text, or about the end. -/
theorem getElem?_tokenize_of_token? {i : Nat} (hi : (tokens text)[i]? = c.token?) :
    (tokenize text)[min i (tokens text).length]? = some (c.tokenIn text) := by
  unfold tokenize Complaint.tokenIn
  rw [← hi]
  by_cases hlt : i < (tokens text).length
  · rw [Nat.min_eq_left (Nat.le_of_lt hlt), List.getElem?_append_left hlt,
      List.getElem?_eq_getElem hlt, Option.getD_some]
  · have hle := Nat.le_of_not_lt hlt
    rw [Nat.min_eq_right hle, List.getElem?_concat_length, List.getElem?_eq_none hle,
      Option.getD_none]

/-- No token stands in a text twice, so the token of a complaint stands at one place. -/
theorem length_of_split {i : Nat} (hi : (tokens text)[i]? = c.token?)
    (h : tokenize text = before ++ c.tokenIn text :: rest) :
    before.length = min i (tokens text).length := by
  have hplace : (tokenize text)[before.length]? = some (c.tokenIn text) := by
    rw [h, List.getElem?_append_right (Nat.le_refl _), Nat.sub_self, List.getElem?_cons_zero]
  have hlt : before.length < (tokenize text).length := by
    rw [h, List.length_append, List.length_cons]
    omega
  exact (List.getElem?_inj hlt (nodup_tokenize text)).mp
    (hplace.trans (getElem?_tokenize_of_token? hi).symm)

/-- What stands in front of the token of a complaint. -/
theorem eq_take_of_split {i : Nat} (hi : (tokens text)[i]? = c.token?)
    (h : tokenize text = before ++ c.tokenIn text :: rest) :
    before = (tokens text).take before.length := by
  have hle : before.length ≤ (tokens text).length := by
    rw [length_of_split hi h]
    exact Nat.min_le_right _ _
  calc before = (tokenize text).take before.length := by rw [h, List.take_left]
    _ = (tokens text).take before.length := by rw [tokenize, List.take_append_of_le_length hle]

/-! ### In front of it -/

theorem Token.Spellable.forget {t : Token} (h : t.Spellable) : Relocation.forget.move t = t := by
  obtain ⟨l, rfl, -⟩ := h
  rfl

/-- Rows of statements are such wherever their tokens stand. -/
theorem exists_reads_map {ts : List Token} {ns : List Node} (f : Relocation)
    (h : Phrase.Reads (.statements ns) ts []) :
    ∃ ns', Phrase.Reads (.statements ns') (ts.map f.move) [] := by
  obtain ⟨count, hread, hcount⟩ := Parse.yields_program_of_reads h (Nat.lt_succ_self _)
  have hmoved := Parse.carries_program (Parse.carries_expression f (Nat.le_refl _)) _ _ hread
  obtain ⟨ns', -, hns'⟩ := Parse.reads_of_yields_program ⟨count, hmoved, rfl⟩
  exact ⟨ns', hns'⟩

/-- **What can be completed is the beginning of a text without complaints.** -/
theorem exists_text_of_mends {u : List Token} (hu : ∀ t ∈ u, t ∈ tokens text)
    (h : Grammar.Mends (Grammar.Spans .statements) u) :
    ∃ text' ns, u.map Relocation.forget.move <+: (tokens text').map Relocation.forget.move ∧
      Phrase.Reads (.statements ns) ((tokens text').map Relocation.forget.move) [] := by
  obtain ⟨w, hw, hspans⟩ := h
  have hderivable : Grammar.Derivable (u ++ w) := by
    have := hspans []
    rwa [List.append_nil] at this
  obtain ⟨ns, hns⟩ := Phrase.derivable_iff.mp hderivable
  obtain ⟨ns', hns'⟩ := exists_reads_map .forget hns
  have hfill : w.map Relocation.forget.move = w :=
    (List.map_congr_left fun t ht => (hw t ht).spellable.forget).trans (List.map_id w)
  have hspellable : ∀ t ∈ (u ++ w).map Relocation.forget.move, t.Spellable := by
    intro t ht
    rw [List.map_append, hfill] at ht
    rcases List.mem_append.mp ht with ht | ht
    · obtain ⟨s, hs, rfl⟩ := List.mem_map.mp ht
      exact spellable_of_mem_tokens (hu s hs)
    · exact (hw t ht).spellable
  obtain ⟨text', htext'⟩ := exists_text_of_spellable hspellable
  refine ⟨text', ns', ?_, htext' ▸ hns'⟩
  rw [htext', List.map_append]
  exact List.prefix_append _ _

/-- Where the parser complains first, and what stands in front of that. -/
theorem exists_stall (h : parse depth text = some p) (hc : p.complaints = c :: cs) :
    ∃ u, (tokens text)[u.length]? = c.token? ∧ u = (tokens text).take u.length ∧
      Grammar.Mends (Grammar.Spans .statements) u := by
  obtain ⟨r, hr, rfl⟩ := Option.map_eq_some_iff.mp h
  obtain ⟨u, rest, hu, hrest, hmends⟩ := Parse.stalled_program ⟨r, cs, hr, hc⟩
  refine ⟨u, ?_, by rw [hu, List.take_left], hmends⟩
  rw [hu, List.getElem?_append_right (Nat.le_refl _), Nat.sub_self, ← List.head?_eq_getElem?, hrest]

/-! ### From it on -/

/-- Two rows that begin alike, apart from what `f` forgets: the beginning of the one fits the rest
of the other. -/
theorem exists_mixed {α β : Type} (f : α → β) {xs ys : List α} {n : Nat}
    (h : (xs.map f).take n = (ys.map f).take n) :
    ∃ zs : List α, zs.take n = xs.take n ∧ zs.map f = ys.map f := by
  refine ⟨xs.take n ++ ys.drop n, ?_, ?_⟩
  · rw [List.take_append, List.take_take, Nat.min_self]
    -- if `xs` ends before, so does `ys`
    have hlength := congrArg List.length h
    simp only [List.length_take, List.length_map] at hlength
    have hnil : (ys.drop n).take (n - (xs.take n).length) = [] := by
      rw [List.take_eq_nil_iff, List.length_take, List.drop_eq_nil_iff]
      omega
    rw [hnil, List.append_nil]
  · rw [List.map_append, List.map_take, h, List.map_drop, List.take_append_drop]

/-- Whether there are complaints about a row of tokens does not depend on their places. -/
theorem complaints_eq_nil_of_forget {ts ts' : List Token} {r r' : Reading Node}
    (hts : ts.map Relocation.forget.move = ts'.map Relocation.forget.move)
    (h : Parse.program (Parse.expression depth) ts = some r)
    (h' : Parse.program (Parse.expression depth) ts' = some r') (hc : r'.complaints = []) :
    r.complaints = [] := by
  have hcarried := Parse.carries_program (Parse.carries_expression .forget (Nat.le_refl depth))
  have hr := hcarried _ _ h
  rw [hts, hcarried _ _ h', Option.some.injEq] at hr
  have hcomplaints := congrArg Reading.complaints hr
  simp only [Reading.mapTokens, hc, List.map_nil] at hcomplaints
  exact List.map_eq_nil_iff.mp hcomplaints.symm

/-- **Texts that begin in the same way are complained about alike.**  Another text that has the
same tokens up to the one of the first complaint is not read without complaints. -/
theorem complaints_ne_nil_of_take_eq (h : parse depth text = some p) (hc : p.complaints = c :: cs)
    (hsplit : tokenize text = before ++ c.tokenIn text :: rest)
    (htake : ((tokens text).map Relocation.forget.move).take (before.length + 1) =
      ((tokens text').map Relocation.forget.move).take (before.length + 1))
    (h' : parse depth' text' = some p') : p'.complaints ≠ [] := by
  intro hclean
  obtain ⟨zs, hzs, hmap⟩ := exists_mixed _ htake
  -- a depth that is great enough for all three rows
  obtain ⟨d, hd, hd', hzd⟩ : ∃ d, depth ≤ d ∧ depth' ≤ d ∧ zs.length < d :=
    ⟨depth + depth' + zs.length + 1, by omega, by omega, by omega⟩
  obtain ⟨r, hr, rfl⟩ := Option.map_eq_some_iff.mp (parse_of_le h hd)
  obtain ⟨r', hr', rfl⟩ := Option.map_eq_some_iff.mp (parse_of_le h' hd')
  obtain ⟨q, hq⟩ := Option.isSome_iff_exists.mp (isSome_program hzd)
  obtain ⟨i, -, hi, hcomplain⟩ := (Parse.looks_program (Parse.looks_expression d) _ r hr).2 c cs hc
  have hlength := length_of_split hi hsplit
  have hsame : zs.take (i + 1) = (tokens text).take (i + 1) := by
    by_cases hle : i ≤ (tokens text).length
    · rwa [hlength, Nat.min_eq_left hle] at hzs
    · rw [Parser.eq_of_take_eq hzs (by omega)]
  have hfirst := hcomplain zs q hsame hq
  rw [complaints_eq_nil_of_forget hmap hq hr' hclean] at hfirst
  cases hfirst

/-- What a text begins with, the end included, and where its tokens begin. -/
theorem take_tokens_of_begins (hsplit : tokenize text = before ++ c.tokenIn text :: rest)
    (hbegins : (before ++ [c.tokenIn text]).map Relocation.forget.move <+:
      (tokenize text').map Relocation.forget.move) :
    ((tokens text).map Relocation.forget.move).take (before.length + 1) =
      ((tokens text').map Relocation.forget.move).take (before.length + 1) := by
  have hbegins' : (before ++ [c.tokenIn text]).map Relocation.forget.move <+:
      (tokenize text).map Relocation.forget.move := by
    refine List.IsPrefix.map _ ⟨rest, ?_⟩
    rw [hsplit, List.append_assoc, List.singleton_append]
  have hrow : ((tokenize text).map Relocation.forget.move).take (before.length + 1) =
      ((tokenize text').map Relocation.forget.move).take (before.length + 1) := by
    have hboth := (List.prefix_iff_eq_take.mp hbegins').symm.trans
      (List.prefix_iff_eq_take.mp hbegins)
    rwa [List.length_map, List.length_append, List.length_singleton] at hboth
  -- the end is known by its kind, and places do not change that
  have htokens : ∀ text, (tokens text).map Relocation.forget.move =
      ((tokenize text).map Relocation.forget.move).takeWhile fun t => decide (t.kind ≠ .eof) := by
    intro text
    rw [tokens_eq_takeWhile, List.takeWhile_map]
    rfl
  rw [htokens, htokens, List.take_takeWhile, List.take_takeWhile, hrow]

/-- **The parser complains at the earliest token.**  The first complaint about a text is about one
of its tokens.  The tokens in front of that one are the beginning of a text that is read without
complaints, and no text that begins with them and that token is. -/
theorem complains_at_earliest_token (h : parse depth text = some p)
    (hc : p.complaints = c :: cs) :
    c.tokenIn text ∈ tokenize text ∧
    ∀ before rest, tokenize text = before ++ c.tokenIn text :: rest →
      (∃ text' n, before.map Relocation.forget.move <+:
          (tokenize text').map Relocation.forget.move ∧
        ∀ depth', (tokens text').length < depth' → parse depth' text' = some ⟨n, []⟩) ∧
      ∀ text', (before ++ [c.tokenIn text]).map Relocation.forget.move <+:
          (tokenize text').map Relocation.forget.move →
        ∀ depth' p', parse depth' text' = some p' → p'.complaints ≠ [] := by
  obtain ⟨u, hu, htake, hmends⟩ := exists_stall h hc
  refine ⟨List.mem_of_getElem? (getElem?_tokenize_of_token? hu), fun before rest hsplit => ⟨?_, ?_⟩⟩
  · have heq : before = u := by
      have hlength : u.length ≤ (tokens text).length := by
        rw [htake, List.length_take]
        exact Nat.min_le_right _ _
      rw [eq_take_of_split hu hsplit, length_of_split hu hsplit, Nat.min_eq_left hlength, ← htake]
    obtain ⟨text', ns, hbegins, hns⟩ :=
      exists_text_of_mends (fun t ht => List.mem_of_mem_take (htake ▸ ht)) hmends
    obtain ⟨q, hq⟩ := Option.isSome_iff_exists.mp (isSome_parse (Nat.lt_succ_self _))
    refine ⟨text', q.program, ?_, fun depth' hdepth => ?_⟩
    · rw [heq, tokenize, List.map_append]
      exact hbegins.trans (List.prefix_append _ _)
    · rw [parse_of_le hq hdepth, ← (mapTokens_parse_of_reads hq hns).2]
  · intro text' hbegins depth' p' h'
    exact complaints_ne_nil_of_take_eq h hc hsplit (take_tokens_of_begins hsplit hbegins) h'

/-- A semicolon inside of parentheses inside of brackets. -/
theorem complains_at_earliest_token_semicolon :
    ∃ p cs, parse 9 "[1, (2; 3" = some p ∧
      p.complaints = .expected .rparen (some ⟨.semicolon, ";", 1, 7⟩) :: cs ∧
      (∃ text' n, ((tokens "[1, (2; 3").take 5).map Relocation.forget.move <+:
          (tokenize text').map Relocation.forget.move ∧
        ∀ depth', (tokens text').length < depth' → parse depth' text' = some ⟨n, []⟩) ∧
      ∀ text', ((tokens "[1, (2; 3").take 6).map Relocation.forget.move <+:
          (tokenize text').map Relocation.forget.move →
        ∀ depth' p', parse depth' text' = some p' → p'.complaints ≠ [] := by
  have hfirst : (parse 9 "[1, (2; 3").map (fun p => p.complaints.head?) =
      some (some (.expected .rparen (some ⟨.semicolon, ";", 1, 7⟩))) := by
    decide +kernel
  obtain ⟨p, hp, hhead⟩ := Option.map_eq_some_iff.mp hfirst
  obtain ⟨cs, hcs⟩ := List.head?_eq_some_iff.mp hhead
  have hsplit : tokenize "[1, (2; 3" = (tokens "[1, (2; 3").take 5 ++
      ⟨.semicolon, ";", 1, 7⟩ :: [⟨.int, "3", 1, 9⟩, ⟨.eof, "", 1, 10⟩] := by
    decide +kernel
  have hsix : (tokens "[1, (2; 3").take 6 =
      (tokens "[1, (2; 3").take 5 ++ [⟨.semicolon, ";", 1, 7⟩] := by
    decide +kernel
  obtain ⟨hbegun, hlost⟩ := (complains_at_earliest_token hp hcs).2 _ _ hsplit
  exact ⟨p, cs, hp, hcs, hbegun, hsix ▸ hlost⟩

end Monkey
