import RegisterMapping.Proofs.Listing.Pointers

/-!
# The tokens of a source text

The tokens of a source text are read off it by the rules alone: they partition it, each of them the
longest at its place, and no other tokens do (`Listing.tokens_partition_source`). What was passed
over between them does not matter. No token goes on over a blank (`Lexeme.Longest.before_blank`), so
the tokens, written with single blanks between them, are read again (`Token.scan_intercalate`).
-/

set_option autoImplicit false

namespace RegisterMapping

namespace Lexeme

variable {kind : TokenKind} {other : Option TokenKind} {c : Char} {cs text after : List Char}

/-- Only what is passed over has blanks in it. -/
theorem Rule.eq_none_of_mem (h : Rule other text) (hmem : ' ' ∈ text) : other = none := by
  cases other with
  | none => rfl
  | some token =>
    by_cases hkind : token = .newline
    · subst hkind
      cases h <;> exact absurd hmem (by decide)
    · exact absurd hmem (not_mem_of_all (by decide) (h.all_isTokenChar hkind))

/-- The first character decides whether a text is passed over, and it would be passed over alone. -/
theorem Rule.singleton (h : Rule none (c :: cs)) : Rule none [c] := by
  cases h with
  | blanks hc _ => exact .blanks hc rfl
  | comment _ => exact .comment rfl

theorem Rule.not_token (h : Rule none (c :: cs)) (others : List Char) :
    ¬ Rule (some kind) (c :: others) := by
  intro htoken
  have hskipped : (first c others).kind = none := by
    cases h with
    | blanks hc _ => rw [first, if_pos hc]; rfl
    | comment _ => rfl
  rw [first_of_rule htoken] at hskipped
  cases hskipped

/-- A token stays the longest one if a blank follows it, or nothing. -/
theorem Longest.before_blank (h : Longest (some kind) text after) {rest : List Char}
    (hrest : ∀ d ∈ rest.head?, d = ' ') : Longest (some kind) text rest := by
  -- What goes on behind the token has a blank in it, and so it is passed over.
  have hgoesOn {other : Option TokenKind} {front : List Char} (hfront : front <+: text ++ rest)
      (hrule : Rule other front) (hlt : text.length < front.length) : Rule none front := by
    obtain ⟨more, rfl⟩ := List.prefix_of_prefix_length_le (List.prefix_append text rest) hfront
      (Nat.le_of_lt hlt)
    obtain ⟨later, rfl⟩ := (List.prefix_append_right_inj text).1 hfront
    cases more with
    | nil => exact absurd hlt (by simp)
    | cons d more =>
      obtain rfl : d = ' ' := hrest d rfl
      rwa [hrule.eq_none_of_mem (by simp)] at hrule
  cases h with
  | rule hrule _ =>
    refine .rule hrule fun other front hfront hother => ?_
    by_contra hlt
    have hskipped := hgoesOn hfront hother (Nat.lt_of_not_le hlt)
    obtain ⟨c, cs, rfl⟩ := List.exists_cons_of_ne_nil hrule.ne_nil
    rw [List.cons_append] at hfront
    obtain rfl | ⟨ds, rfl, -⟩ := List.prefix_cons_iff.1 hfront
    · exact hskipped.ne_nil rfl
    · exact hskipped.not_token cs hrule
  | @invalid c _ hnone =>
    refine .invalid fun other front hfront hother => ?_
    have hfirst (other : Option TokenKind) : ¬ Rule other [c] := hnone other [c] ⟨after, rfl⟩
    obtain rfl | ⟨ds, rfl, -⟩ := List.prefix_cons_iff.1 hfront
    · exact hother.ne_nil rfl
    · cases ds with
      | nil => exact hfirst other hother
      | cons d ds => exact hfirst none (hgoesOn hfront hother (by simp)).singleton

/-- No rule makes invalid tokens, so an invalid token is one character. -/
theorem Longest.length_of_invalid (h : Longest (some .invalid) text after) : text.length = 1 := by
  cases h with
  | rule hrule _ => cases hrule
  | invalid _ => rfl

end Lexeme

theorem Partitioned.longest {file offset : Nat} {text : List Char} {tokens : List Token}
    (h : Partitioned file offset text tokens) :
    ∀ token ∈ tokens, ∃ after, Lexeme.Longest (some token.kind) token.text after := by
  induction h with
  | rest _ => exact List.forall_mem_nil _
  | token _ _ hlongest _ ih => exact List.forall_mem_cons.2 ⟨⟨_, hlongest⟩, ih⟩

/-- A token without its place. -/
def Token.content (token : Token) : TokenKind × List Char := (token.kind, token.text)

/-- Tokens that are written with single blanks between them are read again. -/
theorem Token.scan_intercalate {tokens : List Token}
    (h : ∀ token ∈ tokens, ∃ after, Lexeme.Longest (some token.kind) token.text after)
    (file offset : Nat) :
    (scan file offset ([' '].intercalate (tokens.map Token.text))).map content =
      tokens.map content := by
  induction tokens generalizing offset with
  | nil =>
    rw [List.map_nil, List.intercalate_nil, scan]
  | cons token rest ih =>
    obtain ⟨⟨after, hlongest⟩, hrest⟩ := List.forall_mem_cons.1 h
    cases rest with
    | nil =>
      have hends : ∀ d ∈ ([] : List Char).head?, d = ' ' := by simp
      have hscan := scan_longest (hlongest.before_blank hends) file offset
      rw [List.append_nil, scan] at hscan
      rw [List.map_singleton, List.intercalate_singleton, hscan]
      rfl
    | cons second later =>
      have hblank : ∀ d ∈ (' ' :: [' '].intercalate ((second :: later).map Token.text)).head?,
          d = ' ' := by
        simp
      rw [List.map_cons, List.map_cons, List.intercalate_cons_cons, List.append_assoc,
        List.singleton_append, ← List.map_cons, scan_longest (hlongest.before_blank hblank),
        scan_blank rfl, List.map_cons, ih hrest]
      rfl

/-- The tokens partition the source text, as no others do: what stands before, between and behind
them is blanks and comments, and each of them is the longest text at its place that a rule fits, or
an invalid character, at which no rule fits anything. They follow each other, are not empty, and
have the texts of their spans, an invalid token a single character. Written with single blanks
between them they are read again. -/
theorem Listing.tokens_partition_source (source : String) (file : Nat) :
    (∀ tokens, Token.scan file 0 source.toList = tokens ↔
      Partitioned file 0 source.toList tokens) ∧
      let tokens := Token.scan file 0 source.toList
      (∀ token ∈ tokens, token.span.file = file ∧ token.span.start < token.span.stop ∧
        token.span.Holds source (String.ofList token.text) ∧
        (token.kind = .invalid → token.text.length = 1)) ∧
      tokens.Pairwise (fun a b => a.span.stop ≤ b.span.start) ∧
      ∀ copy : Nat,
        let again := " ".intercalate (tokens.map fun token => String.ofList token.text)
        (Token.scan copy 0 again.toList).map Token.content = tokens.map Token.content := by
  refine ⟨fun tokens => Token.scan_eq_iff, ?_⟩
  intro tokens
  have hpartitioned : Partitioned file 0 source.toList tokens := Token.scan_eq_iff.1 rfl
  have hspaced : Spaced tokens := Token.spaced_scan file 0 source.toList
  refine ⟨fun token hmem => ?_, hspaced.apart, fun copy => ?_⟩
  · obtain ⟨before, after, hsource, hfills⟩ := hpartitioned.tiled.exists_place hmem
    obtain ⟨rest, hlongest⟩ := hpartitioned.longest token hmem
    refine ⟨by rw [hfills.span_eq], hspaced.filled token hmem, ?_, fun hkind => ?_⟩
    · rw [hfills.span_eq, Nat.zero_add]
      exact Span.holds_ofList hsource file
    · rw [hkind] at hlongest
      exact hlongest.length_of_invalid
  · intro again
    have htexts : again.toList = [' '].intercalate (tokens.map Token.text) := by
      simp [again, String.toList_intercalate, Function.comp_def]
    rw [htexts]
    exact Token.scan_intercalate hpartitioned.longest copy 0

/-- Two characters make an arrow where they can. A lone carriage return ends a comment and is an
invalid character, and with blanks between them the tokens are the same. -/
example :
    let contents : List (TokenKind × List Char) :=
      [(.name, ['a', '1']), (.arrow, ['-', '>']), (.minus, ['-']), (.number, ['2', '_']),
        (.name, ['b']), (.invalid, ['\r'])]
    (Token.scan 0 0 "a1->-2_b#c\r".toList).map Token.content = contents ∧
      (Token.scan 0 0 "a1 -> - 2_ b \r".toList).map Token.content = contents := by
  decide +kernel

end RegisterMapping
