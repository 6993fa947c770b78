import RegisterMapping.Listing.Parse
import RegisterMapping.Proofs.Listing.Grammar
import RegisterMapping.Proofs.Listing.Lexing

/-!
# Where the tokens of a text stand

A text is filled by its tokens and by what is passed over between them. Each token has all the
characters from the start of its span to its end, and a line feed stands in newline tokens only
(`Tiled`, `Token.tiled_scan`). So the tokens of a text lie apart, in their order
(`Token.spaced_scan`), and those of a line stand in a stretch of the text that has no line feed
(`Listing.exists_stretch`). What ends a line is a newline token, or the end of the file
(`Line.terminator_cases`).

`Span.Within` is what can be said of a span of such a stretch: it has an end between two characters
on either side, and is not empty. The least span that holds two of these is one as well.
-/

set_option autoImplicit false

namespace RegisterMapping

/-! ## Spans of a stretch -/

/-- The offset is between two characters of the text that stands at byte `offset`, or at one of its
ends. -/
def Boundary (offset : Nat) (text : List Char) (place : Nat) : Prop :=
  ∃ front, front <+: text ∧ place = offset + byteLength front

/-- The span is a part of the text at byte `offset` of the file, and is not empty. -/
structure Span.Within (file offset : Nat) (text : List Char) (span : Span) : Prop where
  file_eq : span.file = file
  start : Boundary offset text span.start
  stop : Boundary offset text span.stop
  start_lt_stop : span.start < span.stop

theorem byteLength_pos {text : List Char} (h : text ≠ []) : 0 < byteLength text := by
  cases text with
  | nil => exact absurd rfl h
  | cons c rest => exact Nat.lt_of_lt_of_le c.utf8Size_pos (Nat.le_add_right _ _)

/-- A boundary of a text is one of a longer text. -/
theorem Boundary.extend {offset place : Nat} {text : List Char} (front : List Char)
    (h : Boundary (offset + byteLength front) text place) :
    Boundary offset (front ++ text) place := by
  obtain ⟨before, hprefix, rfl⟩ := h
  exact ⟨front ++ before, (List.prefix_append_right_inj front).2 hprefix, by
    rw [byteLength_append, Nat.add_assoc]⟩

/-- Of two boundaries the earlier one and the later one are boundaries. -/
theorem Boundary.min_max {offset a b : Nat} {text : List Char} (ha : Boundary offset text a)
    (hb : Boundary offset text b) :
    Boundary offset text (min a b) ∧ Boundary offset text (max a b) := by
  rcases Nat.le_total a b with h | h
  · rw [Nat.min_eq_left h, Nat.max_eq_right h]
    exact ⟨ha, hb⟩
  · rw [Nat.min_eq_right h, Nat.max_eq_left h]
    exact ⟨hb, ha⟩

namespace Span.Within

variable {file offset : Nat} {text : List Char} {a b span : Span}

theorem extend (front : List Char) (h : span.Within file (offset + byteLength front) text) :
    span.Within file offset (front ++ text) :=
  ⟨h.file_eq, h.start.extend front, h.stop.extend front, h.start_lt_stop⟩

theorem cover (ha : a.Within file offset text) (hb : b.Within file offset text) :
    (a.cover b).Within file offset text where
  file_eq := ha.file_eq
  start := (ha.start.min_max hb.start).1
  stop := (ha.stop.min_max hb.stop).2
  start_lt_stop := by
    have hlt := ha.start_lt_stop
    show min a.start b.start < max a.stop b.stop
    omega

/-- The characters of the stretch that the span covers. -/
theorem exists_text (h : span.Within file offset text) :
    ∃ before covered after, text = before ++ covered ++ after ∧ covered ≠ [] ∧
      span =
        ⟨file, offset + byteLength before, offset + byteLength before + byteLength covered⟩ := by
  obtain ⟨spanFile, spanStart, spanStop⟩ := span
  obtain ⟨hfile, ⟨before, hbefore, hstart⟩, ⟨longer, hlonger, hstop⟩, hlt⟩ := h
  simp only at hfile hstart hstop hlt
  -- Of two fronts of a text the one with fewer bytes is a front of the other one.
  have hfront : before <+: longer := by
    rcases List.prefix_or_prefix_of_prefix hbefore hlonger with hfront | ⟨more, rfl⟩
    · exact hfront
    · rw [byteLength_append] at hstart
      omega
  obtain ⟨covered, rfl⟩ := hfront
  obtain ⟨after, rfl⟩ := hlonger
  refine ⟨before, covered, after, rfl, ?_, ?_⟩
  · rintro rfl
    rw [List.append_nil] at hstop
    omega
  · rw [hfile, hstart, hstop, byteLength_append, Nat.add_assoc]

end Span.Within

/-! ## Tokens in a text -/

/-- The tokens stand apart, in their order, and none of them is empty. -/
structure Spaced (tokens : List Token) : Prop where
  filled : ∀ token ∈ tokens, token.span.start < token.span.stop
  apart : tokens.Pairwise fun a b => a.span.stop ≤ b.span.start

theorem Spaced.sublist {tokens others : List Token} (h : Spaced tokens)
    (hsublist : others.Sublist tokens) : Spaced others :=
  ⟨fun token hmem => h.filled token (hsublist.subset hmem), h.apart.sublist hsublist⟩

theorem span_getLast (first : Token) (rest : List Token) :
    ((first :: rest).getLast (List.cons_ne_nil _ _)).span = lastSpan first.span rest := by
  induction rest generalizing first with
  | nil => rfl
  | cons second rest ih => exact ih second

/-- Of tokens that stand apart, in their order, the first one starts first and the last one ends
last. -/
theorem Spaced.cover_lastSpan {first : Token} {rest : List Token} (h : Spaced (first :: rest)) :
    first.span.cover (lastSpan first.span rest) =
      ⟨first.span.file, first.span.start, (lastSpan first.span rest).stop⟩ := by
  rw [← span_getLast]
  have hlast := List.getLast_mem (List.cons_ne_nil first rest)
  generalize (first :: rest).getLast _ = last at hlast ⊢
  have hfirst := h.filled first List.mem_cons_self
  have hfilled := h.filled last hlast
  obtain ⟨hstart, hstop⟩ :
      first.span.start ≤ last.span.start ∧ first.span.stop ≤ last.span.stop := by
    rcases List.mem_cons.1 hlast with rfl | hmem
    · exact ⟨Nat.le_refl _, Nat.le_refl _⟩
    · have hle := (List.pairwise_cons.1 h.apart).1 last hmem
      omega
  rw [Span.cover, Nat.min_eq_left hstart, Nat.max_eq_right hstop]

/-- The token is cut from a text of the file at byte `start`. -/
structure Token.Fills (file start : Nat) (token : Token) : Prop where
  span_eq : token.span = ⟨file, start, start + byteLength token.text⟩
  text_ne_nil : token.text ≠ []
  keepsLine : token.kind ≠ .newline → '\n' ∉ token.text

/-- The text at byte `offset` of the file is filled by the tokens, and by stretches without a line
feed that stand before, between and behind them. -/
inductive Tiled (file : Nat) : Nat → List Char → List Token → Prop
  | rest {offset : Nat} {gap : List Char} : '\n' ∉ gap → Tiled file offset gap []
  | token {offset : Nat} {gap later : List Char} {token : Token} {tokens : List Token} :
      '\n' ∉ gap → token.Fills file (offset + byteLength gap) →
      Tiled file (offset + byteLength (gap ++ token.text)) later tokens →
      Tiled file offset (gap ++ token.text ++ later) (token :: tokens)

namespace Tiled

variable {file offset : Nat} {text : List Char} {tokens : List Token}

/-- The tokens stand behind the start of the text, and apart from each other, in their order. -/
theorem pairwise (h : Tiled file offset text tokens) :
    (∀ token ∈ tokens, offset ≤ token.span.start ∧ token.span.start < token.span.stop) ∧
      tokens.Pairwise fun a b => a.span.stop ≤ b.span.start := by
  induction h with
  | rest _ => exact ⟨by simp, .nil⟩
  | @token offset gap later token tokens _ hfills _ ih =>
    obtain ⟨hlater, hpairwise⟩ := ih
    have hpos := byteLength_pos hfills.text_ne_nil
    rw [byteLength_append] at hlater
    refine ⟨List.forall_mem_cons.2 ⟨?_, ?_⟩, .cons ?_ hpairwise⟩
    · rw [hfills.span_eq]
      exact ⟨Nat.le_add_right _ _, Nat.lt_add_of_pos_right hpos⟩
    · intro other hmem
      obtain ⟨hstart, hlt⟩ := hlater other hmem
      exact ⟨by omega, hlt⟩
    · intro other hmem
      obtain ⟨hstart, -⟩ := hlater other hmem
      rw [hfills.span_eq]
      show offset + byteLength gap + byteLength token.text ≤ other.span.start
      omega

end Tiled

theorem Passed.lineFeed_not_mem {after gap : List Char} (h : Passed after gap) : '\n' ∉ gap := by
  induction h with
  | nil => exact List.not_mem_nil
  | blank hc _ ih =>
    rw [List.mem_cons, not_or]
    refine ⟨?_, ih⟩
    rintro rfl
    cases hc
  | comment hsaid _ _ ih =>
    rw [List.cons_append, List.mem_cons, List.mem_append, not_or, not_or]
    refine ⟨by decide, fun hmem => ?_, ih⟩
    cases List.all_eq_true.1 hsaid _ hmem

theorem Lexeme.Longest.keepsLine {kind : Option TokenKind} {text after : List Char}
    (h : Longest kind text after) (hkind : kind ≠ some .newline) : '\n' ∉ text := by
  obtain ⟨c, cs, rfl⟩ := List.exists_cons_of_ne_nil h.ne_nil
  have hkeeps := (keepsLine_first c (cs ++ after)).2
  rw [first_eq_iff.2 h, List.take_left] at hkeeps
  exact hkeeps hkind

theorem Partitioned.tiled {file offset : Nat} {text : List Char} {tokens : List Token}
    (h : Partitioned file offset text tokens) : Tiled file offset text tokens := by
  induction h with
  | rest hgap => exact .rest hgap.lineFeed_not_mem
  | token hgap hspan hlongest _ ih =>
    refine .token hgap.lineFeed_not_mem ⟨hspan, hlongest.ne_nil, fun hkind => ?_⟩ ih
    exact hlongest.keepsLine fun heq => hkind (Option.some.inj heq)

namespace Token

/-- A text is filled by the tokens that it is cut into. -/
theorem tiled_scan (file offset : Nat) (text : List Char) :
    Tiled file offset text (scan file offset text) :=
  (partitioned_scan file offset text).tiled

theorem spaced_scan (file offset : Nat) (text : List Char) : Spaced (scan file offset text) := by
  obtain ⟨hstart, hapart⟩ := (tiled_scan file offset text).pairwise
  exact ⟨fun token hmem => (hstart token hmem).2, hapart⟩

end Token

/-! ## Lines in a text -/

namespace Line

variable {endOfFile : Span} {tokens : List Token}

/-- A line is ended by a newline token, or by the end of the file. -/
theorem terminator_cases {line : Line} (h : line ∈ split endOfFile tokens) :
    line.terminator = ⟨none, endOfFile⟩ ∨
      ∃ token ∈ tokens, token.kind = .newline ∧
        line.terminator = ⟨some .newline, token.span⟩ := by
  induction tokens generalizing line with
  | nil =>
    obtain rfl := List.mem_singleton.1 h
    exact .inl rfl
  | cons token rest ih =>
    have hrest {other : Line} (hother : other ∈ split endOfFile rest) :
        other.terminator = ⟨none, endOfFile⟩ ∨
          ∃ newline ∈ token :: rest, newline.kind = .newline ∧
            other.terminator = ⟨some .newline, newline.span⟩ := by
      rcases ih hother with hend | ⟨newline, hmem, hnewline⟩
      · exact .inl hend
      · exact .inr ⟨newline, List.mem_cons_of_mem token hmem, hnewline⟩
    rw [split] at h
    split at h
    · next hkind =>
      rcases List.mem_cons.1 h with rfl | hmem
      · exact .inr ⟨token, List.mem_cons_self, hkind, rfl⟩
      · exact hrest hmem
    -- A token in front of the first line leaves the end of the line as it is.
    · obtain ⟨head, tail, hsplit⟩ := List.exists_cons_of_ne_nil (split_ne_nil endOfFile rest)
      rw [hsplit] at h
      rcases List.mem_cons.1 h with rfl | hmem
      · have hhead : head ∈ split endOfFile rest := by rw [hsplit]; exact List.mem_cons_self
        exact @hrest head hhead
      · exact hrest (by rw [hsplit]; exact List.mem_cons_of_mem head hmem)

/-- The tokens of the lines are all tokens but the newlines, in their order. -/
theorem flatMap_tokens_split (endOfFile : Span) (tokens : List Token) :
    (split endOfFile tokens).flatMap Line.tokens =
      tokens.filter fun token => token.kind ≠ .newline := by
  induction tokens with
  | nil => rfl
  | cons token rest ih =>
    rw [split]
    by_cases h : token.kind = .newline
    · rw [if_pos h, List.flatMap_cons, ih, List.filter_cons_of_neg (by simp [h])]
      rfl
    · obtain ⟨head, tail, hsplit⟩ := List.exists_cons_of_ne_nil (split_ne_nil endOfFile rest)
      rw [if_neg h, List.filter_cons_of_pos (by simp [h]), ← ih, hsplit]
      rfl

/-- The tokens of a line stand together, and those of the first line come first. -/
theorem together_split (endOfFile : Span) (tokens : List Token) :
    (∀ head ∈ (split endOfFile tokens).head?, head.tokens <+: tokens) ∧
      ∀ line ∈ split endOfFile tokens, line.tokens <:+: tokens := by
  induction tokens with
  | nil => simp [split]
  | cons token rest ih =>
    obtain ⟨hhead, hlines⟩ := ih
    rw [split]
    split
    · refine ⟨by simp, List.forall_mem_cons.2 ⟨List.nil_infix, fun line hmem => ?_⟩⟩
      exact (hlines line hmem).trans (List.suffix_cons token rest).isInfix
    · obtain ⟨head, tail, hsplit⟩ := List.exists_cons_of_ne_nil (split_ne_nil endOfFile rest)
      rw [hsplit] at hhead hlines ⊢
      have hfront : (cons token head).tokens <+: token :: rest :=
        List.cons_prefix_cons.2 ⟨rfl, hhead head rfl⟩
      refine ⟨?_, List.forall_mem_cons.2 ⟨hfront.isInfix, fun line hmem => ?_⟩⟩
      · rintro _ ⟨⟩
        exact hfront
      · exact (hlines line (List.mem_cons_of_mem head hmem)).trans
          (List.suffix_cons token rest).isInfix

theorem tokens_together {line : Line} (h : line ∈ split endOfFile tokens) :
    line.tokens <:+: tokens :=
  (together_split endOfFile tokens).2 line h

/-- The line stands in the text at byte `offset`, which has no line feed. -/
structure InStretch (file offset : Nat) (text : List Char) (line : Line) : Prop where
  keepsLine : '\n' ∉ text
  within : ∀ token ∈ line.tokens, token.span.Within file offset text

end Line

/-- The first line of a text stands at its start, and every other one further down. -/
theorem Tiled.exists_stretches {file offset : Nat} {text : List Char} {tokens : List Token}
    (h : Tiled file offset text tokens) (endOfFile : Span) :
    ∃ head tail, Line.split endOfFile tokens = head :: tail ∧
      (∃ body back, text = body ++ back ∧ head.InStretch file offset body) ∧
      ∀ line ∈ tail, ∃ front body back, text = front ++ body ++ back ∧
        line.InStretch file (offset + byteLength front) body := by
  induction h with
  | @rest offset gap _ =>
    exact ⟨_, _, rfl, ⟨[], gap, rfl, List.not_mem_nil, by simp⟩, by simp⟩
  | @token offset gap later token tokens hgap hfills _ ih =>
    obtain ⟨head, tail, hsplit, ⟨body, back, rfl, hhead⟩, htail⟩ := ih
    have hfurther : ∀ line ∈ tail, ∃ front body' back',
        gap ++ token.text ++ (body ++ back) = front ++ body' ++ back' ∧
          line.InStretch file (offset + byteLength front) body' := by
      intro line hmem
      obtain ⟨front, body', back', heq, hline⟩ := htail line hmem
      refine ⟨gap ++ token.text ++ front, body', back', by simp [heq], ?_⟩
      rwa [byteLength_append, ← Nat.add_assoc]
    rw [Line.split]
    split
    -- Behind a newline the first line of the rest is further down as well.
    · refine ⟨_, _, rfl, ⟨[], _, rfl, List.not_mem_nil, by simp⟩, ?_⟩
      rw [hsplit]
      refine List.forall_mem_cons.2 ⟨⟨_, body, back, ?_, hhead⟩, hfurther⟩
      rw [List.append_assoc (gap ++ token.text)]
    · next hkind =>
      refine ⟨_, _, by rw [hsplit]; rfl, ⟨gap ++ token.text ++ body, back, ?_, ?_, ?_⟩, hfurther⟩
      · rw [List.append_assoc (gap ++ token.text)]
      · simp only [List.mem_append, not_or]
        exact ⟨⟨hgap, hfills.keepsLine hkind⟩, hhead.keepsLine⟩
      · refine List.forall_mem_cons.2 ⟨?_, fun other hmem => (hhead.within other hmem).extend _⟩
        have hpos := byteLength_pos hfills.text_ne_nil
        rw [hfills.span_eq]
        refine ⟨rfl, ⟨gap, ?_, rfl⟩, ⟨gap ++ token.text, List.prefix_append _ _, ?_⟩, ?_⟩
        · rw [List.append_assoc]
          exact List.prefix_append _ _
        · rw [byteLength_append, Nat.add_assoc]
        · exact Nat.lt_add_of_pos_right hpos

namespace Listing

variable {file : Nat} {source : List Char} {line : Line}

/-- Every line of a source text stands in a stretch of it that has no line feed. -/
theorem exists_stretch (h : line ∈ linesOf file source) :
    ∃ front body back, source = front ++ body ++ back ∧
      line.InStretch file (byteLength front) body := by
  obtain ⟨head, tail, hsplit, ⟨body, back, hsource, hhead⟩, htail⟩ :=
    (Token.tiled_scan file 0 source).exists_stretches
      ⟨file, byteLength source, byteLength source⟩
  rw [linesOf, hsplit] at h
  rcases List.mem_cons.1 h with rfl | hmem
  · exact ⟨[], body, back, hsource, hhead⟩
  · obtain ⟨front, body', back', heq, hline⟩ := htail line hmem
    rw [Nat.zero_add] at hline
    exact ⟨front, body', back', heq, hline⟩

theorem spaced_tokens (h : line ∈ linesOf file source) : Spaced line.tokens :=
  (Token.spaced_scan file 0 source).sublist (Line.tokens_together h).sublist

/-- The lines of a text lie apart, in their order. -/
theorem pairwise_linesOf (file : Nat) (source : List Char) :
    (linesOf file source).Pairwise fun a b =>
      ∀ s ∈ a.tokens, ∀ t ∈ b.tokens, s.span.stop ≤ t.span.start := by
  have hpairwise : ((linesOf file source).flatMap Line.tokens).Pairwise
      fun s t => s.span.stop ≤ t.span.start := by
    rw [linesOf, Line.flatMap_tokens_split]
    exact (Token.spaced_scan file 0 source).apart.filter _
  exact (List.pairwise_flatMap.1 hpairwise).2

end Listing

end RegisterMapping
