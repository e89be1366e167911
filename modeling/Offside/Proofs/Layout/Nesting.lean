import Offside.Proofs.Layout.Run

/-!
# Nesting — blocks open and close in pairs

This file follows the number of open blocks through the tokens of a text.  `Nested lines depth tokens`
says that the tokens, read where `depth` blocks are open, never close a block that is not open, end with
none open, and have each content token at the level of its line.  Every layout is nested
(`Layout.nested`); the main statement, `tokenize_layout`, says so of every text by counting.
-/

namespace Offside
namespace Layout

/-! ## Open blocks -/

def indents (tokens : List Token) : Nat :=
  tokens.countP (·.kind = .indent)

def dedents (tokens : List Token) : Nat :=
  tokens.countP (·.kind = .dedent)

/-- Tokens that are read where `depth` blocks are open. -/
inductive Nested (lines : List Line) : Nat → List Token → Prop where
  | nil : Nested lines 0 []
  | indent {depth : Nat} {t : Token} {ts : List Token} (hkind : t.kind = .indent)
      (hnext : ∀ t' ∈ ts.head?, t'.kind ≠ .dedent) (h : Nested lines (depth + 1) ts) :
      Nested lines depth (t :: ts)
  | dedent {depth : Nat} {t : Token} {ts : List Token} (hkind : t.kind = .dedent)
      (hnext : ∀ t' ∈ ts.head?, t'.kind ≠ .indent) (h : Nested lines depth ts) :
      Nested lines (depth + 1) (t :: ts)
  | content {line : Line} {t : Token} {ts : List Token} (hkind : t.kind.isContent = true)
      (hline : line ∈ lines) (hnumber : t.place.line = line.number)
      (h : Nested lines line.level ts) : Nested lines line.level (t :: ts)
  | other {depth : Nat} {t : Token} {ts : List Token}
      (hkind : t.kind = .newline ∨ t.kind = .endOfInput) (h : Nested lines depth ts) :
      Nested lines depth (t :: ts)

namespace Nested

variable {lines : List Line} {depth : Nat}

/-- What was opened before a place and not closed is open there. -/
theorem append {before after : List Token} (h : Nested lines depth (before ++ after)) :
    ∃ d, Nested lines d after ∧ depth + indents before = dedents before + d := by
  -- Each token before the place moves the depth by what it adds to the counts.
  induction before generalizing depth with
  | nil => exact ⟨depth, h, by simp [indents, dedents]⟩
  | cons t ts ih =>
      cases h with
      | indent hkind hnext h =>
          rcases ih h with ⟨d, hd, hcount⟩
          refine ⟨d, hd, ?_⟩
          simp only [indents, dedents, List.countP_cons, hkind] at hcount ⊢
          simp
          omega
      | dedent hkind hnext h =>
          rcases ih h with ⟨d, hd, hcount⟩
          refine ⟨d, hd, ?_⟩
          simp only [indents, dedents, List.countP_cons, hkind] at hcount ⊢
          simp
          omega
      | content hkind hline hnumber h =>
          rcases ih h with ⟨d, hd, hcount⟩
          have hindent : t.kind ≠ .indent := Kind.ne_of_isContent hkind rfl
          have hdedent : t.kind ≠ .dedent := Kind.ne_of_isContent hkind rfl
          refine ⟨d, hd, ?_⟩
          simpa [indents, dedents, hindent, hdedent] using hcount
      | other hkind h =>
          rcases ih h with ⟨d, hd, hcount⟩
          refine ⟨d, hd, ?_⟩
          rcases hkind with hkind | hkind
          · simpa [indents, dedents, hkind] using hcount
          · simpa [indents, dedents, hkind] using hcount

/-- Opening and closing blocks do not meet. -/
theorem ne_dedent_of_indent {t t' : Token} {ts : List Token}
    (h : Nested lines depth (t :: t' :: ts)) (hindent : t.kind = .indent) : t'.kind ≠ .dedent := by
  cases h with
  | indent _ hnext _ => exact hnext t' rfl
  | dedent hkind =>
      rw [hindent] at hkind
      cases hkind
  | content hkind => exact absurd hindent (Kind.ne_of_isContent hkind rfl)
  | other hkind => rcases hkind with hkind | hkind <;> rw [hindent] at hkind <;> cases hkind

theorem ne_indent_of_dedent {t t' : Token} {ts : List Token}
    (h : Nested lines depth (t :: t' :: ts)) (hdedent : t.kind = .dedent) : t'.kind ≠ .indent := by
  cases h with
  | dedent _ hnext _ => exact hnext t' rfl
  | indent hkind =>
      rw [hdedent] at hkind
      cases hkind
  | content hkind => exact absurd hdedent (Kind.ne_of_isContent hkind rfl)
  | other hkind => rcases hkind with hkind | hkind <;> rw [hdedent] at hkind <;> cases hkind

/-- A content token stands as deep as its line. -/
theorem exists_line {t : Token} {ts : List Token} (h : Nested lines depth (t :: ts))
    (hcontent : t.kind.isContent = true) :
    ∃ line ∈ lines, line.number = t.place.line ∧ depth = line.level := by
  cases h with
  | @content line _ _ _ hline hnumber _ => exact ⟨line, hline, hnumber.symm, rfl⟩
  | indent hkind => exact absurd hkind (Kind.ne_of_isContent hcontent rfl)
  | dedent hkind => exact absurd hkind (Kind.ne_of_isContent hcontent rfl)
  | other hkind =>
      rcases hkind with hkind | hkind
      · exact absurd hkind (Kind.ne_of_isContent hcontent rfl)
      · exact absurd hkind (Kind.ne_of_isContent hcontent rfl)

end Nested

/-! ## A layout is nested -/

theorem eq_indent_of_mem_shift {depth level : Nat} (h : depth ≤ level) {k : Kind}
    (hk : k ∈ shift depth level) : k = .indent := by
  have hzero : depth - level = 0 := by omega
  rw [shift, hzero, List.replicate_zero, List.append_nil] at hk
  exact List.eq_of_mem_replicate hk

theorem eq_dedent_of_mem_shift {depth level : Nat} (h : level ≤ depth) {k : Kind}
    (hk : k ∈ shift depth level) : k = .dedent := by
  have hzero : level - depth = 0 := by omega
  rw [shift, hzero, List.replicate_zero, List.nil_append] at hk
  exact List.eq_of_mem_replicate hk

theorem eq_of_shift_eq_nil {depth level : Nat} (h : shift depth level = []) : depth = level := by
  have hlength := congrArg List.length h
  simp only [shift, List.length_append, List.length_replicate, List.length_nil] at hlength
  omega

/-- Blocks that open or close on the way to a level come before a token that does neither. -/
theorem nested_shift {lines : List Line} {depth level : Nat} {before after : List Token}
    (hkinds : before.map (·.kind) = shift depth level) (hafter : Nested lines level after)
    (hhead : ∀ t ∈ after.head?, t.kind ≠ .indent ∧ t.kind ≠ .dedent) :
    Nested lines depth (before ++ after) := by
  induction before generalizing depth with
  | nil =>
      cases eq_of_shift_eq_nil hkinds.symm
      exact hafter
  | cons t ts ih =>
      rcases Nat.lt_trichotomy depth level with hlt | rfl | hgt
      · rw [shift_of_lt hlt] at hkinds
        have htail := (List.cons.inj hkinds).2
        refine .indent (List.cons.inj hkinds).1 (fun t' ht' => ?_) (ih htail)
        -- The next token opens a further block, or else it stands behind the shift.
        cases ts with
        | nil => exact (hhead t' ht').2
        | cons t₁ ts₁ =>
            cases ht'
            have hmem : t'.kind ∈ shift (depth + 1) level := by
              rw [← htail]
              exact List.mem_cons_self
            rw [eq_indent_of_mem_shift hlt hmem]
            nofun
      · rw [shift_self] at hkinds
        cases hkinds
      · have hsucc : depth = depth - 1 + 1 := by omega
        rw [shift_of_gt hgt] at hkinds
        have htail := (List.cons.inj hkinds).2
        rw [hsucc]
        refine .dedent (List.cons.inj hkinds).1 (fun t' ht' => ?_) (ih htail)
        cases ts with
        | nil => exact (hhead t' ht').1
        | cons t₁ ts₁ =>
            cases ht'
            have hle : level ≤ depth - 1 := by omega
            have hmem : t'.kind ∈ shift (depth - 1) level := by
              rw [← htail]
              exact List.mem_cons_self
            rw [eq_dedent_of_mem_shift hle hmem]
            nofun

theorem nested_content {lines : List Line} {line : Line} (hline : line ∈ lines)
    {content after : List Token} (hcontent : ∀ t ∈ content, t.kind.isContent = true)
    (hnumber : ∀ t ∈ content, t.place.line = line.number)
    (hafter : Nested lines line.level after) : Nested lines line.level (content ++ after) := by
  induction content with
  | nil => exact hafter
  | cons t ts ih =>
      have hkinds := List.forall_mem_cons.mp hcontent
      have hnumbers := List.forall_mem_cons.mp hnumber
      exact .content hkinds.1 hline hnumbers.1 (ih hkinds.2 hnumbers.2)

end Layout

theorem Layout.nested {all lines : List Layout.Line} {depth : Nat} {tokens : List Token}
    (h : Layout depth lines tokens) (hall : ∀ line ∈ lines, line ∈ all) :
    Layout.Nested all depth tokens := by
  induction h with
  | @finish depth closing last hclosing hlast =>
      have hkinds : closing.map (·.kind) = Layout.shift depth 0 := by
        rw [hclosing, Layout.shift, Nat.zero_sub]
        rfl
      refine Layout.nested_shift hkinds (.other (.inr hlast) .nil) fun t ht => ?_
      cases ht
      rw [hlast]
      exact ⟨by decide, by decide⟩
  | @line depth line lines ts later heven htokens hcontent hlater ih =>
      have hline := List.forall_mem_cons.mp hall
      have hnewline : Layout.Nested all line.level (ts.newline :: later) :=
        .other (.inl htokens.newline_kind) (ih hline.2)
      have hnumber : ∀ t ∈ ts.content, t.place.line = line.number := by
        intro t ht
        exact htokens.line_eq t (by simp [Layout.LineTokens.all, ht])
      have hrest := Layout.nested_content hline.1 htokens.isContent hnumber hnewline
      have hall : ts.all ++ later = ts.shift ++ (ts.content ++ ts.newline :: later) := by
        simp [Layout.LineTokens.all]
      rw [hall]
      refine Layout.nested_shift htokens.shift_kinds hrest fun t ht => ?_
      -- A line has content, so that no shift is followed by the end of its line.
      have ht : t ∈ ts.content := by
        cases hts : ts.content with
        | nil => exact absurd hts hcontent
        | cons t₁ ts₁ =>
            rw [hts] at ht
            cases ht
            exact List.mem_cons_self
      have hkind := htokens.isContent t ht
      exact ⟨Kind.ne_of_isContent hkind rfl, Kind.ne_of_isContent hkind rfl⟩

/-! ## Lines decide the kinds -/

theorem Layout.dropWhile_eq_nil {text : List Char} (h : text.all Text.isBlank = true) :
    text.dropWhile Text.isBlank = [] := by
  induction text with
  | nil => rfl
  | cons c cs ih =>
      have hblank := Bool.and_eq_true_iff.mp (List.all_cons ▸ h)
      rw [List.dropWhile_cons_of_pos hblank.1]
      exact ih hblank.2

theorem Layout.Reads.unique {text : List Char} {ks ks' : List Kind} (h : Layout.Reads text ks)
    (h' : Layout.Reads text ks') : ks = ks' := by
  -- The first character that is not blank decides the token and what remains.
  induction h generalizing ks' with
  | done hblank =>
      cases h' with
      | done => rfl
      | token hhead =>
          rw [Layout.dropWhile_eq_nil hblank] at hhead
          cases hhead
  | token hhead hread hlater ih =>
      cases h' with
      | done hblank =>
          rw [Layout.dropWhile_eq_nil hblank] at hhead
          cases hhead
      | token hhead' hread' hlater' =>
          cases hhead.symm.trans hhead'
          cases hread.symm.trans hread'
          rw [ih hlater']

/-- What a line looks like, wherever it stands. -/
def Layout.Line.shape (line : Layout.Line) : Nat × List Char :=
  (line.spaces, line.text)

/-- The lines with content look as they stand in the text, in order. -/
theorem Layout.shapes_contentLinesFrom (n : Nat) (raws : List (List Char)) :
    (Layout.contentLinesFrom n raws).map (·.shape)
      = (raws.filter (!·.all Text.isBlank)).map fun raw =>
          ((raw.takeWhile (· = ' ')).length, raw.dropWhile (· = ' ')) := by
  induction raws generalizing n with
  | nil => rfl
  | cons raw later ih =>
      by_cases hblank : raw.all Text.isBlank = true
      · have hnone : Layout.Line.ofRaw? (n + 1) raw = none := by simp [Layout.Line.ofRaw?, hblank]
        rw [Layout.contentLinesFrom, hnone, ih, List.filter_cons_of_neg (by simp [hblank])]
      · have hcontent : raw.all Text.isBlank = false := eq_false_of_ne_true hblank
        rw [Layout.contentLinesFrom, Layout.Line.ofRaw?, dif_pos hcontent, List.map_cons, ih,
          List.filter_cons_of_pos (by simp [hcontent])]
        rfl

theorem Layout.LineTokens.Fit.kinds_eq {ts : Layout.LineTokens} {depth number level : Nat}
    {text : List Char} (h : ts.Fit depth number level text) :
    ts.all.map (·.kind)
      = Layout.shift depth level ++ ts.content.map (·.kind) ++ [.newline] := by
  simp [Layout.LineTokens.all, h.shift_kinds, h.newline_kind]

/-- The kinds of the tokens depend on what the lines with content look like. -/
theorem Layout.kinds_eq {lines lines' : List Layout.Line} {depth : Nat} {tokens tokens' : List Token}
    (h : Layout depth lines tokens) (h' : Layout depth lines' tokens')
    (hlines : lines.map (·.shape) = lines'.map (·.shape)) :
    tokens.map (·.kind) = tokens'.map (·.kind) := by
  induction h generalizing lines' tokens' with
  | finish hclosing hlast =>
      cases h' with
      | finish hclosing' hlast' => simp [hclosing, hlast, hclosing', hlast']
      | line => cases hlines
  | @line depth line lines ts later heven htokens hcontent hlater ih =>
      cases h' with
      | finish => cases hlines
      | @line _ line' _ ts' later' heven' htokens' hcontent' hlater' =>
          rcases List.cons.inj hlines with ⟨hshape, hshapes⟩
          have hspaces : line.spaces = line'.spaces := congrArg Prod.fst hshape
          have htext : line.text = line'.text := congrArg Prod.snd hshape
          have hlevel : line.level = line'.level := congrArg (· / 2) hspaces
          have hreads := htokens'.content_kinds
          rw [← htext] at hreads
          rw [← hlevel] at hlater'
          rw [List.map_append, List.map_append, ih hlater' hshapes, htokens.kinds_eq,
            htokens'.kinds_eq, htokens.content_kinds.unique hreads, hlevel]

/-! ## Texts -/

/-- The tokens of a text are the layout of its lines with content. Blocks never close before they open,
all are closed at the end, each content token stands as deep as its line, opening and closing do not
meet, and lines without content do not matter. -/
theorem tokenize_layout {source : String} {tokens : List Token} (h : tokenize source = .ok tokens) :
    Layout 0 (Layout.contentLines source.toList) tokens
      ∧ (∀ before after, tokens = before ++ after → Layout.dedents before ≤ Layout.indents before)
      ∧ Layout.dedents tokens = Layout.indents tokens
      ∧ (∀ before t after, tokens = before ++ t :: after → t.kind.isContent = true →
          ∃ line ∈ Layout.contentLines source.toList, line.number = t.place.line
            ∧ Layout.indents before = Layout.dedents before + line.spaces / 2)
      ∧ (∀ before t t' after, tokens = before ++ t :: t' :: after →
          ¬(t.kind = .indent ∧ t'.kind = .dedent) ∧ ¬(t.kind = .dedent ∧ t'.kind = .indent))
      ∧ (∀ source' tokens', tokenize source' = .ok tokens' →
          (Text.lines source'.toList).filter (!·.all Text.isBlank)
            = (Text.lines source.toList).filter (!·.all Text.isBlank) →
          tokens'.map (·.kind) = tokens.map (·.kind)) := by
  have hlayout := layout_of_tokenize h
  have hnested := hlayout.nested fun _ hline => hline
  refine ⟨hlayout, ?_, ?_, ?_, ?_, ?_⟩
  · rintro before after rfl
    rcases hnested.append with ⟨d, -, hcount⟩
    omega
  · -- At the end no block is open.
    rw [← List.append_nil tokens] at hnested
    rcases hnested.append with ⟨d, hd, hcount⟩
    cases hd
    omega
  · rintro before t after rfl hkind
    rcases hnested.append with ⟨d, hd, hcount⟩
    rcases hd.exists_line hkind with ⟨line, hline, hnumber, rfl⟩
    exact ⟨line, hline, hnumber, by rw [Layout.Line.level] at hcount; omega⟩
  · rintro before t t' after rfl
    rcases hnested.append with ⟨d, hd, -⟩
    exact ⟨fun hkinds => hd.ne_dedent_of_indent hkinds.1 hkinds.2,
      fun hkinds => hd.ne_indent_of_dedent hkinds.1 hkinds.2⟩
  · intro source' tokens' h' hlines
    refine (layout_of_tokenize h').kinds_eq hlayout ?_
    rw [Layout.contentLines, Layout.contentLines, Layout.shapes_contentLinesFrom,
      Layout.shapes_contentLinesFrom, hlines]

/-- A block behind a line that holds one blank. -/
theorem layout_of_block :
    tokenize "a\n \n  b" = .ok [⟨.identifier "a", ⟨1, 1⟩⟩, ⟨.newline, ⟨1, 2⟩⟩, ⟨.indent, ⟨3, 3⟩⟩,
        ⟨.identifier "b", ⟨3, 3⟩⟩, ⟨.newline, ⟨3, 4⟩⟩, ⟨.dedent, ⟨3, 1⟩⟩, ⟨.endOfInput, ⟨3, 1⟩⟩]
      ∧ Layout 0 (Layout.contentLines "a\n \n  b".toList)
        [⟨.identifier "a", ⟨1, 1⟩⟩, ⟨.newline, ⟨1, 2⟩⟩, ⟨.indent, ⟨3, 3⟩⟩,
          ⟨.identifier "b", ⟨3, 3⟩⟩, ⟨.newline, ⟨3, 4⟩⟩, ⟨.dedent, ⟨3, 1⟩⟩, ⟨.endOfInput, ⟨3, 1⟩⟩] := by
  have htokens : tokenize "a\n \n  b" = .ok [⟨.identifier "a", ⟨1, 1⟩⟩, ⟨.newline, ⟨1, 2⟩⟩,
      ⟨.indent, ⟨3, 3⟩⟩, ⟨.identifier "b", ⟨3, 3⟩⟩, ⟨.newline, ⟨3, 4⟩⟩, ⟨.dedent, ⟨3, 1⟩⟩,
      ⟨.endOfInput, ⟨3, 1⟩⟩] :=
    tokenize_eq_ok_iff.mpr (by decide +kernel)
  exact ⟨htokens, (tokenize_layout htokens).1⟩

end Offside
