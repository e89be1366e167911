import Offside.Proofs.Lexis.Account

/-!
# Coverage — tokens and blanks make up a text

This file reads the account of a text line by line:

- `Covered` : the tokens of whole lines, each with its place
- `StopsAt` : what is wrong in the line in which the first lexical error stands

The main statement, `tokenize_coverage`, says of every text that its tokens cover it, or that they cover
it up to the place of the error, where no token and no line can be read.
-/

namespace Offside

/-! ## Whole lines -/

/-- The tokens of whole lines behind the first `n`. A line with content ends with one newline. -/
inductive Covered : Nat → List (List Char) → List Token → Prop where
  | nil {n : Nat} : Covered n [] []
  | blank {n : Nat} {raw : List Char} {lines : List (List Char)} {tokens : List Token}
      (hblank : raw.all Text.isBlank = true) (h : Covered (n + 1) lines tokens) :
      Covered n (raw :: lines) tokens
  | line {n : Nat} {raw after rest : List Char} {lines : List (List Char)}
      {shift content tokens : List Token} (hline : LineRead (n + 1) raw shift content after rest)
      (hblank : rest.all Text.isBlank = true) (h : Covered (n + 1) lines tokens) :
      Covered n (raw :: lines) (shift ++ content ++ lineEnd (n + 1) raw :: tokens)

/-- Behind the tokens `covered` of whole lines, the reading stops in a line with an error. -/
inductive StopsAt (number : Nat) (raw : List Char) (covered : List Token) :
    List Token → LexError → Prop where
  /-- The line cannot be read, and the newline in front of it is not reported. -/
  | odd (hcontent : raw.all Text.isBlank = false) (hodd : (Text.indentation raw).length % 2 = 1) :
      StopsAt number raw covered covered.dropLast
        (.oddIndentation (Text.indentation raw).length number)
  /-- The line is read up to a place at which no token is written. -/
  | malformed {shift content : List Token} {after gap more : List Char} {c : Char} {m : Malformed}
      (hline : LineRead number raw shift content after (gap ++ c :: more))
      (hgap : gap.all Text.isBlank = true) (hhead : Text.isBlank c = false)
      (hread : (Lexeme.read c more).reading = .error m)
      (hnone : ¬ ∃ k lexeme later, c :: more = lexeme ++ later ∧ Spells k lexeme ∧ k.Maximal later) :
      StopsAt number raw covered (covered ++ shift ++ content)
        (Lexer.errorAt ⟨number, Text.byteSize (after ++ gap) + 1⟩ m)

theorem StopsAt.append {number : Nat} {raw : List Char} {front covered tokens : List Token}
    {e : LexError} (h : StopsAt number raw covered tokens e) (hcovered : covered ≠ []) :
    StopsAt number raw (front ++ covered) (front ++ tokens) e := by
  cases h with
  | odd hcontent hodd =>
      rw [← List.dropLast_append_of_ne_nil hcovered]
      exact .odd hcontent hodd
  | malformed hline hgap hhead hread hnone =>
      have hall : StopsAt number raw (front ++ covered) (front ++ covered ++ _ ++ _) _ :=
        .malformed hline hgap hhead hread hnone
      simpa using hall

namespace Account

variable {lead tokens : List Token} {n : Nat} {lines : List (List Char)}

/-- Without an error all lines are covered, and then the text ends. -/
theorem covered (h : Account lead n lines tokens none) :
    ∃ covered depth, tokens = lead ++ covered ++ closing (n + lines.length) depth
      ∧ Covered n lines covered := by
  generalize hfault : none = fault at h
  induction h with
  | finish depth => exact ⟨[], depth, by simp, .nil⟩
  | @blank lead tokens n raw lines fault hblank _ ih =>
      rcases ih hfault with ⟨covered, depth, rfl, hcovered⟩
      rw [List.length_cons, Nat.add_comm lines.length, ← Nat.add_assoc]
      exact ⟨covered, depth, rfl, .blank hblank hcovered⟩
  | odd => cases hfault
  | @line lead shift content tokens n raw after rest lines fault hline hblank _ ih =>
      rcases ih hfault with ⟨covered, depth, rfl, hcovered⟩
      refine ⟨_, depth, ?_, .line hline hblank hcovered⟩
      rw [List.length_cons, Nat.add_comm lines.length, ← Nat.add_assoc]
      simp
  | malformed => cases hfault

/-- With an error the lines before that of the error are covered. -/
theorem stopsAt {e : LexError} (h : Account lead n lines tokens (some e)) (hlead : lead.length ≤ 1) :
    ∃ read raw unread covered, lines = read ++ raw :: unread ∧ Covered n read covered
      ∧ StopsAt (n + read.length + 1) raw (lead ++ covered) tokens e := by
  generalize hfault : some e = fault at h
  induction h with
  | finish => cases hfault
  | @blank lead tokens n raw lines fault hblank _ ih =>
      rcases ih hlead hfault with ⟨read, raw', unread, covered, rfl, hcovered, hstops⟩
      refine ⟨raw :: read, raw', unread, covered, rfl, .blank hblank hcovered, ?_⟩
      rw [List.length_cons, Nat.add_comm read.length, ← Nat.add_assoc]
      exact hstops
  | @odd lead n raw lines hcontent hodd =>
      cases hfault
      have hnil : (lead ++ []).dropLast = [] := by
        rw [List.append_nil, ← List.length_eq_zero_iff, List.length_dropLast]
        omega
      have hstops : StopsAt (n + 1) raw (lead ++ []) (lead ++ []).dropLast _ :=
        .odd hcontent hodd
      rw [hnil] at hstops
      exact ⟨[], raw, lines, [], rfl, .nil, hstops⟩
  | @line lead shift content tokens n raw after rest lines fault hline hblank _ ih =>
      rcases ih (Nat.le_refl 1) hfault with ⟨read, raw', unread, covered, rfl, hcovered, hstops⟩
      refine ⟨raw :: read, raw', unread, _, rfl, .line hline hblank hcovered, ?_⟩
      rw [List.length_cons, Nat.add_comm read.length, ← Nat.add_assoc]
      have hfront : StopsAt _ raw' (lead ++ shift ++ content ++ _) _ e := hstops.append nofun
      simpa using hfront
  | @malformed lead shift content n raw after gap more c lines m hline hgap hhead hread =>
      cases hfault
      have hstops : StopsAt (n + 1) raw (lead ++ []) (lead ++ [] ++ shift ++ content) _ :=
        .malformed hline hgap hhead hread (Lexeme.not_exists_spells hread)
      rw [List.append_nil] at hstops
      exact ⟨[], raw, lines, [], rfl, .nil, by simpa using hstops⟩

end Account

/-! ## Order -/

/-- A token does not stand behind another. -/
def Token.NotAfter (t u : Token) : Prop :=
  t.place.line < u.place.line ∨ t.place.line = u.place.line ∧ t.place.column ≤ u.place.column

theorem Spells.byteSize_pos {k : Kind} {lexeme : List Char} (h : Spells k lexeme) :
    0 < Text.byteSize lexeme := by
  rcases h.exists_cons with ⟨c, cs, rfl, -⟩
  exact Nat.add_pos_left c.utf8Size_pos _

namespace Covers

variable {number : Nat} {before text after rest : List Char} {tokens : List Token}

theorem append_eq (h : Covers number before text tokens after rest) :
    after ++ rest = before ++ text := by
  induction h with
  | nil => rfl
  | token _ _ _ _ ih =>
      rw [ih]
      simp

theorem byteSize_le (h : Covers number before text tokens after rest) :
    Text.byteSize before ≤ Text.byteSize after := by
  induction h with
  | nil => exact Nat.le_refl _
  | token _ _ _ _ ih =>
      simp only [Text.byteSize_append] at ih
      omega

theorem placed (h : Covers number before text tokens after rest) :
    ∀ t ∈ tokens, t.place.line = number ∧ Text.byteSize before < t.place.column
      ∧ t.place.column ≤ Text.byteSize after := by
  induction h with
  | nil => nofun
  | token _ hspells _ h ih =>
      have hpos := hspells.byteSize_pos
      have hle := h.byteSize_le
      simp only [Text.byteSize_append] at hle ih ⊢
      refine List.forall_mem_cons.mpr ⟨⟨rfl, ?_, ?_⟩, fun t ht => ?_⟩
      · show _ < _ + _ + 1
        omega
      · show _ + _ + 1 ≤ _
        omega
      rcases ih t ht with ⟨hline, hlower, hupper⟩
      exact ⟨hline, by omega, hupper⟩

theorem ordered (h : Covers number before text tokens after rest) :
    tokens.Pairwise Token.NotAfter := by
  induction h with
  | nil => exact .nil
  | token _ _ _ h ih =>
      refine .cons (fun t ht => .inr ?_) ih
      rcases h.placed t ht with ⟨hline, hlower, -⟩
      simp only [Text.byteSize_append] at hlower ⊢
      exact ⟨hline.symm, by omega⟩

end Covers

namespace LineRead

variable {number : Nat} {raw after rest : List Char} {shift content : List Token}

theorem placed (h : LineRead number raw shift content after rest) :
    ∀ t ∈ shift ++ content, t.place.line = number ∧ t.place.column ≤ Text.byteSize raw + 1 := by
  have hall := h.content.append_eq
  rw [Text.indentation_append_unindented] at hall
  have hsize : Text.byteSize after ≤ Text.byteSize raw := by
    rw [← hall, Text.byteSize_append]
    omega
  have hspaces : (Text.indentation raw).length ≤ Text.byteSize after := by
    rw [← Text.byteSize_indentation]
    exact h.content.byteSize_le
  intro t ht
  rcases List.mem_append.mp ht with ht | ht
  · rw [(h.shift t ht).place]
    exact ⟨rfl, by simp; omega⟩
  · rcases h.content.placed t ht with ⟨hline, -, hupper⟩
    exact ⟨hline, by omega⟩

theorem ordered (h : LineRead number raw shift content after rest) :
    (shift ++ content).Pairwise Token.NotAfter := by
  have hshift : shift.Pairwise Token.NotAfter :=
    List.pairwise_of_forall_mem_list fun t ht u hu => .inr (by
      rw [(h.shift t ht).place, (h.shift u hu).place]
      exact ⟨rfl, Nat.le_refl _⟩)
  refine List.pairwise_append.mpr ⟨hshift, h.content.ordered, fun t ht u hu => .inr ?_⟩
  rcases h.content.placed u hu with ⟨hline, hlower, -⟩
  rw [Text.byteSize_indentation] at hlower
  rw [(h.shift t ht).place, hline]
  exact ⟨rfl, hlower⟩

end LineRead

namespace Covered

variable {n : Nat} {lines : List (List Char)} {tokens : List Token}

theorem placed (h : Covered n lines tokens) :
    ∀ t ∈ tokens, n < t.place.line ∧ t.place.line ≤ n + lines.length := by
  induction h with
  | nil => nofun
  | blank _ _ ih =>
      intro t ht
      rcases ih t ht with ⟨hlower, hupper⟩
      rw [List.length_cons]
      omega
  | line hline _ _ ih =>
      intro t ht
      rw [List.length_cons]
      rcases List.mem_append.mp ht with ht | ht
      · rcases hline.placed t ht with ⟨hnumber, -⟩
        omega
      · rcases List.mem_cons.mp ht with rfl | ht
        · simp only [lineEnd]
          omega
        · rcases ih t ht with ⟨hlower, hupper⟩
          omega

theorem ordered (h : Covered n lines tokens) : tokens.Pairwise Token.NotAfter := by
  induction h with
  | nil => exact .nil
  | blank _ _ ih => exact ih
  | line hline _ h ih =>
      refine List.pairwise_append.mpr ⟨hline.ordered, .cons (fun u hu => .inl ?_) ih, ?_⟩
      · exact (h.placed u hu).1
      · intro t ht u hu
        rcases hline.placed t ht with ⟨hnumber, hcolumn⟩
        rcases List.mem_cons.mp hu with rfl | hu
        · exact .inr ⟨hnumber, hcolumn⟩
        · exact .inl (hnumber ▸ (h.placed u hu).1)

end Covered

theorem StopsAt.ordered {n number : Nat} {lines : List (List Char)} {raw : List Char}
    {covered tokens : List Token} {e : LexError} (h : StopsAt number raw covered tokens e)
    (hcovered : Covered n lines covered) (hnumber : n + lines.length < number) :
    tokens.Pairwise Token.NotAfter := by
  cases h with
  | odd => exact hcovered.ordered.sublist (List.dropLast_sublist _)
  | malformed hline =>
      rw [List.append_assoc]
      refine List.pairwise_append.mpr ⟨hcovered.ordered, hline.ordered, fun t ht u hu => .inl ?_⟩
      rw [(hline.placed u hu).1]
      exact Nat.lt_of_le_of_lt (hcovered.placed t ht).2 hnumber

/-! ## Texts -/

/-- The tokens of a text cover its lines, each in its place, and stand in the order of their places until
the text ends. With an error they cover what stands in front of the error. -/
theorem tokenize_coverage (source : String) :
    match tokenize source with
    | .ok tokens =>
        ∃ covered depth, tokens = covered ++ closing (Text.lines source.toList).length depth
          ∧ Covered 0 (Text.lines source.toList) covered ∧ covered.Pairwise Token.NotAfter
    | .error e =>
        ∃ tokens read raw unread covered, Stream.ofText source.toList = ⟨tokens, some e⟩
          ∧ Text.lines source.toList = read ++ raw :: unread ∧ Covered 0 read covered
          ∧ StopsAt (read.length + 1) raw covered tokens e ∧ tokens.Pairwise Token.NotAfter := by
  have haccount := account_ofText source.toList
  rcases hstream : Stream.ofText source.toList with ⟨tokens, fault⟩
  rw [hstream] at haccount
  cases fault with
  | none =>
      have hok : tokenize source = .ok tokens := tokenize_eq_ok_iff.mpr hstream
      rcases haccount.covered with ⟨covered, depth, htokens, hcovered⟩
      rw [hok]
      rw [Nat.zero_add] at htokens
      exact ⟨covered, depth, htokens, hcovered, hcovered.ordered⟩
  | some e =>
      have herror : tokenize source = .error e := by
        rw [tokenize, hstream]
      rcases haccount.stopsAt (Nat.zero_le 1) with
        ⟨read, raw, unread, covered, hlines, hcovered, hstops⟩
      rw [Nat.zero_add] at hstops
      rw [herror]
      have hordered := hstops.ordered hcovered (by omega)
      exact ⟨tokens, read, raw, unread, covered, rfl, hlines, hcovered, hstops, hordered⟩

/-- Columns count bytes, and the newline of the first line is not reported. -/
example :
    Stream.ofText "é = 1\n\t\n   ?".toList
      = ⟨[⟨.identifier "é", ⟨1, 1⟩⟩, ⟨.punct .assign, ⟨1, 4⟩⟩, ⟨.integer 1, ⟨1, 6⟩⟩],
          some (.oddIndentation 3 3)⟩ := by
  decide +kernel

end Offside
