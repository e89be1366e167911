import Offside.Proofs.Lexis.Displacement
import Offside.Proofs.Lexis.Rendering

/-!
# Joining — texts that meet at a line end

This file says which texts the lexer accepts, line by line, and what it gives for two texts one after the
other:

- `Text.Ended`          : the text is empty or ends with a line feed
- `Layout.Accepted`     : the line is blank, or it has tokens up to its end
- `tokenize_append`     : behind a text that is ended, a text that starts without indentation gives the
  kinds of tokens that it gives by itself
- `tokenize_joined`     : the places of these tokens, and of those of the first text
- `tokenize_singleton`  : the kinds of tokens of a text of one line
-/

namespace Offside

/-! ## Lines -/

namespace Text

/-- The text is empty, or its last line is ended. -/
def Ended (cs : List Char) : Prop :=
  ∀ c ∈ cs.getLast?, c = '\n'

instance (cs : List Char) : Decidable (Ended cs) :=
  inferInstanceAs (Decidable (∀ c ∈ cs.getLast?, c = '\n'))

theorem Ended.tail {c : Char} {cs : List Char} (h : Ended (c :: cs)) : Ended cs := by
  cases cs with
  | nil => exact nofun
  | cons d ds =>
      rw [Ended, List.getLast?_cons_cons] at h
      exact h

theorem ended_append_feed (source : String) : Ended (source ++ "\n").toList := by
  intro c hc
  rw [String.toList_append, List.getLast?_append] at hc
  exact (Option.mem_some_iff.mp hc).symm

/-- A character that ends no line stands at the head of the first line. -/
theorem lines_cons {c : Char} {cs line : List Char} {behind : List (List Char)} (hfeed : c ≠ '\n')
    (hreturn : ∀ ds, c = '\r' → cs ≠ '\n' :: ds) (hcs : lines cs = line :: behind) :
    lines (c :: cs) = (c :: line) :: behind := by
  rw [lines, hcs]
  · exact hfeed
  · exact hreturn

theorem exists_lines_cons (c : Char) (cs : List Char) :
    ∃ line behind, lines (c :: cs) = line :: behind := by
  by_cases hfeed : c = '\n'
  · subst hfeed
    exact ⟨_, _, lines_newline cs⟩
  · by_cases hreturn : ∃ ds, c = '\r' ∧ cs = '\n' :: ds
    · rcases hreturn with ⟨ds, rfl, rfl⟩
      exact ⟨_, _, lines_return_newline ds⟩
    · rw [lines]
      · cases lines cs with
        | nil => exact ⟨_, _, rfl⟩
        | cons line behind => exact ⟨_, _, rfl⟩
      · exact hfeed
      · exact fun ds hc hcs => hreturn ⟨ds, hc, hcs⟩

theorem lines_append {cs : List Char} (h : Ended cs) (later : List Char) :
    lines (cs ++ later) = lines cs ++ lines later := by
  induction cs with
  | nil => rfl
  | cons c cs ih =>
      have ih := ih h.tail
      by_cases hfeed : c = '\n'
      · subst hfeed
        rw [List.cons_append, lines_newline, lines_newline, ih, List.cons_append]
      · cases cs with
        | nil =>
            -- The text would end with a character that ends no line.
            exact absurd (h c rfl) hfeed
        | cons d ds =>
            by_cases hreturn : c = '\r' ∧ d = '\n'
            · rcases hreturn with ⟨rfl, rfl⟩
              exact ih
            · have hreturn : ∀ {cs es : List Char}, c = '\r' → d :: cs ≠ '\n' :: es :=
                fun hc heq => hreturn ⟨hc, (List.cons.inj heq).1⟩
              rcases exists_lines_cons d ds with ⟨line, behind, hline⟩
              rw [hline] at ih
              rw [lines_cons hfeed (fun _ => hreturn) hline]
              exact lines_cons hfeed (fun _ => hreturn) ih

end Text

theorem Text.IsLine.cons {c : Char} {cs : List Char} (hfeed : c ≠ '\n') (hreturn : c ≠ '\r')
    (h : Text.IsLine cs) : Text.IsLine (c :: cs) where
  noFeed := List.not_mem_cons_of_ne_of_not_mem hfeed.symm h.noFeed
  noReturn := by
    cases cs with
    | nil => simpa using hreturn
    | cons d ds =>
        rw [List.getLast?_cons_cons]
        exact h.noReturn

/-! ## Texts that are accepted -/

namespace Layout

/-- The line is blank, or it is indented by whole levels and has tokens up to its end. -/
def Accepted (raw : List Char) : Prop :=
  raw.all Text.isBlank = false →
    (Text.indentation raw).length % 2 = 0 ∧ ∃ ks, Reads (Text.unindented raw) ks

end Layout

theorem hasContent_of_stopsAt {number : Nat} {raw : List Char} {covered tokens : List Token}
    {e : LexError} (h : StopsAt number raw covered tokens e) : raw.all Text.isBlank = false := by
  cases h with
  | odd hcontent => exact hcontent
  | malformed hline => exact hline.hasContent

theorem Layout.reads_of_mem {depth : Nat} {lines : List Layout.Line} {tokens : List Token}
    (h : Layout depth lines tokens) :
    ∀ line ∈ lines, line.spaces % 2 = 0 ∧ ∃ ks, Layout.Reads line.text ks := by
  induction h with
  | finish => exact nofun
  | line heven htokens _ _ ih =>
      exact List.forall_mem_cons.mpr ⟨⟨heven, _, htokens.content_kinds⟩, ih⟩

/-- A text has tokens where each of its lines is accepted. -/
theorem exists_tokenize_iff (source : String) :
    (∃ tokens, tokenize source = .ok tokens)
      ↔ ∀ raw ∈ Text.lines source.toList, Layout.Accepted raw := by
  constructor
  · rintro ⟨tokens, h⟩ raw hraw hcontent
    -- The line is one of the lines with content, by what it looks like.
    have hmem : ((Text.indentation raw).length, Text.unindented raw)
        ∈ (Layout.contentLines source.toList).map (·.shape) := by
      rw [Layout.contentLines, Layout.shapes_contentLinesFrom]
      exact List.mem_map_of_mem (List.mem_filter.mpr ⟨hraw, by simp [hcontent]⟩)
    rcases List.mem_map.mp hmem with ⟨line, hline, hshape⟩
    rcases (layout_of_tokenize h).reads_of_mem line hline with ⟨heven, hreads⟩
    rcases Prod.mk.inj hshape with ⟨hspaces, htext⟩
    rw [← hspaces, ← htext]
    exact ⟨heven, hreads⟩
  · intro h
    have haccount := account_ofText source.toList
    rcases hstream : Stream.ofText source.toList with ⟨tokens, fault⟩
    rw [hstream] at haccount
    cases fault with
    | none => exact ⟨tokens, tokenize_eq_ok_iff.mpr hstream⟩
    | some e =>
        rcases haccount.stopsAt (Nat.zero_le 1) with ⟨read, raw, unread, covered, hsplit, -, hstops⟩
        have hraw := h raw (by simp [hsplit])
        rcases hraw (hasContent_of_stopsAt hstops) with ⟨heven, ks, hreads⟩
        exact (hstops.false heven hreads).elim

/-! ## Joined texts -/

section Joined

variable {front back : String} {tokens more : List Token}

/-- Behind a text that is ended, a text whose first line is not indented has the kinds of tokens that it
has by itself. Only the end of the first text is not reported. -/
theorem tokenize_append (hended : Text.Ended front.toList)
    (hfirst : ∀ line ∈ (Layout.contentLines back.toList).head?, line.spaces = 0)
    (h : tokenize front = .ok tokens) (h' : tokenize back = .ok more) :
    ∃ joined, tokenize (front ++ back) = .ok joined
      ∧ joined.map (·.kind) = (tokens.map (·.kind)).dropLast ++ more.map (·.kind) := by
  have hlines : Text.lines (front ++ back).toList
      = Text.lines front.toList ++ Text.lines back.toList := by
    rw [String.toList_append, Text.lines_append hended]
  rcases ofText_append hlines hfirst (tokenize_eq_ok_iff.mp h) (tokenize_eq_ok_iff.mp h') rfl
    with ⟨read, depth, number, rfl, -, -, hjoined⟩
  refine ⟨_, tokenize_eq_ok_iff.mpr hjoined, ?_⟩
  simp [closing, ← List.append_assoc, Function.comp_def, Token.kind_below]

/-- The tokens of two texts one after the other, with their places. Up to its last line end the first text
gives the same. Its open blocks do not close behind it but where the first token of the second one
stands. That one has the tokens that it has by itself, further down by the lines of the first. -/
theorem tokenize_joined (hended : Text.Ended front.toList)
    (hfirst : ∀ line ∈ (Layout.contentLines back.toList).head?, line.spaces = 0)
    (h : tokenize front = .ok tokens) (h' : tokenize back = .ok more) :
    ∃ joined, tokenize (front ++ back) = .ok joined
      ∧ joined.map (·.kind) = (tokens.map (·.kind)).dropLast ++ more.map (·.kind)
      ∧ ∃ (n : Nat) (read : List Token) (depth : Nat) (first : Token),
        n = (Text.lines front.toList).length ∧ first ∈ more.head?
          ∧ (∀ t ∈ read.getLast?, t.kind = .newline)
          ∧ tokens = read ++ List.replicate depth ⟨.dedent, ⟨n, 1⟩⟩ ++ [⟨.endOfInput, ⟨n, 1⟩⟩]
          ∧ joined = read ++ List.replicate depth ⟨.dedent, ⟨n + first.place.line, 1⟩⟩
            ++ more.map (·.below n) := by
  have hlines : Text.lines (front ++ back).toList
      = Text.lines front.toList ++ Text.lines back.toList := by
    rw [String.toList_append, Text.lines_append hended]
  rcases ofText_append hlines hfirst (tokenize_eq_ok_iff.mp h) (tokenize_eq_ok_iff.mp h') rfl
    with ⟨read, depth, number, htokens, hlast, ⟨first, hmem, rfl⟩, hjoined⟩
  rcases tokenize_append hended hfirst h h' with ⟨joined, hall, hkinds⟩
  have hsame := congrArg Stream.tokens ((tokenize_eq_ok_iff.mp hall).symm.trans hjoined)
  refine ⟨joined, hall, hkinds, _, read, depth, first, rfl, hmem, hlast, ?_, ?_⟩
  · rw [htokens, closing, List.append_assoc]
  · rw [List.append_assoc]
    exact hsame

/-- What stands before the last dedents of a text, and how many of them there are, is settled by the whole. -/
theorem eq_of_append_dedents {read read' : List Token} {depth depth' : Nat} {place : Position}
    (hlast : ∀ t ∈ read.getLast?, t.kind = .newline) (hlast' : ∀ t ∈ read'.getLast?, t.kind = .newline)
    (h : read ++ List.replicate depth ⟨.dedent, place⟩
      = read' ++ List.replicate depth' ⟨.dedent, place⟩) :
    read = read' ∧ depth = depth' := by
  have hno : ∀ {ended before : List Token}, (∀ t ∈ ended.getLast?, t.kind = .newline) →
      ended ≠ before ++ [⟨.dedent, place⟩] := by
    rintro _ before hended rfl
    exact nomatch hended ⟨.dedent, place⟩ List.getLast?_concat
  induction depth generalizing depth' with
  | zero =>
      cases depth' with
      | zero => simpa using h
      | succ depth' =>
          rw [List.replicate_succ', ← List.append_assoc, List.replicate_zero, List.append_nil] at h
          exact absurd h (hno hlast)
  | succ depth ih =>
      cases depth' with
      | zero =>
          rw [List.replicate_succ', ← List.append_assoc, List.replicate_zero, List.append_nil] at h
          exact absurd h.symm (hno hlast')
      | succ depth' =>
          rw [List.replicate_succ', List.replicate_succ', ← List.append_assoc, ← List.append_assoc] at h
          exact (ih (List.append_cancel_right h)).imp_right (congrArg Nat.succ)

/-- The block of the first text closes behind the blank line with which the second one starts. -/
theorem tokenize_joined_block :
    let front := "if True:\n  x = 1" ++ "\n"
    let back := "\ny = 2\n"
    let read : List Token :=
      [⟨.keyword .ifKw, ⟨1, 1⟩⟩, ⟨.keyword .trueKw, ⟨1, 4⟩⟩, ⟨.punct .colon, ⟨1, 8⟩⟩,
        ⟨.newline, ⟨1, 9⟩⟩, ⟨.indent, ⟨2, 3⟩⟩, ⟨.identifier "x", ⟨2, 3⟩⟩, ⟨.punct .assign, ⟨2, 5⟩⟩,
        ⟨.integer 1, ⟨2, 7⟩⟩, ⟨.newline, ⟨2, 8⟩⟩]
    let more : List Token :=
      [⟨.identifier "y", ⟨2, 1⟩⟩, ⟨.punct .assign, ⟨2, 3⟩⟩, ⟨.integer 2, ⟨2, 5⟩⟩, ⟨.newline, ⟨2, 6⟩⟩,
        ⟨.endOfInput, ⟨2, 1⟩⟩]
    Text.Ended front.toList ∧ (∀ line ∈ (Layout.contentLines back.toList).head?, line.spaces = 0)
      ∧ tokenize front = .ok (read ++ [⟨.dedent, ⟨2, 1⟩⟩, ⟨.endOfInput, ⟨2, 1⟩⟩])
      ∧ tokenize back = .ok more
      ∧ tokenize (front ++ back) = .ok (read ++ [⟨.dedent, ⟨4, 1⟩⟩] ++ more.map (·.below 2)) := by
  intro front back read more
  have hended : Text.Ended front.toList := Text.ended_append_feed "if True:\n  x = 1"
  have hfirst : ∀ line ∈ (Layout.contentLines back.toList).head?, line.spaces = 0 := by
    decide +kernel
  have htokens : tokenize front = .ok (read ++ [⟨.dedent, ⟨2, 1⟩⟩, ⟨.endOfInput, ⟨2, 1⟩⟩]) :=
    tokenize_eq_ok_iff.mpr (by decide +kernel)
  have hmore : tokenize back = .ok more := tokenize_eq_ok_iff.mpr (by decide +kernel)
  refine ⟨hended, hfirst, htokens, hmore, ?_⟩
  rcases tokenize_joined hended hfirst htokens hmore
    with ⟨joined, hjoined, -, n, before, depth, first, hn, hhead, hlast, hclosed, rfl⟩
  have hlines : n = 2 := hn.trans (by decide +kernel)
  subst hlines
  rw [show read ++ [⟨.dedent, ⟨2, 1⟩⟩, ⟨.endOfInput, ⟨2, 1⟩⟩]
    = read ++ List.replicate 1 ⟨.dedent, ⟨2, 1⟩⟩ ++ [⟨.endOfInput, ⟨2, 1⟩⟩] from rfl] at hclosed
  rcases eq_of_append_dedents (by simp [read]) hlast (List.append_cancel_right hclosed) with ⟨rfl, rfl⟩
  cases hhead
  exact hjoined
end Joined

/-! ## Texts of one line -/

section Singleton

variable {c : Char} {cs : List Char}

theorem Text.indentation_eq_nil (hhead : isBlank c = false) (cs : List Char) :
    indentation (c :: cs) = [] ∧ unindented (c :: cs) = c :: cs := by
  have hspace : ¬decide (c = ' ') = true := by
    rw [decide_eq_true_eq]
    rintro rfl
    cases hhead
  exact ⟨List.takeWhile_cons_of_neg hspace, List.dropWhile_cons_of_neg hspace⟩

theorem Text.IsLine.lines_singleton (hline : IsLine cs) : lines (cs ++ ['\n']) = [cs] :=
  hline.lines_append []

theorem Layout.shapes_singleton (hline : Text.IsLine (c :: cs)) (hhead : Text.isBlank c = false) :
    (contentLines (c :: cs ++ ['\n'])).map (·.shape) = [(0, c :: cs)] := by
  rcases Text.indentation_eq_nil hhead cs with ⟨hindentation, hunindented⟩
  have hfilter : [c :: cs].filter (!·.all Text.isBlank) = [c :: cs] := by simp [hhead]
  rw [contentLines, hline.lines_singleton, shapes_contentLinesFrom, hfilter]
  exact congrArg₂ (fun spaces text => [(spaces, text)]) (congrArg List.length hindentation)
    hunindented

theorem Layout.spaces_singleton (hline : Text.IsLine (c :: cs)) (hhead : Text.isBlank c = false) :
    ∀ line ∈ contentLines (c :: cs ++ ['\n']), line.spaces = 0 := by
  intro line hmem
  have hshape := List.mem_map_of_mem (f := Line.shape) hmem
  rw [shapes_singleton hline hhead, List.mem_singleton] at hshape
  exact (Prod.mk.inj hshape).1

/-- A line that is not indented, as a text by itself. -/
theorem tokenize_singleton {ks : List Kind} (hline : Text.IsLine (c :: cs))
    (hhead : Text.isBlank c = false) (hreads : Layout.Reads (c :: cs) ks) :
    ∃ tokens, tokenize (String.ofList (c :: cs ++ ['\n'])) = .ok tokens
      ∧ tokens.map (·.kind) = ks ++ [.newline, .endOfInput] := by
  rcases Text.indentation_eq_nil hhead cs with ⟨hindentation, hunindented⟩
  have haccepted : Layout.Accepted (c :: cs) := by
    intro _
    rw [hindentation, hunindented]
    exact ⟨rfl, ks, hreads⟩
  have hexists := exists_tokenize_iff (String.ofList (c :: cs ++ ['\n']))
  rw [String.toList_ofList, hline.lines_singleton] at hexists
  rcases hexists.mpr (List.forall_mem_singleton.mpr haccepted) with ⟨tokens, htokens⟩
  refine ⟨tokens, htokens, ?_⟩
  have hlayout := layout_of_tokenize htokens
  rw [String.toList_ofList] at hlayout
  rcases List.map_eq_singleton_iff.mp (Layout.shapes_singleton hline hhead) with ⟨line, hlines, hshape⟩
  rw [hlines] at hlayout
  rcases Prod.mk.inj hshape with ⟨hspaces, htext⟩
  cases hlayout with
  | line _ hfit _ hlater =>
      cases hlater with
      | finish hclosing hlast =>
          have hread := hfit.content_kinds
          have hlevel : line.level = 0 := by rw [Layout.Line.level, hspaces]
          rw [htext] at hread
          rw [List.map_append, hfit.kinds_eq, hread.unique hreads, List.map_append, hclosing, hlevel]
          simp [Layout.shift, hlast]

end Singleton

end Offside
