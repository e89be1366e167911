import Offside.Proofs.Lexis.Calls

/-!
# Displacement — a text with lines above it and lines below it

The lexer counts lines, but does not look back at those behind it nor ahead at those below.  This file
compares what it does in a text with what it does there when the text is part of a longer one:

- `Cursor.within`     : the same place, with some lines above the text and some below
- `Lexer.Completes`   : without an error the calls give these tokens, up to the end of the input
- `Completes.within`  : with lines above, the same tokens stand that many lines further down
- `Completes.front`   : with lines below, the same tokens come, up to where the text ended

Where the text ended, its open blocks close, in the longer one in front of the first line below that has
content (`ofText_append`).  That line is taken not to be indented: otherwise blocks stay open.
-/

namespace Offside

/-! ## Places further down -/

/-- The same column some lines further down. -/
def Position.below (n : Nat) (p : Position) : Position :=
  { p with line := n + p.line }

def Token.below (n : Nat) (t : Token) : Token :=
  { t with place := t.place.below n }

@[simp] theorem Position.below_zero (p : Position) : p.below 0 = p := by
  rw [below, Nat.zero_add]

theorem Token.kind_below (n : Nat) (t : Token) : (t.below n).kind = t.kind :=
  rfl

@[simp] theorem Token.below_zero (t : Token) : t.below 0 = t := by
  rw [below, Position.below_zero]

/-! ## Cursors -/

namespace Cursor

/-- The same place where the text has `n` more lines above and some lines below. -/
def within (n : Nat) (below : List (List Char)) (c : Cursor) : Cursor :=
  { c with pending := c.pending ++ below, lineNumber := n + c.lineNumber }

theorem place_within (n : Nat) (below : List (List Char)) (c : Cursor) :
    (c.within n below).place = c.place.below n :=
  rfl

variable {c c' d start cursor : Cursor} {raws below : List (List Char)}

/-- A line that is loaded depends on the lines that are taken, and so does the end of the text, where no
lines follow. -/
theorem advanceThrough_within {n : Nat} (h : c.advanceThrough raws = (.ok (), c'))
    (hatEnd : d.atEnd = c.atEnd) (hnumber : d.lineNumber = n + c.lineNumber)
    (hbelow : c'.atEnd = true → below = []) :
    d.advanceThrough (raws ++ below) = (.ok (), c'.within n below) := by
  induction raws generalizing c d with
  | nil =>
      cases h
      rw [hbelow rfl]
      simp only [List.append_nil, advanceThrough, finish, within, hnumber]
  | cons raw later ih =>
      rw [advanceThrough] at h
      rw [List.cons_append, advanceThrough]
      by_cases hblank : raw.all Text.isBlank = true
      · rw [if_pos hblank] at h ⊢
        refine ih h hatEnd ?_
        rw [hnumber, Nat.add_assoc]
      · rw [if_neg hblank] at h ⊢
        rw [load] at h ⊢
        by_cases hodd : (raw.takeWhile (· = ' ')).length % 2 = 1
        · rw [if_pos hodd] at h
          cases h
        · rw [if_neg hodd] at h ⊢
          cases h
          simp only [within, hatEnd, hnumber, Nat.add_assoc]

/-- Every line is counted that is taken. -/
theorem count_advanceThrough (h : c.advanceThrough raws = (.ok (), c')) :
    c'.lineNumber + c'.pending.length = c.lineNumber + raws.length := by
  have hadvances := c.advances_advanceThrough raws
  generalize c.advanceThrough raws = result at h hadvances
  induction hadvances with
  | finish =>
      cases h
      rfl
  | blank _ _ ih =>
      rw [ih h, List.length_cons]
      exact Nat.add_right_comm ..
  | odd => cases h
  | load =>
      cases h
      rw [List.length_cons]
      exact Nat.add_right_comm ..

theorem position_advanceThrough (h : c.advanceThrough raws = (.ok (), c')) : c'.position = 0 := by
  have hadvances := c.advances_advanceThrough raws
  generalize c.advanceThrough raws = result at h hadvances
  induction hadvances with
  | blank _ _ ih => exact ih h
  | odd => cases h
  | finish | load =>
      cases h
      rfl

/-- Where a text ends without further content, the lines below it come instead. -/
theorem advanceThrough_append (h : c.advanceThrough raws = (.ok (), c')) (hc : c.atEnd = false)
    (hend : c'.atEnd = true) (hd : d.atEnd = false)
    (hbelow : start.advanceThrough below = (.ok (), cursor)) (hstart : start.atEnd = false)
    (hzero : start.lineNumber = 0) :
    d.advanceThrough (raws ++ below) = (.ok (), cursor.within (d.lineNumber + raws.length) []) := by
  induction raws generalizing c d with
  | nil =>
      have hwithin : d.advanceThrough (below ++ []) = (.ok (), cursor.within d.lineNumber []) :=
        advanceThrough_within hbelow (hd.trans hstart.symm) (by rw [hzero, Nat.add_zero]) fun _ => rfl
      rw [List.append_nil] at hwithin
      exact hwithin
  | cons raw later ih =>
      rw [advanceThrough] at h
      rw [List.cons_append, advanceThrough]
      by_cases hblank : raw.all Text.isBlank = true
      · rw [if_pos hblank] at h ⊢
        have hlater := ih (d := { d with pending := later ++ below, lineNumber := d.lineNumber + 1 })
          h hc hd
        have hnumber : d.lineNumber + 1 + later.length = d.lineNumber + (raw :: later).length := by
          rw [List.length_cons, Nat.add_assoc, Nat.add_comm 1]
        exact hnumber ▸ hlater
      · -- A line that is loaded is not the end.
        rw [if_neg hblank, load] at h
        by_cases hodd : (raw.takeWhile (· = ' ')).length % 2 = 1
        · rw [if_pos hodd] at h
          cases h
        · rw [if_neg hodd] at h
          cases h
          exact absurd (hend.symm.trans hc) (by decide)

end Cursor

/-! ## Calls of the lexer -/

namespace Lexer

/-- The same state where the text has `n` more lines above and some lines below. -/
def within (n : Nat) (below : List (List Char)) (l : Lexer) : Lexer :=
  { l with cursor := l.cursor.within n below }

variable {l after : Lexer} {token : Token} {tokens : List Token} {below : List (List Char)}

theorem tokenAt_below {place : Position} {read : Lexeme} (h : tokenAt place read = .ok token)
    (n : Nat) : tokenAt (place.below n) read = .ok (token.below n) := by
  unfold tokenAt at h ⊢
  cases hreading : read.reading with
  | error m =>
      rw [hreading] at h
      cases h
  | ok k =>
      rw [hreading] at h
      cases h
      rfl

theorem scanHere_within (h : l.scanHere = (.ok token, after)) (n : Nat)
    (hbelow : after.cursor.atEnd = true → below = []) :
    (l.within n below).scanHere = (.ok (token.below n), after.within n below) := by
  have hrest : (l.within n below).cursor.rest = l.cursor.rest := rfl
  have hend : (l.within n below).cursor.atEnd = l.cursor.atEnd := rfl
  unfold scanHere at h ⊢
  rw [hrest, hend]
  cases hline : l.cursor.rest with
  | cons x more =>
      rw [hline] at h
      rcases Prod.mk.inj h with ⟨htoken, rfl⟩
      exact congrArg (·, _) (tokenAt_below htoken n)
  | nil =>
      rw [hline] at h
      by_cases hstop : l.cursor.atEnd = true
      · simp only [if_pos hstop] at h ⊢
        cases h
        rfl
      · simp only [if_neg hstop] at h ⊢
        rcases hadvance : l.cursor.advance with ⟨e | _, cursor⟩
        · rw [hadvance] at h
          cases h
        · rw [hadvance] at h
          cases h
          have hwithin : (l.within n below).cursor.advance = (.ok (), cursor.within n below) :=
            Cursor.advanceThrough_within hadvance rfl rfl hbelow
          rw [hwithin]
          rfl

/-- In a longer text a call does the same, unless it comes to the end of this one. -/
theorem next_within (hstart : l.started = true) (h : l.next = (.ok token, after)) (n : Nat)
    (below : List (List Char)) (hbelow : after.cursor.atEnd = true → below = []) :
    (l.within n below).next = (.ok (token.below n), after.within n below) := by
  have hstart' : (l.within n below).started = true := hstart
  rw [next, if_pos hstart, scan] at h
  rw [next, if_pos hstart', scan]
  have hlevel : (l.within n below).level = l.level := rfl
  have hline : (l.within n below).cursor.level = l.cursor.level := rfl
  rw [hlevel, hline]
  by_cases hopens : l.level < l.cursor.level
  · rw [if_pos hopens] at h ⊢
    cases h
    rfl
  · rw [if_neg hopens] at h ⊢
    by_cases hcloses : l.cursor.level < l.level
    · rw [if_pos hcloses] at h ⊢
      cases h
      rfl
    · rw [if_neg hcloses] at h ⊢
      exact scanHere_within (l := { l with cursor := l.cursor.skipBlanks }) h n hbelow

/-- Behind the last token of a line its end is reported when the next one has been loaded. -/
theorem next_of_lineEnd {cursor : Cursor} (hstart : l.started = true)
    (hlevel : l.level = l.cursor.level) (hend : l.cursor.atEnd = false)
    (hblank : l.cursor.rest.all Text.isBlank = true)
    (hadvance : l.cursor.skipBlanks.advance = (.ok (), cursor)) :
    l.next = (.ok ⟨.newline, l.cursor.skipBlanks.place⟩, { l with cursor := cursor }) := by
  have hrest : l.cursor.skipBlanks.rest = [] := Layout.dropWhile_eq_nil hblank
  have hgo : ¬l.cursor.skipBlanks.atEnd = true := by
    show ¬l.cursor.atEnd = true
    simp [hend]
  have hopens : ¬l.level < l.cursor.level := by omega
  have hcloses : ¬l.cursor.level < l.level := by omega
  rw [next, if_pos hstart, scan, if_neg hopens, if_neg hcloses, scanLine, scanHere]
  simp only [hrest, if_neg hgo, hadvance]
  rfl

/-! ## Runs of the lexer -/

/-- The calls give these tokens, up to the end of the input and without an error. -/
inductive Completes : Lexer → List Token → Prop where
  | last {l after : Lexer} {token : Token} (h : l.next = (.ok token, after))
      (hend : token.kind = .endOfInput) : Completes l [token]
  | more {l after : Lexer} {token : Token} {tokens : List Token} (h : l.next = (.ok token, after))
      (hmore : token.kind ≠ .endOfInput) (hlater : Completes after tokens) :
      Completes l (token :: tokens)

theorem completes_iff : l.Completes tokens ↔ Stream.ofAnswers l.answers = ⟨tokens, none⟩ := by
  constructor
  · intro h
    induction h with
    | last h hend =>
        rw [answers_of_end h hend]
        rfl
    | more h hmore _ ih =>
        rw [answers_of_token h hmore, Stream.ofAnswers, ih]
  · intro h
    induction l using Lexer.run.induct generalizing tokens with
    | case1 l token after hnext hlast =>
        rw [answers_of_end hnext hlast] at h
        cases h
        exact .last hnext hlast
    | case2 l token after hnext hmore ih =>
        rw [answers_of_token hnext hmore, Stream.ofAnswers] at h
        rcases hstream : Stream.ofAnswers after.answers with ⟨later, fault⟩
        rw [hstream] at h
        cases h
        exact .more hnext hmore (ih hstream)
    | case3 l e after hnext ih =>
        rw [answers_of_error hnext] at h
        cases h

theorem started_of_next (hstart : l.started = true) (h : l.next = (.ok token, after)) :
    after.started = true := by
  have hstep := step_next hstart
  rw [h] at hstep
  cases hstep <;> exact hstart

theorem line_of_next (hstart : l.started = true) (h : l.next = (.ok token, after)) :
    token.place.line = l.cursor.lineNumber := by
  have hstep := step_next hstart
  rw [h] at hstep
  cases hstep <;> rfl

namespace Completes

/-- The first token stands on the current line. -/
theorem exists_head (h : l.Completes tokens) (hstart : l.started = true) :
    ∃ t ∈ tokens.head?, t.place.line = l.cursor.lineNumber := by
  cases h with
  | last h => exact ⟨_, rfl, line_of_next hstart h⟩
  | more h => exact ⟨_, rfl, line_of_next hstart h⟩

/-- With lines above, the same tokens stand further down. -/
theorem within (h : l.Completes tokens) (hstart : l.started = true) (n : Nat) :
    (l.within n []).Completes (tokens.map (·.below n)) := by
  induction h with
  | last h hend => exact .last (next_within hstart h n [] fun _ => rfl) hend
  | more h hmore _ ih =>
      exact .more (next_within hstart h n [] fun _ => rfl) hmore (ih (started_of_next hstart h))

/-- In front of a line that is not indented all blocks close first. -/
theorem dedents {c : Cursor} (h : (Lexer.mk c 0 true).Completes tokens) (hlevel : c.level = 0)
    (depth : Nat) :
    (Lexer.mk c depth true).Completes (List.replicate depth ⟨.dedent, c.place⟩ ++ tokens) := by
  induction depth with
  | zero => exact h
  | succ depth ih =>
      have hnext : (Lexer.mk c (depth + 1) true).next
          = (.ok ⟨.dedent, c.place⟩, Lexer.mk c depth true) := by
        have hopens : ¬depth + 1 < c.level := by omega
        have hcloses : c.level < depth + 1 := by omega
        rw [next, if_pos rfl, scan, if_neg hopens, if_pos hcloses]
        rfl
      have hkind : Kind.dedent ≠ .endOfInput := by decide
      exact .more hnext hkind ih

/-- After the last line only the open blocks are left. -/
theorem eq_closing (h : l.Completes tokens) (hstart : l.started = true) (hc : l.cursor.Settled)
    (hend : l.cursor.atEnd = true) : tokens = closing l.cursor.lineNumber l.level := by
  have hgives := gives_answers l hstart hc
  rw [completes_iff.mp h] at hgives
  exact (hgives.eq_closing hend).1

/-- In front of the lines below the calls give the same up to the end of the last line. With that, the
first line below is loaded that has content. -/
theorem front {start cursor : Cursor} (h : l.Completes tokens) (hstarted : l.started = true)
    (hc : l.cursor.Settled) (hend : l.cursor.atEnd = false)
    (hbelow : start.advanceThrough below = (.ok (), cursor)) (hstart : start.atEnd = false)
    (hzero : start.lineNumber = 0) {n : Nat}
    (hn : l.cursor.lineNumber + l.cursor.pending.length = n) :
    ∃ read place depth, tokens = read ++ ⟨.newline, place⟩ :: closing n depth
      ∧ ∀ {later}, (Lexer.mk (cursor.within n []) depth true).Completes later →
        (l.within 0 below).Completes (read ++ ⟨.newline, place⟩ :: later) := by
  induction h with
  | last h hlast =>
      have hstep := step_next hstarted
      rw [h] at hstep
      cases hstep with
      | finish _ hstop => exact absurd (hstop.symm.trans hend) (by decide)
      | content _ _ hread =>
          cases hlast
          cases Layout.isContent_of_reading hread
      | _ => cases hlast
  | @more l after token tokens h hmore hlater ih =>
      have hafter := started_of_next hstarted h
      -- Where the text goes on, the call is the same in the longer one.
      have hgo : after.cursor.Settled → after.cursor.atEnd = false →
          after.cursor.lineNumber + after.cursor.pending.length = n →
          ∃ read place depth, token :: tokens = read ++ ⟨.newline, place⟩ :: closing n depth
            ∧ ∀ {later}, (Lexer.mk (cursor.within n []) depth true).Completes later →
              (l.within 0 below).Completes (read ++ ⟨.newline, place⟩ :: later) := by
        intro hc' hend' hn'
        rcases ih hafter hc' hend' hn' with ⟨read, place, depth, rfl, hread⟩
        have hnext := next_within hstarted h 0 below fun hstop =>
          absurd (hstop.symm.trans hend') (by decide)
        rw [Token.below_zero] at hnext
        exact ⟨token :: read, place, depth, rfl, fun hdone => .more hnext hmore (hread hdone)⟩
      have hstep := step_next hstarted
      rw [h] at hstep
      cases hstep with
      | indent => exact hgo hc hend hn
      | dedent => exact hgo hc hend hn
      | content => exact hgo ((hc.moveOver hend _ _).moveOver hend _ _) hend hn
      | finish => exact absurd rfl hmore
      | @newline hlevel _ hblank cursor' hadvance =>
          have hsettled := Cursor.settled_of_advanceThrough (c := l.cursor.skipBlanks) hend hadvance
          have hcount := Cursor.count_advanceThrough hadvance
          cases hend' : cursor'.atEnd with
          | false => exact hgo hsettled hend' (hcount.trans hn)
          | true =>
              have hnumber : l.cursor.lineNumber + l.cursor.pending.length = n := hn
              have hlast : cursor'.pending = [] := (hsettled.finished hend').2.1
              rw [hlast] at hcount
              have hclosing := hlater.eq_closing hafter hsettled hend'
              have hline : cursor'.lineNumber = n := hcount.trans hnumber
              rw [hline] at hclosing
              have hlower := Cursor.advanceThrough_append (d := (l.within 0 below).cursor.skipBlanks)
                hadvance hend hend' hend hbelow hstart hzero
              have hline' : 0 + l.cursor.lineNumber + l.cursor.pending.length = n := by
                rw [Nat.zero_add, hnumber]
              have hnext := next_of_lineEnd (l := l.within 0 below) hstarted hlevel hend hblank
                (hline' ▸ hlower)
              have hplace : (l.within 0 below).cursor.skipBlanks.place
                  = l.cursor.skipBlanks.place.below 0 := rfl
              have hstarted' : (l.within 0 below).started = true := hstarted
              rw [hplace, Position.below_zero, hstarted'] at hnext
              exact ⟨[], _, l.level, congrArg _ hclosing, fun hdone => .more hnext hmore hdone⟩

end Completes

end Lexer

/-! ## Joined texts -/

section Joined

variable {front back joined : List Char} {tokens more : List Token}

/-- A text that has tokens has a first line with content, or ends without one. -/
theorem exists_completes {text : List Char} (h : Stream.ofText text = ⟨tokens, none⟩) :
    ∃ cursor, (Cursor.ofText text).advance = (.ok (), cursor)
      ∧ (Lexer.mk cursor 0 true).Completes tokens := by
  rcases hadvance : (Cursor.ofText text).advance with ⟨e | _, cursor⟩
  · rcases Lexer.answers_ofText_of_error hadvance with ⟨later, hlater⟩
    rw [Stream.ofText, hlater] at h
    cases h
  · rw [Stream.ofText, Lexer.answers_ofText hadvance] at h
    exact ⟨cursor, rfl, Lexer.completes_iff.mpr h⟩

theorem ofText_of_completes {text : List Char} {cursor : Cursor}
    (hadvance : (Cursor.ofText text).advance = (.ok (), cursor))
    (h : (Lexer.mk cursor 0 true).Completes tokens) : Stream.ofText text = ⟨tokens, none⟩ := by
  rw [Stream.ofText, Lexer.answers_ofText hadvance]
  exact Lexer.completes_iff.mp h

/-- The line that is loaded is not indented, if that is so of the first one with content. -/
theorem place_of_advance {text : List Char} {cursor : Cursor}
    (h : (Cursor.ofText text).advance = (.ok (), cursor))
    (hfirst : ∀ line ∈ (Layout.contentLines text).head?, line.spaces = 0) :
    cursor.leadingSpaces = 0 ∧ cursor.place = ⟨cursor.lineNumber, 1⟩ := by
  have hspaces : cursor.leadingSpaces = 0 := by
    rcases Cursor.advanceThrough_eq_ok rfl h with ⟨hloaded, hfaces⟩
    replace hfaces : cursor.Faces (Layout.contentLines text) := hfaces
    cases hcontent : Layout.contentLines text with
    | nil =>
        rw [hcontent] at hfaces
        exact (hloaded.finished hfaces).2.2
    | cons line later =>
        rw [hcontent] at hfaces
        exact hfaces.2.2.1.trans (hfirst line (by rw [hcontent]; rfl))
  refine ⟨hspaces, ?_⟩
  rw [Cursor.place, hspaces, Cursor.position_advanceThrough h]

/-- Below a text, and on lines of its own, a text whose first line with content is not indented has the
tokens that it has by itself, further down. The blocks that are open above it close in front of them. -/
theorem ofText_append (hlines : Text.lines joined = Text.lines front ++ Text.lines back)
    (hfirst : ∀ line ∈ (Layout.contentLines back).head?, line.spaces = 0)
    (h : Stream.ofText front = ⟨tokens, none⟩) (h' : Stream.ofText back = ⟨more, none⟩) {n : Nat}
    (hn : (Text.lines front).length = n) :
    ∃ read depth number, tokens = read ++ closing n depth
      ∧ (∀ t ∈ read.getLast?, t.kind = .newline) ∧ (∃ t ∈ more.head?, t.place.line = number)
      ∧ Stream.ofText joined = ⟨read ++ (List.replicate depth ⟨.dedent, ⟨n + number, 1⟩⟩
        ++ more.map (·.below n)), none⟩ := by
  rcases exists_completes h with ⟨top, htop, hfront⟩
  rcases exists_completes h' with ⟨bottom, hbottom, hback⟩
  rcases place_of_advance hbottom hfirst with ⟨hspaces, hplace⟩
  have hcount : top.lineNumber + top.pending.length = n := by
    rw [Cursor.count_advanceThrough htop, ← hn]
    exact Nat.zero_add _
  -- Below, the blocks that are still open close, and then the second text is read.
  have hlower : ∀ depth, (Lexer.mk (bottom.within n []) depth true).Completes
      (List.replicate depth ⟨.dedent, ⟨n + bottom.lineNumber, 1⟩⟩ ++ more.map (·.below n)) := by
    intro depth
    have hlevel : (bottom.within n []).level = 0 := by
      show bottom.leadingSpaces / 2 = 0
      rw [hspaces]
    have hdedents := (hback.within rfl n).dedents hlevel depth
    rw [Cursor.place_within, hplace] at hdedents
    exact hdedents
  have hsettled := Cursor.settled_of_advanceThrough (c := .ofText front) rfl htop
  have hadvance : (Cursor.ofText joined).advance
      = (Cursor.ofText joined).advanceThrough (Text.lines front ++ Text.lines back) := by
    rw [← hlines]
    rfl
  cases hend : top.atEnd with
  | true =>
      -- The first text has no content.
      have hempty := hfront.eq_closing rfl hsettled hend
      have hnumber : top.lineNumber = n := by
        rw [(hsettled.finished hend).2.1] at hcount
        exact hcount
      replace hempty : tokens = closing n 0 := hnumber ▸ hempty
      have hjoined := Cursor.advanceThrough_append (d := .ofText joined) htop rfl hend rfl hbottom rfl rfl
      have hline : (Cursor.ofText joined).lineNumber + (Cursor.ofText front).pending.length = n :=
        (Nat.zero_add _).trans hn
      replace hjoined := hadvance.trans hjoined
      rw [hline] at hjoined
      exact ⟨[], 0, bottom.lineNumber, hempty, nofun, hback.exists_head rfl,
        ofText_of_completes hjoined (hlower 0)⟩
  | false =>
      rcases hfront.front rfl hsettled hend hbottom rfl rfl hcount
        with ⟨read, place, depth, htokens, hread⟩
      have hjoined : (Cursor.ofText joined).advanceThrough (Text.lines front ++ Text.lines back)
          = (.ok (), top.within 0 (Text.lines back)) :=
        Cursor.advanceThrough_within htop rfl rfl fun hstop =>
          absurd (hstop.symm.trans hend) (by decide)
      have hall := ofText_of_completes (hadvance.trans hjoined) (hread (hlower depth))
      have hlast : ∀ t ∈ (read ++ [Token.mk .newline place]).getLast?, t.kind = .newline := by
        intro t ht
        rw [List.getLast?_append] at ht
        cases ht
        rfl
      refine ⟨_, depth, bottom.lineNumber, ?_, hlast, hback.exists_head rfl, ?_⟩
      · rw [htokens, List.append_assoc]
        rfl
      · rw [hall, List.append_assoc]
        rfl

end Joined

end Offside
