import Offside.Proofs.Lexis.Joining
import Mathlib.Data.List.DropRight
import Mathlib.Logic.Relation

/-!
# Spacing — changes of a text that carry no meaning

Lines that hold only blanks, carriage returns in front of line feeds and the line feed at the end of a
text can be added and left out.  This file says what all texts have in common that differ in these ways:

- `Text.Respaced` : one such change of a text
- `Text.trimmed`  : a line without the blanks at its end
- `Text.contents` : the lines that hold more than blanks, trimmed

The main statement, `contents_lines_of_eqvGen`, is that any number of changes, made or undone, leaves the
contents as they are.
-/

namespace Offside
namespace Text

/-! ## Blanks at the end of a line -/

/-- A line without the blanks at its end. -/
def trimmed (raw : List Char) : List Char :=
  raw.rdropWhile isBlank

section Trimmed

variable {raw gap : List Char}

theorem exists_gap (raw : List Char) :
    ∃ gap, (∀ c ∈ gap, isBlank c = true) ∧ raw = trimmed raw ++ gap :=
  ⟨raw.rtakeWhile isBlank, fun _ hc => List.mem_rtakeWhile_imp hc,
    List.rdropWhile_append_rtakeWhile.symm⟩

theorem trimmed_append (raw : List Char) (hgap : ∀ c ∈ gap, isBlank c = true) :
    trimmed (raw ++ gap) = trimmed raw := by
  have hreverse : ∀ c ∈ gap.reverse, isBlank c = true := fun c hc => hgap c (List.mem_reverse.mp hc)
  rw [trimmed, List.rdropWhile, List.reverse_append, List.dropWhile_append_of_pos hreverse]
  rfl

theorem trimmed_eq_nil_iff : trimmed raw = [] ↔ raw.all isBlank = true := by
  rw [trimmed, List.rdropWhile_eq_nil_iff, List.all_eq_true]

end Trimmed

/-! ## Lines with content -/

/-- The lines that hold more than blanks, without the blanks at their ends. -/
def contents (raws : List (List Char)) : List (List Char) :=
  (raws.filter (!·.all isBlank)).map trimmed

section Contents

variable {raw : List Char} {raws raws' later : List (List Char)}

theorem contents_cons_of_blank (hblank : raw.all isBlank = true) :
    contents (raw :: later) = contents later := by
  rw [contents, List.filter_cons_of_neg (by simp [hblank]), contents]

theorem contents_cons_of_content (hcontent : raw.all isBlank = false) :
    contents (raw :: later) = trimmed raw :: contents later := by
  rw [contents, List.filter_cons_of_pos (by simp [hcontent]), List.map_cons, contents]

theorem contents_append (raws later : List (List Char)) :
    contents (raws ++ later) = contents raws ++ contents later := by
  rw [contents, List.filter_append, List.map_append]
  rfl

theorem contents_of_blank (h : ∀ raw ∈ raws, raw.all isBlank = true) : contents raws = [] := by
  have hnone : raws.filter (!·.all isBlank) = [] :=
    List.filter_eq_nil_iff.mpr fun raw hraw => by simp [h raw hraw]
  rw [contents, hnone, List.map_nil]

/-- One line has the contents of another where both are the same up to blanks at the end. -/
theorem contents_cons_congr {raw' : List Char} (h : trimmed raw = trimmed raw')
    (later : List (List Char)) : contents (raw :: later) = contents (raw' :: later) := by
  cases hblank : raw.all isBlank with
  | true =>
      have hblank' : raw'.all isBlank = true := by
        rw [← trimmed_eq_nil_iff, ← h, trimmed_eq_nil_iff, hblank]
      rw [contents_cons_of_blank hblank, contents_cons_of_blank hblank']
  | false =>
      have hcontent : raw'.all isBlank = false := by
        rw [← Bool.not_eq_true, ← trimmed_eq_nil_iff, ← h, trimmed_eq_nil_iff, hblank]
        exact Bool.false_ne_true
      rw [contents_cons_of_content hblank, contents_cons_of_content hcontent, h]

end Contents

/-! ## Changes -/

/-- One text is the other but for a change that carries no meaning. -/
inductive Respaced : List Char → List Char → Prop where
  /-- Whole lines of blanks come in front of a line, or behind the last one. -/
  | blankLines {front blank : List Char} (back : List Char) (hfront : Ended front)
      (hblank : Ended blank) (hall : ∀ c ∈ blank, isBlank c = true) :
      Respaced (front ++ back) (front ++ blank ++ back)
  /-- A line that ended with a line feed ends with a carriage return and a line feed. -/
  | carriageReturn (front back : List Char) :
      Respaced (front ++ '\n' :: back) (front ++ '\r' :: '\n' :: back)
  /-- The last line gets an end. -/
  | finalFeed (text : List Char) : Respaced text (text ++ ['\n'])

/-! ## Lines of changed texts -/

section Lines

variable {cs line : List Char}

/-- Nothing stands in a line that does not stand in the text. -/
theorem subset_of_mem_lines (h : line ∈ lines cs) : line ⊆ cs := by
  fun_induction lines cs generalizing line with
  | case1 => cases h
  | case2 cs ih =>
      rcases List.mem_cons.mp h with rfl | h
      · exact List.nil_subset _
      · exact List.subset_cons_of_subset _ (ih h)
  | case3 cs ih =>
      rcases List.mem_cons.mp h with rfl | h
      · exact List.nil_subset _
      · exact List.subset_cons_of_subset _ (List.subset_cons_of_subset _ (ih h))
  | case4 c cs _ _ hnone ih =>
      rw [List.mem_singleton.mp h]
      exact List.cons_subset_cons _ (List.nil_subset _)
  | case5 c cs _ _ first behind hlines ih =>
      rcases List.mem_cons.mp h with rfl | h
      · exact List.cons_subset_cons _ (ih (hlines ▸ List.mem_cons_self))
      · exact List.subset_cons_of_subset _ (ih (hlines ▸ List.mem_cons_of_mem _ h))

/-- The end of a line is a line feed with the carriage return in front of it. -/
theorem lines_append_return (hfeed : '\n' ∉ cs) (back : List Char) :
    lines (cs ++ '\r' :: '\n' :: back) = cs :: lines back := by
  induction cs with
  | nil => rfl
  | cons c cs ih =>
      refine lines_cons (List.ne_of_not_mem_cons hfeed).symm ?_ (ih (List.not_mem_of_not_mem_cons hfeed))
      -- A carriage return among the characters stands in front of no line feed.
      rintro ds - hds
      cases cs with
      | nil => cases hds
      | cons d ds' =>
          cases hds
          exact hfeed (List.mem_cons_of_mem c List.mem_cons_self)

/-- A line feed ends the line in front of it, of which it may take a carriage return. -/
theorem exists_lines_feed (hfeed : '\n' ∉ cs) (back : List Char) :
    ∃ line, lines (cs ++ '\n' :: back) = line :: lines back ∧ trimmed line = trimmed cs := by
  by_cases hreturn : cs.getLast? = some '\r'
  · rcases List.getLast?_eq_some_iff.mp hreturn with ⟨line, rfl⟩
    have hline : '\n' ∉ line := fun hmem => hfeed (List.mem_append_left _ hmem)
    refine ⟨line, ?_, (trimmed_append line (List.forall_mem_singleton.mpr rfl)).symm⟩
    rw [List.append_assoc]
    exact lines_append_return hline back
  · exact ⟨cs, IsLine.lines_append ⟨hfeed, hreturn⟩ back, rfl⟩

/-- Characters without a line feed are a line by themselves, if there are any. -/
theorem lines_of_notMem (hfeed : '\n' ∉ cs) : lines cs = if cs = [] then [] else [cs] := by
  induction cs with
  | nil => rfl
  | cons c cs ih =>
      have hc : c ≠ '\n' := (List.ne_of_not_mem_cons hfeed).symm
      have hcs : '\n' ∉ cs := List.not_mem_of_not_mem_cons hfeed
      have ih := ih hcs
      rw [if_neg (List.cons_ne_nil c cs), lines, ih]
      · cases cs with
        | nil => rfl
        | cons d ds => rfl
      · exact hc
      · rintro ds - rfl
        exact hcs List.mem_cons_self

/-- The last line of a text starts behind its last line feed. -/
theorem exists_lastLine (cs : List Char) :
    ∃ front last, cs = front ++ last ∧ Ended front ∧ '\n' ∉ last := by
  refine ⟨cs.rdropWhile (· ≠ '\n'), cs.rtakeWhile (· ≠ '\n'),
    List.rdropWhile_append_rtakeWhile.symm, ?_, ?_⟩
  · intro c hc
    rcases List.mem_getLast?_eq_getLast hc with ⟨hnonempty, rfl⟩
    simpa using List.rdropWhile_last_not _ cs hnonempty
  · intro hmem
    simpa using List.mem_rtakeWhile_imp hmem

end Lines

/-- A change leaves the lines with content, up to the blanks at their ends. -/
theorem Respaced.contents_lines {text text' : List Char} (h : Respaced text text') :
    contents (lines text) = contents (lines text') := by
  cases h with
  | @blankLines front blank back hfront hblank hall =>
      -- The blanks are lines by themselves, since the text in front of them is ended.
      have hnone : contents (lines blank) = [] := contents_of_blank fun raw hraw =>
        List.all_eq_true.mpr fun c hc => hall c (subset_of_mem_lines hraw hc)
      rw [List.append_assoc, lines_append hfront, lines_append hfront, lines_append hblank,
        contents_append, contents_append, contents_append, hnone, List.nil_append]
  | carriageReturn front back =>
      -- Only the line that the change is in has to be looked at.
      rcases exists_lastLine front with ⟨front, last, rfl, hended, hfeed⟩
      rcases exists_lines_feed hfeed back with ⟨line, hline, htrimmed⟩
      rw [List.append_assoc, List.append_assoc, lines_append hended, lines_append hended, hline,
        lines_append_return hfeed, contents_append, contents_append, contents_cons_congr htrimmed]
  | finalFeed =>
      rcases exists_lastLine text with ⟨front, last, rfl, hended, hfeed⟩
      rcases exists_lines_feed hfeed [] with ⟨line, hline, htrimmed⟩
      rw [List.append_assoc, lines_append hended, lines_append hended, hline, lines_of_notMem hfeed,
        contents_append, contents_append, contents_cons_congr htrimmed]
      split
      next hnil =>
        -- A text whose last line is ended gets a blank line.
        subst hnil
        rfl
      next => rfl

theorem contents_lines_of_eqvGen {text text' : List Char} (h : Relation.EqvGen Respaced text text') :
    contents (lines text) = contents (lines text') := by
  induction h with
  | rel _ _ hchange => exact hchange.contents_lines
  | refl => rfl
  | symm _ _ _ ih => exact ih.symm
  | trans _ _ _ _ _ ih ih' => exact ih.trans ih'

end Text
end Offside
