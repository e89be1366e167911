import Offside.Proofs.Classes.Order
import Offside.Proofs.Lexis.Joining
import Offside.Proofs.Printing.Writings

/-!
# Round trip — expressions that are written and read back

This file puts the text of an expression behind a program, as the right side of an assignment, and reads
the whole.  The lexer finds the tokens of the two texts (`tokenize_append`), the program keeps its
derivation with one statement more, and the value of that statement is the expression.  The classes that
the expression creates instances of are found by their names, since those of a program are distinct.
-/

namespace Offside
namespace Grammar

/-- A derivation of the tokens of a text gives its program. -/
theorem parse_of_derivation {source : String} {tokens : List Token} {p : Program}
    (h : tokenize source = .ok tokens) (d : Derivation (tokens.map (·.kind)))
    (hd : d.program? = some p) : Program.parse source = .ok p := by
  have hstream := tokenize_eq_ok_iff.mp h
  have hfault := congrArg Stream.fault hstream
  have htokens : (Stream.ofText source.toList).tokens = tokens := congrArg Stream.tokens hstream
  have hends := ends_answers (Lexer.ofText source.toList) hfault
  rcases exists_before hfault hends with ⟨s, hs, hbefore⟩
  have hbefore : Before (tokens.map (·.kind)) [] s := htokens ▸ hbefore
  rw [Program.parse, Program.read_eq_ofSource, Program.ofSource, hs]
  exact (ofState_eq_ok_iff_derivation hbefore).mpr ⟨d, hd⟩

/-- The classes that are complete at the end of a program are those that it defines. -/
theorem grounded_of_meaning {statements : Phrase (.many .statement)} {xs : List Node}
    {classes : List Class} (h : statements.meaning [] = some (xs, classes)) :
    Grounded classes ∧ classes = (Program.mk xs).classes.reverse := by
  rcases statements.tracks h with ⟨mentions, hmentions, horder, -⟩
  have hprogram : mentions = (Program.mk xs).mentions := Each.eq_mentionsAll hmentions
  subst hprogram
  refine ⟨horder.grounded .nil, ?_⟩
  rw [horder.after_eq, List.append_nil]
  rfl

/-- The classes of a program that is read from a text are well-formed. -/
theorem wellFormed_classes {source : String} {p : Program} (h : Program.parse source = .ok p) :
    ∀ c ∈ p.classes, c.WellFormed := by
  rcases exists_derivation_of_parse h with ⟨tokens, htokens, d, hd⟩
  rcases Derivation.program?_eq_some_iff.mp hd with ⟨classes, hread⟩
  have hadmissible := (layout_of_tokenize htokens).admissible
  rw [← d.kinds_eq] at hadmissible
  have hfront := hadmissible.of_part (List.prefix_append d.statements.kinds _).isInfix
  have hfits := (d.statements.fits hfront (fun c hc => absurd hc List.not_mem_nil) hread).2
  intro c hc
  rw [(grounded_of_meaning hread).2] at hfits
  exact hfits c (List.mem_reverse.mpr hc)

/-- One statement more behind a program. -/
theorem parse_statement_behind {front back : String} {p : Program} {x : Node} {ks : List Kind}
    (h : Program.parse front = .ok p) (hended : Text.Ended front.toList)
    (hback : ∃ tokens, tokenize back = .ok tokens ∧ tokens.map (·.kind) = ks ++ [.endOfInput])
    (hfirst : ∀ line ∈ (Layout.contentLines back.toList).head?, line.spaces = 0)
    (hx : ∀ classes, Grounded classes → classes = p.classes.reverse →
      Writes classes .statement ks x) :
    Program.parse (front ++ back) = .ok ⟨p.statements ++ [x]⟩ := by
  rcases exists_derivation_of_parse h with ⟨tokens, htokens, ⟨statements, hkinds⟩, hd⟩
  rcases Derivation.program?_eq_some_iff.mp hd with ⟨classes, hread⟩
  rcases grounded_of_meaning hread with ⟨hgrounded, hclasses⟩
  rcases hx classes hgrounded hclasses with ⟨statement, rfl, hstatement⟩
  rcases hback with ⟨more, hmore, hmoreKinds⟩
  rcases tokenize_append hended hfirst htokens hmore with ⟨joined, hjoined, hall⟩
  have hderives : (statements.snoc statement).kinds ++ [.endOfInput] = joined.map (·.kind) := by
    rw [hall, hmoreKinds, ← hkinds, List.dropLast_concat, Phrase.kinds_snoc, List.append_assoc]
  refine parse_of_derivation hjoined ⟨statements.snoc statement, hderives⟩ ?_
  exact Derivation.program?_eq_some_iff.mpr
    ⟨classes, Phrase.meaning_snoc statements statement hread hstatement⟩

end Grammar

open Grammar

/-- The line of an assignment is read where its value is. -/
theorem Layout.Reads.assignment {text : List Char} {ks : List Kind} (h : Layout.Reads text ks) :
    Layout.Reads ('x' :: ' ' :: '=' :: ' ' :: text) (.identifier "x" :: .punct .assign :: ks) := by
  have hname : (Kind.identifier "x").isWritten = true := by decide +kernel
  have hvalue : Layout.Reads (' ' :: text) ks := h.cons_blank rfl
  have hmark : Layout.Reads ('=' :: ' ' :: text) (.punct .assign :: ks) :=
    .of_spells (.punct .assign) (Kind.maximal_of_space rfl text).2 hvalue
  have hrest : Layout.Reads (' ' :: '=' :: ' ' :: text) (.punct .assign :: ks) := hmark.cons_blank rfl
  exact .of_spells (Kind.spells_lexeme hname) (Kind.maximal_of_space hname _).2 hrest

/-- An expression that is written down behind a program, as the value of an assignment, is read as it
was. Its constructor calls are of classes of the program. -/
theorem parse_source {source : String} {p : Program} {x : Node} (h : Program.parse source = .ok p)
    (hended : Text.Ended source.toList) (hstr : ∀ c ∈ p.classes, c.name ≠ "str")
    (hx : x.Expression) (hclasses : ∀ c, .constructs c ∈ x.mentions → c ∈ p.classes) :
    Program.parse (source ++ "x = " ++ x.source ++ "\n")
      = .ok ⟨p.statements ++ [.assign "x" x]⟩ := by
  have hwritten : ∀ k ∈ x.kinds, k.isWritten = true :=
    List.all_eq_true.mp (x.isWritten_kinds hx)
  -- The line that is added, as characters.
  let text := Kind.written false x.kinds
  have htext : source ++ "x = " ++ x.source ++ "\n"
      = source ++ String.ofList ('x' :: ' ' :: '=' :: ' ' :: text ++ ['\n']) := by
    rw [← String.toList_inj]
    simp [Node.source, text]
  have hline : Text.IsLine ('x' :: ' ' :: '=' :: ' ' :: text) := by
    have hvalue : Text.IsLine (' ' :: text) :=
      (Kind.isLine_written hwritten false).cons (by decide) (by decide)
    have hmark : Text.IsLine (' ' :: '=' :: ' ' :: text) :=
      (hvalue.cons (by decide) (by decide)).cons (by decide) (by decide)
    exact hmark.cons (by decide) (by decide)
  have hreads := (Kind.reads_written hwritten false).assignment
  rcases tokenize_singleton hline rfl hreads with ⟨tokens, htokens, hkinds⟩
  have hmore : tokens.map (·.kind)
      = (.identifier "x" :: .punct .assign :: x.kinds ++ [.newline]) ++ [.endOfInput] := by
    simpa using hkinds
  rw [htext]
  refine parse_statement_behind h hended ⟨tokens, htokens, hmore⟩ ?_ ?_
  · intro line hmem
    rw [String.toList_ofList] at hmem
    exact Layout.spaces_singleton hline rfl line (List.mem_of_mem_head? hmem)
  · -- Each class is found by its name, and no class has the name of the conversion to text.
    rintro classes hgrounded rfl
    have hnames : Names p.classes.reverse x.mentions := by
      refine ⟨fun c hc => hgrounded.find?_eq_some (List.mem_reverse.mpr (hclasses c hc)), ?_⟩
      refine List.find?_eq_none.mpr fun c hc => ?_
      simpa using hstr c (List.mem_reverse.mp hc)
    have hwrites := (writes_kinds x hx hnames).1
    exact hwrites.expression.assign "x"

/-- A chain of calls on a new instance, on the right of an operator of the same level. -/
theorem parse_source_chain :
    ∃ p c, Program.parse "class A:\n  def m(self, x):\n    return x\n" = .ok p ∧ c ∈ p.classes
      ∧ Program.parse "class A:\n  def m(self, x):\n    return x\nx = 1 - (A().m(\"\\\"\") - -a.b)\n"
        = .ok ⟨p.statements ++ [.assign "x" (.arithmetic .sub (.constant (.int 1))
            (.arithmetic .sub (.call (.construct c []) "m" [.constant (.str "\"")])
              (.signed .minus (.variable ["a", "b"]))))]⟩ := by
  have hread : Program.definesClasses ["A"]
      (Program.parse "class A:\n  def m(self, x):\n    return x\n") = true := by
    decide +kernel
  rcases Program.exists_of_definesClasses hread with ⟨p, hparse, hnames⟩
  rcases List.map_eq_singleton_iff.mp hnames with ⟨c, hclasses, hname⟩
  have hc : c ∈ p.classes := hclasses ▸ List.mem_singleton_self c
  have hwellFormed := wellFormed_classes hparse c hc
  let x : Node := .arithmetic .sub (.constant (.int 1))
    (.arithmetic .sub (.call (.construct c []) "m" [.constant (.str "\"")])
      (.signed .minus (.variable ["a", "b"])))
  have hx : x.Expression := by
    have hpath : ∀ name ∈ ["a", "b"], isName name = true := by decide +kernel
    have hargs : ∀ y ∈ [Node.constant (.str "\"")], y.Expression :=
      List.forall_mem_singleton.mpr (.constant rfl)
    have hnone : ∀ y ∈ ([] : List Node), y.Expression := nofun
    have hmethod : isName "m" = true := by decide +kernel
    have hnonempty : ["a", "b"] ≠ [] := nofun
    have hpathed : (Node.variable ["a", "b"]).Expression := .variable hnonempty hpath
    have hcall : (Node.call (.construct c []) "m" [.constant (.str "\"")]).Expression :=
      .call (.construct hwellFormed hnone) hmethod hargs
    exact .arithmetic (.constant rfl) (.arithmetic hcall (.signed hpathed))
  have hmentions : ∀ d, .constructs d ∈ x.mentions → d ∈ p.classes := by
    intro d hd
    simp only [x, Node.mentions, Node.mentionsAll, List.append_nil, List.nil_append,
      List.mem_singleton, Mention.constructs.injEq] at hd
    exact hd ▸ hc
  have hstr : ∀ d ∈ p.classes, d.name ≠ "str" := by
    rw [hclasses, List.forall_mem_singleton, hname]
    decide
  have hsource : x.source = "1 - (A().m(\"\\\"\") - -a.b)" := by
    have hkinds : x.kinds = [.integer 1, .punct .minus, .punct .leftParen, .identifier c.name,
        .punct .leftParen, .punct .rightParen, .punct .dot, .identifier "m", .punct .leftParen,
        .string "\"", .punct .rightParen, .punct .minus, .punct .minus, .identifier "a",
        .punct .dot, .identifier "b", .punct .rightParen] := rfl
    rw [Node.source, hkinds, hname]
    decide +kernel
  have hended : Text.Ended "class A:\n  def m(self, x):\n    return x\n".toList := by
    have hlast : "class A:\n  def m(self, x):\n    return x\n"
        = "class A:\n  def m(self, x):\n    return x" ++ "\n" := by
      decide +kernel
    rw [hlast]
    exact Text.ended_append_feed _
  have hall := parse_source hparse hended hstr hx hmentions
  have htext : "class A:\n  def m(self, x):\n    return x\n" ++ "x = " ++ x.source ++ "\n"
      = "class A:\n  def m(self, x):\n    return x\nx = 1 - (A().m(\"\\\"\") - -a.b)\n" := by
    rw [hsource]
    decide +kernel
  rw [htext] at hall
  exact ⟨p, c, hparse, hc, hall⟩

end Offside
