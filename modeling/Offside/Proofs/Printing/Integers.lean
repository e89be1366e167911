import Offside.Proofs.Evaluation.Printing
import Offside.Proofs.Lexis.Integers
import Offside.Proofs.Printing.RoundTrip

/-!
# Integers — printed integers that are read back

The text of a negative integer starts with a sign, and in a program that sign is an operator in front of
another integer.  This file follows an integer through its text and back:

- `Node.ofInt` : the expression that the text of an integer stands for
- `ReadBack`   : the text of an integer is read as that expression, and its value is the integer
- `Refused`    : no program has a sign with these digits behind it

All integers are read back but the least one, since the opposite of that is no word.  The main statement,
`integers_read_back`, starts with single runs of digits and ends with whole programs.
-/

namespace Offside

open Grammar

/-! ## Words and their opposites -/

section Words

variable {n : Int64}

theorem toInt_lt_zero (h : n < 0) : n.toInt < 0 :=
  Int64.lt_iff_toInt_lt.mp h

theorem toInt_nonneg (h : ¬n < 0) : 0 ≤ n.toInt :=
  Int.not_lt.mp fun hneg => h (Int64.lt_iff_toInt_lt.mpr hneg)

/-- Of the integers below zero only the least one has no opposite. -/
theorem toInt_opposite (h : n ≠ Int64.minValue) : (-n).toInt = -n.toInt := by
  have hleast : n.toInt ≠ -2 ^ 63 := fun heq => h (Int64.toInt_inj.mp heq)
  have hlow := n.le_toInt
  have hhigh := n.toInt_lt
  rw [Int64.toInt_neg]
  exact Int.bmod_eq_of_le (by omega) (by omega)

end Words

/-! ## The text of an integer -/

namespace Node

variable {n : Int64}

/-- An integer as an expression. There are no literals below zero. -/
def ofInt (n : Int64) : Node :=
  if n < 0 then .signed .minus (.constant (.int (-n))) else .constant (.int n)

theorem ofInt_of_neg (h : n < 0) : ofInt n = .signed .minus (.constant (.int (-n))) :=
  if_pos h

theorem ofInt_of_nonneg (h : ¬n < 0) : ofInt n = .constant (.int n) :=
  if_neg h

/-- What is printed for an integer is what is written for its expression. -/
theorem source_ofInt (h : n ≠ Int64.minValue) : (ofInt n).source = (Value.int n).text := by
  rw [Value.text, Int.toString_eq_repr, Int.repr_eq_if]
  by_cases hneg : n < 0
  · rw [ofInt_of_neg hneg, if_neg (Int.not_le.mpr (toInt_lt_zero hneg)), ← toInt_opposite h]
    exact @String.ofList_append ['-'] _
  · rw [ofInt_of_nonneg hneg, if_pos (toInt_nonneg hneg)]
    rfl

theorem isWritten_integer (h : 0 ≤ n.toInt) : (Kind.integer n).isWritten = true :=
  decide_eq_true (Int64.le_iff_toInt_le.mpr h)

theorem isWritten_kinds_ofInt (h : n ≠ Int64.minValue) :
    ∀ k ∈ (ofInt n).kinds, k.isWritten = true := by
  by_cases hneg : n < 0
  · have hopposite : 0 ≤ (-n).toInt := by
      have hlt := toInt_lt_zero hneg
      rw [toInt_opposite h]
      omega
    rw [ofInt_of_neg hneg]
    exact List.forall_mem_cons.mpr
      ⟨rfl, List.forall_mem_singleton.mpr (isWritten_integer hopposite)⟩
  · rw [ofInt_of_nonneg hneg]
    exact List.forall_mem_singleton.mpr (isWritten_integer (toInt_nonneg hneg))

end Node

/-! ## Reading the text -/

section Reading

variable {n : Int64}

/-- In front of anything but a digit the tokens are read from the text. -/
theorem Layout.Reads.ofInt (h : n ≠ Int64.minValue) {later : List Char} {ks : List Kind}
    (hlater : ∀ d ∈ later.head?, d.isDigit = false) (hreads : Layout.Reads later ks) :
    Layout.Reads ((Value.int n).text.toList ++ later) ((Node.ofInt n).kinds ++ ks) := by
  have hwritten := Node.isWritten_kinds_ofInt h
  rw [← Node.source_ofInt h, Node.source, String.toList_ofList]
  by_cases hneg : n < 0
  · rw [Node.ofInt_of_neg hneg] at hwritten ⊢
    have hlast := (List.forall_mem_cons.mp hwritten).2 (.integer (-n)) List.mem_cons_self
    have hdigits := Layout.Reads.of_spells (Kind.spells_lexeme hlast) hlater hreads
    have hsign : Layout.Reads (['-'] ++ (Kind.lexeme (.integer (-n)) ++ later))
        (.punct .minus :: .integer (-n) :: ks) :=
      .of_spells (.punct .minus) (fun _ _ => rfl) hdigits
    exact hsign
  · rw [Node.ofInt_of_nonneg hneg] at hwritten ⊢
    have hlast := hwritten (.integer n) List.mem_cons_self
    exact .of_spells (Kind.spells_lexeme hlast) hlater hreads

namespace Grammar

theorem writes_ofInt (classes : List Class) (n : Int64) :
    Writes classes (.expr .factor) (Node.ofInt n).kinds (Node.ofInt n) := by
  by_cases hneg : n < 0
  · rw [Node.ofInt_of_neg hneg]
    exact (Writes.literal classes (.integer (-n))).above.signed .minus
  · rw [Node.ofInt_of_nonneg hneg]
    exact (Writes.literal classes (.integer n)).above

/-- A phrase with the tokens that are written for something stands for that. -/
theorem Writes.meaning_eq {classes : List Class} {r : Rung} {ks : List Kind} {x : Node}
    (h : Writes classes (.expr r) ks x) (d : Phrase (.expr r)) (hd : d.kinds = ks) :
    d.meaning classes = some (x, classes) := by
  rcases h with ⟨d', rfl, hmeaning⟩
  have hstops : (Symbol.expr r).stops .endOfInput = true := by
    cases r with
    | chain l => cases l <;> rfl
    | _ => rfl
  have hends : d.kinds ++ Kind.endOfInput :: [] = d'.kinds ++ Kind.endOfInput :: [] := by rw [hd]
  have hdetermined := Phrase.determined (s := .expr r) trivial d
  rw [(hdetermined d' _ _ [] [] hstops hstops hends).1]
  exact hmeaning

/-- The line of a print statement with one argument. -/
theorem Writes.print {classes : List Class} {ks : List Kind} {x : Node}
    (h : Writes classes .expression ks x) :
    Writes classes .statement
      (.keyword .printKw :: .punct .leftParen :: ks ++ [.punct .rightParen, .newline])
      (.print [x]) := by
  rcases h.items .done with ⟨args, hkinds, hargs⟩
  refine ⟨.simple (.print (.present args)), ?_, ?_⟩
  · simp [hkinds]
  · exact Reading.map_of_some (Reading.map_of_some hargs)

/-- One statement of one line behind a program. -/
theorem parse_line_behind {source : String} {p : Program} {x : Node} {c : Char} {cs : List Char}
    {ks : List Kind} (h : Program.parse source = .ok p) (hended : Text.Ended source.toList)
    (hline : Text.IsLine (c :: cs)) (hhead : Text.isBlank c = false)
    (hreads : Layout.Reads (c :: cs) ks)
    (hx : ∀ classes, Writes classes .statement (ks ++ [.newline]) x) :
    Program.parse (source ++ String.ofList (c :: cs ++ ['\n'])) = .ok ⟨p.statements ++ [x]⟩ := by
  rcases tokenize_singleton hline hhead hreads with ⟨tokens, htokens, hkinds⟩
  have hback : tokens.map (·.kind) = ks ++ [.newline] ++ [.endOfInput] := by simpa using hkinds
  refine parse_statement_behind h hended ⟨tokens, htokens, hback⟩ ?_ fun classes _ _ => hx classes
  intro line hmem
  rw [String.toList_ofList] at hmem
  exact Layout.spaces_singleton hline hhead line (List.mem_of_mem_head? hmem)

end Grammar

end Reading

/-- The text of an integer is read as the expression of the integer, and the value of that is the
integer. -/
structure ReadBack (n : Int64) : Prop where
  /-- This is the text that is printed. -/
  printed : ∀ depth, render (depth + 1) (.int n) = pure (Value.int n).text
  /-- In a line the text gives the tokens of the expression. -/
  reads : ∀ (later : List Char) (ks : List Kind), (∀ d ∈ later.head?, d.isDigit = false) →
    Layout.Reads later ks →
      Layout.Reads ((Value.int n).text.toList ++ later) ((Node.ofInt n).kinds ++ ks)
  /-- The tokens stand for the expression wherever there may be an expression with a sign. -/
  means : ∀ (r : Rung), Rung.factor.height ≤ r.height → ∀ classes,
    (∃ d : Phrase (.expr r), d.kinds = (Node.ofInt n).kinds)
      ∧ ∀ d : Phrase (.expr r), d.kinds = (Node.ofInt n).kinds →
        d.meaning classes = some (Node.ofInt n, classes)
  evaluates : ∀ depth f, eval (depth + 2) (Node.ofInt n) f = .ok (.int n) f
  /-- A program that goes on with an assignment of the text. -/
  assigned : ∀ (source : String) (p : Program), Program.parse source = .ok p →
    Text.Ended source.toList →
      Program.parse (source ++ "x = " ++ (Value.int n).text ++ "\n")
        = .ok ⟨p.statements ++ [.assign "x" (Node.ofInt n)]⟩
  /-- A program that prints the text prints it again. -/
  printedAgain : ∀ (source : String) (p : Program), Program.parse source = .ok p →
    Text.Ended source.toList →
      Program.parse (source ++ "print(" ++ (Value.int n).text ++ ")\n")
          = .ok ⟨p.statements ++ [.print [Node.ofInt n]]⟩
        ∧ ∀ depth f, eval (depth + 3) (.print [Node.ofInt n]) f
          = Exec.printLine [(Value.int n).text] f

section Integers

variable {n : Int64}

theorem eval_ofInt (n : Int64) (depth : Nat) (f : Frame) :
    eval (depth + 2) (Node.ofInt n) f = .ok (.int n) f := by
  by_cases hneg : n < 0
  · have hvalue : eval (depth + 2) (.signed .minus (.constant (.int (-n)))) f = .ok (.int (- -n)) f :=
      rfl
    rw [Node.ofInt_of_neg hneg, hvalue, Int64.neg_neg]
  · rw [Node.ofInt_of_nonneg hneg]
    rfl

theorem eval_print_ofInt (n : Int64) (depth : Nat) (f : Frame) :
    eval (depth + 3) (.print [Node.ofInt n]) f = Exec.printLine [(Value.int n).text] f := by
  have hshown : Exec.shown (depth + 2) (Node.ofInt n) f = .ok (Value.int n).text f := by
    rw [Exec.shown, bind_of_ok (eval_ofInt n depth f), render_plain rfl, Exec.ofRun_pure]
    rfl
  have htexts : Exec.each (Exec.shown (depth + 2)) [Node.ofInt n] f = .ok [(Value.int n).text] f := by
    rw [Exec.each, bind_of_ok hshown]
    rfl
  rw [eval_print, bind_of_ok htexts]

theorem isLine_text (h : n ≠ Int64.minValue) : Text.IsLine (Value.int n).text.toList := by
  rw [← Node.source_ofInt h, Node.source, String.toList_ofList]
  exact Kind.isLine_written (Node.isWritten_kinds_ofInt h) false

theorem parse_assign_ofInt (hn : n ≠ Int64.minValue) {source : String} {p : Program}
    (h : Program.parse source = .ok p) (hended : Text.Ended source.toList) :
    Program.parse (source ++ "x = " ++ (Value.int n).text ++ "\n")
      = .ok ⟨p.statements ++ [.assign "x" (Node.ofInt n)]⟩ := by
  let text := (Value.int n).text.toList
  have htext : source ++ "x = " ++ (Value.int n).text ++ "\n"
      = source ++ String.ofList ('x' :: ' ' :: '=' :: ' ' :: text ++ ['\n']) := by
    rw [← String.toList_inj]
    simp [text]
  have hline : Text.IsLine ('x' :: ' ' :: '=' :: ' ' :: text) := by
    have hvalue : Text.IsLine ('=' :: ' ' :: text) :=
      ((isLine_text hn).cons (by decide) (by decide)).cons (by decide) (by decide)
    exact (hvalue.cons (by decide) (by decide)).cons (by decide) (by decide)
  have hreads : Layout.Reads text (Node.ofInt n).kinds := by
    have hvalue : Layout.Reads (text ++ []) ((Node.ofInt n).kinds ++ []) := .ofInt hn nofun (.done rfl)
    rwa [List.append_nil, List.append_nil] at hvalue
  rw [htext]
  refine parse_line_behind h hended hline rfl hreads.assignment fun classes => ?_
  exact (writes_ofInt classes n).expression.assign "x"

theorem parse_print_ofInt (hn : n ≠ Int64.minValue) {source : String} {p : Program}
    (h : Program.parse source = .ok p) (hended : Text.Ended source.toList) :
    Program.parse (source ++ "print(" ++ (Value.int n).text ++ ")\n")
      = .ok ⟨p.statements ++ [.print [Node.ofInt n]]⟩ := by
  let text := (Value.int n).text.toList
  let word := ['p', 'r', 'i', 'n', 't']
  have htext : source ++ "print(" ++ (Value.int n).text ++ ")\n"
      = source ++ String.ofList (word ++ '(' :: (text ++ [')']) ++ ['\n']) := by
    rw [← String.toList_inj]
    simp [text, word]
  have hline : Text.IsLine (word ++ '(' :: (text ++ [')'])) := by
    have hparen : Text.IsLine [')'] := ⟨by decide, by decide⟩
    exact ((hparen.append (isLine_text hn).noFeed).cons (by decide) (by decide)).append (by decide)
  have hreads : Layout.Reads (word ++ '(' :: (text ++ [')']))
      (.keyword .printKw :: .punct .leftParen :: ((Node.ofInt n).kinds ++ [.punct .rightParen])) := by
    have hclose : Layout.Reads ([')'] ++ []) [.punct .rightParen] :=
      .of_spells (.punct .rightParen) nofun (.done rfl)
    have hnoDigit : ∀ d ∈ [')'].head?, d.isDigit = false := by
      rintro d ⟨⟩
      rfl
    have hargument : Layout.Reads (text ++ [')']) ((Node.ofInt n).kinds ++ [.punct .rightParen]) :=
      .ofInt hn hnoDigit hclose
    have hopened : Layout.Reads (['('] ++ (text ++ [')']))
        (.punct .leftParen :: ((Node.ofInt n).kinds ++ [.punct .rightParen])) :=
      .of_spells (.punct .leftParen) (fun _ _ => rfl) hargument
    have hmaximal : (Kind.keyword .printKw).Maximal ('(' :: (text ++ [')'])) := by
      intro c hc
      rw [← Option.mem_some_iff.mp hc]
      decide
    exact .of_spells (Kind.spells_lexeme (k := .keyword .printKw) rfl) hmaximal hopened
  rw [htext]
  refine parse_line_behind h hended hline rfl hreads fun classes => ?_
  simpa using (writes_ofInt classes n).expression.print

theorem readBack (hn : n ≠ Int64.minValue) : ReadBack n where
  printed := render_plain rfl
  reads _ _ := .ofInt hn
  means r hle classes := by
    have hwrites := (writes_ofInt classes n).loosen hle
    refine ⟨?_, hwrites.meaning_eq⟩
    rcases hwrites with ⟨d, hkinds, -⟩
    exact ⟨d, hkinds⟩
  evaluates := eval_ofInt n
  assigned _ _ := parse_assign_ofInt hn
  printedAgain _ _ h hended := ⟨parse_print_ofInt hn h hended, eval_print_ofInt n⟩

end Integers

/-! ## Too great a number behind a sign -/

/-- The digits are read as no integer, so that a sign with them behind it is no expression. -/
structure Refused (digits : List Char) : Prop where
  /-- The lexer gives the sign, and in place of an integer an error with the digits. -/
  scans : ∀ (l : Lexer) (before gap later : List Char), l.level = l.cursor.level →
    l.cursor.Stands before → l.cursor.rest = gap ++ '-' :: digits ++ later →
      (∀ d ∈ gap, Text.isBlank d = true) → (∀ d ∈ later.head?, d.isDigit = false) →
        ∃ place after last, l.scan = (.ok ⟨.punct .minus, place⟩, after)
          ∧ after.scan
            = (.error (.invalidInteger (String.ofList digits) ⟨place.line, place.column + 1⟩), last)
  /-- Whatever tokens stand in front of them in their line, the text is no program. -/
  parses : ∀ (source : String) (raw : List Char), raw ∈ Text.lines source.toList →
    ∀ (number : Nat) (tokens : List Token) (after gap later : List Char),
      Covers number (Text.indentation raw) (Text.unindented raw) tokens after
        (gap ++ '-' :: digits ++ later) →
      gap.all Text.isBlank = true → (∀ d ∈ later.head?, d.isDigit = false) →
        ∃ e, Program.parse source = .error e

section Refused

variable {digits : List Char}

theorem Lexeme.read_minus (later : List Char) :
    read '-' later = ⟨.ok (.punct .minus), ['-'], later⟩ :=
  read_of_spells (.punct .minus) fun _ _ => rfl

theorem refused (hdigits : ∀ d ∈ digits, d.isDigit = true)
    (hexceeds : Lexeme.maxInteger < Text.value digits) : Refused digits := by
  have hnonempty : digits ≠ [] := by
    rintro rfl
    exact absurd hexceeds (Nat.not_lt_zero _)
  constructor
  · intro l before gap later hlevel hstands hrest hgap hlater
    have hsplit : l.cursor.rest = gap ++ '-' :: (digits ++ later) := by
      rw [hrest, List.append_assoc, List.cons_append]
    have hsign := Lexer.scan_behind hlevel hstands hsplit hgap rfl
    rw [Lexeme.read_minus] at hsign
    let after : Lexer :=
      { l with cursor := l.cursor.moveOver (gap ++ ['-']) (digits ++ later) }
    have hbehind : after.cursor.Stands (before ++ (gap ++ ['-'])) := by
      refine hstands.moveOver ?_
      rw [hsplit, List.append_assoc, List.singleton_append]
    have hreads : after.ReadsInteger (before ++ (gap ++ ['-'])) [] digits later :=
      Lexer.readsInteger hlevel hbehind rfl nofun hnonempty hdigits hlater
    have hcolumn : Text.byteSize (before ++ (gap ++ ['-']) ++ [])
        = Text.byteSize (before ++ gap) + 1 := by
      have hone : '-'.utf8Size = 1 := by decide
      simp [hone, Nat.add_assoc]
    have hfails := hreads.exceeds hexceeds
    rw [hcolumn] at hfails
    exact ⟨_, after, _, hsign, hfails⟩
  · intro source raw hraw number tokens after gap later hcovers hgap hlater
    cases hparse : Program.parse source with
    | error e => exact ⟨e, rfl⟩
    | ok p =>
        exfalso
        -- A program has tokens up to the end of each of its lines, this one too.
        rcases exists_derivation_of_parse hparse with ⟨tokens', htokens, -⟩
        have haccepted := (exists_tokenize_iff source).mp ⟨tokens', htokens⟩ raw hraw
        have hcontent : raw.all Text.isBlank = false := by
          have hall := hcovers.append_eq
          rw [Text.indentation_append_unindented] at hall
          rw [← hall]
          simp [Text.isBlank]
        rcases haccepted hcontent with ⟨-, ks, hreads⟩
        rcases hcovers.reads hreads with ⟨ks', hrest⟩
        rw [List.append_assoc, List.cons_append] at hrest
        rcases hrest.exists_token hgap rfl with ⟨-, ks'', -, hbehind⟩
        rw [Lexeme.read_minus] at hbehind
        exact absurd hexceeds (Nat.not_lt_of_le (hbehind.value_le hnonempty hdigits hlater))

end Refused

/-! ## All integers -/

/-- The digits of the least integer. -/
def leastDigits : List Char :=
  "9223372036854775808".toList

theorem text_minValue : (Value.int Int64.minValue).text.toList = '-' :: leastDigits := by
  decide +kernel

theorem refused_leastDigits : Refused leastDigits := by
  have hdigits : leastDigits.all Char.isDigit = true := by decide +kernel
  have hvalue : Lexeme.decimal leastDigits = 2 ^ 63 := by decide +kernel
  refine refused (List.all_eq_true.mp hdigits) ?_
  rw [← Text.decimal_eq_value, hvalue, Lexeme.maxInteger]
  decide

/-- A run of digits is read as the word of its number, where there is one, and is an error as a whole
where there is none.  So the text of every integer but the least one is read as an expression whose value
is the integer, and the text of the least one is refused. -/
theorem integers_read_back :
    (∀ (l : Lexer) (before gap run later : List Char), l.level = l.cursor.level →
        l.cursor.Stands before → l.cursor.rest = gap ++ run ++ later →
          (∀ d ∈ gap, Text.isBlank d = true) → run ≠ [] → (∀ d ∈ run, d.isDigit = true) →
            (∀ d ∈ later.head?, d.isDigit = false) → l.ReadsInteger before gap run later)
      ∧ (∀ n : Int64, n ≠ Int64.minValue → ReadBack n)
      ∧ (Value.int Int64.minValue).text.toList = '-' :: leastDigits ∧ Refused leastDigits :=
  ⟨fun _ _ _ _ _ => Lexer.readsInteger, fun _ => readBack, text_minValue, refused_leastDigits⟩

/-- Zeros in front of a digit, a negative integer, and the least one in an assignment. -/
theorem integers_read_back_of_zeros :
    let l : Lexer := ⟨.atLine [' ', '0', '0', '7', '+'], 0, true⟩
    l.level = l.cursor.level ∧ l.cursor.Stands [] ∧ l.cursor.rest = [' '] ++ ['0', '0', '7'] ++ ['+']
      ∧ l.scan = (.ok ⟨.integer 7, ⟨1, 2⟩⟩,
        { l with cursor := l.cursor.moveOver [' ', '0', '0', '7'] ['+'] })
      ∧ (-5 : Int64) ≠ Int64.minValue ∧ ReadBack (-5)
      ∧ ∃ e, Program.parse "x = -9223372036854775808" = .error e := by
  intro l
  have hlevel : l.level = l.cursor.level := by decide
  have hstands : l.cursor.Stands [] := ⟨rfl, rfl⟩
  have hscan : l.scan = (.ok ⟨.integer 7, ⟨1, 2⟩⟩,
      { l with cursor := l.cursor.moveOver [' ', '0', '0', '7'] ['+'] }) := by
    have hnoDigit : ∀ d ∈ ['+'].head?, d.isDigit = false := by
      rintro d ⟨⟩
      rfl
    have hreads := integers_read_back.1 l [] [' '] ['0', '0', '7'] ['+'] hlevel hstands rfl
      (List.all_eq_true.mp rfl) nofun (List.all_eq_true.mp rfl) hnoDigit
    have hvalue : Text.value ['0', '0', '7'] = 7 := rfl
    rcases hreads.fits (by rw [hvalue]; decide) with ⟨n, hn, hscan⟩
    have hseven : n = 7 := by
      rw [hvalue] at hn
      exact Int64.toInt_inj.mp hn
    rwa [hseven] at hscan
  have hleast : ∃ e, Program.parse "x = -9223372036854775808" = .error e := by
    let value : List Char := [' '] ++ '-' :: leastDigits ++ []
    let raw : List Char := [] ++ ['x'] ++ ([' '] ++ ['='] ++ value)
    have hraw : raw ∈ Text.lines "x = -9223372036854775808".toList := by decide +kernel
    have hname : (Kind.identifier "x").isWritten = true := by decide +kernel
    have hcovers : Covers 1 [] raw [⟨.identifier "x", _⟩, ⟨.punct .assign, _⟩] ['x', ' ', '=']
        value :=
      .token rfl (Kind.spells_lexeme hname) (Kind.maximal_of_space hname _).2
        (.token rfl (.punct .assign) (Kind.maximal_of_space rfl _).2 .nil)
    exact integers_read_back.2.2.2.parses _ raw hraw 1 _ _ [' '] [] hcovers rfl nofun
  exact ⟨hlevel, hstands, rfl, hscan, by decide, integers_read_back.2.1 (-5) (by decide), hleast⟩

end Offside
