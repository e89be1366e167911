import Offside.Proofs.Evaluation.Rendering

/-!
# Printing — a print statement shows what a conversion to text gives

A print statement evaluates its arguments and makes a text of each value before it goes on to the next
argument.  The conversion of a value to its text does the same for one operand.  This file compares the two:

- `Exec.shown`  : evaluates a node and gives the text of its value
- `Node.Ends`   : what the evaluation of a node ends with, if it may nest deeply enough

A text is its own text, and nothing is called to find it.  So a conversion of what is a text already does
nothing, be it around an argument of a print statement or around another conversion: the depth at which
nodes are evaluated is the only thing that it changes (`eval_print_stringify`, `eval_stringify_stringify`).

The main statement, `print_agrees_with_stringify`, is about evaluations without regard to their depth.  The
arguments, and the methods that are asked for texts, may do whatever they like.
-/

namespace Offside

/-! ## Shown values -/

/-- Evaluates a node and gives the text of its value. -/
def Exec.shown (depth : Nat) (x : Node) : Exec String := do
  .ofRun (render depth (← eval depth x))

/-- Writes texts as one line. -/
def Exec.printLine (texts : List String) : Exec Value := do
  .ofRun (.writeLine (String.intercalate " " texts))
  return .none

theorem eval_print (depth : Nat) (args : List Node) :
    eval (depth + 1) (.print args) = (do
      let texts ← Exec.each (Exec.shown depth) args
      Exec.printLine texts) := by
  rw [eval]
  rfl

theorem eval_stringify (depth : Nat) (x : Node) :
    eval (depth + 1) (.stringify x) = (do
      let text ← Exec.shown depth x
      return .str text) := by
  rw [eval, Exec.shown, bind_assoc]

/-- A text is rendered as it is. -/
theorem render_str (depth : Nat) (text : String) : render (depth + 1) (.str text) = pure text :=
  render_plain rfl depth

theorem Exec.ofRun_pure {α : Type} (x : α) : Exec.ofRun (pure x : Run α) = pure x := rfl

/-- The text of what was converted is the text of the operand. -/
theorem shown_stringify (depth : Nat) (x : Node) :
    Exec.shown (depth + 1) (.stringify x) = Exec.shown depth x := by
  calc
    Exec.shown (depth + 1) (.stringify x)
        = (do
            let text ← Exec.shown depth x
            Exec.ofRun (render (depth + 1) (.str text))) := by
          rw [Exec.shown, eval_stringify, bind_assoc]
          simp only [pure_bind]
    _ = Exec.shown depth x := by
          simp only [render_str, Exec.ofRun_pure, bind_pure]

theorem Exec.each_map {α β γ : Type} (f : β → Exec γ) (g : α → β) (xs : List α) :
    Exec.each f (xs.map g) = Exec.each (fun x => f (g x)) xs := by
  induction xs with
  | nil => rfl
  | cons x xs ih => rw [List.map_cons, Exec.each, Exec.each, ih]

/-- One level further down, the arguments of a print statement may be converted first. -/
theorem eval_print_stringify (depth : Nat) (args : List Node) :
    eval (depth + 2) (.print (args.map .stringify)) = eval (depth + 1) (.print args) := by
  -- Argument by argument, so that the effects of one still come before the next is evaluated.
  have hshown : (fun x => Exec.shown (depth + 1) (.stringify x)) = Exec.shown depth := by
    funext x
    exact shown_stringify depth x
  rw [eval_print, eval_print, Exec.each_map, hshown]

theorem eval_stringify_stringify (depth : Nat) (x : Node) :
    eval (depth + 2) (.stringify (.stringify x)) = eval (depth + 1) (.stringify x) := by
  rw [eval_stringify, eval_stringify, shown_stringify]

/-! ## One line -/

/-- What a print statement makes of the conversion of its only argument. A failure is passed on. -/
def printed : EStateM.Result Exit Frame Value → EStateM.Result Exit Frame Value
  | .ok value f => Exec.printLine [value.text] f
  | .error e f => .error e f

theorem eval_print_singleton (depth : Nat) (x : Node) (f : Frame) :
    eval (depth + 1) (.print [x]) f = printed (eval (depth + 1) (.stringify x) f) := by
  have hline : eval (depth + 1) (.print [x]) = (do
      let value ← eval (depth + 1) (.stringify x)
      Exec.printLine [value.text]) := by
    rw [eval_print, eval_stringify]
    simp only [Exec.each, bind_assoc, pure_bind, Value.text]
  rw [hline]
  cases hvalue : eval (depth + 1) (.stringify x) f with
  | ok value g => exact bind_of_ok hvalue
  | error e g => exact bind_of_error hvalue

/-- The frame with more bytes in its output. -/
def Frame.wrote (f : Frame) (bytes : ByteArray) : Frame :=
  { f with machine := { f.machine with
      sink := { f.machine.sink with written := f.machine.sink.written ++ bytes } } }

/-- The bytes of a text and a line end. -/
def lineBytes (text : String) : ByteArray :=
  (text ++ "\n").toUTF8

theorem printLine_singleton (text : String) :
    Exec.printLine [text] = (do
      Exec.ofRun (.writeLine text)
      return .none) := by
  rw [Exec.printLine, String.intercalate_singleton]

theorem printLine_of_fits {f : Frame} {text : String}
    (h : f.machine.sink.fits (lineBytes text).size = true) :
    Exec.printLine [text] f = .ok .none (f.wrote (lineBytes text)) := by
  have hwrite : Run.writeLine text f.machine = .ok () (f.wrote (lineBytes text)).machine := by
    rw [Run.writeLine, ← lineBytes, Sink.write, if_pos h]
    rfl
  have hstep : Exec.ofRun (Run.writeLine text) f = .ok () (f.wrote (lineBytes text)) := by
    rw [Exec.ofRun, hwrite]
    rfl
  rw [printLine_singleton]
  exact bind_of_ok hstep

/-- Of a line that does not fit, the sink takes the bytes for which there is room. -/
theorem printLine_of_not_fits {f : Frame} {text : String}
    (h : f.machine.sink.fits (lineBytes text).size = false) :
    Exec.printLine [text] f = .error (.fault (.error (.output "sink full")))
      (f.wrote ((lineBytes text).extract 0
        (f.machine.sink.capacity.getD 0 - f.machine.sink.written.size))) := by
  have hfull : ¬f.machine.sink.fits (lineBytes text).size = true := by
    rw [h]
    exact Bool.false_ne_true
  have hwrite : Run.writeLine text f.machine = .error (.error (.output "sink full"))
      (f.wrote ((lineBytes text).extract 0
        (f.machine.sink.capacity.getD 0 - f.machine.sink.written.size))).machine := by
    rw [Run.writeLine, ← lineBytes, Sink.write, if_neg hfull]
    rfl
  have hstep : Exec.ofRun (Run.writeLine text) f = .error (.fault (.error (.output "sink full")))
      (f.wrote ((lineBytes text).extract 0
        (f.machine.sink.capacity.getD 0 - f.machine.sink.written.size))) := by
    rw [Exec.ofRun, hwrite]
    rfl
  rw [printLine_singleton]
  exact bind_of_error hstep

/-! ## Evaluations of any depth -/

/-- Evaluated deeply enough, the node ends so in the frame. An evaluation that is cut off has not ended. -/
def Node.Ends (x : Node) (f : Frame) (r : EStateM.Result Exit Frame Value) : Prop :=
  ∃ depth, eval depth x f = r ∧ ¬FailsWith (.fault .exhausted) r

namespace Node.Ends

variable {x y : Node} {f : Frame} {r : EStateM.Result Exit Frame Value}

/-- What ends at some depth ends alike at all greater ones. -/
theorem deeper (h : x.Ends f r) : ∃ depth, ∀ d, depth ≤ d → eval d x f = r := by
  rcases h with ⟨depth, rfl, hends⟩
  exact ⟨depth, fun d hd => eval_deeper hd hends⟩

theorem not_failsWith (h : x.Ends f r) : ¬FailsWith (.fault .exhausted) r := by
  rcases h with ⟨depth, -, hends⟩
  exact hends

/-- There is one way to end. -/
theorem unique {r' : EStateM.Result Exit Frame Value} (h : x.Ends f r) (h' : x.Ends f r') :
    r = r' := by
  rcases h.deeper with ⟨depth, hdepth⟩
  rcases h'.deeper with ⟨depth', hdepth'⟩
  rw [← hdepth _ (Nat.le_max_left depth depth'), hdepth' _ (Nat.le_max_right depth depth')]

/-- A node that does one level further down what another one does ends where that one ends. -/
theorem iff_of_eval_eq (h : ∀ depth, eval (depth + 2) y = eval (depth + 1) x) :
    y.Ends f r ↔ x.Ends f r := by
  constructor
  · intro hy
    rcases hy.deeper with ⟨depth, hdepth⟩
    refine ⟨depth + 1, ?_, hy.not_failsWith⟩
    rw [← h]
    exact hdepth _ (Nat.le_add_right depth 2)
  · intro hx
    rcases hx.deeper with ⟨depth, hdepth⟩
    refine ⟨depth + 2, ?_, hx.not_failsWith⟩
    rw [h]
    exact hdepth _ (Nat.le_add_right depth 1)

end Node.Ends

/-- Writing a line takes no depth. -/
theorem failsWith_printed_iff {r : EStateM.Result Exit Frame Value} :
    FailsWith (.fault .exhausted) (printed r) ↔ FailsWith (.fault .exhausted) r := by
  cases r with
  | error e g => exact Iff.rfl
  | ok value g =>
      refine ⟨fun h => ?_, fun h => absurd h not_failsWith_ok⟩
      -- Behind a value the line is written, which fails by the sink if at all.
      rw [printed] at h
      cases hfits : g.machine.sink.fits (lineBytes value.text).size with
      | true =>
          rw [printLine_of_fits hfits] at h
          exact absurd h not_failsWith_ok
      | false =>
          rw [printLine_of_not_fits hfits] at h
          cases failsWith_error.mp h

theorem ends_print_singleton_iff {x : Node} {f : Frame} {r : EStateM.Result Exit Frame Value} :
    (Node.print [x]).Ends f r ↔ ∃ r', (Node.stringify x).Ends f r' ∧ r = printed r' := by
  constructor
  · intro h
    rcases h.deeper with ⟨depth, hdepth⟩
    have hprint := hdepth (depth + 1) (Nat.le_add_right depth 1)
    rw [eval_print_singleton] at hprint
    -- The conversion is evaluated at the same depth, where it must have ended as well.
    have hends := h.not_failsWith
    rw [← hprint, failsWith_printed_iff] at hends
    exact ⟨_, ⟨depth + 1, rfl, hends⟩, hprint.symm⟩
  · rintro ⟨r', h, rfl⟩
    rcases h.deeper with ⟨depth, hdepth⟩
    refine ⟨depth + 1, ?_, mt failsWith_printed_iff.mp h.not_failsWith⟩
    rw [eval_print_singleton, hdepth _ (Nat.le_add_right depth 1)]

/-- What a conversion gives is a text. -/
theorem Node.Ends.exists_text {x : Node} {f g : Frame} {value : Value}
    (h : (Node.stringify x).Ends f (.ok value g)) : ∃ text, value = .str text := by
  rcases h.deeper with ⟨depth, hdepth⟩
  have hstringify := hdepth (depth + 1) (Nat.le_add_right depth 1)
  rw [eval_stringify] at hstringify
  rcases bind_eq_ok hstringify with ⟨text, u, -, htext⟩
  exact ⟨text, (eq_of_pure_eq_ok htext).1.symm⟩

/-! ## Printing and conversion -/

/-- The arguments of a print statement may be converted to texts before, and so may the operand of a
conversion: the outcome is the same, and so are the scope, the store, the output and the journal in the end.
A print statement of one argument ends exactly if the conversion of the argument does. It fails or returns
where that one does, and else it writes the text that the conversion gives, and a line end, behind all that
was written on the way. A sink without room for the line takes what fits, and the statement fails. There is
no other way to end (`Node.Ends.unique`).

What is compared starts from one frame, so from one abstract store, and draws the blocks of its instances
from the one supply of that store, which may give a block again. -/
theorem print_agrees_with_stringify (f : Frame) :
    (∀ args r, (Node.print (args.map .stringify)).Ends f r ↔ (Node.print args).Ends f r)
      ∧ (∀ x r, (Node.stringify (.stringify x)).Ends f r ↔ (Node.stringify x).Ends f r)
      ∧ ∀ x, ((∃ r, (Node.print [x]).Ends f r) ↔ ∃ r, (Node.stringify x).Ends f r)
        ∧ (∀ e g, (Node.stringify x).Ends f (.error e g) → (Node.print [x]).Ends f (.error e g))
        ∧ ∀ value g, (Node.stringify x).Ends f (.ok value g) →
          ∃ text, value = .str text
            ∧ (g.machine.sink.fits (lineBytes text).size = true →
              (Node.print [x]).Ends f (.ok .none (g.wrote (lineBytes text))))
            ∧ (g.machine.sink.fits (lineBytes text).size = false →
              (Node.print [x]).Ends f (.error (.fault (.error (.output "sink full")))
                (g.wrote ((lineBytes text).extract 0
                  (g.machine.sink.capacity.getD 0 - g.machine.sink.written.size))))) := by
  refine ⟨?_, ?_, fun x => ⟨?_, ?_, ?_⟩⟩
  · intro args r
    exact Node.Ends.iff_of_eval_eq fun depth => eval_print_stringify depth args
  · intro x r
    exact Node.Ends.iff_of_eval_eq fun depth => eval_stringify_stringify depth x
  · constructor
    · rintro ⟨r, h⟩
      rcases ends_print_singleton_iff.mp h with ⟨r', h', -⟩
      exact ⟨r', h'⟩
    · rintro ⟨r, h⟩
      exact ⟨_, ends_print_singleton_iff.mpr ⟨r, h, rfl⟩⟩
  · intro e g h
    exact ends_print_singleton_iff.mpr ⟨_, h, rfl⟩
  · intro value g h
    rcases h.exists_text with ⟨text, rfl⟩
    refine ⟨text, rfl, fun hfits => ?_, fun hfits => ?_⟩
    · exact ends_print_singleton_iff.mpr ⟨_, h, (printLine_of_fits hfits).symm⟩
    · exact ends_print_singleton_iff.mpr ⟨_, h, (printLine_of_not_fits hfits).symm⟩

/-- A method that prints while it is asked for a text: its line comes first, and then the text. -/
theorem print_agrees_with_stringify_of_method :
    let shown : Method := ⟨"__str__", ["self"],
      .block [.print [.constant (.str "inner")], .ret (.constant (.str "a"))]⟩
    let x : Node := .construct ⟨"A", none, [shown]⟩ []
    let f : Frame := ⟨.empty, .writingTo .unlimited id⟩
    ∃ g : Frame, (Node.stringify x).Ends f (.ok (.str "a") g)
      ∧ g.machine.sink.written = lineBytes "inner"
      ∧ (Node.print [.stringify x]).Ends f (.ok .none (g.wrote (lineBytes "a"))) := by
  intro shown x f
  let g := endOf (eval 7 (.stringify x) f)
  have hrun : eval 7 (.stringify x) f = .ok (.str "a") g := rfl
  have hends : (Node.stringify x).Ends f (.ok (.str "a") g) := ⟨7, hrun, not_failsWith_ok⟩
  rcases print_agrees_with_stringify f with ⟨hconverted, -, hline⟩
  rcases (hline x).2.2 _ _ hends with ⟨text, htext, hwrites, -⟩
  cases htext
  have hprint : (Node.print [x]).Ends f (.ok .none (g.wrote (lineBytes "a"))) := hwrites rfl
  exact ⟨g, hends, rfl, (hconverted [x] _).mpr hprint⟩

end Offside
