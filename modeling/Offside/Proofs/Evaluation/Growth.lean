import Offside.Proofs.Evaluation.Depth
import Offside.Proofs.Evaluation.Output
import Offside.Proofs.Instances.Keeping

/-!
# Growth — what an evaluation never takes away

Values change while a program runs, but nothing that there was goes away.  This file shows so of every
evaluation, however it ends:

- `Frame.Grows`  : names stay bound, instances stay, and so do the names of their fields
- `Event.output` : the lines that the prints in a record write, in the order in which they complete
- `Writes`       : on a sink without a limit a step adds the output of its record, and nothing else

The output of a record is a fact about its prints alone, so that the line of a print comes after all that
was done for its arguments, and there is no line where one of these fails.  A sink with a limit cuts this
output (`run_limited`); that is not taken up again here.
-/

namespace Offside

open Recorded (silent)

/-! ## Names that stay -/

/-- Every name that is bound in the first scope is bound in the second one. -/
def Scope.Grows (s t : Scope) : Prop :=
  ∀ name, s.contains name = true → t.contains name = true

/-- Every instance of the first store is in the second one and has all the fields that it had. -/
structure Store.Grows (s t : Store) : Prop where
  supply : t.supply = s.supply
  holds : ∀ address, s.Holds address → t.Holds address
  fields : ∀ address, (s.fields address).Grows (t.fields address)

structure Frame.Grows (f g : Frame) : Prop where
  scope : f.scope.Grows g.scope
  store : f.machine.store.Grows g.machine.store

namespace Scope.Grows

variable {s t u : Scope}

theorem refl (s : Scope) : s.Grows s :=
  fun _ h => h

theorem trans (h : s.Grows t) (h' : t.Grows u) : s.Grows u :=
  fun name hname => h' name (h name hname)

theorem insert (s : Scope) (name : String) (value : Value) : s.Grows (s.insert name value) := by
  intro other hother
  rw [contains_eq] at hother ⊢
  by_cases heq : other = name
  · rw [heq, get?_insert_self]
    rfl
  · rw [get?_insert_of_ne s heq]
    exact hother

end Scope.Grows

namespace Store.Grows

variable {s t u : Store}

theorem refl (s : Store) : s.Grows s :=
  ⟨rfl, fun _ h => h, fun _ => .refl _⟩

theorem trans (h : s.Grows t) (h' : t.Grows u) : s.Grows u where
  supply := h'.supply.trans h.supply
  holds address hin := h'.holds address (h.holds address hin)
  fields address := (h.fields address).trans (h'.fields address)

theorem allocate (s : Store) : s.Grows s.allocate where
  supply := rfl
  holds _ hin := holds_allocate.mpr (.inl hin)
  fields address := by
    rw [fields_allocate]
    exact .refl _

theorem setField (s : Store) (address : Address) (field : String) (value : Value) :
    s.Grows (s.setField address field value) where
  supply := supply_setField s address field value
  holds _ hin := holds_setField.mpr hin
  fields other := by
    by_cases heq : other = address
    · subst heq
      by_cases hin : s.Holds other
      · rw [fields_setField_self s hin]
        exact .insert _ _ _
      · -- There is no instance under the address, and no field before the write.
        intro name hname
        rw [Scope.contains_eq, fields_eq_empty hin] at hname
        cases hname
    · rw [fields_setField_of_ne s heq]
      exact .refl _

end Store.Grows

namespace Frame.Grows

variable {f g h : Frame}

theorem refl (f : Frame) : f.Grows f :=
  ⟨.refl _, .refl _⟩

theorem trans (hfg : f.Grows g) (hgh : g.Grows h) : f.Grows h :=
  ⟨hfg.scope.trans hgh.scope, hfg.store.trans hgh.store⟩

end Frame.Grows

/-! ### Steps that keep the names -/

section Steps

variable {ε σ α β : Type} {r : σ → σ → Prop}

/-- The step leads from each state to one that it is related to, whether it fails or not. -/
def Moves (r : σ → σ → Prop) (p : EStateM ε σ α) : Prop :=
  ∀ s, r s (endOf (p s))

theorem Moves.bind (htrans : ∀ {s t u}, r s t → r t u → r s u) {p : EStateM ε σ α}
    {f : α → EStateM ε σ β} (hp : Moves r p) (hf : ∀ x, Moves r (f x)) : Moves r (p >>= f) := by
  intro s
  have hfirst := hp s
  cases hstep : p s with
  | ok x t =>
      rw [hstep] at hfirst
      rw [bind_of_ok hstep]
      exact htrans hfirst (hf x t)
  | error e t =>
      rw [hstep] at hfirst
      rw [bind_of_error hstep]
      exact hfirst

end Steps

/-- A step that looks at the frame only, or fails, leaves all as it is. -/
theorem moves_look {α : Type} {r : Frame → Frame → Prop} (hrefl : ∀ f, r f f) {p : Exec α}
    (find : Frame → Except RuntimeError α) (hp : ∀ f, p f = Exec.ofExcept (find f) f) :
    Moves r p := by
  intro f
  rw [hp, endOf_ofExcept]
  exact hrefl f

theorem moves_writeLine (text : String) :
    Moves (fun m m' => m.store.Grows m'.store) (Run.writeLine text) := by
  intro m
  unfold Run.writeLine
  split
  · exact .refl _
  · exact .refl _

theorem moves_body {p : Exec Value} (hp : Moves Frame.Grows p) (locals : Scope) :
    Moves (fun m m' => m.store.Grows m'.store) (Run.body p locals) := by
  intro m
  have hframe := hp ⟨locals, m⟩
  rw [body_eq_leave, endOf_leave]
  exact hframe.store

theorem moves_ofRun {α : Type} {p : Run α} (hp : Moves (fun m m' => m.store.Grows m'.store) p) :
    Moves Frame.Grows (Exec.ofRun p) := by
  intro f
  have hmachine := hp f.machine
  rw [ofRun_eq]
  cases hstep : p f.machine with
  | ok x m =>
      rw [hstep] at hmachine
      exact ⟨.refl _, hmachine⟩
  | error e m =>
      rw [hstep] at hmachine
      exact ⟨.refl _, hmachine⟩

theorem grows_composition :
    Composition (fun p => Moves (fun m m' => m.store.Grows m'.store) p)
      (fun p => Moves Frame.Grows p) where
  runPure _ _ := .refl _
  runBind := Moves.bind .trans
  runThrow _ _ := .refl _
  notice _ _ := .refl _
  create _ m := .allocate m.store
  setField address field value m := .setField m.store address field value
  writeLine := moves_writeLine
  body := moves_body
  pure _ _ := .refl _
  bind := Moves.bind .trans
  throw _ _ := .refl _
  ofRun := moves_ofRun
  lookup path := moves_look .refl (fun f => f.scope.lookup f.machine.store path) fun _ => rfl
  lookupInstance path :=
    moves_look .refl (fun f => f.scope.lookupInstance f.machine.store path) fun _ => rfl
  assign name value f := ⟨.insert f.scope name value, .refl _⟩

/-! ## Output that is added -/

/-- The sink with a text more on it. -/
def Sink.extend (s : Sink) (text : String) : Sink :=
  { s with written := s.written ++ text.toUTF8 }

namespace Sink

theorem extend_empty (s : Sink) : s.extend "" = s := by
  show { s with written := s.written ++ ByteArray.empty } = s
  rw [ByteArray.append_empty]

theorem extend_append (s : Sink) (text later : String) :
    s.extend (text ++ later) = (s.extend text).extend later := by
  have hbytes : (text ++ later).toUTF8 = text.toUTF8 ++ later.toUTF8 := String.toByteArray_append
  show { s with written := s.written ++ (text ++ later).toUTF8 }
    = { s with written := s.written ++ text.toUTF8 ++ later.toUTF8 }
  rw [hbytes, ByteArray.append_assoc]

end Sink

namespace Event

/-- The line that an event writes, if it is the end of a print. -/
def line? : Event → Option String
  | prints texts => some (String.intercalate " " texts ++ "\n")
  | _ => none

/-- What the prints among the events write. -/
def output (events : List Event) : String :=
  String.join (events.filterMap line?)

theorem output_append (events later : List Event) :
    output (events ++ later) = output events ++ output later := by
  rw [output, List.filterMap_append, String.join_append]
  rfl

theorem output_prints (texts : List String) :
    output [.prints texts] = String.intercalate " " texts ++ "\n" := by
  show String.join [String.intercalate " " texts ++ "\n"] = _
  rw [String.join_cons, String.join_nil, String.append_empty]

/-- Output is made of whole lines. -/
theorem output_eq_empty_or (events : List Event) :
    output events = "" ∨ ∃ text, output events = text ++ "\n" := by
  induction events with
  | nil => exact .inl rfl
  | cons event events ih =>
      have hsplit : output (event :: events) = output [event] ++ output events :=
        output_append [event] events
      rw [hsplit]
      rcases ih with hnone | ⟨text, htext⟩
      · rw [hnone, String.append_empty]
        cases event with
        | prints texts => exact .inr ⟨_, output_prints texts⟩
        | _ => exact .inl rfl
      · refine .inr ⟨output [event] ++ text, ?_⟩
        rw [htext, String.append_assoc]

end Event

section Steps

variable {ε σ α β : Type} {c : Carrier ε σ}

/-- On a sink without a limit the step adds the output of its record. -/
def Writes (c : Carrier ε σ) (p : Recorded ε σ α) : Prop :=
  ∀ s, (c.machine s).sink.capacity = none →
    (c.machine (endOf (p.step s))).sink = (c.machine s).sink.extend (Event.output (p.events s))

namespace Writes

/-- A step that writes nothing, and whose record has no print. -/
theorem of_sink_eq {p : Recorded ε σ α}
    (hsink : ∀ s, (c.machine (endOf (p.step s))).sink = (c.machine s).sink)
    (houtput : ∀ s, Event.output (p.events s) = "") : Writes c p := by
  intro s _
  rw [hsink, houtput, Sink.extend_empty]

theorem bind {p : Recorded ε σ α} {f : α → Recorded ε σ β} (hp : Writes c p)
    (hf : ∀ x, Writes c (f x)) : Writes c (p >>= f) := by
  intro s hs
  have hfirst := hp s hs
  cases hstep : p.step s with
  | ok x t =>
      rw [hstep] at hfirst
      have hsink : (c.machine t).sink = (c.machine s).sink.extend _ := hfirst
      have hcapacity : (c.machine t).sink.capacity = none := by
        rw [hsink]
        exact hs
      have hlater := hf x t hcapacity
      rw [Recorded.step_bind, bind_of_ok hstep, Recorded.events_bind_of_ok hstep, hlater, hsink,
        Event.output_append, Sink.extend_append]
  | error e t =>
      rw [hstep] at hfirst
      rw [Recorded.step_bind, bind_of_error hstep, Recorded.events_bind_of_error hstep]
      exact hfirst

end Writes

end Steps

theorem writes_look {α : Type} {p : Exec α} (find : Frame → Except RuntimeError α)
    (hp : ∀ f, p f = Exec.ofExcept (find f) f) : Writes onFrame (silent p) := by
  refine .of_sink_eq (fun f => ?_) fun _ => rfl
  rw [Recorded.step_silent, hp, endOf_ofExcept]

theorem writes_writeTexts (texts : List String) : Writes onMachine (Recorded.writeTexts texts) := by
  intro m hm
  have hrun := writeLine_unlimited (m := m) hm (String.intercalate " " texts)
  rw [Recorded.writeTexts, Recorded.events_noted_of_ok hrun, Recorded.step_noted, hrun,
    Event.output_prints]
  rfl

theorem writes_body {p : RecordedExec Value} (hp : Writes onFrame p) (locals : Scope) :
    Writes onMachine (Recorded.body p locals) := by
  intro m hm
  have hframe := hp ⟨locals, m⟩ hm
  show (endOf (Run.body p.step locals m)).sink = _
  rw [body_eq_leave, endOf_leave]
  exact hframe

theorem writes_ofRun {α : Type} {p : RecordedRun α} (hp : Writes onMachine p) :
    Writes onFrame (Recorded.ofRun p) := by
  intro f hf
  have hmachine := hp f.machine hf
  show (endOf (Exec.ofRun p.step f)).machine.sink = _
  rw [endOf_ofRun]
  exact hmachine

/-- The second step is not looked at. -/
theorem writes_tandem : Tandem (fun p _ => Writes onMachine p) (fun p _ => Writes onFrame p) where
  runPure _ := .of_sink_eq (fun _ => rfl) fun _ => rfl
  runBind := .bind
  runThrow _ := .of_sink_eq (fun _ => rfl) fun _ => rfl
  runCutOff _ := .of_sink_eq (fun _ => rfl) fun _ => rfl
  notice _ := .of_sink_eq (fun _ => rfl) fun _ => rfl
  create _ := .of_sink_eq (fun _ => rfl) fun _ => rfl
  setField _ _ _ := .of_sink_eq (fun _ => rfl) fun _ => rfl
  writeTexts := writes_writeTexts
  shows _ hp := hp
  body hp locals := writes_body hp locals
  pure _ := .of_sink_eq (fun _ => rfl) fun _ => rfl
  bind := .bind
  throw _ := .of_sink_eq (fun _ => rfl) fun _ => rfl
  cutOff _ := .of_sink_eq (fun _ => rfl) fun _ => rfl
  ofRun := writes_ofRun
  lookup path := writes_look (fun f => f.scope.lookup f.machine.store path) fun _ => rfl
  lookupInstance path :=
    writes_look (fun f => f.scope.lookupInstance f.machine.store path) fun _ => rfl
  assign _ _ := .of_sink_eq (fun _ => rfl) fun _ => rfl

/-! ## The line of a print -/

namespace Recorded

/-- The text of an argument of a print, which is made after the argument has been evaluated. -/
def text (depth : Nat) (arg : Node) : RecordedExec String := do
  ofRun (render depth (← eval depth arg))

def texts (depth : Nat) (args : List Node) : RecordedExec (List String) :=
  each (text depth) args

end Recorded

theorem writes_texts (depth : Nat) (args : List Node) : Writes onFrame (Recorded.texts depth args) := by
  have hdepth := writes_tandem.evaluation (Nat.le_refl depth)
  have htext : ∀ arg, Writes onFrame (Recorded.text depth arg) :=
    fun arg => (hdepth.eval arg).bind fun a => writes_ofRun (hdepth.render a)
  exact @Tandem.each _ _ writes_tandem _ _ _ (Recorded.text depth) htext args

/-- The line comes last. -/
theorem events_print_of_ok {depth : Nat} {args : List Node} {f g : Frame} {texts : List String}
    (hcapacity : f.machine.sink.capacity = none)
    (h : (Recorded.texts depth args).step f = .ok texts g) :
    (Node.print args).events (depth + 1) f
        = (Recorded.texts depth args).events f ++ [.prints texts]
      ∧ ∃ after, eval (depth + 1) (.print args) f = .ok .none after := by
  have hsink := writes_texts depth args f hcapacity
  rw [h] at hsink
  replace hsink : g.machine.sink = f.machine.sink.extend _ := hsink
  have hroom : g.machine.sink.capacity = none := by
    rw [hsink]
    exact hcapacity
  have hline := writeLine_unlimited hroom (String.intercalate " " texts)
  have hwrite : ∃ after, (Recorded.ofRun (Recorded.writeTexts texts)).step g = .ok () after := by
    rw [Recorded.step_ofRun, Recorded.writeTexts, Recorded.step_noted, ofRun_eq, hline]
    exact ⟨_, rfl⟩
  rcases hwrite with ⟨after, hwrite⟩
  have hnoted : (Recorded.writeTexts texts).events g.machine = [.prints texts] :=
    Recorded.events_noted_of_ok hline
  constructor
  · rw [Node.events, Recorded.eval]
    calc
      _ = (Recorded.texts depth args).events f ++ _ := Recorded.events_bind_of_ok h
      _ = (Recorded.texts depth args).events f ++ ((Recorded.writeTexts texts).events g.machine ++ []) :=
          congrArg _ (Recorded.events_bind_of_ok hwrite)
      _ = (Recorded.texts depth args).events f ++ [.prints texts] := by
          rw [hnoted, List.append_nil]
  · refine ⟨after, ?_⟩
    rw [← Recorded.step_eval, Recorded.eval, Recorded.step_bind]
    refine (bind_of_ok h).trans ?_
    rw [Recorded.step_bind]
    exact bind_of_ok hwrite

/-- There is no line if a text cannot be made. -/
theorem events_print_of_error {depth : Nat} {args : List Node} {f g : Frame} {e : Exit}
    (h : (Recorded.texts depth args).step f = .error e g) :
    (Node.print args).events (depth + 1) f = (Recorded.texts depth args).events f
      ∧ eval (depth + 1) (.print args) f = .error e g := by
  constructor
  · rw [Node.events, Recorded.eval]
    exact Recorded.events_bind_of_error h
  · rw [← Recorded.step_eval, Recorded.eval, Recorded.step_bind]
    exact bind_of_error h

/-! ## Evaluations -/

/-- However an evaluation ends: names stay bound, and instances stay with their fields. An instance keeps
its class in all that the evaluation leaves and gives, if it has one class in all that there was before;
`K` are the classes whose methods can run. A sink without a limit gets the lines of the prints that
complete, in the order in which they do, and the line of a print stands behind all that is written for its
arguments, or is not there where one of them fails. -/
theorem eval_grows (depth : Nat) (x : Node) (f : Frame)
    (hsink : f.machine.sink.capacity = none) :
    f.Grows (endOf (eval depth x f))
      ∧ (∀ (κ : Census) (K : Class → Prop), κ.Closed K → f.Listed κ → x.All (Node.Backed κ K) →
        ∃ κ', κ.Extends κ' ∧ κ'.Closed K
          ∧ frames.Ends κ' (fun κ value => Value.Listed κ value) (eval depth x f))
      ∧ (endOf (eval depth x f)).machine.sink
        = f.machine.sink.extend (Event.output (x.events depth f))
      ∧ (Event.output (x.events depth f) = ""
        ∨ ∃ text, Event.output (x.events depth f) = text ++ "\n")
      ∧ ∀ d args, depth = d + 1 → x = .print args →
        (∀ texts g, (Recorded.texts d args).step f = .ok texts g →
          x.events depth f = (Recorded.texts d args).events f ++ [.prints texts]
            ∧ ∃ after, eval depth x f = .ok .none after)
          ∧ (∀ e g, (Recorded.texts d args).step f = .error e g →
            x.events depth f = (Recorded.texts d args).events f ∧ eval depth x f = .error e g) := by
  refine ⟨(grows_composition.evaluation depth).eval x f, ?_, ?_, Event.output_eq_empty_or _, ?_⟩
  · intro κ K hclosed hlisted hbacked
    rcases (keepsCensus K depth).eval hbacked hclosed f hlisted with ⟨κ', hκ', hclosed', hends, -⟩
    rw [Recorded.step_eval] at hends
    exact ⟨κ', hκ', hclosed', hends⟩
  · have hwrites := (writes_tandem.evaluation (Nat.le_refl depth)).eval x f hsink
    rw [Recorded.step_eval] at hwrites
    exact hwrites
  · rintro d args rfl rfl
    exact ⟨fun texts g h => events_print_of_ok hsink h, fun e g h => events_print_of_error h⟩

/-- An argument of a print is an instance whose `__str__` prints. -/
theorem eval_grows_nested :
    let shown : Method := ⟨"__str__", ["self"],
      .block [.print [.constant (.str "inner")], .ret (.constant (.str "a"))]⟩
    let c : Class := ⟨"A", none, [shown]⟩
    let x : Node := .print [.construct c [], .constant (.int 1)]
    let f : Frame := ⟨.empty, .writingTo .unlimited id⟩
    f.machine.sink.capacity = none
      ∧ f.Grows (endOf (eval 9 x f))
      ∧ (∃ κ : Census, κ.Closed (· = c) ∧ frames.Ends κ (fun κ v => Value.Listed κ v) (eval 9 x f))
      ∧ (endOf (eval 9 x f)).machine.sink = Sink.unlimited.extend "inner\na 1\n"
      ∧ x.events 9 f = (Recorded.texts 8 [.construct c [], .constant (.int 1)]).events f
        ++ [.prints ["a", "1"]] := by
  intro shown c x f
  rcases eval_grows 9 x f rfl with ⟨hgrows, hclass, hsink, -, hprint⟩
  have hleaf : ∀ {v : Value}, v.Listed .empty → (Node.constant v).All (Node.Backed .empty (· = c)) :=
    fun hv => .mk hv nofun
  have hclosed : Census.empty.Closed (· = c) := by
    refine ⟨nofun, ?_⟩
    rintro _ name m rfl hm
    have hshown : m = shown := List.mem_singleton.mp (List.mem_of_find?_eq_some hm)
    subst hshown
    refine .mk trivial (List.forall_mem_cons.mpr ⟨?_, List.forall_mem_singleton.mpr ?_⟩)
    · exact .mk trivial (List.forall_mem_singleton.mpr (hleaf trivial))
    · exact .mk trivial (List.forall_mem_singleton.mpr (hleaf trivial))
  have hbacked : x.All (Node.Backed .empty (· = c)) := by
    refine .mk trivial (List.forall_mem_cons.mpr ⟨?_, List.forall_mem_singleton.mpr ?_⟩)
    · exact .mk rfl nofun
    · exact hleaf trivial
  rcases hclass .empty _ hclosed ⟨Scope.listed_empty, Store.listed_empty id⟩ hbacked
    with ⟨κ', -, hclosed', hends⟩
  have hevents : Event.output (x.events 9 f) = "inner\na 1\n" := by
    decide +kernel
  refine ⟨rfl, hgrows, ⟨κ', hclosed', hends⟩, ?_, ?_⟩
  · rw [hsink, hevents]
    rfl
  · exact ((hprint 8 _ rfl rfl).1 ["a", "1"] _ rfl).1

end Offside
