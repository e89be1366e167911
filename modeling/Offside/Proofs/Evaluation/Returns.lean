import Offside.Proofs.Evaluation.Output
import Offside.Proofs.Methods.Dispatch

/-!
# Returns — what an early return skips

A return ends the blocks around it, as far as the body of the method or to the end of the program.  This
file says what is run and what is not:

- `BlockContext`         : a place in a block, below other blocks and branches of conditionals
- `BlockContext.cut`     : the same without the statements that follow the place
- `BlockContext.Reaches` : evaluation comes to the place, and in which frame
- `Node.Returned`        : what a block that returns a value gives to those who run it

The main statement, `return_skips_rest`, says that a return at a place that is reached decides all of this,
whatever follows the place.  A program that returns is still flushed, and a sink that refuses that makes it
fail like any other program (`run_returned_unflushed`).
-/

namespace Offside

/-! ## Places in a block -/

/-- A statement with one place left open, below any number of blocks and branches of conditionals. -/
inductive BlockContext where
  | hole
  | block (before : List Node) (inner : BlockContext) (after : List Node)
  | thenBranch (condition : Node) (inner : BlockContext) (elseBody : Option Node)
  | elseBranch (condition thenBody : Node) (inner : BlockContext)

namespace BlockContext

/-- Puts a statement at the open place. -/
def fill : BlockContext → Node → Node
  | hole, s => s
  | block before inner after, s => .block (before ++ inner.fill s :: after)
  | thenBranch condition inner elseBody, s => .ifElse condition (inner.fill s) elseBody
  | elseBranch condition thenBody inner, s => .ifElse condition thenBody (some (inner.fill s))

/-- Leaves out what follows the open place, at every level. -/
def cut : BlockContext → BlockContext
  | hole => hole
  | block before inner _ => block before inner.cut []
  | thenBranch condition inner _ => thenBranch condition inner.cut none
  | elseBranch condition thenBody inner => elseBranch condition thenBody inner.cut

/-- Evaluation of a context to a depth, from the frame `f`, comes to the open place, which is evaluated to
the depth `d`, from the frame `g`. -/
inductive Reaches : BlockContext → Nat → Frame → Nat → Frame → Prop where
  | hole {depth : Nat} {f : Frame} : Reaches hole depth f depth f
  | block {before after : List Node} {inner : BlockContext} {depth d : Nat} {f f₁ g : Frame}
      {w : Value} (hbefore : Exec.block (eval depth) before f = .ok w f₁)
      (hinner : Reaches inner depth f₁ d g) : Reaches (block before inner after) (depth + 1) f d g
  | thenBranch {condition : Node} {elseBody : Option Node} {inner : BlockContext} {depth d : Nat}
      {f f₁ g : Frame} {a : Value} (hcondition : eval depth condition f = .ok a f₁)
      (ha : a.truthy = true) (hinner : Reaches inner depth f₁ d g) :
      Reaches (thenBranch condition inner elseBody) (depth + 1) f d g
  | elseBranch {condition thenBody : Node} {inner : BlockContext} {depth d : Nat} {f f₁ g : Frame}
      {a : Value} (hcondition : eval depth condition f = .ok a f₁) (ha : ¬a.truthy = true)
      (hinner : Reaches inner depth f₁ d g) :
      Reaches (elseBranch condition thenBody inner) (depth + 1) f d g

variable {C C' : BlockContext} {depth d : Nat} {f g h : Frame} {s : Node}

/-- What follows the open place has no part in whether it is reached. -/
theorem Reaches.of_cut_eq (hreach : C.Reaches depth f d g) (hcut : C'.cut = C.cut) :
    C'.Reaches depth f d g := by
  -- The way to the place only uses what stands before it, and a branch that is taken.
  induction hreach generalizing C' with
  | hole =>
      cases C' <;> cases hcut
      exact .hole
  | block hbefore _ ih =>
      cases C' with
      | block before inner after =>
          simp only [cut, BlockContext.block.injEq] at hcut
          rcases hcut with ⟨rfl, hinner, -⟩
          exact .block hbefore (ih hinner)
      | _ => cases hcut
  | thenBranch hcondition ha _ ih =>
      cases C' with
      | thenBranch condition inner elseBody =>
          simp only [cut, BlockContext.thenBranch.injEq] at hcut
          rcases hcut with ⟨rfl, hinner, -⟩
          exact .thenBranch hcondition ha (ih hinner)
      | _ => cases hcut
  | elseBranch hcondition ha _ ih =>
      cases C' with
      | elseBranch condition thenBody inner =>
          simp only [cut, BlockContext.elseBranch.injEq] at hcut
          rcases hcut with ⟨rfl, -, hinner⟩
          exact .elseBranch hcondition ha (ih hinner)
      | _ => cases hcut

end BlockContext

theorem Exec.block_append (eval : Node → Exec Value) (before after : List Node) :
    Exec.block eval (before ++ after) = (do
      let _ ← Exec.block eval before
      Exec.block eval after) := by
  induction before with
  | nil => exact (pure_bind _ _).symm
  | cons statement rest ih =>
      show (eval statement >>= fun _ => Exec.block eval (rest ++ after)) = _
      rw [ih]
      exact (bind_assoc _ _ _).symm

/-- However a statement ends early, the context that it is reached in ends in the same way. -/
theorem BlockContext.Reaches.eval_fill {C : BlockContext} {depth d : Nat} {f g h : Frame} {s : Node}
    {e : Exit} (hreach : C.Reaches depth f d g) (hs : eval d s g = .error e h) :
    eval depth (C.fill s) f = .error e h := by
  -- From the place outward: each block and each branch hands on what its statement ends with.
  induction hreach with
  | hole => exact hs
  | block hbefore _ ih =>
      rw [fill, eval, Exec.block_append, bind_of_ok hbefore]
      exact bind_of_error (ih hs)
  | @thenBranch _ elseBody _ _ _ _ _ _ _ hcondition ha _ ih =>
      -- The other branch is not looked at, be there one or not.
      cases elseBody <;> rw [fill, eval, bind_of_ok hcondition, if_pos ha] <;>
        exact bind_of_error (ih hs)
  | elseBranch hcondition ha _ ih =>
      rw [fill, eval, bind_of_ok hcondition, if_neg ha]
      exact bind_of_error (ih hs)

/-! ## Methods and programs -/

/-- The machine with one notice more in its journal. -/
def Machine.noting (m : Machine) (notice : Notice) : Machine :=
  { m with notices := m.notices.push notice }

/-- The frame in which the body of a method begins. -/
def Method.entry (m : Method) (c : Class) (address : Address) (name : String) (args : List Value)
    (machine : Machine) : Frame :=
  ⟨m.locals (.inst c address) args, machine.noting (.calling c.name name args.length)⟩

/-- The frame in which the statements of a program begin. -/
def Program.entry (p : Program) (machine : Machine) : Frame :=
  ⟨.empty, machine.noting (.running p.statements.length)⟩

section Method

variable {c : Class} {name : String} {args : List Value} {m : Method} {depth : Nat} {address : Address}
  {machine : Machine} {v : Value} {h : Frame}

theorem invoke_eq (hm : Run.dispatch c name args = .ok m) :
    invoke (depth + 1) (.inst c address) name args machine
      = match eval depth m.body (m.entry c address name args machine) with
        | .ok _ h => .ok .none h.machine
        | .error (.returned value) h => .ok value h.machine
        | .error (.fault e) h => .error e h.machine := by
  rw [invoke_of_dispatch_ok hm]
  rfl

/-- Whoever calls the method gets the value and goes on in its own scope. -/
theorem eval_call_of_invoke {receiver : Node} {arguments : List Node} {k k₁ k₂ : Frame}
    {m' : Machine} {target : Value} (hargs : Exec.each (eval depth) arguments k = .ok args k₁)
    (hreceiver : eval depth receiver k₁ = .ok target k₂)
    (hinvoke : invoke depth target name args k₂.machine = .ok v m') :
    eval (depth + 1) (.call receiver name arguments) k = .ok v { k₂ with machine := m' } := by
  rw [eval, bind_of_ok hargs, bind_of_ok hreceiver, ofRun_eq, hinvoke]

end Method

theorem Run.flush_of_stuck {m : Machine} (h : m.sink.stuck = true) :
    Run.flush m = .error (.error (.output "flush failed")) m := by
  rw [Run.flush, Sink.flush, if_pos h]

theorem Run.flush_of_not_stuck {m : Machine} (h : ¬m.sink.stuck = true) : Run.flush m = .ok () m := by
  rw [Run.flush, Sink.flush, if_neg h]

/-- A program one of whose statements returns gives the scope of that moment, once its output is
flushed. -/
theorem Program.run_of_returned {p : Program} {depth : Nat} {machine : Machine} {v : Value} {h : Frame}
    (hreturn : Exec.block (eval depth) p.statements (p.entry machine) = .error (.returned v) h) :
    p.run depth machine
      = if h.machine.sink.stuck then
          .error (.error (.output "flush failed")) (h.machine.noting (.returnedEarly v.text))
        else .ok h.scope (h.machine.noting (.returnedEarly v.text)) := by
  have hstatements : p.statementsRun depth (p.entry machine).machine
      = .ok h.scope (h.machine.noting (.returnedEarly v.text)) := by
    have hentry : p.entry machine = ⟨.empty, (p.entry machine).machine⟩ := rfl
    rw [statementsRun, ← hentry, hreturn]
    rfl
  have hrun : p.run depth machine = (do Run.flush; return h.scope : Run Scope)
      (h.machine.noting (.returnedEarly v.text)) := bind_of_ok hstatements
  rw [hrun]
  -- A return is noted before the flush, so a run that fails here has the notice as well.
  by_cases hstuck : h.machine.sink.stuck = true
  · rw [if_pos hstuck]
    exact bind_of_error (Run.flush_of_stuck hstuck)
  · rw [if_neg hstuck]
    exact bind_of_ok (Run.flush_of_not_stuck hstuck)

/-! ## What a return skips -/

/-- What comes of a block that, evaluated from the frame `f`, returns a value in the frame `h`. -/
structure Node.Returned (b : Node) (depth : Nat) (f : Frame) (v : Value) (h : Frame) : Prop where
  /-- The return goes on through the block. -/
  block : eval depth b f = .error (.returned v) h
  /-- If the block is the body of a method, the value is what a call gives. -/
  method {c : Class} {address : Address} {name : String} {args : List Value} {m : Method}
    {machine : Machine} (hm : Run.dispatch c name args = .ok m) (hbody : m.body = b)
    (hentry : m.entry c address name args machine = f) :
    invoke (depth + 1) (.inst c address) name args machine = .ok v h.machine
  /-- The call is an expression with this value, in the scope that the caller had. -/
  caller {c : Class} {address : Address} {name : String} {args : List Value} {m : Method}
    {receiver : Node} {arguments : List Node} {k k₁ k₂ : Frame}
    (hm : Run.dispatch c name args = .ok m) (hbody : m.body = b)
    (hargs : Exec.each (eval (depth + 1)) arguments k = .ok args k₁)
    (hreceiver : eval (depth + 1) receiver k₁ = .ok (.inst c address) k₂)
    (hentry : m.entry c address name args k₂.machine = f) :
    eval (depth + 2) (.call receiver name arguments) k = .ok v { k₂ with machine := h.machine }
  /-- If the block is a program, this gives its scope of that moment, unless it cannot be flushed. -/
  program {p : Program} {n : Nat} {machine : Machine} (hdepth : depth = n + 1)
    (hstatements : .block p.statements = b) (hentry : p.entry machine = f) :
    p.run n machine
      = if h.machine.sink.stuck then
          .error (.error (.output "flush failed")) (h.machine.noting (.returnedEarly v.text))
        else .ok h.scope (h.machine.noting (.returnedEarly v.text))

theorem Node.returned_of_eval {b : Node} {depth : Nat} {f h : Frame} {v : Value}
    (hreturn : eval depth b f = .error (.returned v) h) : b.Returned depth f v h := by
  have hmethod : ∀ {c : Class} {address : Address} {name : String} {args : List Value} {m : Method}
      {machine : Machine}, Run.dispatch c name args = .ok m → m.body = b →
      m.entry c address name args machine = f →
        invoke (depth + 1) (.inst c address) name args machine = .ok v h.machine := by
    intro c address name args m machine hm hbody hentry
    rw [invoke_eq hm, hbody, hentry, hreturn]
  constructor
  · exact hreturn
  · exact hmethod
  · intro c address name args m receiver arguments k k₁ k₂ hm hbody hargs hreceiver hentry
    exact eval_call_of_invoke hargs hreceiver (hmethod hm hbody hentry)
  · rintro p n machine rfl rfl rfl
    rw [eval] at hreturn
    exact Program.run_of_returned hreturn

/-- Evaluation comes to a statement in a block, and the statement returns. Then so does the block, with the
same value and the same frame, and the same do all blocks that differ in what follows the statement only,
at whatever level: as the body of a method the block gives the value to its caller, and as a program it
ends the run. A body that ends without a return gives `None`. -/
theorem return_skips_rest {C : BlockContext} {depth d : Nat} {f g h : Frame} {s : Node} {v : Value}
    (hreach : C.Reaches depth f d g) (hreturn : eval d s g = .error (.returned v) h) :
    (∀ C' : BlockContext, C'.cut = C.cut → (C'.fill s).Returned depth f v h)
      ∧ ∀ (c : Class) (address : Address) (name : String) (args : List Value) (m : Method)
        (machine : Machine) (n : Nat) (w : Value) (k : Frame), Run.dispatch c name args = .ok m →
        eval n m.body (m.entry c address name args machine) = .ok w k →
          invoke (n + 1) (.inst c address) name args machine = .ok .none k.machine := by
  constructor
  · intro C' hcut
    exact Node.returned_of_eval ((hreach.of_cut_eq hcut).eval_fill hreturn)
  · intro c address name args m machine n w k hm hbody
    rw [invoke_eq hm, hbody]

/-- A return below a branch, followed by statements that would fail: at the end of a program and in a
method. -/
theorem return_skips_rest_nested :
    let s : Node := .ret (.variable ["x"])
    let dead : List Node := [.print [.variable ["y"]]]
    let context (rest : List Node) : BlockContext :=
      .block [.assign "x" (.constant (.int 1))]
        (.thenBranch (.variable ["x"]) (.block [] .hole rest) none) rest
    let p : Program :=
      ⟨[.assign "x" (.constant (.int 1)), .ifElse (.variable ["x"]) (.block (s :: dead)) none] ++ dead⟩
    let m : Method := ⟨"f", [], (context dead).fill s⟩
    let c : Class := ⟨"A", none, [m]⟩
    let machine : Machine := .writingTo .unlimited id
    (∃ d g h, (context []).Reaches 5 (p.entry machine) d g
      ∧ eval d s g = .error (.returned (.int 1)) h
      ∧ ∃ last, p.run 4 machine = .ok h.scope last)
      ∧ ∃ last, invoke 6 (.inst c ⟨0, 0⟩) "f" [] machine = .ok (.int 1) last := by
  intro s dead context p m c machine
  let g (start : Frame) : Frame := { start with scope := start.scope.insert "x" (.int 1) }
  have hx : ∀ n start, eval (n + 1) (.variable ["x"]) (g start) = .ok (.int 1) (g start) := by
    intro n start
    rw [eval]
    exact lookup_name (Scope.get?_insert_self start.scope "x" (.int 1))
  have hreach : ∀ start, (context []).Reaches 5 start 2 (g start) := by
    intro start
    have hassign : Exec.block (eval 4) [.assign "x" (.constant (.int 1))] start
        = .ok .none (g start) := rfl
    have hnothing : Exec.block (eval 2) [] (g start) = .ok .none (g start) := rfl
    exact .block hassign (.thenBranch (hx 2 start) rfl (.block hnothing .hole))
  have hreturn : ∀ start, eval 2 s (g start) = .error (.returned (.int 1)) (g start) := by
    intro start
    rw [eval, bind_of_ok (hx 0 start)]
    rfl
  constructor
  · let start := p.entry machine
    have hblock := (return_skips_rest (hreach start) (hreturn start)).1 (context dead) rfl
    exact ⟨2, g start, g start, hreach start, hreturn start, _, hblock.program rfl rfl rfl⟩
  · let start := m.entry c ⟨0, 0⟩ "f" [] machine
    have hblock := (return_skips_rest (hreach start) (hreturn start)).1 (context dead) rfl
    exact ⟨_, hblock.method rfl rfl rfl⟩

/-! ## A program that cannot be flushed -/

/-- Whether a reading gives a program that only returns a number. -/
def Program.onlyReturns : Except ParseError Program → Bool
  | .ok ⟨[.ret (.constant (.int _))]⟩ => true
  | _ => false

theorem Program.exists_of_onlyReturns {reading : Except ParseError Program}
    (h : onlyReturns reading = true) : ∃ n, reading = .ok ⟨[.ret (.constant (.int n))]⟩ := by
  unfold onlyReturns at h
  split at h
  · exact ⟨_, rfl⟩
  · cases h

/-- A return at the top level ends the statements of a program but not its run, which still has to flush
the output. -/
theorem run_returned_unflushed :
    ¬ ∀ (source : String) (p : Program) (C : BlockContext) (s : Node) (depth d : Nat)
      (machine : Machine) (g h : Frame) (v : Value), Program.parse source = .ok p →
      .block p.statements = C.fill s → C.Reaches (depth + 1) (p.entry machine) d g →
      eval d s g = .error (.returned v) h → ∃ last, p.run depth machine = .ok h.scope last := by
  intro hall
  -- The reading is only tested for its shape, which computes; the number in it does not matter.
  have hread : Program.onlyReturns (Program.parse "return 1\n") = true := by
    decide +kernel
  rcases Program.exists_of_onlyReturns hread with ⟨n, hparse⟩
  let p : Program := ⟨[.ret (.constant (.int n))]⟩
  let machine : Machine := .writingTo { Sink.unlimited with stuck := true } id
  have hnothing : Exec.block (eval 2) [] (p.entry machine) = .ok .none (p.entry machine) := rfl
  have hreach : BlockContext.Reaches (.block [] .hole []) 3 (p.entry machine) 2 (p.entry machine) :=
    .block hnothing .hole
  rcases hall _ p _ (.ret (.constant (.int n))) 2 2 machine _ _ (.int n) hparse rfl hreach rfl
    with ⟨last, hlast⟩
  have hrun : p.run 2 machine
      = .error (.error (.output "flush failed")) (endOf (p.run 2 machine)) := rfl
  rw [hlast] at hrun
  cases hrun

end Offside
