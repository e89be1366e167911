import Offside.Proofs.Evaluation.Names
import Offside.Proofs.Instances.Programs

/-!
# Effects — what an evaluation does to the method around it

An evaluation changes the scope that it is given and may end the method around it.  This file shows that
both are to be seen in the node itself:

- `Node.Binds`        : an assignment to the name in the node, or a definition of a class of that name
- `Node.Returns`      : a return in the node
- `Node.isExpression` : the node stands for a value
- `Program.Contains`  : the node is part of a program, be it in the body of a method

Neither the bodies of the methods that a node calls nor those of the classes that it defines count.  The
main statement, `eval_effects`, has as a special case that the expressions of a program do neither, which
rests on the form of the trees that are read.
-/

namespace Offside

/-! ## Nodes that end a method -/

namespace Node

/-- There is a return in the node, outside the bodies of methods. -/
def Returns (x : Node) : Prop :=
  x.Has fun y => ∃ value, y = .ret value

/-- The node stands for a value. It is no statement, no definition and no block. -/
def isExpression : Node → Bool
  | .constant _ | .none | .variable _ | .arithmetic .. | .signed .. | .not _ | .logical ..
  | .comparison .. | .call .. | .construct .. | .stringify _ => true
  | .assign .. | .setField .. | .block _ | .print _ | .ret _ | .ifElse .. | .classDef _ => false

end Node

namespace Exec

/-- However the step ends, it does not end the method around it. -/
def Unreturning {α : Type} (p : Exec α) : Prop :=
  ∀ (f : Frame) (value : Value) (g : Frame), p f ≠ .error (.returned value) g

namespace Unreturning

theorem ofRun {α : Type} (p : Run α) : Unreturning (ofRun p) := by
  intro f value g h
  rw [Exec.ofRun] at h
  split at h
  · cases h
  · cases h

/-- A step that looks at the frame only, or fails. -/
theorem look {α : Type} {p : Exec α} (find : Frame → Except RuntimeError α)
    (hp : ∀ f, p f = Exec.ofExcept (find f) f) : Unreturning p := by
  intro f value g h
  rw [hp f] at h
  exact ofRun _ f value g h

theorem bind {α β : Type} {p : Exec α} {q : α → Exec β} (hp : Unreturning p)
    (hq : ∀ x, Unreturning (q x)) : Unreturning (p >>= q) := by
  intro f value g h
  rcases bind_eq_error h with hfirst | ⟨x, f₁, -, hsecond⟩
  · exact hp f value g hfirst
  · exact hq x f₁ value g hsecond

end Unreturning

theorem closed_unreturning : Closed Unreturning where
  pure _ _ _ _ := nofun
  bind := .bind
  ofRun := .ofRun

end Exec

/-- Where there is no return in a node, it does not end the method around it. -/
theorem unreturning_eval {x : Node} (h : ¬x.Returns) (n : Nat) : Exec.Unreturning (eval n x) :=
  Exec.closed_unreturning.eval n fun _ hy => {
    lookup := fun {path} _ => .look (fun f => f.scope.lookup f.machine.store path) fun _ => rfl
    lookupInstance := fun {path} _ _ _ =>
      .look (fun f => f.scope.lookupInstance f.machine.store path) fun _ => rfl
    assign := fun _ _ _ _ _ => nofun
    ret := fun {operand} hret _ => absurd (hy.mono fun _ hz => ⟨operand, hz.trans hret⟩) h }

/-! ## The scope that is left -/

theorem Exec.Within.get?_eq {reads binds : String → Prop} {α : Type} {p : Exec α}
    (h : Within reads binds p) (f : Frame) {name : String} (hname : ¬binds name) :
    (endOf (p f)).scope.get? name = f.scope.get? name := by
  rcases h f.scope f.machine with ⟨outcome, bindings, hbound, hrun⟩
  have hmem : name ∉ bindings.map Prod.fst := by
    intro hmem
    rcases List.mem_map.mp hmem with ⟨b, hb, rfl⟩
    exact hname (hbound b hb)
  have hend : (endOf (p f)).scope = f.scope.insertAll bindings := by
    have hf : p f = leaving (f.scope.insertAll bindings) outcome := hrun f.scope .refl
    rw [hf]
    cases outcome <;> rfl
  rw [hend]
  exact Scope.get?_insertAll_of_notMem hmem f.scope

/-- A step that binds no name leaves the scope as it was. -/
theorem Exec.Within.scope_eq {reads binds : String → Prop} {α : Type} {p : Exec α}
    (h : Within reads binds p) (hnone : ∀ name, ¬binds name) (f : Frame) :
    (endOf (p f)).scope = f.scope := by
  rcases h f.scope f.machine with ⟨outcome, bindings, hbound, hrun⟩
  have hbindings : bindings = [] :=
    List.eq_nil_iff_forall_not_mem.mpr fun b hb => hnone b.1 (hbound b hb)
  subst hbindings
  have hf : p f = leaving f.scope outcome := hrun f.scope .refl
  rw [hf]
  cases outcome <;> rfl

/-! ## Expressions -/

namespace Node

/-- What there is in an expression is an expression. -/
theorem Expression.exists_of_has {P : Node → Prop} {x : Node} (hx : x.Expression) (h : x.Has P) :
    ∃ y, y.Expression ∧ P y := by
  induction h with
  | here h => exact ⟨_, hx, h⟩
  | inside hy _ ih => exact ih (hx.child hy)

theorem Expression.not_binds {x : Node} (hx : x.Expression) (name : String) : ¬x.Binds name := by
  intro h
  rcases hx.exists_of_has h with ⟨y, hy, hbound⟩
  cases hy <;> cases hbound

theorem Expression.not_returns {x : Node} (hx : x.Expression) : ¬x.Returns := by
  intro h
  rcases hx.exists_of_has h with ⟨y, hy, value, hret⟩
  subst hret
  cases hy

/-- What there is in a statement or in a block is one of both. -/
theorem statement_or_block_of_has {x y : Node} (hx : x.Statement ∨ x.Block) (h : x.Has (· = y)) :
    y.Statement ∨ y.Block := by
  induction h with
  | here h => exact h ▸ hx
  | inside hy _ ih =>
      refine ih ?_
      rcases hx with hx | hx
      · exact hx.child hy
      · exact .inl (hx.child hy)

theorem expression_of_isExpression {x : Node} (hx : x.Statement ∨ x.Block)
    (h : x.isExpression = true) : x.Expression := by
  rcases hx with hx | hx
  · cases hx with
    | expression hx => exact hx
    | assign | setField | print | ret | ifElse | classDef => cases h
  · cases hx
    cases h

end Node

namespace Program

/-- The node is part of a statement of the program or of the body of a method of one of its classes. -/
def Contains (p : Program) (x : Node) : Prop :=
  (∃ y ∈ p.statements, y.Has (· = x)) ∨ ∃ c ∈ p.classes, ∃ m ∈ c.methods, m.body.Has (· = x)

/-- What stands for a value in a program that was read is an expression down to its parts. -/
theorem expression_of_parse {source : String} {p : Program} (h : Program.parse source = .ok p)
    {x : Node} (hx : p.Contains x) (hexpression : x.isExpression = true) : x.Expression := by
  refine Node.expression_of_isExpression ?_ hexpression
  rcases hx with ⟨y, hy, hx⟩ | ⟨c, hc, m, hm, hx⟩
  · exact Node.statement_or_block_of_has (.inl (wellFormed_of_parse h y hy)) hx
  · have hbody : m.body.Block := by
      cases (orderly_classes_of_parse h).2 c hc with
      | mk _ _ _ _ heach =>
          cases heach m hm with
          | mk _ _ hbody => exact hbody
    exact Node.statement_or_block_of_has (.inr hbody) hx

end Program

/-! ## The effects of a node -/

/-- However it ends, an evaluation changes what a name is bound to only where the node binds it, and it
ends the method around it only where there is a return in the node. The expressions of a program that was
read leave the scope as it was and never end the method around them. -/
theorem eval_effects (depth : Nat) (x : Node) (f : Frame) :
    (∀ name, (endOf (eval depth x f)).scope.get? name ≠ f.scope.get? name → x.Binds name)
      ∧ (∀ value g, eval depth x f = .error (.returned value) g → x.Returns)
      ∧ ∀ source p, Program.parse source = .ok p → p.Contains x → x.isExpression = true →
        (endOf (eval depth x f)).scope = f.scope
          ∧ ∀ value g, eval depth x f ≠ .error (.returned value) g := by
  refine ⟨fun name hchanged => ?_, fun value g hreturned => ?_, fun source p hparse hin hx => ?_⟩
  · by_contra hname
    exact hchanged ((within_eval depth x).get?_eq f hname)
  · by_contra hreturns
    exact unreturning_eval hreturns depth f value g hreturned
  · have hexpression := Program.expression_of_parse hparse hin hx
    exact ⟨(within_eval depth x).scope_eq hexpression.not_binds f,
      unreturning_eval hexpression.not_returns depth f⟩

/-- Whether a reading gives a program that assigns what a method call gives. -/
def Program.assignsCall : Except ParseError Program → Bool
  | .ok ⟨[.classDef _, .assign _ (.call ..)]⟩ => true
  | _ => false

theorem Program.exists_of_assignsCall {reading : Except ParseError Program}
    (h : assignsCall reading = true) :
    ∃ c name receiver method args,
      reading = .ok ⟨[.classDef c, .assign name (.call receiver method args)]⟩ := by
  unfold assignsCall at h
  split at h
  · exact ⟨_, _, _, _, _, rfl⟩
  · cases h

/-- A block that binds a name and returns, and a call of a method that does both in a scope of its own. -/
theorem eval_effects_of_call :
    (let y : Node := .block [.assign "x" (.constant (.int 1)), .ret (.variable ["x"])]
      let f : Frame := ⟨.empty, .writingTo .unlimited id⟩
      (∃ value g, eval 5 y f = .error (.returned value) g ∧ g.scope.get? "x" ≠ f.scope.get? "x")
        ∧ y.Binds "x" ∧ y.Returns)
      ∧ ∃ source p x, Program.parse source = .ok p ∧ p.Contains x ∧ x.isExpression = true
        ∧ ∀ depth f, (endOf (eval depth x f)).scope = f.scope
          ∧ ∀ value g, eval depth x f ≠ .error (.returned value) g := by
  constructor
  · intro y f
    have hrun : eval 5 y f = .error (.returned (.int 1)) ⟨f.scope.insert "x" (.int 1), f.machine⟩ := rfl
    have hchanged : (endOf (eval 5 y f)).scope.get? "x" ≠ f.scope.get? "x" := by
      rw [hrun]
      exact nofun
    have heffects := eval_effects 5 y f
    refine ⟨⟨_, _, hrun, ?_⟩, heffects.1 "x" hchanged, heffects.2.1 _ _ hrun⟩
    rw [hrun] at hchanged
    exact hchanged
  · let source := "class A:
  def f(self):
    x = 1
    return x
y = A().f()
"
    have hread : Program.assignsCall (Program.parse source) = true := by
      decide +kernel
    rcases Program.exists_of_assignsCall hread with ⟨c, name, receiver, method, args, hparse⟩
    let x : Node := .call receiver method args
    have hin : Node.Has (· = x) (.assign name x) := .inside List.mem_cons_self (.here rfl)
    have hcontains : Program.Contains ⟨[.classDef c, .assign name x]⟩ x :=
      .inl ⟨_, List.mem_cons_of_mem _ List.mem_cons_self, hin⟩
    exact ⟨source, _, x, hparse, hcontains, rfl, fun depth f =>
      (eval_effects depth x f).2.2 source _ hparse hcontains rfl⟩

end Offside
