import Offside.Exec.Execution
import Offside.Proofs.Classes.Order
import Offside.Proofs.Results
import Offside.Proofs.Trees.WellFormed

/-!
# Faults — what a well-formed program does not run into

A running program gets at the classes of its text through values: it constructs them, inherits from them
and calls their methods.  This file shows that a run of a well-formed program keeps everything that it can
reach well-formed:

- `Maintains`          : a step keeps a state good, and ends with a good value or a proper failure
- `RuntimeError.Proper` : the errors that a run can end in; a look-up of no path at all and a class with
  two methods of one name are not among them

The main statement, `parse_wellFormed`, puts the form of the tree and the errors of its runs together.
-/

namespace Offside

/-! ## Steps -/

section Steps

variable {ε σ α β : Type} {I : σ → Prop} {E : ε → Prop} {Q : α → Prop} {R : β → Prop}

/-- A result of the form `Q` or a failure of the form `E`, in a good state. -/
def Fulfills (I : σ → Prop) (E : ε → Prop) (Q : α → Prop) : EStateM.Result ε σ α → Prop
  | .ok x s => Q x ∧ I s
  | .error e s => E e ∧ I s

/-- From a good state the step ends in one. -/
def Maintains (I : σ → Prop) (E : ε → Prop) (Q : α → Prop) (p : EStateM ε σ α) : Prop :=
  ∀ s, I s → Fulfills I E Q (p s)

namespace Maintains

theorem pure {x : α} (h : Q x) : Maintains I E Q (pure x : EStateM ε σ α) :=
  fun _ hs => ⟨h, hs⟩

theorem throw {e : ε} (h : E e) : Maintains I E Q (throw e : EStateM ε σ α) :=
  fun _ hs => ⟨h, hs⟩

theorem bind {p : EStateM ε σ α} {f : α → EStateM ε σ β} (hp : Maintains I E Q p)
    (hf : ∀ x, Q x → Maintains I E R (f x)) : Maintains I E R (p >>= f) := by
  intro s hs
  have hfirst := hp s hs
  cases hrun : p s with
  | ok x t =>
      rw [hrun] at hfirst
      rw [bind_of_ok hrun]
      exact hf x hfirst.1 t hfirst.2
  | error e t =>
      rw [hrun] at hfirst
      rw [bind_of_error hrun]
      exact hfirst

end Maintains

end Steps

/-! ## Good values and states -/

/-- The classes that can be reached from a value are well-formed. -/
def Value.WellFormed : Value → Prop
  | .cls c | .inst c _ => c.WellFormed
  | .none | .int _ | .str _ | .bool _ => True

def Scope.WellFormed (s : Scope) : Prop :=
  ∀ b ∈ s.bindings, b.2.WellFormed

def Store.WellFormed (s : Store) : Prop :=
  ∀ cell ∈ s.cells, cell.WellFormed

structure Frame.WellFormed (f : Frame) : Prop where
  scope : f.scope.WellFormed
  store : f.machine.store.WellFormed

/-- The errors that a run of a well-formed program can end in. -/
def RuntimeError.Proper : RuntimeError → Prop
  | .undefinedVariable path => path ≠ ""
  | .duplicateMethod .. => False
  | _ => True

/-- A result of the form `Q` or a proper error. -/
def ProperResult {α : Type} (Q : α → Prop) : Except RuntimeError α → Prop
  | .ok x => Q x
  | .error e => e.Proper

def Fault.Proper : Fault → Prop
  | .error e => e.Proper
  | .exhausted => True

def Exit.Proper : Exit → Prop
  | .returned value => value.WellFormed
  | .fault f => f.Proper

namespace Scope

variable {s : Scope} {store : Store}

theorem wellFormed_empty : Scope.empty.WellFormed :=
  fun _ hb => absurd hb List.not_mem_nil

theorem WellFormed.insert (h : s.WellFormed) (name : String) {value : Value}
    (hvalue : value.WellFormed) : (s.insert name value).WellFormed := by
  intro b hb
  rcases mem_insertSorted hb with rfl | hb
  · exact hvalue
  · exact h b hb

theorem WellFormed.of_get? (h : s.WellFormed) {name : String} {value : Value}
    (hname : s.get? name = some value) : value.WellFormed := by
  rcases Option.map_eq_some_iff.mp hname with ⟨b, hb, rfl⟩
  exact h b (List.mem_of_find?_eq_some hb)

end Scope

namespace Store

variable {s : Store}

theorem WellFormed.fields (h : s.WellFormed) (address : Address) : (s.fields address).WellFormed := by
  unfold Store.fields
  split
  next slot _ =>
    rw [Array.getD_eq_getD_getElem?]
    cases hcell : s.cells[slot]? with
    | none => exact Scope.wellFormed_empty
    | some cell => exact h cell (Array.mem_of_getElem? hcell)
  next => exact Scope.wellFormed_empty

theorem WellFormed.allocate (h : s.WellFormed) : s.allocate.WellFormed :=
  Array.forall_mem_push.mpr ⟨nofun, h⟩

theorem WellFormed.setField (h : s.WellFormed) (address : Address) (field : String) {value : Value}
    (hvalue : value.WellFormed) : (s.setField address field value).WellFormed := by
  unfold Store.setField
  split
  next slot _ =>
    intro cell hcell
    rcases Array.getElem_of_mem hcell with ⟨i, hi, rfl⟩
    rw [Array.getElem_modify]
    have hlt : i < s.cells.size := by simpa using hi
    have hold : (s.cells[i]).WellFormed := h _ (Array.getElem_mem hlt)
    split
    · exact hold.insert field hvalue
    · exact hold
  next => exact h

end Store

/-! ## Paths -/

/-- A path of two names or more has a dot in it. -/
theorem pathText_append_ne {walked : List String} (hwalked : walked ≠ []) (field : String) :
    pathText (walked ++ [field]) ≠ "" := by
  cases walked with
  | nil => exact absurd rfl hwalked
  | cons first rest =>
      rcases List.exists_cons_of_ne_nil (List.append_ne_nil_of_right_ne_nil rest
        (List.cons_ne_nil field [])) with ⟨next, later, hlater⟩
      rw [pathText, List.cons_append, hlater, String.intercalate_cons_cons]
      simp

theorem properLookup_follow {store : Store} (hstore : store.WellFormed) {walked : List String}
    (hwalked : walked ≠ []) {value : Value} (hvalue : value.WellFormed) (rest : List String) :
    ProperResult Value.WellFormed (Scope.follow store walked value rest) := by
  induction rest generalizing walked value with
  | nil => exact hvalue
  | cons field rest ih =>
      unfold Scope.follow
      split
      next c address =>
        split
        next next hnext =>
          have hgood := (hstore.fields address).of_get? hnext
          exact ih (List.append_ne_nil_of_left_ne_nil hwalked _) hgood
        next => exact pathText_append_ne hwalked field
      next => trivial

theorem properLookup {s : Scope} {store : Store} (hs : s.WellFormed) (hstore : store.WellFormed)
    {path : List String} (hpath : path ≠ []) (hnames : ∀ name ∈ path, isName name = true) :
    ProperResult Value.WellFormed (s.lookup store path) := by
  cases path with
  | nil => exact absurd rfl hpath
  | cons first rest =>
      rw [Scope.lookup]
      split
      next value hvalue =>
        exact properLookup_follow hstore (List.cons_ne_nil first []) (hs.of_get? hvalue) rest
      next =>
        -- A name has a first character.
        have hname := hnames first List.mem_cons_self
        rintro rfl
        cases hname

/-! ## Methods -/

/-- What a well-formed class inherits from is well-formed. -/
theorem Class.WellFormed.lineage : (c : Class) → c.WellFormed → ∀ d ∈ c.lineage, d.WellFormed
  | ⟨_, none, _⟩, h => by
      rw [Class.lineage]
      exact List.forall_mem_singleton.mpr h
  | ⟨_, some parent, _⟩, h => by
      have hparent : parent.WellFormed := by
        cases h with
        | mk _ hparent _ _ _ => exact hparent parent rfl
      rw [Class.lineage]
      exact List.forall_mem_cons.mpr ⟨h, lineage parent hparent⟩

theorem Class.WellFormed.of_method? {c : Class} (h : c.WellFormed) {name : String} {m : Method}
    (hm : c.method? name = some m) : m.WellFormed := by
  rw [c.method?_eq_findSome?] at hm
  rcases List.exists_of_findSome?_eq_some hm with ⟨d, hd, hown⟩
  have hmem : m ∈ d.methods := List.mem_of_find?_eq_some hown
  cases h.lineage c d hd with
  | mk _ _ _ _ heach => exact heach m hmem

theorem Method.wellFormed_locals (m : Method) {receiver : Value} {args : List Value}
    (hreceiver : receiver.WellFormed) (hargs : ∀ a ∈ args, a.WellFormed) :
    (m.locals receiver args).WellFormed := by
  have hbindings : ∀ b ∈ m.explicitParams.zip args, b.2.WellFormed :=
    fun b hb => hargs b.2 (List.of_mem_zip hb).2
  have hstart : (Scope.empty.insert receiverName receiver).WellFormed :=
    Scope.wellFormed_empty.insert receiverName hreceiver
  rw [Method.locals]
  generalize m.explicitParams.zip args = bindings at hbindings
  generalize Scope.empty.insert receiverName receiver = scope at hstart
  induction bindings generalizing scope with
  | nil => exact hstart
  | cons b bs ih =>
      have hall := List.forall_mem_cons.mp hbindings
      exact ih hall.2 _ (hstart.insert b.1 hall.1)

/-! ## Steps of a run -/

namespace Run

variable {α : Type} {Q : α → Prop}

/-- A step of the machine that keeps the store good. -/
abbrev Maintains (Q : α → Prop) (p : Run α) : Prop :=
  Offside.Maintains (·.store.WellFormed) Fault.Proper Q p

theorem maintains_ofExcept {x : Except RuntimeError α}
    (hx : ProperResult Q x) : Run.Maintains Q (.ofExcept x) := by
  cases x with
  | ok a => exact .pure hx
  | error e => exact Maintains.throw (e := Fault.error e) hx

theorem maintains_notice (n : Notice) : Run.Maintains (fun _ => True) (notice n) :=
  fun _ hm => ⟨trivial, hm⟩

theorem maintains_create {c : Class} (hc : c.WellFormed) :
    Run.Maintains Value.WellFormed (create c) :=
  fun _ hm => ⟨hc, hm.allocate⟩

theorem maintains_setField (address : Address) (field : String) {value : Value}
    (hvalue : value.WellFormed) : Run.Maintains (fun _ => True) (setField address field value) :=
  fun _ hm => ⟨trivial, hm.setField address field hvalue⟩

theorem maintains_writeLine (text : String) : Run.Maintains (fun _ => True) (writeLine text) := by
  intro m hm
  rcases hwrite : m.sink.write (text ++ "\n").toUTF8 with ⟨reason | _, sink⟩
  · rw [writeLine, hwrite]
    exact ⟨trivial, hm⟩
  · rw [writeLine, hwrite]
    exact ⟨trivial, hm⟩

theorem maintains_flush : Run.Maintains (fun _ => True) flush := by
  intro m hm
  cases hflush : m.sink.flush with
  | ok =>
      rw [flush, hflush]
      exact ⟨trivial, hm⟩
  | error reason =>
      rw [flush, hflush]
      exact ⟨trivial, hm⟩

theorem maintains_dispatch {c : Class} (hc : c.WellFormed) (name : String) (args : List Value) :
    Run.Maintains Method.WellFormed (.ofExcept (dispatch c name args)) := by
  apply maintains_ofExcept
  unfold dispatch
  cases hm : c.method? name with
  | none => trivial
  | some m =>
      by_cases harity : m.arity = args.length
      · simp only [if_pos harity]
        exact hc.of_method? hm
      · simp only [if_neg harity]
        trivial

end Run

namespace Exec

variable {α β : Type} {Q : α → Prop} {R : β → Prop}

/-- A step of a frame that keeps the scope and the store good. -/
abbrev Maintains (Q : α → Prop) (p : Exec α) : Prop :=
  Offside.Maintains Frame.WellFormed Exit.Proper Q p

theorem maintains_ofRun {p : Run α} (hp : Run.Maintains Q p) : Exec.Maintains Q (ofRun p) := by
  intro f hf
  have hstep := hp f.machine hf.store
  rw [ofRun]
  cases hrun : p f.machine with
  | ok x m =>
      rw [hrun] at hstep
      exact ⟨hstep.1, hf.scope, hstep.2⟩
  | error e m =>
      rw [hrun] at hstep
      exact ⟨hstep.1, hf.scope, hstep.2⟩

theorem maintains_ofExcept {x : Except RuntimeError α}
    (hx : ProperResult Q x) : Exec.Maintains Q (.ofExcept x) :=
  maintains_ofRun (Run.maintains_ofExcept hx)

section Paths

variable {path : List String} (hpath : path ≠ []) (hnames : ∀ name ∈ path, isName name = true)
include hpath hnames

theorem maintains_lookup : Exec.Maintains Value.WellFormed (lookup path) := by
  intro f hf
  have hlookup := properLookup hf.scope hf.store hpath hnames
  refine maintains_ofExcept ?_ f hf
  cases hresult : f.scope.lookup f.machine.store path with
  | ok value => rwa [hresult] at hlookup
  | error e => rwa [hresult] at hlookup

theorem maintains_lookupInstance : Exec.Maintains (fun _ => True) (lookupInstance path) := by
  intro f hf
  have hlookup := properLookup hf.scope hf.store hpath hnames
  refine maintains_ofExcept ?_ f hf
  unfold Scope.lookupInstance
  cases hresult : f.scope.lookup f.machine.store path with
  | error e => rwa [hresult] at hlookup
  | ok value => cases value <;> trivial

end Paths

theorem maintains_bind (name : String) {value : Value} (hvalue : value.WellFormed) :
    Exec.Maintains (fun _ => True) (bind name value) :=
  fun _ hf => ⟨trivial, hf.scope.insert name hvalue, hf.store⟩

theorem maintains_block {eval : Node → Exec Value} {body : List Node}
    (heval : ∀ x ∈ body, Exec.Maintains Value.WellFormed (eval x)) :
    Exec.Maintains Value.WellFormed (block eval body) := by
  induction body with
  | nil => exact .pure trivial
  | cons statement rest ih =>
      have hall := List.forall_mem_cons.mp heval
      exact hall.1.bind fun _ _ => ih hall.2

theorem maintains_each {f : α → Exec β} {xs : List α}
    (hf : ∀ x ∈ xs, Exec.Maintains R (f x)) :
    Exec.Maintains (fun ys => ∀ y ∈ ys, R y) (each f xs) := by
  induction xs with
  | nil => exact .pure nofun
  | cons x xs ih =>
      have hall := List.forall_mem_cons.mp hf
      exact hall.1.bind fun y hy => (ih hall.2).bind fun ys hys =>
        .pure (List.forall_mem_cons.mpr ⟨hy, hys⟩)

end Exec

/-- A body runs in a scope of its own, and what it leaves there is lost. -/
theorem Run.maintains_body {step : Exec Value} {Q : Value → Prop} (hstep : Exec.Maintains Q step)
    {locals : Scope} (hlocals : locals.WellFormed) :
    Run.Maintains Value.WellFormed (Run.body step locals) := by
  intro m hm
  have hrun := hstep ⟨locals, m⟩ ⟨hlocals, hm⟩
  rw [Run.body]
  cases hresult : step ⟨locals, m⟩ with
  | ok x f =>
      rw [hresult] at hrun
      exact ⟨trivial, hrun.2.store⟩
  | error e f =>
      rw [hresult] at hrun
      cases e with
      | returned value => exact ⟨hrun.1, hrun.2.store⟩
      | fault e => exact ⟨hrun.1, hrun.2.store⟩

/-! ## Comparison -/

namespace Order

/-- Calls keep the store good, where the values in them are good. -/
def GoodCaller (call : Caller Machine) : Prop :=
  ∀ receiver name args, receiver.WellFormed → (∀ a ∈ args, a.WellFormed) →
    Run.Maintains Value.WellFormed (call receiver name args)

variable {call : Caller Machine} (hcall : GoodCaller call) {left right : Value}
  (hleft : left.WellFormed) (hright : right.WellFormed)
include hcall hleft hright

theorem maintains_ask (method : String) :
    Run.Maintains (fun _ => True) (ask call left right method) := by
  have hargs : ∀ a ∈ [right], a.WellFormed := List.forall_mem_singleton.mpr hright
  unfold ask
  split
  next c address =>
    split
    next => exact (hcall _ _ _ hleft hargs).bind fun _ _ => .pure trivial
    next => exact .pure trivial
  next => exact .pure trivial

theorem maintains_less : Run.Maintains (fun _ => True) (less call left right) := by
  unfold less
  split
  next => exact .pure trivial
  next =>
    refine (maintains_ask hcall hleft hright "__lt__").bind fun answer _ => ?_
    cases answer with
    | some answer => exact .pure trivial
    | none => exact .throw trivial

theorem maintains_equal : Run.Maintains (fun _ => True) (equal call left right) := by
  unfold equal
  split
  next => exact .pure trivial
  next =>
    refine (maintains_ask hcall hleft hright "__eq__").bind fun answer _ => ?_
    cases answer with
    | some answer => exact .pure trivial
    | none =>
        by_cases hnone : (left.isNone && right.isNone) = true
        · simp only [if_pos hnone]
          exact .pure trivial
        · simp only [if_neg hnone]
          exact .throw trivial

theorem maintains_lessEqual : Run.Maintains (fun _ => True) (lessEqual call left right) := by
  refine (maintains_less hcall hleft hright).bind fun smaller _ => ?_
  cases smaller with
  | true => exact .pure trivial
  | false => exact maintains_equal hcall hleft hright

theorem maintains_greater : Run.Maintains (fun _ => True) (greater call left right) := by
  refine (maintains_less hcall hleft hright).bind fun smaller _ => ?_
  cases smaller with
  | true => exact .pure trivial
  | false => exact (maintains_equal hcall hleft hright).bind fun _ _ => .pure trivial

theorem maintains_compare (op : Relation) :
    Run.Maintains (fun _ => True) (compare call op left right) := by
  cases op with
  | less => exact maintains_less hcall hleft hright
  | lessEqual => exact maintains_lessEqual hcall hleft hright
  | greater => exact maintains_greater hcall hleft hright
  | greaterEqual => exact (maintains_less hcall hleft hright).bind fun _ _ => .pure trivial
  | equal => exact maintains_equal hcall hleft hright
  | notEqual => exact (maintains_equal hcall hleft hright).bind fun _ _ => .pure trivial

end Order

/-! ## The evaluator -/

/-- What an operator gives is no class and no instance. -/
theorem proper_arithmetic (op : Arithmetic) (a b : Value) :
    ProperResult Value.WellFormed (op.apply a b) := by
  unfold Arithmetic.apply
  split
  next m n =>
    cases op with
    | div =>
        by_cases hzero : n = 0
        · rw [Arithmetic.onIntegers, if_pos hzero]
          trivial
        · rw [Arithmetic.onIntegers, if_neg hzero]
          trivial
    | _ => trivial
  next s t => cases op <;> trivial
  next => trivial

theorem proper_sign (sign : Sign) (a : Value) :
    ProperResult Value.WellFormed (sign.apply a) := by
  cases a with
  | int n => cases sign <;> trivial
  | _ => trivial

/-- Evaluations, method calls and renderings down to a depth, of whatever is good. -/
structure KeepsTo (n : Nat) : Prop where
  expression {x : Node} (hx : x.Expression) : Exec.Maintains Value.WellFormed (eval n x)
  statement {x : Node} (hx : x.Statement) : Exec.Maintains Value.WellFormed (eval n x)
  block {x : Node} (hx : x.Block) : Exec.Maintains Value.WellFormed (eval n x)
  invoke : Order.GoodCaller (invoke n)
  render {value : Value} (hvalue : value.WellFormed) :
    Run.Maintains (fun _ => True) (render n value)

namespace KeepsTo

variable {n : Nat}

theorem invoke_succ (ih : KeepsTo n) : Order.GoodCaller (Offside.invoke (n + 1)) := by
  intro receiver name args hreceiver hargs
  cases receiver with
  | inst c address =>
      rw [Offside.invoke]
      refine (Run.maintains_dispatch hreceiver name args).bind fun m hm => ?_
      refine (Run.maintains_notice _).bind fun _ _ => ?_
      -- The body of the method that was found is a block of a well-formed class.
      have hlocals := m.wellFormed_locals hreceiver hargs
      cases hm with
      | mk _ _ hbody => exact Run.maintains_body (ih.block hbody) hlocals
  | _ => exact .throw trivial

theorem render_succ (ih : KeepsTo n) {value : Value} (hvalue : value.WellFormed) :
    Run.Maintains (fun _ => True) (Offside.render (n + 1) value) := by
  cases value with
  | inst c address =>
      rw [Offside.render]
      by_cases hshown : c.understands "__str__" 0 = true
      · rw [if_pos hshown]
        refine (ih.invoke _ _ _ hvalue fun a ha => absurd ha List.not_mem_nil).bind ?_
        exact fun shown hshown => ih.render hshown
      · rw [if_neg hshown]
        exact .pure trivial
  | _ => exact .pure trivial

theorem construct_succ (ih : KeepsTo n) {c : Class} {args : List Node} (hc : c.WellFormed)
    (hargs : ∀ x ∈ args, x.Expression) :
    Exec.Maintains Value.WellFormed (eval (n + 1) (.construct c args)) := by
  rw [eval]
  refine (Exec.maintains_ofRun (Run.maintains_notice _)).bind fun _ _ => ?_
  refine (Exec.maintains_ofRun (Run.maintains_create hc)).bind fun created hcreated => ?_
  cases c.method? "__init__" with
  | none => exact .pure hcreated
  | some m =>
      refine (Exec.maintains_each fun x hx => ih.expression (hargs x hx)).bind fun values hvalues => ?_
      refine (Exec.maintains_ofRun (ih.invoke _ _ _ hcreated hvalues)).bind fun _ _ => ?_
      exact .pure hcreated

theorem expression_succ (ih : KeepsTo n) {x : Node} (hx : x.Expression) :
    Exec.Maintains Value.WellFormed (eval (n + 1) x) := by
  cases hx with
  | @constant value hvalue =>
      rw [eval]
      cases value with
      | cls | inst => cases hvalue
      | _ => exact .pure trivial
  | none =>
      rw [eval]
      exact .pure trivial
  | «variable» hpath hnames =>
      rw [eval]
      exact Exec.maintains_lookup hpath hnames
  | arithmetic hleft hright =>
      rw [eval]
      refine (ih.expression hleft).bind fun a _ => (ih.expression hright).bind fun b _ => ?_
      exact Exec.maintains_ofExcept (proper_arithmetic _ a b)
  | signed hx =>
      rw [eval]
      exact (ih.expression hx).bind fun a _ => Exec.maintains_ofExcept (proper_sign _ a)
  | not hx =>
      rw [eval]
      exact (ih.expression hx).bind fun _ _ => .pure trivial
  | logical hleft hright =>
      rw [eval]
      exact (ih.expression hleft).bind fun _ _ => (ih.expression hright).bind fun _ _ =>
        .pure trivial
  | comparison hleft hright =>
      rw [eval]
      refine (ih.expression hleft).bind fun a ha => (ih.expression hright).bind fun b hb => ?_
      have hcompare := Order.maintains_compare ih.invoke ha hb
      exact (Exec.maintains_ofRun (hcompare _)).bind fun _ _ => .pure trivial
  | call hreceiver hmethod hargs =>
      rw [eval]
      refine (Exec.maintains_each fun x hx => ih.expression (hargs x hx)).bind fun values hvalues => ?_
      refine (ih.expression hreceiver).bind fun target htarget => ?_
      exact Exec.maintains_ofRun (ih.invoke _ _ _ htarget hvalues)
  | construct hclass hargs => exact ih.construct_succ hclass hargs
  | stringify hx =>
      rw [eval]
      refine (ih.expression hx).bind fun a ha => ?_
      exact (Exec.maintains_ofRun (ih.render ha)).bind fun _ _ => .pure trivial

theorem ifElse_succ (ih : KeepsTo n) {condition thenBody : Node} {elseBody : Option Node}
    (hcondition : condition.Expression) (hthen : thenBody.Block)
    (helse : ∀ body ∈ elseBody, body.Block) :
    Exec.Maintains Value.WellFormed (eval (n + 1) (.ifElse condition thenBody elseBody)) := by
  have hthen : Exec.Maintains Value.WellFormed (do let _ ← eval n thenBody; return Value.none) :=
    (ih.block hthen).bind fun _ _ => .pure trivial
  cases elseBody with
  | none =>
      rw [eval]
      refine (ih.expression hcondition).bind fun a _ => ?_
      by_cases ha : a.truthy = true
      · rw [if_pos ha]
        exact hthen
      · rw [if_neg ha]
        exact .pure trivial
  | some body =>
      rw [eval]
      refine (ih.expression hcondition).bind fun a _ => ?_
      by_cases ha : a.truthy = true
      · rw [if_pos ha]
        exact hthen
      · rw [if_neg ha]
        exact (ih.block (helse body rfl)).bind fun _ _ => .pure trivial

theorem statement_succ (ih : KeepsTo n) {x : Node} (hx : x.Statement) :
    Exec.Maintains Value.WellFormed (eval (n + 1) x) := by
  cases hx with
  | expression hx => exact ih.expression_succ hx
  | assign hname hvalue =>
      rw [eval]
      refine (ih.expression hvalue).bind fun a ha => ?_
      exact (Exec.maintains_bind _ ha).bind fun _ _ => .pure ha
  | setField hpath hnames hfield hvalue =>
      rw [eval]
      refine (ih.expression hvalue).bind fun a ha => ?_
      refine (Exec.maintains_lookupInstance hpath hnames).bind fun address _ => ?_
      exact (Exec.maintains_ofRun (Run.maintains_setField address _ ha)).bind fun _ _ => .pure ha
  | print hargs =>
      rw [eval]
      refine (Exec.maintains_each fun arg harg => (ih.expression (hargs arg harg)).bind fun a ha =>
        Exec.maintains_ofRun (ih.render ha)).bind fun texts _ => ?_
      exact (Exec.maintains_ofRun (Run.maintains_writeLine _)).bind fun _ _ => .pure trivial
  | ret hvalue =>
      rw [eval]
      exact (ih.expression hvalue).bind fun a ha => .throw ha
  | ifElse hcondition hthen helse => exact ih.ifElse_succ hcondition hthen helse
  | classDef hclass =>
      rw [eval]
      have hvalue : Value.WellFormed (.cls _) := hclass
      exact (Exec.maintains_bind _ hvalue).bind fun _ _ => .pure trivial

theorem block_succ (ih : KeepsTo n) {x : Node} (hx : x.Block) :
    Exec.Maintains Value.WellFormed (eval (n + 1) x) := by
  cases hx with
  | block _ hstatements =>
      rw [eval]
      exact Exec.maintains_block fun x hx => ih.statement (hstatements x hx)

end KeepsTo

theorem keepsTo (n : Nat) : KeepsTo n := by
  -- Evaluation, calls and rendering use each other one level further down.
  induction n with
  | zero =>
      have heval : ∀ x, Exec.Maintains Value.WellFormed (eval 0 x) := fun x => by
        rw [eval]
        exact .throw trivial
      exact {
        expression := fun _ => heval _
        statement := fun _ => heval _
        block := fun _ => heval _
        invoke := fun _ _ _ _ _ => by
          rw [Offside.invoke]
          exact .throw trivial
        render := fun _ => by
          rw [Offside.render]
          exact .throw trivial }
  | succ n ih =>
      exact ⟨ih.expression_succ, ih.statement_succ, ih.block_succ, ih.invoke_succ, ih.render_succ⟩

/-! ## Whole programs -/

theorem Program.maintains_run {p : Program} (h : p.WellFormed) (depth : Nat) :
    Run.Maintains (fun _ => True) (p.run depth) := by
  refine (Run.maintains_notice _).bind fun _ _ => ?_
  refine Maintains.bind (Q := fun _ => True) (fun m hm => ?_) fun _ _ =>
    Run.maintains_flush.bind fun _ _ => .pure trivial
  have hblock := Exec.maintains_block fun x hx => (keepsTo depth).statement (h x hx)
  have hrun := hblock ⟨.empty, m⟩ ⟨Scope.wellFormed_empty, hm⟩
  rw [Program.statementsRun]
  cases hresult : Exec.block (eval depth) p.statements ⟨.empty, m⟩ with
  | ok x f =>
      rw [hresult] at hrun
      exact ⟨trivial, hrun.2.store⟩
  | error e f =>
      rw [hresult] at hrun
      cases e with
      | returned value => exact ⟨trivial, hrun.2.store⟩
      | fault e => exact ⟨hrun.1, hrun.2.store⟩

/-- A program that is read from a text is well-formed, down to the bodies of the methods of its classes,
and no run of the text ends with a look-up of no path or with a class of two methods of one name. -/
theorem parse_wellFormed {source : String} {p : Program} (h : Program.parse source = .ok p) :
    p.WellFormed ∧ ∀ (depth : Nat) (sink : Sink) (supply : Nat → Nat) (e : RuntimeError),
      (execute depth source (.writingTo sink supply)).outcome = .error (.run (.error e)) →
        e ≠ .undefinedVariable "" ∧ ∀ className method, e ≠ .duplicateMethod className method := by
  have hp := Program.wellFormed_of_parse h
  refine ⟨hp, fun depth sink supply e hrun => ?_⟩
  have hread : (Program.read source).outcome = .ok p := h
  let m : Machine := { Machine.writingTo sink supply with
    notices := (Machine.writingTo sink supply).notices ++ (Program.read source).notices }
  have hstore : m.store.WellFormed := fun cell hcell => absurd hcell (Array.not_mem_empty cell)
  have hkeeps := Program.maintains_run hp depth m hstore
  simp only [execute, hread] at hrun
  cases hresult : p.run depth m with
  | ok globals m' =>
      rw [hresult] at hrun
      cases hrun
  | error f m' =>
      rw [hresult] at hrun hkeeps
      cases hrun
      have hproper : e.Proper := hkeeps.1
      constructor
      · rintro rfl
        exact hproper rfl
      · rintro className method rfl
        exact hproper

/-- A class with a branch in one method and a path into its instances in another. -/
theorem parse_wellFormed_class :
    ∃ source p, Program.parse source = .ok p ∧ p.classes.map (·.name) = ["A"] ∧ p.WellFormed
      ∧ ∀ (depth : Nat) (sink : Sink) (supply : Nat → Nat) (e : RuntimeError),
        (execute depth source (.writingTo sink supply)).outcome = .error (.run (.error e)) →
          e ≠ .undefinedVariable ""
            ∧ ∀ className method, e ≠ .duplicateMethod className method := by
  let source := "class A:
  def f(self, x):
    if x > 1:
      self.v = -x
  def g(self):
    return self.w.v
a = A()
a.f(2)
print(a.v, a.g())
"
  have hread : Program.definesClasses ["A"] (Program.parse source) = true := by
    decide +kernel
  rcases Program.exists_of_definesClasses hread with ⟨p, hparse, hnames⟩
  exact ⟨source, p, hparse, hnames, parse_wellFormed hparse⟩

end Offside
