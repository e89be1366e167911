import Offside.Proofs.Methods.Locals
import Offside.Proofs.Results

/-!
# Names — what an evaluation sees of the scope around it

This file shows that a node depends on a scope only through the names that it spells out itself:

- `Node.Reads`  : the first name of a path in the node, outside the bodies of methods
- `Node.Binds`  : the name of an assignment or of a class definition in it, outside the same bodies
- `Exec.Closed` : a property of steps that every evaluation has whose nodes allow it
- `Exec.Within` : what a step does is settled by some names of the scope, and it binds some names only

Methods that run meanwhile do so on the machine alone, so that neither their variables nor the name of a
class that is constructed have a part in it.  The main statement, `eval_depends_on_reads`, compares the
evaluations of one node in two scopes.
-/

namespace Offside

/-! ## The names of a node -/

namespace Node

/-- The nodes directly below a node. The bodies of methods are not below the definition of their class. -/
def children : Node → List Node
  | .constant _ | .none | .variable _ | .classDef _ => []
  | .arithmetic _ left right | .logical _ left right | .comparison _ left right => [left, right]
  | .signed _ x | .not x | .assign _ x | .setField _ _ x | .stringify x | .ret x => [x]
  | .block nodes | .print nodes | .construct _ nodes => nodes
  | .call receiver _ args => receiver :: args
  | .ifElse condition thenBody elseBody => condition :: thenBody :: elseBody.toList

/-- A node of the given kind occurs in this one, or is this one. -/
inductive Has (P : Node → Prop) : Node → Prop where
  | here {x : Node} (h : P x) : Has P x
  | inside {x y : Node} (hy : y ∈ x.children) (h : Has P y) : Has P x

theorem Has.mono {P Q : Node → Prop} {x : Node} (h : x.Has P) (hPQ : ∀ y, P y → Q y) : x.Has Q := by
  induction h with
  | here h => exact .here (hPQ _ h)
  | inside hy _ ih => exact .inside hy ih

/-- The name that a node looks up in the scope. -/
def lookedUp? : Node → Option String
  | .variable path | .setField path _ _ => path.head?
  | _ => Option.none

/-- The name that a node binds in the scope. -/
def bound? : Node → Option String
  | .assign name _ => some name
  | .classDef c => some c.name
  | _ => Option.none

def Reads (x : Node) (name : String) : Prop :=
  x.Has fun y => y.lookedUp? = some name

def Binds (x : Node) (name : String) : Prop :=
  x.Has fun y => y.bound? = some name

end Node

/-! ## Scopes that agree -/

namespace Scope

/-- The two scopes bind the names in question alike. -/
def Agree (names : String → Prop) (s t : Scope) : Prop :=
  ∀ name, names name → s.get? name = t.get? name

namespace Agree

variable {names : String → Prop} {s t : Scope}

theorem refl : Agree names s s :=
  fun _ _ => rfl

theorem insert (h : Agree names s t) (name : String) (value : Value) :
    Agree names (s.insert name value) (t.insert name value) := by
  intro other hother
  by_cases hname : other = name
  · subst hname
    rw [get?_insert_self, get?_insert_self]
  · rw [get?_insert_of_ne s hname, get?_insert_of_ne t hname, h other hother]

theorem insertAll (h : Agree names s t) (bs : List (String × Value)) :
    Agree names (s.insertAll bs) (t.insertAll bs) := by
  induction bs generalizing s t with
  | nil => exact h
  | cons b bs ih => exact ih (h.insert b.1 b.2)

/-- A path leads to the same value, or fails in the same way. -/
theorem lookup_eq (h : Agree names s t) {path : List String}
    (hpath : ∀ name, path.head? = some name → names name) (store : Store) :
    s.lookup store path = t.lookup store path := by
  cases path with
  | nil => rfl
  | cons first rest =>
      have hfirst : s.get? first = t.get? first := h first (hpath first rfl)
      rw [Scope.lookup, Scope.lookup, hfirst]

theorem lookupInstance_eq (h : Agree names s t) {path : List String}
    (hpath : ∀ name, path.head? = some name → names name) (store : Store) :
    s.lookupInstance store path = t.lookupInstance store path := by
  rw [lookupInstance, lookupInstance, h.lookup_eq hpath]

end Agree

/-- Where the same bindings are made in two scopes, a name has its old value in both or one new value. -/
theorem get?_insertAll_eq_or (s t : Scope) (bs : List (String × Value)) (name : String) :
    ((s.insertAll bs).get? name = s.get? name ∧ (t.insertAll bs).get? name = t.get? name)
      ∨ ∃ value, (s.insertAll bs).get? name = some value
        ∧ (t.insertAll bs).get? name = some value := by
  by_cases hname : name ∈ bs.map Prod.fst
  · right
    -- The last binding of the name decides, whatever the scope was before it.
    induction bs generalizing s t with
    | nil => simp at hname
    | cons b bs ih =>
        by_cases hlater : name ∈ bs.map Prod.fst
        · exact ih (s.insert b.1 b.2) (t.insert b.1 b.2) hlater
        · have hb : name = b.1 := (List.mem_cons.mp hname).resolve_right hlater
          subst hb
          exact ⟨b.2, get?_insertAll_last s [] b hlater, get?_insertAll_last t [] b hlater⟩
  · exact .inl ⟨get?_insertAll_of_notMem hname s, get?_insertAll_of_notMem hname t⟩

end Scope

/-! ## Steps within names -/

namespace Exec

/-- An outcome together with the scope in which it is reached. -/
def leaving {α : Type} (scope : Scope) :
    EStateM.Result Exit Machine α → EStateM.Result Exit Frame α
  | .ok x m => .ok x ⟨scope, m⟩
  | .error e m => .error e ⟨scope, m⟩

/-- An outcome of the machine as one of a frame, which it leaves with a fault. -/
def asExit {α : Type} : EStateM.Result Fault Machine α → EStateM.Result Exit Machine α
  | .ok x m => .ok x m
  | .error e m => .error (.fault e) m

/-- What the step does is settled by the names that it reads: in all scopes that agree on them it has
the same outcome and makes the same bindings, which are of the names that it binds. -/
def Within {α : Type} (reads binds : String → Prop) (p : Exec α) : Prop :=
  ∀ (s : Scope) (m : Machine), ∃ (outcome : EStateM.Result Exit Machine α)
    (bindings : List (String × Value)),
      (∀ b ∈ bindings, binds b.1)
        ∧ ∀ t, Scope.Agree reads s t → p ⟨t, m⟩ = leaving (t.insertAll bindings) outcome

namespace Within

variable {reads binds : String → Prop} {α β : Type}

/-- A step that leaves the scope as it is, and whose outcome does not depend on what it does not read. -/
theorem of_unbinding {p : Exec α} (outcome : Scope → Machine → EStateM.Result Exit Machine α)
    (hp : ∀ s m, p ⟨s, m⟩ = leaving s (outcome s m))
    (houtcome : ∀ s t m, Scope.Agree reads s t → outcome s m = outcome t m) :
    Within reads binds p := by
  intro s m
  refine ⟨outcome s m, [], nofun, fun t ht => ?_⟩
  rw [houtcome s t m ht]
  exact hp t m

theorem mono {reads' binds' : String → Prop} {p : Exec α} (h : Within reads binds p)
    (hreads : ∀ name, reads name → reads' name) (hbinds : ∀ name, binds name → binds' name) :
    Within reads' binds' p := by
  intro s m
  rcases h s m with ⟨outcome, bindings, hbound, hrun⟩
  exact ⟨outcome, bindings, fun b hb => hbinds b.1 (hbound b hb),
    fun t ht => hrun t fun name hname => ht name (hreads name hname)⟩

theorem pure (x : α) : Within reads binds (pure x : Exec α) :=
  of_unbinding (fun _ m => .ok x m) (fun _ _ => rfl) fun _ _ _ _ => rfl

theorem throw (e : Exit) : Within reads binds (throw e : Exec α) :=
  of_unbinding (fun _ m => .error e m) (fun _ _ => rfl) fun _ _ _ _ => rfl

theorem bind {p : Exec α} {f : α → Exec β} (hp : Within reads binds p)
    (hf : ∀ x, Within reads binds (f x)) : Within reads binds (p >>= f) := by
  intro s m
  rcases hp s m with ⟨outcome, bindings, hbound, hrun⟩
  cases outcome with
  | error e m₁ => exact ⟨.error e m₁, bindings, hbound, fun t ht => bind_of_error (hrun t ht)⟩
  | ok x m₁ =>
      -- The second step starts in scopes that still agree, as they got the same bindings.
      rcases hf x (s.insertAll bindings) m₁ with ⟨outcome₂, bindings₂, hbound₂, hrun₂⟩
      refine ⟨outcome₂, bindings ++ bindings₂, fun b hb => ?_, fun t ht => ?_⟩
      · exact (List.mem_append.mp hb).elim (hbound b) (hbound₂ b)
      · rw [bind_of_ok (hrun t ht), hrun₂ _ (ht.insertAll bindings), Scope.insertAll_append]

/-- A step of the machine does not see the scope. -/
theorem ofRun (p : Run α) : Within reads binds (Exec.ofRun p) := by
  refine of_unbinding (fun _ m => asExit (p m)) (fun s m => ?_) fun _ _ _ _ => rfl
  rw [Exec.ofRun]
  cases p m <;> rfl

theorem lookup {path : List String} (hpath : ∀ name, path.head? = some name → reads name) :
    Within reads binds (Exec.lookup path) := by
  refine of_unbinding (fun s m => match s.lookup m.store path with
    | .ok value => .ok value m
    | .error e => .error (.fault (.error e)) m) (fun s m => ?_) fun s t m hst => ?_
  · show Exec.ofExcept (s.lookup m.store path) ⟨s, m⟩ = _
    cases s.lookup m.store path <;> rfl
  · rw [hst.lookup_eq hpath]

theorem lookupInstance {path : List String}
    (hpath : ∀ name, path.head? = some name → reads name) :
    Within reads binds (Exec.lookupInstance path) := by
  refine of_unbinding (fun s m => match s.lookupInstance m.store path with
    | .ok address => .ok address m
    | .error e => .error (.fault (.error e)) m) (fun s m => ?_) fun s t m hst => ?_
  · show Exec.ofExcept (s.lookupInstance m.store path) ⟨s, m⟩ = _
    cases s.lookupInstance m.store path <;> rfl
  · rw [hst.lookupInstance_eq hpath]

theorem assign {name : String} (hname : binds name) (value : Value) :
    Within reads binds (Exec.bind name value) := by
  intro s m
  refine ⟨.ok () m, [(name, value)], fun b hb => ?_, fun t _ => rfl⟩
  cases List.mem_singleton.mp hb
  exact hname

end Within

end Exec

/-! ## The evaluator -/

namespace Exec

/-- The property `E` of steps holds of those that end at once or run on the machine alone, and of what is
composed of steps that have it. -/
structure Closed (E : ∀ {α : Type}, Exec α → Prop) : Prop where
  pure {α : Type} (x : α) : E (pure x : Exec α)
  bind {α β : Type} {p : Exec α} {f : α → Exec β} (hp : E p) (hf : ∀ x, E (f x)) : E (p >>= f)
  ofRun {α : Type} (p : Run α) : E (ofRun p)

/-- What a node does by itself, apart from its children, has the property, as far as it is about the
scope or about how the method around it ends. -/
structure Allows (E : ∀ {α : Type}, Exec α → Prop) (x : Node) : Prop where
  lookup {path : List String} (hx : x = .variable path) : E (lookup path)
  lookupInstance {path : List String} {field : String} {value : Node}
    (hx : x = .setField path field value) : E (lookupInstance path)
  assign {name : String} (hx : x.bound? = some name) (value : Value) : E (bind name value)
  ret {operand : Node} (hx : x = .ret operand) (value : Value) :
    E (throw (.returned value) : Exec Value)

namespace Closed

variable {E : ∀ {α : Type}, Exec α → Prop} {n : Nat}

theorem block (h : Closed @E) {eval : Node → Exec Value} {body : List Node}
    (heval : ∀ x ∈ body, E (eval x)) : E (Exec.block eval body) := by
  induction body with
  | nil => exact h.pure Value.none
  | cons statement rest ih =>
      have hall := List.forall_mem_cons.mp heval
      exact h.bind hall.1 fun _ => ih hall.2

theorem each (h : Closed @E) {α β : Type} {f : α → Exec β} {xs : List α}
    (hf : ∀ x ∈ xs, E (f x)) : E (Exec.each f xs) := by
  induction xs with
  | nil => exact h.pure []
  | cons x xs ih =>
      have hall := List.forall_mem_cons.mp hf
      exact h.bind hall.1 fun y => h.bind (ih hall.2) fun ys => h.pure (y :: ys)

theorem construct (h : Closed @E) {c : Class} {args : List Node}
    (hargs : ∀ x ∈ args, E (eval n x)) : E (eval (n + 1) (.construct c args)) := by
  rw [eval]
  refine h.bind (h.ofRun _) fun _ => h.bind (h.ofRun _) fun created => ?_
  cases c.method? "__init__" with
  | none => exact h.pure created
  | some m =>
      exact h.bind (h.each hargs) fun values => h.bind (h.ofRun _) fun _ => h.pure created

theorem ifElse (h : Closed @E) {condition thenBody : Node} {elseBody : Option Node}
    (hcondition : E (eval n condition)) (hthen : E (eval n thenBody))
    (helse : ∀ body ∈ elseBody, E (eval n body)) :
    E (eval (n + 1) (.ifElse condition thenBody elseBody)) := by
  have hthen : E (do let _ ← eval n thenBody; return Value.none) :=
    h.bind hthen fun _ => h.pure Value.none
  cases elseBody with
  | none =>
      rw [eval]
      refine h.bind hcondition fun a => ?_
      by_cases ha : a.truthy = true
      · rw [if_pos ha]
        exact hthen
      · rw [if_neg ha]
        exact h.pure Value.none
  | some body =>
      rw [eval]
      refine h.bind hcondition fun a => ?_
      by_cases ha : a.truthy = true
      · rw [if_pos ha]
        exact hthen
      · rw [if_neg ha]
        exact h.bind (helse body rfl) fun _ => h.pure Value.none

/-- A node has the property if what it does by itself and what its children do have it. -/
theorem eval_succ (h : Closed @E) {x : Node} (hx : Allows @E x)
    (hchildren : ∀ y ∈ x.children, E (eval n y)) : E (eval (n + 1) x) := by
  cases x with
  | constant value =>
      rw [eval]
      exact h.pure value
  | none =>
      rw [eval]
      exact h.pure Value.none
  | «variable» path =>
      rw [eval]
      exact hx.lookup rfl
  | arithmetic op left right =>
      rw [eval]
      exact h.bind (hchildren left (by simp [Node.children])) fun a =>
        h.bind (hchildren right (by simp [Node.children])) fun b => h.ofRun _
  | signed sign operand =>
      rw [eval]
      exact h.bind (hchildren operand List.mem_cons_self) fun a => h.ofRun _
  | not operand =>
      rw [eval]
      exact h.bind (hchildren operand List.mem_cons_self) fun a => h.pure _
  | logical op left right =>
      rw [eval]
      exact h.bind (hchildren left (by simp [Node.children])) fun a =>
        h.bind (hchildren right (by simp [Node.children])) fun b => h.pure _
  | comparison op left right =>
      rw [eval]
      -- The methods of the operands run on the machine alone.
      exact h.bind (hchildren left (by simp [Node.children])) fun a =>
        h.bind (hchildren right (by simp [Node.children])) fun b =>
          h.bind (h.ofRun _) fun answer => h.pure _
  | assign name value =>
      rw [eval]
      exact h.bind (hchildren value List.mem_cons_self) fun a =>
        h.bind (hx.assign rfl a) fun _ => h.pure a
  | setField path field value =>
      rw [eval]
      exact h.bind (hchildren value List.mem_cons_self) fun a =>
        h.bind (hx.lookupInstance rfl) fun address => h.bind (h.ofRun _) fun _ => h.pure a
  | block body =>
      rw [eval]
      exact h.block hchildren
  | print args =>
      rw [eval]
      have htexts : E (Exec.each (fun arg => do Exec.ofRun (render n (← eval n arg))) args) :=
        h.each fun arg harg => h.bind (hchildren arg harg) fun a => h.ofRun _
      exact h.bind htexts fun texts => h.bind (h.ofRun _) fun _ => h.pure Value.none
  | call receiver method args =>
      rw [eval]
      have hargs := List.forall_mem_cons.mp hchildren
      exact h.bind (h.each hargs.2) fun values => h.bind hargs.1 fun target => h.ofRun _
  | construct c args => exact h.construct hchildren
  | stringify operand =>
      rw [eval]
      exact h.bind (hchildren operand List.mem_cons_self) fun a =>
        h.bind (h.ofRun _) fun text => h.pure _
  | ret value =>
      rw [eval]
      exact h.bind (hchildren value List.mem_cons_self) fun a => hx.ret rfl a
  | ifElse condition thenBody elseBody =>
      have hall := List.forall_mem_cons.mp hchildren
      have hbodies := List.forall_mem_cons.mp hall.2
      exact h.ifElse hall.1 hbodies.1 fun body hbody => hbodies.2 body (Option.mem_toList.mpr hbody)
  | classDef c =>
      rw [eval]
      exact h.bind (hx.assign rfl _) fun _ => h.pure Value.none

/-- To every depth, a node has the property if all nodes in it allow it. -/
theorem eval (h : Closed @E) (n : Nat) {x : Node} (hx : ∀ y, x.Has (· = y) → Allows @E y) :
    E (Offside.eval n x) := by
  induction n generalizing x with
  | zero =>
      rw [Offside.eval]
      exact h.ofRun (throw .exhausted)
  | succ n ih =>
      exact h.eval_succ (hx x (.here rfl)) fun y hy => ih fun z hz => hx z (.inside hy hz)

end Closed

theorem closed_within (reads binds : String → Prop) : Closed (Within reads binds) where
  pure := .pure
  bind := .bind
  ofRun := .ofRun

end Exec

/-- To every depth, a node stays within the names that it spells out. -/
theorem within_eval (n : Nat) (x : Node) : Exec.Within x.Reads x.Binds (eval n x) :=
  (Exec.closed_within x.Reads x.Binds).eval n fun y hy => {
    lookup := fun hpath => .lookup fun name hname => hy.mono fun z hz => by
      rw [hz, hpath]
      exact hname
    lookupInstance := fun hpath => .lookupInstance fun name hname => hy.mono fun z hz => by
      rw [hz, hpath]
      exact hname
    assign := fun hname value => .assign (hy.mono fun z hz => hz ▸ hname) value
    ret := fun _ value => .throw (.returned value) }

/-- What a constructor call creates is an instance of the class in the tree, at the next address. -/
theorem eq_inst_of_construct {n : Nat} {c : Class} {args : List Node} {f g : Frame} {value : Value}
    (h : eval n (.construct c args) f = .ok value g) : value = .inst c f.machine.store.next := by
  cases n with
  | zero =>
      rw [eval] at h
      cases h
  | succ n =>
      rw [eval] at h
      rcases bind_eq_ok h with ⟨_, f₁, hnotice, h⟩
      rcases bind_eq_ok h with ⟨created, f₂, hcreate, h⟩
      cases hnotice
      cases hcreate
      cases hinit : c.method? "__init__" with
      | none =>
          rw [hinit] at h
          exact (eq_of_pure_eq_ok h).1.symm
      | some m =>
          rw [hinit] at h
          rcases bind_eq_ok h with ⟨values, f₃, -, h⟩
          rcases bind_eq_ok h with ⟨_, f₄, -, h⟩
          exact (eq_of_pure_eq_ok h).1.symm

/-- In two scopes that agree on the names that a node reads, its evaluation has the same outcome on the
same machine, whether it ends or is cut off. A name is untouched in both scopes or gets one value in
both, and it is untouched where the node does not bind it itself. What is constructed is of the class in
the tree, whatever its name is bound to.

The same machine means the same abstract store, not the same memory: both evaluations start from one store
and draw the blocks of their instances from its one supply, whatever that is. -/
theorem eval_depends_on_reads (depth : Nat) (x : Node) (s t : Scope) (m : Machine)
    (h : ∀ name, x.Reads name → s.get? name = t.get? name) :
    ∃ (outcome : EStateM.Result Exit Machine Value) (s' t' : Scope),
      eval depth x ⟨s, m⟩ = Exec.leaving s' outcome
        ∧ eval depth x ⟨t, m⟩ = Exec.leaving t' outcome
        ∧ (∀ name, (s'.get? name = s.get? name ∧ t'.get? name = t.get? name)
          ∨ ∃ value, s'.get? name = some value ∧ t'.get? name = some value)
        ∧ (∀ name, ¬x.Binds name → s'.get? name = s.get? name ∧ t'.get? name = t.get? name)
        ∧ ∀ c args value after, x = .construct c args → outcome = .ok value after →
          value = .inst c m.store.next := by
  rcases within_eval depth x s m with ⟨outcome, bindings, hbound, hrun⟩
  refine ⟨outcome, s.insertAll bindings, t.insertAll bindings, hrun s .refl, hrun t h,
    Scope.get?_insertAll_eq_or s t bindings, fun name hname => ?_, ?_⟩
  · have hmem : name ∉ bindings.map Prod.fst := by
      intro hmem
      rcases List.mem_map.mp hmem with ⟨b, hb, rfl⟩
      exact hname (hbound b hb)
    exact ⟨Scope.get?_insertAll_of_notMem hmem s, Scope.get?_insertAll_of_notMem hmem t⟩
  · rintro c args value after rfl rfl
    have hconstructed := hrun s .refl
    exact eq_inst_of_construct hconstructed

/-- A class is constructed in a scope in which its name is bound to a number. The constructor assigns a
variable that the caller has as well. -/
theorem eval_depends_on_reads_rebound :
    let init : Method := ⟨"__init__", ["self", "v"], .block [.assign "y" (.variable ["v"])]⟩
    let c : Class := ⟨"A", none, [init]⟩
    let x : Node := .assign "a" (.construct c [.variable ["x"]])
    let s : Scope := Scope.empty.insert "x" (.int 7)
    let t : Scope := (s.insert "A" (.int 3)).insert "y" (.int 0)
    (∀ name, x.Reads name → s.get? name = t.get? name)
      ∧ ∃ (outcome : EStateM.Result Exit Machine Value) (s' t' : Scope),
        eval 10 x ⟨s, .writingTo .unlimited id⟩ = Exec.leaving s' outcome
          ∧ eval 10 x ⟨t, .writingTo .unlimited id⟩ = Exec.leaving t' outcome
          ∧ t'.get? "A" = t.get? "A" ∧ t'.get? "y" = t.get? "y" := by
  intro init c x s t
  have hreads : ∀ name, x.Reads name → s.get? name = t.get? name := by
    rintro name (h | ⟨hy, h⟩)
    · cases h
    cases List.mem_singleton.mp hy
    rcases h with h | ⟨hy, h⟩
    · cases h
    cases List.mem_singleton.mp hy
    rcases h with h | ⟨hy, h⟩
    · cases h
      rfl
    · cases hy
  have hbinds : ∀ name, x.Binds name → name = "a" := by
    rintro name (h | ⟨hy, h⟩)
    · cases h
      rfl
    cases List.mem_singleton.mp hy
    rcases h with h | ⟨hy, h⟩
    · cases h
    cases List.mem_singleton.mp hy
    rcases h with h | ⟨hy, h⟩
    · cases h
    · cases hy
  refine ⟨hreads, ?_⟩
  rcases eval_depends_on_reads 10 x s t (.writingTo .unlimited id) hreads
    with ⟨outcome, s', t', hs, ht, -, huntouched, -⟩
  have hclass : ¬x.Binds "A" := fun h => absurd (hbinds _ h) (by decide)
  have hlocal : ¬x.Binds "y" := fun h => absurd (hbinds _ h) (by decide)
  exact ⟨outcome, s', t', hs, ht, (huntouched "A" hclass).2, (huntouched "y" hlocal).2⟩

end Offside
