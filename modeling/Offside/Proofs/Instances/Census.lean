import Offside.Proofs.Evaluation.Names
import Offside.Proofs.Trees.Faults

/-!
# Census — the instances that there are, and of which class each is

The store has the fields of an instance under its address, and every handle of the instance carries its
class.  This file says which instances there are, and what it means that a state knows no others:

- `Node.All`      : a property of a node and of all nodes below it
- `Census`        : which class the instance at an address is of
- `Value.Listed`  : the handle is of an instance in the census, under its class
- `Census.Closed` : the instances are of classes whose methods construct only such classes in their turn

A node may hold handles as constants, and so may the bodies of methods; the classes whose methods can run
are a parameter `K` throughout.  Paths, operators and the binding of parameters stay within what is listed;
that evaluation does so is shown in `Bookkeeping` and `Keeping`.
-/

namespace Offside

/-! ## Nodes all through -/

namespace Node

/-- A property of a node and of the nodes below it. The bodies of methods are not below the definition of
their class. -/
inductive All (P : Node → Prop) : Node → Prop where
  | mk {x : Node} (here : P x) (below : ∀ y ∈ x.children, All P y) : All P x

namespace All

variable {P Q : Node → Prop} {x y : Node}

theorem here (h : x.All P) : P x := by
  cases h with
  | mk here _ => exact here

theorem child (h : x.All P) (hy : y ∈ x.children) : y.All P := by
  cases h with
  | mk _ below => exact below y hy

theorem mono (h : x.All P) (hPQ : ∀ y, P y → Q y) : x.All Q := by
  induction h with
  | mk here _ ih => exact .mk (hPQ _ here) ih

theorem and (hP : x.All P) (hQ : x.All Q) : x.All fun y => P y ∧ Q y := by
  induction hP with
  | mk here _ ih => exact .mk ⟨here, hQ.here⟩ fun y hy => ih y hy (hQ.child hy)

end All

theorem sizeOf_lt_of_mem_children {x y : Node} (h : y ∈ x.children) : sizeOf y < sizeOf x := by
  have hlist : ∀ ys : List Node, y ∈ ys → sizeOf y < sizeOf ys := fun _ => List.sizeOf_lt_of_mem
  cases x with
  | block ys | print ys | construct _ ys =>
      have hlt := hlist ys h
      simp only [block.sizeOf_spec, print.sizeOf_spec, construct.sizeOf_spec]
      omega
  | call receiver _ args =>
      rw [call.sizeOf_spec]
      rcases List.mem_cons.mp h with rfl | h
      · omega
      · have hlt := hlist args h
        omega
  | ifElse condition thenBody elseBody =>
      rw [ifElse.sizeOf_spec]
      rcases List.mem_cons.mp h with rfl | h
      · omega
      rcases List.mem_cons.mp h with rfl | h
      · omega
      cases elseBody with
      | none => cases h
      | some body =>
          cases List.mem_singleton.mp h
          rw [Option.some.sizeOf_spec]
          omega
  | arithmetic | logical | comparison =>
      simp only [arithmetic.sizeOf_spec, logical.sizeOf_spec, comparison.sizeOf_spec]
      rcases List.mem_cons.mp h with rfl | h
      · omega
      · cases List.mem_singleton.mp h
        omega
  | signed | not | assign | setField | stringify | ret =>
      cases List.mem_singleton.mp h
      simp only [signed.sizeOf_spec, not.sizeOf_spec, assign.sizeOf_spec, setField.sizeOf_spec,
        stringify.sizeOf_spec, ret.sizeOf_spec]
      omega
  | _ => cases h

/-- What a node hands down to the nodes below it holds all through. -/
theorem All.of_handedDown {P S : Node → Prop}
    (hdown : ∀ x, S x → P x ∧ ∀ y ∈ x.children, S y) {x : Node} (hx : S x) : x.All P := by
  have hstep := hdown x hx
  exact .mk hstep.1 fun y hy => All.of_handedDown hdown (hstep.2 y hy)
termination_by sizeOf x
decreasing_by exact sizeOf_lt_of_mem_children hy

end Node

/-! ## The census -/

/-- Which class the instance at an address is of. -/
def Census : Type :=
  Address → Option Class

namespace Census

/-- The census of a store without instances. -/
def empty : Census :=
  fun _ => none

/-- The census with one instance more. -/
def add (κ : Census) (address : Address) (c : Class) : Census :=
  fun other => if other = address then some c else κ other

/-- No instance is missing from the second census, or of another class there. -/
def Extends (κ κ' : Census) : Prop :=
  ∀ address c, κ address = some c → κ' address = some c

theorem Extends.refl (κ : Census) : κ.Extends κ :=
  fun _ _ h => h

theorem Extends.trans {κ κ' κ'' : Census} (h : κ.Extends κ') (h' : κ'.Extends κ'') :
    κ.Extends κ'' :=
  fun address c hc => h' address c (h address c hc)

theorem empty_extends (κ : Census) : empty.Extends κ :=
  fun _ _ h => absurd h nofun

theorem extends_add {κ : Census} {address : Address} (h : κ address = none) (c : Class) :
    κ.Extends (κ.add address c) := by
  intro other d hd
  have hne : other ≠ address := by
    rintro rfl
    rw [h] at hd
    cases hd
  rw [add, if_neg hne]
  exact hd

theorem add_self (κ : Census) (address : Address) (c : Class) : κ.add address c address = some c :=
  if_pos rfl

end Census

variable {κ κ' : Census} {K : Class → Prop}

/-- A handle of an instance is listed with its class. -/
def Value.Listed (κ : Census) : Value → Prop
  | .inst c address => κ address = some c
  | _ => True

def Scope.Listed (κ : Census) (s : Scope) : Prop :=
  ∀ b ∈ s.bindings, b.2.Listed κ

/-- The census is of the instances made so far, and their fields hold no others. -/
structure Store.Listed (κ : Census) (s : Store) : Prop where
  domain : ∀ address, (κ address).isSome ↔ s.Holds address
  cells : ∀ cell ∈ s.cells, cell.Listed κ

structure Frame.Listed (κ : Census) (f : Frame) : Prop where
  scope : f.scope.Listed κ
  store : f.machine.store.Listed κ

/-- What a node hands on by itself: a constant is listed, and a class that it constructs is of `K`. -/
def Node.Backed (κ : Census) (K : Class → Prop) : Node → Prop
  | .constant value => value.Listed κ
  | .construct c _ => K c
  | _ => True

/-- All instances are of classes of `K`, and so are those that the methods of these classes create. -/
structure Census.Closed (κ : Census) (K : Class → Prop) : Prop where
  known : ∀ address c, κ address = some c → K c
  bodies : ∀ c name m, K c → c.method? name = some m → m.body.All (Node.Backed κ K)

/-! ### Listed values and states -/

theorem Value.Listed.extend {value : Value} (h : value.Listed κ) (hκ : κ.Extends κ') :
    value.Listed κ' := by
  cases value with
  | inst c address => exact hκ address c h
  | _ => trivial

theorem Node.Backed.extend {x : Node} (h : x.Backed κ K) (hκ : κ.Extends κ') :
    x.Backed κ' K := by
  cases x with
  | constant value => exact Value.Listed.extend h hκ
  | construct c args => exact h
  | _ => trivial

theorem Node.All.extend {x : Node} (h : x.All (Node.Backed κ K)) (hκ : κ.Extends κ') :
    x.All (Node.Backed κ' K) :=
  h.mono fun _ hy => hy.extend hκ

/-- An instance may be added that is of one of the classes. -/
theorem Census.Closed.add {address : Address} {c : Class} (h : κ.Closed K) (hnone : κ address = none)
    (hc : K c) : (κ.add address c).Closed K where
  known other d hd := by
    by_cases heq : other = address
    · rw [Census.add, if_pos heq] at hd
      cases hd
      exact hc
    · rw [Census.add, if_neg heq] at hd
      exact h.known other d hd
  -- The bodies hold handles of the old census only, which are in the new one.
  bodies d name m hd hm := (h.bodies d name m hd hm).extend (Census.extends_add hnone c)

namespace Scope

variable {s : Scope}

theorem listed_empty : Scope.empty.Listed κ :=
  fun _ hb => absurd hb List.not_mem_nil

theorem Listed.extend (h : s.Listed κ) (hκ : κ.Extends κ') : s.Listed κ' :=
  fun b hb => (h b hb).extend hκ

theorem Listed.insert (h : s.Listed κ) (name : String) {value : Value} (hvalue : value.Listed κ) :
    (s.insert name value).Listed κ := by
  intro b hb
  rcases mem_insertSorted hb with rfl | hb
  · exact hvalue
  · exact h b hb

theorem Listed.insertAll (h : s.Listed κ) {bs : List (String × Value)}
    (hbs : ∀ b ∈ bs, b.2.Listed κ) : (s.insertAll bs).Listed κ := by
  induction bs generalizing s with
  | nil => exact h
  | cons b bs ih =>
      have hall := List.forall_mem_cons.mp hbs
      exact ih (h.insert b.1 hall.1) hall.2

theorem Listed.of_get? (h : s.Listed κ) {name : String} {value : Value}
    (hname : s.get? name = some value) : value.Listed κ := by
  rcases Option.map_eq_some_iff.mp hname with ⟨b, hb, rfl⟩
  exact h b (List.mem_of_find?_eq_some hb)

end Scope

namespace Store

variable {s : Store}

theorem listed_empty (supply : Nat → Nat) : (Store.empty supply).Listed .empty where
  domain address := by
    simp only [Census.empty, Option.isSome_none, Bool.false_eq_true, false_iff]
    exact not_holds_empty supply address
  cells _ hcell := absurd hcell (Array.not_mem_empty _)

/-- No instance is listed at the next address. -/
theorem Listed.next_eq_none (h : s.Listed κ) : κ s.next = none := by
  rw [← Option.not_isSome_iff_eq_none, h.domain s.next]
  exact not_holds_next s

theorem Listed.fields (h : s.Listed κ) (address : Address) : (s.fields address).Listed κ := by
  unfold Store.fields
  split
  next slot _ =>
    rw [Array.getD_eq_getD_getElem?]
    cases hcell : s.cells[slot]? with
    | none => exact Scope.listed_empty
    | some cell => exact h.cells cell (Array.mem_of_getElem? hcell)
  next => exact Scope.listed_empty

theorem Listed.allocate (h : s.Listed κ) (c : Class) : s.allocate.Listed (κ.add s.next c) where
  domain address := by
    rw [holds_allocate, Census.add]
    by_cases heq : address = s.next
    · rw [if_pos heq]
      exact iff_of_true rfl (.inr heq)
    · rw [if_neg heq, h.domain address, or_iff_left heq]
  cells := by
    have hκ := Census.extends_add h.next_eq_none c
    exact Array.forall_mem_push.mpr
      ⟨Scope.listed_empty, fun cell hcell => (h.cells cell hcell).extend hκ⟩

theorem Listed.setField (h : s.Listed κ) (address : Address) (field : String) {value : Value}
    (hvalue : value.Listed κ) : (s.setField address field value).Listed κ where
  domain other := by
    rw [holds_setField]
    exact h.domain other
  cells := by
    unfold Store.setField
    split
    next slot _ =>
      intro cell hcell
      rcases Array.getElem_of_mem hcell with ⟨i, hi, rfl⟩
      rw [Array.getElem_modify]
      have hlt : i < s.cells.size := by simpa using hi
      have hold : (s.cells[i]).Listed κ := h.cells _ (Array.getElem_mem hlt)
      split
      · exact hold.insert field hvalue
      · exact hold
    next => exact h.cells

end Store

/-! ### Paths -/

theorem Scope.listed_follow {store : Store} (hstore : store.Listed κ) {rest : List String} :
    ∀ {walked : List String} {value found : Value}, value.Listed κ →
      follow store walked value rest = .ok found → found.Listed κ := by
  induction rest with
  | nil =>
      intro walked value found hvalue h
      cases h
      exact hvalue
  | cons field rest ih =>
      intro walked value found hvalue h
      unfold follow at h
      split at h
      next c address =>
        split at h
        next next hnext => exact ih ((hstore.fields address).of_get? hnext) h
        next => cases h
      next => cases h

theorem Scope.listed_lookup {s : Scope} {store : Store} (hs : s.Listed κ)
    (hstore : store.Listed κ) {path : List String} {found : Value}
    (h : s.lookup store path = .ok found) : found.Listed κ := by
  cases path with
  | nil => cases h
  | cons first rest =>
      rw [lookup] at h
      split at h
      next value hvalue => exact listed_follow hstore (hs.of_get? hvalue) h
      next => cases h

theorem Scope.lookupInstance_eq_ok_iff {s : Scope} {store : Store} {path : List String}
    {address : Address} :
    s.lookupInstance store path = .ok address
      ↔ ∃ c, s.lookup store path = .ok (.inst c address) := by
  rw [lookupInstance]
  constructor
  · intro h
    cases hlookup : s.lookup store path with
    | error e =>
        rw [hlookup] at h
        cases h
    | ok value =>
        rw [hlookup] at h
        cases value with
        | inst c a =>
            cases h
            exact ⟨c, rfl⟩
        | _ => cases h
  · rintro ⟨c, hlookup⟩
    rw [hlookup]
    rfl

/-! ### Operators and parameters -/

/-- An operator makes no handle of an instance. -/
theorem Arithmetic.listed_apply {op : Arithmetic} {a b value : Value}
    (h : op.apply a b = .ok value) : value.Listed κ := by
  unfold Arithmetic.apply at h
  split at h
  next m n =>
    rcases hresult : op.onIntegers m n with e | k
    · rw [hresult] at h
      cases h
    · rw [hresult] at h
      cases h
      trivial
  next s t =>
    cases op with
    | add =>
        cases h
        trivial
    | _ => cases h
  next => cases h

theorem Sign.listed_apply {sign : Sign} {a value : Value} (h : sign.apply a = .ok value) :
    value.Listed κ := by
  cases a with
  | int n =>
      cases sign with
      | plus =>
          cases h
          trivial
      | minus =>
          cases h
          trivial
  | _ => cases h

theorem Method.listed_locals (m : Method) {receiver : Value} {args : List Value}
    (hreceiver : receiver.Listed κ) (hargs : ∀ a ∈ args, a.Listed κ) :
    (m.locals receiver args).Listed κ := by
  rw [locals_eq_insertAll]
  refine Scope.listed_empty.insertAll fun b hb => ?_
  rcases eq_of_mem_bindings hb with rfl | ⟨i, hi, -, hvalue⟩
  · exact hreceiver
  · exact hargs b.2 (List.mem_of_getElem? hvalue)

end Offside
