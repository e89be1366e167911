import Offside.Exec.Eval
import Offside.Parse.Program

/-!
# Locals — the scope of a method body

This file shows which scope a call gives to the body of a method. The receiver and the arguments are
bound one after the other, so that of two bindings of one name the later counts:

- `Method.Holds`    : a scope has the receiver, each parameter's argument, and nothing else
- `Method.Agreeing` : no name of a call is given two values

A call's scope holds what it should exactly when the call is agreeing, and all calls of a method are
agreeing exactly when its parameters are distinct and the receiver's name is none of them. Nothing
here claims that the parameter lists that are read are of that form; `parameter_hides_receiver` is one
that is not.
-/

namespace Offside

/-! ## Binding one after the other -/

namespace Scope

/-- Binds the names of a list in order. -/
def insertAll (s : Scope) (bs : List (String × Value)) : Scope :=
  bs.foldl (fun scope b => scope.insert b.1 b.2) s

theorem insertAll_append (s : Scope) (bs cs : List (String × Value)) :
    s.insertAll (bs ++ cs) = (s.insertAll bs).insertAll cs :=
  List.foldl_append

theorem get?_insertAll_of_notMem {bs : List (String × Value)} {x : String}
    (h : x ∉ bs.map Prod.fst) (s : Scope) : (s.insertAll bs).get? x = s.get? x := by
  induction bs generalizing s with
  | nil => rfl
  | cons b bs ih =>
      have hb : x ≠ b.1 := fun heq => h (heq ▸ List.mem_cons_self)
      have hbs : x ∉ bs.map Prod.fst := fun hmem => h (List.mem_cons_of_mem _ hmem)
      calc ((s.insert b.1 b.2).insertAll bs).get? x = (s.insert b.1 b.2).get? x := ih hbs _
        _ = s.get? x := get?_insert_of_ne s hb b.2

/-- A binding counts when no later one has its name. -/
theorem get?_insertAll_last (s : Scope) (bs : List (String × Value)) (b : String × Value)
    {cs : List (String × Value)} (h : b.1 ∉ cs.map Prod.fst) :
    (s.insertAll (bs ++ b :: cs)).get? b.1 = some b.2 := by
  calc (s.insertAll (bs ++ b :: cs)).get? b.1
      = (((s.insertAll bs).insert b.1 b.2).insertAll cs).get? b.1 := by
        rw [insertAll_append]
        rfl
    _ = ((s.insertAll bs).insert b.1 b.2).get? b.1 := get?_insertAll_of_notMem h _
    _ = some b.2 := get?_insert_self _ _ _

/-- What a name is bound to is the value of one of its bindings. -/
theorem get?_insertAll_of_mem {bs : List (String × Value)} {x : String}
    (h : x ∈ bs.map Prod.fst) (s : Scope) :
    ∃ value, (x, value) ∈ bs ∧ (s.insertAll bs).get? x = some value := by
  induction bs generalizing s with
  | nil => simp at h
  | cons b bs ih =>
      -- The first binding counts only where no later one has its name.
      by_cases hlater : x ∈ bs.map Prod.fst
      · rcases ih hlater (s.insert b.1 b.2) with ⟨value, hmem, hget⟩
        exact ⟨value, List.mem_cons_of_mem _ hmem, hget⟩
      · have hb : x = b.1 := (List.mem_cons.mp h).resolve_right hlater
        subst hb
        exact ⟨b.2, List.mem_cons_self, get?_insertAll_last s [] b hlater⟩

end Scope

/-! ## Calls -/

namespace Method

variable (m : Method) (receiver : Value) (args : List Value)

/-- The names that a call binds and their values, in the order in which they are bound. -/
def bindings : List (String × Value) :=
  (receiverName :: m.explicitParams).zip (receiver :: args)

/-- The scope has the receiver, each parameter's argument, and nothing else. -/
structure Holds (scope : Scope) : Prop where
  receiver : scope.get? receiverName = some receiver
  argument (i : Nat) (hi : i < m.explicitParams.length) : scope.get? m.explicitParams[i] = args[i]?
  other (x : String) : x ≠ receiverName → x ∉ m.explicitParams → scope.get? x = none

/-- The same with the last of several parameters of one name, and these instead of the receiver. -/
structure HoldsLast (scope : Scope) : Prop where
  receiver : receiverName ∉ m.explicitParams → scope.get? receiverName = some receiver
  argument (i : Nat) (hi : i < m.explicitParams.length) :
    m.explicitParams[i] ∉ m.explicitParams.drop (i + 1) →
      scope.get? m.explicitParams[i] = args[i]?
  other (x : String) : x ≠ receiverName → x ∉ m.explicitParams → scope.get? x = none

/-- No name is given two values by the call. -/
def Agreeing : Prop :=
  ∀ b ∈ m.bindings receiver args, ∀ b' ∈ m.bindings receiver args, b.1 = b'.1 → b.2 = b'.2

variable {m receiver args}

theorem locals_eq_insertAll :
    m.locals receiver args = Scope.empty.insertAll (m.bindings receiver args) :=
  rfl

theorem names_bindings (h : m.arity = args.length) :
    (m.bindings receiver args).map Prod.fst = receiverName :: m.explicitParams := by
  have hlength : m.explicitParams.length = args.length := h
  exact List.map_fst_zip (by simp [hlength])

theorem receiver_mem_bindings : (receiverName, receiver) ∈ m.bindings receiver args :=
  List.mem_cons_self

theorem getElem?_bindings {i : Nat} (hi : i < m.explicitParams.length) {value : Value}
    (hvalue : args[i]? = some value) :
    (m.bindings receiver args)[i + 1]? = some (m.explicitParams[i], value) := by
  have hzip : (m.explicitParams.zip args)[i]? = some (m.explicitParams[i], value) :=
    List.getElem?_zip_eq_some.mpr ⟨List.getElem?_eq_getElem hi, hvalue⟩
  exact hzip

theorem argument_mem_bindings {i : Nat} (hi : i < m.explicitParams.length) {value : Value}
    (hvalue : args[i]? = some value) : (m.explicitParams[i], value) ∈ m.bindings receiver args :=
  List.mem_of_getElem? (getElem?_bindings hi hvalue)

/-- A binding of a call is that of the receiver or that of one of the arguments. -/
theorem eq_of_mem_bindings {b : String × Value} (h : b ∈ m.bindings receiver args) :
    b = (receiverName, receiver) ∨
      ∃ (i : Nat) (hi : i < m.explicitParams.length),
        b.1 = m.explicitParams[i] ∧ args[i]? = some b.2 := by
  rcases List.mem_cons.mp h with h | h
  · exact .inl h
  · rcases List.mem_iff_getElem?.mp h with ⟨i, hget⟩
    rcases List.getElem?_zip_eq_some.mp hget with ⟨hname, hvalue⟩
    rcases List.getElem?_eq_some_iff.mp hname with ⟨hi, hname⟩
    exact .inr ⟨i, hi, hname.symm, hvalue⟩

/-! ## What a call's scope holds -/

theorem get?_locals_of_notMem (h : m.arity = args.length) {x : String} (hself : x ≠ receiverName)
    (hx : x ∉ m.explicitParams) : (m.locals receiver args).get? x = none := by
  have hnames : x ∉ (m.bindings receiver args).map Prod.fst := by
    rw [names_bindings h]
    exact fun hmem => (List.mem_cons.mp hmem).elim hself hx
  exact (Scope.get?_insertAll_of_notMem hnames .empty).trans (Scope.get?_empty x)

/-- Of the bindings of a name the last one counts. -/
theorem get?_locals_last (h : m.arity = args.length) {i : Nat} {b : String × Value}
    (hget : (m.bindings receiver args)[i]? = some b)
    (hlater : b.1 ∉ (receiverName :: m.explicitParams).drop (i + 1)) :
    (m.locals receiver args).get? b.1 = some b.2 := by
  have hsplit : (m.bindings receiver args).take i ++ b :: (m.bindings receiver args).drop (i + 1) =
      m.bindings receiver args := by
    rcases List.getElem?_eq_some_iff.mp hget with ⟨hi, rfl⟩
    rw [← List.drop_eq_getElem_cons hi, List.take_append_drop]
  have hnames : b.1 ∉ ((m.bindings receiver args).drop (i + 1)).map Prod.fst := by
    rwa [List.map_drop, names_bindings h]
  rw [locals_eq_insertAll, ← hsplit]
  exact Scope.get?_insertAll_last .empty _ b hnames

theorem holdsLast_locals (h : m.arity = args.length) :
    m.HoldsLast receiver args (m.locals receiver args) where
  receiver hself := get?_locals_last h (i := 0) rfl hself
  argument i hi hlater := by
    have hvalue : args[i]? = some args[i] := List.getElem?_eq_getElem (h ▸ hi)
    have hget : (m.locals receiver args).get? m.explicitParams[i] = some args[i] :=
      get?_locals_last h (getElem?_bindings hi hvalue) hlater
    exact hget.trans hvalue.symm
  other _ hself hx := get?_locals_of_notMem h hself hx

theorem Agreeing.get?_locals (ha : m.Agreeing receiver args) {b : String × Value}
    (hb : b ∈ m.bindings receiver args) : (m.locals receiver args).get? b.1 = some b.2 := by
  have hname : b.1 ∈ (m.bindings receiver args).map Prod.fst := List.mem_map_of_mem hb
  rcases Scope.get?_insertAll_of_mem hname .empty with ⟨value, hmem, hget⟩
  have hvalue : value = b.2 := ha _ hmem b hb rfl
  exact hvalue ▸ hget

theorem Holds.get?_eq {scope : Scope} (hs : m.Holds receiver args scope) {b : String × Value}
    (hb : b ∈ m.bindings receiver args) : scope.get? b.1 = some b.2 := by
  rcases eq_of_mem_bindings hb with rfl | ⟨i, hi, hname, hvalue⟩
  · exact hs.receiver
  · rw [hname, hs.argument i hi, hvalue]

/-- A call's scope holds what it should exactly when no name is given two values. -/
theorem holds_locals_iff (h : m.arity = args.length) :
    m.Holds receiver args (m.locals receiver args) ↔ m.Agreeing receiver args := by
  constructor
  · intro hs b hb b' hb' hname
    have hvalues : some b.2 = some b'.2 :=
      calc some b.2 = (m.locals receiver args).get? b.1 := (hs.get?_eq hb).symm
        _ = (m.locals receiver args).get? b'.1 := by rw [hname]
        _ = some b'.2 := hs.get?_eq hb'
    exact Option.some.inj hvalues
  · intro ha
    refine ⟨ha.get?_locals receiver_mem_bindings, fun i hi => ?_, fun _ hself hx =>
      get?_locals_of_notMem h hself hx⟩
    have hvalue : args[i]? = some args[i] := List.getElem?_eq_getElem (h ▸ hi)
    exact (ha.get?_locals (argument_mem_bindings hi hvalue)).trans hvalue.symm

/-! ## Parameter lists all of whose calls agree -/

theorem agreeing_of_nodup (hn : (receiverName :: m.explicitParams).Nodup) :
    m.Agreeing receiver args := by
  intro b hb b' hb' hname
  -- Distinct names have distinct places, so the two bindings are at one place.
  rcases List.mem_iff_getElem?.mp hb with ⟨i, hi⟩
  rcases List.mem_iff_getElem?.mp hb' with ⟨j, hj⟩
  rcases List.getElem?_zip_eq_some.mp hi with ⟨hni, hvi⟩
  rcases List.getElem?_zip_eq_some.mp hj with ⟨hnj, hvj⟩
  have hij : i = j := by
    rcases List.getElem?_eq_some_iff.mp hni with ⟨hi', hni⟩
    rcases List.getElem?_eq_some_iff.mp hnj with ⟨hj', hnj⟩
    exact (List.getElem_inj hn).mp (hni.trans (hname.trans hnj.symm))
  subst hij
  exact Option.some.inj (hvi.symm.trans hvj)

/-- Arguments of which one differs from the others and from every instance. -/
def marked (arity k : Nat) : List Value :=
  (List.replicate arity .none).set k (.bool true)

theorem length_marked (arity k : Nat) : (marked arity k).length = arity := by
  simp [marked]

theorem getElem?_marked_self {arity k : Nat} (h : k < arity) :
    (marked arity k)[k]? = some (.bool true) := by
  simp [marked, h]

theorem getElem?_marked_of_lt {arity i k : Nat} (hik : i < k) (hk : k < arity) :
    (marked arity k)[i]? = some .none := by
  have hi : i < arity := Nat.lt_trans hik hk
  have hne : k ≠ i := Nat.ne_of_gt hik
  rw [marked, List.getElem?_set_ne hne, List.getElem?_replicate_of_lt hi]

/-- Two parameters of one name, or one with the receiver's, get two values from some call. -/
theorem nodup_of_agreeing {c : Class} {address : Address}
    (h : ∀ args, m.arity = args.length → m.Agreeing (.inst c address) args) :
    (receiverName :: m.explicitParams).Nodup := by
  refine List.nodup_iff_pairwise_ne.mpr (List.pairwise_iff_getElem.mpr ?_)
  intro i j hi hj hij heq
  -- The later of the two names is a parameter, and a call that marks its argument gives it two values.
  rcases j with _ | k
  · cases hij
  have hk : k < m.explicitParams.length := Nat.lt_of_succ_lt_succ hj
  have ha := h (marked m.arity k) (length_marked _ _).symm
  have hmarked : (m.explicitParams[k], .bool true) ∈
      m.bindings (.inst c address) (marked m.arity k) :=
    argument_mem_bindings hk (getElem?_marked_self hk)
  rcases i with _ | i
  · cases ha _ receiver_mem_bindings _ hmarked heq
  · have hik : i < k := Nat.lt_of_succ_lt_succ hij
    have hi' : i < m.explicitParams.length := Nat.lt_trans hik hk
    have hearlier : (m.explicitParams[i], .none) ∈
        m.bindings (.inst c address) (marked m.arity k) :=
      argument_mem_bindings hi' (getElem?_marked_of_lt hik hk)
    cases ha _ hearlier _ hmarked heq

end Method

/-! ## Calls of a method -/

/-- A call that finds a method and gives it as many arguments as it takes runs its body in the scope
described here, which is the intended one in all calls exactly for distinct names. -/
theorem invoke_scope {c : Class} {name : String} {m : Method} (h : c.method? name = some m) :
    (∀ (n : Nat) (address : Address) (args : List Value), m.arity = args.length →
      (invoke (n + 1) (.inst c address) name args = do
        Run.notice (.calling c.name name args.length)
        Run.body (eval n m.body) (m.locals (.inst c address) args)) ∧
      m.HoldsLast (.inst c address) args (m.locals (.inst c address) args) ∧
      (m.Holds (.inst c address) args (m.locals (.inst c address) args) ↔
        m.Agreeing (.inst c address) args)) ∧
    ((∀ (address : Address) (args : List Value), m.arity = args.length →
        m.Holds (.inst c address) args (m.locals (.inst c address) args)) ↔
      (receiverName :: m.explicitParams).Nodup) := by
  refine ⟨fun n address args hargs => ⟨?_, Method.holdsLast_locals hargs,
    Method.holds_locals_iff hargs⟩, fun hall => ?_, fun hn address args hargs => ?_⟩
  · have hdispatch : Run.dispatch c name args = .ok m := by
      simp only [Run.dispatch, h, hargs, if_true]
    show (Run.ofExcept (Run.dispatch c name args) >>= fun m => _) = _
    rw [hdispatch]
    rfl
  · exact Method.nodup_of_agreeing fun args hargs =>
      (Method.holds_locals_iff hargs).mp (hall ⟨0, 0⟩ args hargs)
  · exact (Method.holds_locals_iff hargs).mpr (Method.agreeing_of_nodup hn)

/-- A method with one parameter besides the receiver. -/
theorem invoke_scope_of_one_parameter :
    let m : Method := ⟨"f", ["self", "x"], .block [.ret (.variable ["x"])]⟩
    let c : Class := ⟨"A", none, [m]⟩
    c.method? "f" = some m ∧ m.Holds (.inst c ⟨0, 0⟩) [.int 7] (m.locals (.inst c ⟨0, 0⟩) [.int 7]) := by
  intro m c
  have h : c.method? "f" = some m := rfl
  have hn : (receiverName :: m.explicitParams).Nodup := by decide
  exact ⟨h, (invoke_scope h).2.mpr hn ⟨0, 0⟩ [.int 7] rfl⟩

/-! ## A parameter that hides the receiver -/

/-- Whether a reading gives a class whose method `f` takes the receiver's name for its last parameter. -/
def rebindsReceiver : Except ParseError Program → Bool
  | .ok ⟨[.classDef c]⟩ => (c.method? "f").map (·.params) == some ["x", receiverName]
  | _ => false

theorem exists_of_rebindsReceiver {reading : Except ParseError Program}
    (h : rebindsReceiver reading = true) :
    ∃ c m, reading = .ok ⟨[.classDef c]⟩ ∧ c.method? "f" = some m ∧
      m.params = ["x", receiverName] := by
  unfold rebindsReceiver at h
  split at h
  · next c =>
      have hparams := eq_of_beq h
      rcases Option.map_eq_some_iff.mp hparams with ⟨m, hm, hparams⟩
      exact ⟨c, m, rfl, hm, hparams⟩
  · cases h

/-- A method that is read from a text can have a parameter named like the receiver, which its body then
does not see. -/
theorem parameter_hides_receiver :
    ¬ ∀ (source : String) (p : Program) (c : Class), Program.parse source = .ok p →
      .classDef c ∈ p.statements → ∀ (name : String) (m : Method), c.method? name = some m →
      ∀ (address : Address) (args : List Value), m.arity = args.length →
        m.Holds (.inst c address) args (m.locals (.inst c address) args) := by
  intro hall
  have hread : rebindsReceiver
      (Program.parse "class A:\n  def f(x, self):\n    return self.v\n") = true := by
    decide +kernel
  rcases exists_of_rebindsReceiver hread with ⟨c, m, hparse, hm, hparams⟩
  have hexplicit : m.explicitParams = ["x", receiverName] := by
    simp [Method.explicitParams, Method.takesReceiver, hparams, receiverName]
  have harity : m.arity = [Value.int 1, Value.int 2].length := congrArg List.length hexplicit
  have hholds := hall _ _ c hparse List.mem_cons_self "f" m hm ⟨0, 0⟩ [.int 1, .int 2] harity
  have hn : m.Agreeing (.inst c ⟨0, 0⟩) [.int 1, .int 2] := (Method.holds_locals_iff harity).mp hholds
  have hlast : (receiverName, .int 2) ∈ m.bindings (.inst c ⟨0, 0⟩) [.int 1, .int 2] := by
    simp [Method.bindings, hexplicit]
  cases hn _ Method.receiver_mem_bindings _ hlast rfl

end Offside
