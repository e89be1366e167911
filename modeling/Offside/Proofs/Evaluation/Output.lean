import Offside.Proofs.Evaluation.Composition
import Offside.Proofs.Results

/-!
# Output — a sink that fills up ends the run

This file compares a step that writes to a sink without a limit with the same step where the sink takes
`n` bytes.  `Cuts n p` says that `p` cannot see the limit: up to `n` bytes both do the same, and beyond
them the limited one has written the first `n` bytes and fails.  All evaluation has the property, as it
is composed of steps that have it; `run_limited` says so of whole programs.
-/

namespace Offside

/-- A sink that takes so many bytes in all. -/
def Sink.limited (n : Nat) : Sink :=
  { Sink.unlimited with capacity := some n }

/-- The machine with a limit on its output. -/
def Machine.limit (n : Nat) (m : Machine) : Machine :=
  { m with sink := { m.sink with capacity := some n } }

/-- The failure of a write that does not fit. -/
def sinkFull : Fault :=
  .error (.output "sink full")

/-! ## Steps under a limit -/

/-- A state that holds a machine, and how a fault shows in steps on such states. -/
structure Carrier (ε σ : Type) where
  machine : σ → Machine
  limit : Nat → σ → σ
  fault : Fault → ε

/-- Output and journal have only been added to, and the output has no limit. -/
structure Machine.Grows (m m' : Machine) : Prop where
  capacity : m'.sink.capacity = none
  written : ∃ more, m'.sink.written = m.sink.written ++ more
  notices : m.notices.toList <+: m'.notices.toList

namespace Machine.Grows

theorem of_sink_eq {m m' : Machine} (h : m.sink.capacity = none) (hsink : m'.sink = m.sink)
    (hnotices : m.notices.toList <+: m'.notices.toList) : m.Grows m' where
  capacity := hsink ▸ h
  written := ⟨.empty, by rw [hsink, ByteArray.append_empty]⟩
  notices := hnotices

theorem refl {m : Machine} (h : m.sink.capacity = none) : m.Grows m :=
  of_sink_eq h rfl (List.prefix_refl _)

theorem trans {m₁ m₂ m₃ : Machine} (h : m₁.Grows m₂) (h' : m₂.Grows m₃) : m₁.Grows m₃ := by
  rcases h.written with ⟨more, hmore⟩
  rcases h'.written with ⟨more', hmore'⟩
  refine ⟨h'.capacity, ⟨more ++ more', ?_⟩, h.notices.trans h'.notices⟩
  rw [hmore', hmore, ByteArray.append_assoc]

theorem size_le {m m' : Machine} (h : m.Grows m') :
    m.sink.written.size ≤ m'.sink.written.size := by
  rcases h.written with ⟨more, hmore⟩
  rw [hmore, ByteArray.size_append]
  exact Nat.le_add_right _ _

/-- What stands at the start of a longer output is not changed by what comes after it. -/
theorem extract_eq {m m' : Machine} (h : m.Grows m') {n : Nat} (hn : n ≤ m.sink.written.size) :
    m'.sink.written.extract 0 n = m.sink.written.extract 0 n := by
  rcases h.written with ⟨more, hmore⟩
  have hnone : more.extract (0 - m.sink.written.size) (n - m.sink.written.size) = .empty := by
    rw [ByteArray.extract_eq_empty_iff]
    omega
  rw [hmore, ByteArray.extract_append, hnone, ByteArray.append_empty]

end Machine.Grows

variable {ε σ : Type}

/-- A step cannot see a limit of `n` bytes but by failing at it. -/
structure Cuts (c : Carrier ε σ) (n : Nat) {α : Type} (p : EStateM ε σ α) : Prop where
  grows : ∀ s, (c.machine s).sink.capacity = none →
    (c.machine s).Grows (c.machine (endOf (p s)))
  fits : ∀ s, (c.machine s).sink.capacity = none →
    (c.machine (endOf (p s))).sink.written.size ≤ n →
      p (c.limit n s) = mapEnd (c.limit n) (p s)
  cut : ∀ s, (c.machine s).sink.capacity = none → (c.machine s).sink.written.size ≤ n →
    n < (c.machine (endOf (p s))).sink.written.size →
      ∃ t, p (c.limit n s) = .error (c.fault sinkFull) t
        ∧ (c.machine t).sink.written = (c.machine (endOf (p s))).sink.written.extract 0 n
        ∧ (c.machine t).notices.toList <+: (c.machine (endOf (p s))).notices.toList

namespace Cuts

variable {c : Carrier ε σ} {n : Nat} {α β : Type}

/-- Steps that do not write and do the same under a limit. -/
theorem of_written_eq {p : EStateM ε σ α}
    (hgrows : ∀ s, (c.machine s).sink.capacity = none →
      (c.machine s).Grows (c.machine (endOf (p s))))
    (hwritten : ∀ s, (c.machine (endOf (p s))).sink.written = (c.machine s).sink.written)
    (hlimit : ∀ s, p (c.limit n s) = mapEnd (c.limit n) (p s)) : Cuts c n p where
  grows := hgrows
  fits := fun s _ _ => hlimit s
  cut := fun s _ hle hlt => by
    rw [hwritten s] at hlt
    omega

theorem pure (x : α) : Cuts c n (pure x : EStateM ε σ α) :=
  of_written_eq (fun _ h => .refl h) (fun _ => rfl) fun _ => rfl

theorem throw (e : ε) : Cuts c n (throw e : EStateM ε σ α) :=
  of_written_eq (fun _ h => .refl h) (fun _ => rfl) fun _ => rfl

theorem bind {p : EStateM ε σ α} {f : α → EStateM ε σ β} (hp : Cuts c n p)
    (hf : ∀ x, Cuts c n (f x)) : Cuts c n (p >>= f) := by
  constructor
  · intro s hs
    have hgrows := hp.grows s hs
    cases hps : p s with
    | error e s₁ =>
        rw [hps] at hgrows
        rw [bind_of_error hps]
        exact hgrows
    | ok x s₁ =>
        rw [hps] at hgrows
        rw [bind_of_ok hps]
        exact hgrows.trans ((hf x).grows s₁ hgrows.capacity)
  · intro s hs hle
    have hgrows := hp.grows s hs
    have hfits := hp.fits s hs
    cases hps : p s with
    | error e s₁ =>
        rw [bind_of_error hps] at hle ⊢
        rw [hps] at hfits
        exact bind_of_error (hfits hle)
    | ok x s₁ =>
        rw [bind_of_ok hps] at hle ⊢
        rw [hps] at hgrows hfits
        -- The output only grows, so what fits at the end has fitted in between.
        have hlater := (hf x).grows s₁ hgrows.capacity
        have hfirst := hfits (Nat.le_trans hlater.size_le hle)
        rw [bind_of_ok hfirst]
        exact (hf x).fits s₁ hgrows.capacity hle
  · intro s hs hle hlt
    have hgrows := hp.grows s hs
    have hfits := hp.fits s hs
    have hcut := hp.cut s hs hle
    cases hps : p s with
    | error e s₁ =>
        rw [bind_of_error hps] at hlt ⊢
        rw [hps] at hcut
        rcases hcut hlt with ⟨t, ht, hwritten, hnotices⟩
        exact ⟨t, bind_of_error ht, hwritten, hnotices⟩
    | ok x s₁ =>
        rw [bind_of_ok hps] at hlt ⊢
        rw [hps] at hgrows hfits hcut
        have hlater := (hf x).grows s₁ hgrows.capacity
        -- Either the first step reaches the limit, or it does the same and the second one does.
        by_cases hfirst : (c.machine s₁).sink.written.size ≤ n
        · rw [bind_of_ok (hfits hfirst)]
          exact (hf x).cut s₁ hgrows.capacity hfirst hlt
        · rcases hcut (Nat.lt_of_not_le hfirst) with ⟨t, ht, hwritten, hnotices⟩
          -- The second step is not run, and its output stands behind the bytes that fit.
          refine ⟨t, bind_of_error ht, ?_, hnotices.trans hlater.notices⟩
          rw [hwritten]
          exact (hlater.extract_eq (Nat.le_of_not_le hfirst)).symm

end Cuts

/-! ## Steps of a machine -/

/-- Steps of a machine by itself. -/
def onMachine : Carrier Fault Machine where
  machine := id
  limit := Machine.limit
  fault := id

/-- Steps of a machine within a frame. -/
def onFrame : Carrier Exit Frame where
  machine := Frame.machine
  limit := fun n f => { f with machine := f.machine.limit n }
  fault := Exit.fault

variable {n : Nat}

theorem cuts_notice (notice : Notice) : Cuts onMachine n (Run.notice notice) := by
  refine .of_written_eq (fun m h => .of_sink_eq h rfl ?_) (fun _ => rfl) fun _ => rfl
  show m.notices.toList <+: (m.notices.push notice).toList
  rw [Array.toList_push]
  exact List.prefix_append _ _

theorem cuts_create (c : Class) : Cuts onMachine n (Run.create c) :=
  .of_written_eq (fun _ h => .of_sink_eq h rfl (List.prefix_refl _)) (fun _ => rfl) fun _ => rfl

theorem cuts_setField (address : Address) (field : String) (value : Value) :
    Cuts onMachine n (Run.setField address field value) :=
  .of_written_eq (fun _ h => .of_sink_eq h rfl (List.prefix_refl _)) (fun _ => rfl) fun _ => rfl

/-- A write to a sink without a limit. -/
theorem writeLine_unlimited {m : Machine} (h : m.sink.capacity = none) (text : String) :
    Run.writeLine text m = .ok ()
      { m with sink := { m.sink with written := m.sink.written ++ (text ++ "\n").toUTF8 } } := by
  simp [Run.writeLine, Sink.write, Sink.fits, h]

theorem writeLine_fits {m : Machine} {text : String}
    (h : m.sink.written.size + (text ++ "\n").toUTF8.size ≤ n) :
    Run.writeLine text (m.limit n) = .ok ()
      { m.limit n with
        sink := { (m.limit n).sink with
          written := m.sink.written ++ (text ++ "\n").toUTF8 } } := by
  have hfits : (m.limit n).sink.fits (text ++ "\n").toUTF8.size = true := decide_eq_true h
  rw [Run.writeLine, Sink.write, if_pos hfits]
  rfl

theorem writeLine_cut {m : Machine} {text : String}
    (h : n < m.sink.written.size + (text ++ "\n").toUTF8.size) :
    Run.writeLine text (m.limit n) = .error sinkFull
      { m.limit n with
        sink := { (m.limit n).sink with
          written := m.sink.written
            ++ (text ++ "\n").toUTF8.extract 0 (n - m.sink.written.size) } } := by
  have hfull : ¬(m.limit n).sink.fits (text ++ "\n").toUTF8.size = true := by
    intro hfits
    have hle : m.sink.written.size + (text ++ "\n").toUTF8.size ≤ n := of_decide_eq_true hfits
    omega
  rw [Run.writeLine, Sink.write, if_neg hfull]
  rfl

theorem cuts_writeLine (text : String) : Cuts onMachine n (Run.writeLine text) where
  grows := fun m h => by
    have hrun := writeLine_unlimited (m := m) h text
    rw [hrun]
    exact ⟨h, ⟨_, rfl⟩, List.prefix_refl _⟩
  fits := fun m h hle => by
    have hrun := writeLine_unlimited (m := m) h text
    rw [hrun] at hle ⊢
    have hle : (m.sink.written ++ (text ++ "\n").toUTF8).size ≤ n := hle
    rw [ByteArray.size_append] at hle
    exact writeLine_fits hle
  cut := fun m h hle hlt => by
    have hrun := writeLine_unlimited (m := m) h text
    rw [hrun] at hlt ⊢
    have hle : m.sink.written.size ≤ n := hle
    have hlt : n < (m.sink.written ++ (text ++ "\n").toUTF8).size := hlt
    rw [ByteArray.size_append] at hlt
    refine ⟨_, writeLine_cut hlt, ?_, List.prefix_refl _⟩
    -- What was there fits as a whole, and of the line as much as is left.
    have hall : m.sink.written.extract 0 n = m.sink.written := by
      rw [← Nat.max_eq_left hle]
      exact ByteArray.extract_zero_max_size
    calc
      m.sink.written ++ (text ++ "\n").toUTF8.extract 0 (n - m.sink.written.size)
          = m.sink.written.extract 0 n
              ++ (text ++ "\n").toUTF8.extract (0 - m.sink.written.size)
                (n - m.sink.written.size) := by rw [hall, Nat.zero_sub]
      _ = (m.sink.written ++ (text ++ "\n").toUTF8).extract 0 n := ByteArray.extract_append.symm

theorem cuts_flush : Cuts onMachine n Run.flush := by
  have hend : ∀ m, endOf (Run.flush m) = m := by
    intro m
    unfold Run.flush
    split <;> rfl
  refine .of_written_eq (fun m hm => ?_) (fun m => ?_) fun m => ?_
  · rw [hend m]
    exact .refl hm
  · rw [hend m]
  · show Run.flush (m.limit n) = _
    have hstuck : (m.limit n).sink.flush = m.sink.flush := rfl
    rw [Run.flush, Run.flush, hstuck]
    cases m.sink.flush <;> rfl

/-- Runs a step in a scope of its own and takes from it the scope that it leaves and the value that it
returns, if it does. -/
def Run.leave {α : Type} (step : Exec Value) (locals : Scope) (give : Scope → Option Value → α) :
    Run α := fun m =>
  match step ⟨locals, m⟩ with
  | .ok _ f => .ok (give f.scope none) f.machine
  | .error (.returned value) f => .ok (give f.scope (some value)) f.machine
  | .error (.fault e) f => .error e f.machine

theorem body_eq_leave (step : Exec Value) (locals : Scope) :
    Run.body step locals = Run.leave step locals fun _ value => value.getD .none := by
  funext m
  unfold Run.body Run.leave
  rcases step ⟨locals, m⟩ with ⟨_, _⟩ | ⟨_ | _, _⟩ <;> rfl

theorem statementsRun_eq_leave (depth : Nat) (p : Program) :
    p.statementsRun depth = (do
      let (scope, value) ← Run.leave (Exec.block (eval depth) p.statements) .empty Prod.mk
      match value with
      | some value =>
          Run.notice (.returnedEarly value.text)
          return scope
      | none => return scope) := by
  funext m
  have hbind : ∀ {α : Type} (step : Exec Value) (k : Scope × Option Value → Run α),
      (Run.leave step .empty Prod.mk >>= k) m = match step ⟨.empty, m⟩ with
        | .ok _ f => k (f.scope, none) f.machine
        | .error (.returned value) f => k (f.scope, some value) f.machine
        | .error (.fault e) f => .error e f.machine := by
    intro α step k
    show EStateM.bind _ _ _ = _
    unfold EStateM.bind Run.leave
    rcases step ⟨.empty, m⟩ with ⟨_, _⟩ | ⟨_ | _, _⟩ <;> rfl
  rw [hbind]
  unfold Program.statementsRun
  rcases Exec.block (eval depth) p.statements ⟨.empty, m⟩ with ⟨_, _⟩ | ⟨_ | _, _⟩ <;> rfl

theorem endOf_leave {α : Type} (step : Exec Value) (locals : Scope)
    (give : Scope → Option Value → α) (m : Machine) :
    endOf (Run.leave step locals give m) = (endOf (step ⟨locals, m⟩)).machine := by
  unfold Run.leave
  rcases step ⟨locals, m⟩ with ⟨_, _⟩ | ⟨_ | _, _⟩ <;> rfl

theorem cuts_leave {α : Type} {step : Exec Value} (h : Cuts onFrame n step) (locals : Scope)
    (give : Scope → Option Value → α) : Cuts onMachine n (Run.leave step locals give) where
  grows := fun m hm => by
    rw [endOf_leave]
    exact h.grows ⟨locals, m⟩ hm
  fits := fun m hm hle => by
    rw [endOf_leave] at hle
    have hfits : step ⟨locals, m.limit n⟩ = mapEnd (onFrame.limit n) (step ⟨locals, m⟩) :=
      h.fits ⟨locals, m⟩ hm hle
    show Run.leave step locals give (m.limit n) = _
    rw [Run.leave, Run.leave, hfits]
    rcases step ⟨locals, m⟩ with ⟨_, _⟩ | ⟨_ | _, _⟩ <;> rfl
  cut := fun m hm hle hlt => by
    rw [endOf_leave] at hlt ⊢
    -- A fault passes through the end of a method, unlike a return.
    rcases h.cut ⟨locals, m⟩ hm hle hlt with ⟨t, ht, hwritten, hnotices⟩
    replace ht : step ⟨locals, m.limit n⟩ = .error (.fault sinkFull) t := ht
    refine ⟨t.machine, ?_, hwritten, hnotices⟩
    show Run.leave step locals give (m.limit n) = _
    rw [Run.leave, ht]
    rfl

theorem cuts_body {step : Exec Value} (h : Cuts onFrame n step) (locals : Scope) :
    Cuts onMachine n (Run.body step locals) := by
  rw [body_eq_leave]
  exact cuts_leave h locals _

/-! ## Steps of a frame -/

theorem ofRun_eq {α : Type} (p : Run α) (f : Frame) :
    Exec.ofRun p f = match p f.machine with
      | .ok x m => .ok x { f with machine := m }
      | .error e m => .error (.fault e) { f with machine := m } := rfl

theorem endOf_ofRun {α : Type} (p : Run α) (f : Frame) :
    (endOf (Exec.ofRun p f)).machine = endOf (p f.machine) := by
  rw [ofRun_eq]
  cases p f.machine <;> rfl

theorem cuts_ofRun {α : Type} {p : Run α} (h : Cuts onMachine n p) :
    Cuts onFrame n (Exec.ofRun p) where
  grows := fun f hf => by
    show f.machine.Grows (endOf (Exec.ofRun p f)).machine
    rw [endOf_ofRun]
    exact h.grows f.machine hf
  fits := fun f hf hle => by
    replace hle : (endOf (Exec.ofRun p f)).machine.sink.written.size ≤ n := hle
    rw [endOf_ofRun] at hle
    have hfits : p (f.machine.limit n) = mapEnd (Machine.limit n) (p f.machine) :=
      h.fits f.machine hf hle
    show Exec.ofRun p { f with machine := f.machine.limit n } = _
    rw [ofRun_eq, ofRun_eq, hfits]
    cases p f.machine <;> rfl
  cut := fun f hf hle hlt => by
    replace hlt : n < (endOf (Exec.ofRun p f)).machine.sink.written.size := hlt
    rw [endOf_ofRun] at hlt
    rcases h.cut f.machine hf hle hlt with ⟨t, ht, hwritten, hnotices⟩
    replace ht : p (f.machine.limit n) = .error sinkFull t := ht
    show ∃ u, Exec.ofRun p { f with machine := f.machine.limit n } = .error (.fault sinkFull) u
      ∧ u.machine.sink.written = (endOf (Exec.ofRun p f)).machine.sink.written.extract 0 n
      ∧ u.machine.notices.toList <+: (endOf (Exec.ofRun p f)).machine.notices.toList
    rw [endOf_ofRun]
    refine ⟨{ f with machine := t }, ?_, hwritten, hnotices⟩
    rw [ofRun_eq, ht]

/-- What is only looked up leaves the frame as it is. -/
theorem endOf_ofExcept {α : Type} (x : Except RuntimeError α) (f : Frame) :
    endOf (Exec.ofExcept x f) = f := by
  cases x <;> rfl

/-- A look-up does not depend on the output. -/
theorem cuts_look {α : Type} {p : Exec α} (find : Frame → Except RuntimeError α)
    (hp : ∀ f, p f = Exec.ofExcept (find f) f)
    (hfind : ∀ f, find { f with machine := f.machine.limit n } = find f) : Cuts onFrame n p := by
  have hend : ∀ f, endOf (p f) = f := by
    intro f
    rw [hp f, endOf_ofExcept]
  refine .of_written_eq (fun f hf => ?_) (fun f => ?_) fun f => ?_
  · rw [hend f]
    exact .refl hf
  · rw [hend f]
  · show p { f with machine := f.machine.limit n } = _
    rw [hp, hfind, hp]
    cases find f <;> rfl

theorem cuts_lookup (path : List String) : Cuts onFrame n (Exec.lookup path) :=
  cuts_look (fun f => f.scope.lookup f.machine.store path) (fun _ => rfl) fun _ => rfl

theorem cuts_lookupInstance (path : List String) : Cuts onFrame n (Exec.lookupInstance path) :=
  cuts_look (fun f => f.scope.lookupInstance f.machine.store path) (fun _ => rfl) fun _ => rfl

theorem cuts_assign (name : String) (value : Value) : Cuts onFrame n (Exec.bind name value) :=
  .of_written_eq (fun _ h => .refl h) (fun _ => rfl) fun _ => rfl

/-- All evaluation has the property. -/
theorem cuts_composition (n : Nat) :
    Composition (fun p => Cuts onMachine n p) (fun p => Cuts onFrame n p) where
  runPure := Cuts.pure
  runBind := Cuts.bind
  runThrow := Cuts.throw
  notice := cuts_notice
  create := cuts_create
  setField := cuts_setField
  writeLine := cuts_writeLine
  body := cuts_body
  pure := Cuts.pure
  bind := Cuts.bind
  throw := Cuts.throw
  ofRun := cuts_ofRun
  lookup := cuts_lookup
  lookupInstance := cuts_lookupInstance
  assign := cuts_assign

/-! ## Whole programs -/

theorem cuts_run (n depth : Nat) (p : Program) : Cuts onMachine n (p.run depth) := by
  have hcomposition := cuts_composition n
  have hstatements : Cuts onMachine n (p.statementsRun depth) := by
    rw [statementsRun_eq_leave]
    refine .bind (cuts_leave (hcomposition.block (hcomposition.evaluation depth).eval _) _ _) ?_
    rintro ⟨scope, _ | value⟩
    · exact .pure scope
    · exact .bind (cuts_notice _) fun _ => .pure scope
  exact .bind (cuts_notice _) fun _ => .bind hstatements fun globals =>
    .bind cuts_flush fun _ => .pure globals

/-- A program whose output fits in a sink does there what it does without a limit. Otherwise the sink gets
the bytes that fit, and the run ends with the failure of the write. Both runs draw the blocks of their
instances from one supply. -/
theorem run_limited (p : Program) (depth : Nat) (supply : Nat → Nat) (n : Nat) :
    ((endOf (p.run depth (.writingTo .unlimited supply))).sink.written.size ≤ n →
        p.run depth (.writingTo (.limited n) supply)
          = mapEnd (Machine.limit n) (p.run depth (.writingTo .unlimited supply)))
      ∧ (n < (endOf (p.run depth (.writingTo .unlimited supply))).sink.written.size →
        ∃ m, p.run depth (.writingTo (.limited n) supply) = .error (.error (.output "sink full")) m
          ∧ m.sink.written
            = (endOf (p.run depth (.writingTo .unlimited supply))).sink.written.extract 0 n
          ∧ m.notices.toList
            <+: (endOf (p.run depth (.writingTo .unlimited supply))).notices.toList) := by
  have hcuts := cuts_run n depth p
  exact ⟨fun hle => hcuts.fits (.writingTo .unlimited supply) rfl hle,
    fun hlt => hcuts.cut (.writingTo .unlimited supply) rfl (Nat.zero_le n) hlt⟩

/-- A method `__str__` prints while an instance is printed. If the limit falls within the line of the method,
the run ends there; if it falls behind the last line, the run is what it is without a limit. -/
theorem run_limited_within_line :
    let shown : Method := ⟨"__str__", ["self"],
      .block [.print [.constant (.str "inner")], .ret (.constant (.str "a"))]⟩
    let p : Program := ⟨[.print [.construct ⟨"A", none, [shown]⟩ []]]⟩
    (∃ m, p.run 9 (.writingTo (.limited 3) id) = .error (.error (.output "sink full")) m
        ∧ m.sink.written = "inn".toUTF8)
      ∧ ∃ globals m, p.run 9 (.writingTo (.limited 8) id) = .ok globals m
        ∧ m.sink.written = "inner\na\n".toUTF8 := by
  intro shown p
  have hwritten : (endOf (p.run 9 (.writingTo .unlimited id))).sink.written
      = "inner\na\n".toUTF8 := by
    decide +kernel
  constructor
  · rcases (run_limited p 9 id 3).2 (by rw [hwritten]; decide) with ⟨m, hrun, hcut, -⟩
    refine ⟨m, hrun, ?_⟩
    rw [hcut, hwritten]
    decide +kernel
  · have hfits := (run_limited p 9 id 8).1 (by rw [hwritten]; decide)
    have hends : ∃ globals m, p.run 9 (.writingTo .unlimited id) = .ok globals m := ⟨_, _, rfl⟩
    rcases hends with ⟨globals, m, hrun⟩
    rw [hrun] at hwritten hfits
    exact ⟨globals, m.limit 8, hfits, hwritten⟩

end Offside
