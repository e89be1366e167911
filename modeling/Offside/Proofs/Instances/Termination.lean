import Offside.Proofs.Evaluation.Rendering
import Offside.Proofs.Instances.Programs

/-!
# Termination — runs without calls in methods

A program without loops can only run forever by calls.  This file looks at programs whose methods make
none, neither as such nor by way of what else runs a method:

- `Node.isQuiet`   : no call, construction, comparison, print or conversion to a text
- `Concludes`      : if all renderings that a step begins come to an end, so does the step, and in the
  same way at all depths that are great enough
- `run_ends_iff`   : a program whose methods are quiet runs to an end exactly if all values settle whose
  rendering it begins

Renderings are not written in the methods, and may go on forever (`endless_run`): a method `__str__` can
give the instance that it was asked of.
-/

namespace Offside

open Recorded (silent)

/-! ## Quiet nodes -/

/-- No body of a method has a node in it that runs a method. -/
def Program.QuietMethods (p : Program) : Prop :=
  ∀ c ∈ p.classes, ∀ m ∈ c.methods, m.body.All fun x => x.isQuiet = true

/-! ## Steps that conclude -/

section Steps

variable {ε σ α β : Type} {H : Household ε σ} {K : Class → Prop} {κ : Census}
  {Q : Census → α → Prop} {R : Census → β → Prop}

/-- At depths that are great enough all values settle whose rendering the step begins. -/
def EventuallySettled (P : Nat → Recorded ε σ α) (s : σ) : Prop :=
  ∃ least, ∀ depth, least ≤ depth →
    ∀ value m, .shows value m ∈ (P depth).events s → Settles value m

/-- If all values settle whose rendering the step begins, it ends in the same way at all depths that are
great enough, and not because the depth is used up. -/
def Concludes (H : Household ε σ) (K : Class → Prop) (κ : Census) (Q : Census → α → Prop)
    (P : Nat → Recorded ε σ α) : Prop :=
  κ.Closed K → ∀ s, H.Listed κ s → EventuallySettled P s →
    ∃ least result events,
      (∀ depth, least ≤ depth → (P depth).step s = result ∧ (P depth).events s = events)
        ∧ ¬FailsWith H.cutOff result
        ∧ ∃ κ', κ.Extends κ' ∧ κ'.Closed K ∧ H.Ends κ' Q result

namespace Concludes

/-- A step that does not depend on the depth and is not cut off. -/
theorem of_keeps {p : Recorded ε σ α} (hp : Keeps H K κ Q p)
    (hends : ∀ s, ¬FailsWith H.cutOff (p.step s)) : Concludes H K κ Q fun _ => p := by
  intro hclosed s hs _
  rcases hp hclosed s hs with ⟨κ', hκ', hclosed', hlisted, -⟩
  exact ⟨0, _, _, fun _ _ => ⟨rfl, rfl⟩, hends s, κ', hκ', hclosed', hlisted⟩

theorem pure {x : α} (h : Q κ x) : Concludes H K κ Q fun _ => (pure x : Recorded ε σ α) :=
  of_keeps (.pure h) fun _ => not_failsWith_ok

theorem throw {e : ε} (h : H.Fails κ e) (he : e ≠ H.cutOff) :
    Concludes H K κ Q fun _ => (silent (throw e) : Recorded ε σ α) := by
  exact of_keeps (.throw h) fun _ hfails => he (failsWith_error.mp hfails)

theorem bind {P : Nat → Recorded ε σ α} {F : Nat → α → Recorded ε σ β} (hp : Concludes H K κ Q P)
    (hf : ∀ κ', κ.Extends κ' → ∀ x, Q κ' x → Concludes H K κ' R fun depth => F depth x) :
    Concludes H K κ R fun depth => P depth >>= F depth := by
  intro hclosed s hs hsettled
  rcases hsettled with ⟨least, hsettled⟩
  have hfirst : EventuallySettled P s := by
    refine ⟨least, fun depth hdepth value m hshows => hsettled depth hdepth value m ?_⟩
    exact List.mem_append_left _ hshows
  rcases hp hclosed s hs hfirst
    with ⟨least₁, result, events, hsame, hends, κ₁, hκ₁, hclosed₁, hlisted⟩
  cases result with
  | ok x t =>
      -- The second step begins in one state at all great depths, and renders nothing that both do not.
      have hlater : EventuallySettled (fun depth => F depth x) t := by
        refine ⟨max least least₁, fun depth hdepth value m hshows => ?_⟩
        refine hsettled depth (Nat.le_trans (Nat.le_max_left _ _) hdepth) value m ?_
        have hstep := (hsame depth (Nat.le_trans (Nat.le_max_right _ _) hdepth)).1
        rw [Recorded.events_bind_of_ok hstep]
        exact List.mem_append_right _ hshows
      rcases hf κ₁ hκ₁ x hlisted.1 hclosed₁ t hlisted.2 hlater
        with ⟨least₂, result₂, events₂, hsame₂, hends₂, κ₂, hκ₂, hclosed₂, hlisted₂⟩
      refine ⟨max least₁ least₂, result₂, events ++ events₂, fun depth hdepth => ?_, hends₂, κ₂,
        hκ₁.trans hκ₂, hclosed₂, hlisted₂⟩
      have hstep := hsame depth (Nat.le_trans (Nat.le_max_left _ _) hdepth)
      have hstep₂ := hsame₂ depth (Nat.le_trans (Nat.le_max_right _ _) hdepth)
      rw [Recorded.step_bind, bind_of_ok hstep.1, Recorded.events_bind_of_ok hstep.1, hstep.2]
      exact ⟨hstep₂.1, congrArg _ hstep₂.2⟩
  | error e t =>
      refine ⟨least₁, .error e t, events, fun depth hdepth => ?_, ?_, κ₁, hκ₁, hclosed₁, hlisted⟩
      · have hstep := hsame depth hdepth
        rw [Recorded.step_bind, bind_of_error hstep.1, Recorded.events_bind_of_error hstep.1]
        exact ⟨rfl, hstep.2⟩
      · exact fun hfails => hends (failsWith_error.mpr (failsWith_error.mp hfails))

/-- It is enough to look one level further down. -/
theorem of_succ {P : Nat → Recorded ε σ α} (h : Concludes H K κ Q fun depth => P (depth + 1)) :
    Concludes H K κ Q P := by
  intro hclosed s hs hsettled
  rcases hsettled with ⟨least, hsettled⟩
  have hdown : EventuallySettled (fun depth => P (depth + 1)) s :=
    ⟨least, fun depth hdepth => hsettled (depth + 1) (Nat.le_succ_of_le hdepth)⟩
  rcases h hclosed s hs hdown with ⟨least₁, result, events, hsame, hends, hlisted⟩
  refine ⟨least₁ + 1, result, events, fun depth hdepth => ?_, hends, hlisted⟩
  cases depth with
  | zero => exact absurd hdepth (Nat.not_succ_le_zero _)
  | succ depth => exact hsame depth (Nat.le_of_succ_le_succ hdepth)

end Concludes

end Steps

/-! ### Steps of machines and frames -/

variable {K : Class → Prop} {κ : Census}

theorem concludes_ofRun {α : Type} {Q : Census → α → Prop} {P : Nat → RecordedRun α}
    (hp : Concludes machines K κ Q P) :
    Concludes frames K κ Q fun depth => Recorded.ofRun (P depth) := by
  intro hclosed f hf hsettled
  rcases hp hclosed f.machine hf.store hsettled
    with ⟨least, result, events, hsame, hends, κ', hκ', hclosed', hlisted⟩
  have hlisted' : frames.Ends κ' Q (Exec.ofRun (fun _ => result) f) :=
    ends_ofRun hlisted (hf.scope.extend hκ')
  refine ⟨least, Exec.ofRun (fun _ => result) f, events, fun depth hdepth => ?_,
    mt failsWith_ofRun_iff.mp hends, κ', hκ', hclosed', hlisted'⟩
  refine ⟨?_, (hsame depth hdepth).2⟩
  rw [Recorded.step_ofRun, Exec.ofRun, (hsame depth hdepth).1]
  rfl

theorem concludes_body {P : Nat → RecordedExec Value} {locals : Scope}
    (hp : Concludes frames K κ (fun κ value => value.Listed κ) P) (hlocals : locals.Listed κ) :
    Concludes machines K κ (fun κ value => value.Listed κ)
      fun depth => Recorded.body (P depth) locals := by
  intro hclosed m hm hsettled
  rcases hp hclosed ⟨locals, m⟩ ⟨hlocals, hm⟩ hsettled
    with ⟨least, result, events, hsame, hends, κ', hκ', hclosed', hlisted⟩
  have hlisted' : machines.Ends κ' (fun κ value => value.Listed κ)
      (Run.body (fun _ => result) locals m) := ends_body hlisted
  refine ⟨least, Run.body (fun _ => result) locals m, events, fun depth hdepth => ?_,
    mt failsWith_body_iff.mp hends, κ', hκ', hclosed', hlisted'⟩
  refine ⟨?_, (hsame depth hdepth).2⟩
  show Run.body (P depth).step locals m = _
  rw [Run.body, (hsame depth hdepth).1]
  rfl

/-- A value is rendered if it settles. -/
theorem concludes_render {value : Value} (hvalue : value.Listed κ) :
    Concludes machines K κ (fun _ _ => True) fun depth => Recorded.render depth value := by
  intro hclosed m hm hsettled
  rcases hsettled with ⟨least, hsettled⟩
  have hbegins : .shows value m ∈ (Recorded.render (least + 1) value).events m := by
    cases value with
    | inst c address =>
        rw [Recorded.render]
        exact List.mem_cons_self
    | _ => exact List.mem_cons_self
  have hvalueSettles := hsettled (least + 1) (Nat.le_succ least) value m hbegins
  rcases exists_render_of_settles hvalueSettles with ⟨enough, hends⟩
  rw [← Recorded.step_render] at hends
  rcases (keepsCensus K enough).render hvalue hclosed m hm with ⟨κ', hκ', hclosed', hlisted, -⟩
  exact ⟨enough, _, _, fun depth hdepth => (continues_render hdepth value).agrees m hends, hends,
    κ', hκ', hclosed', hlisted⟩

/-! ### Steps that are the same to every depth -/

theorem concludes_runOfExcept {α : Type} {Q : Census → α → Prop} {x : Except RuntimeError α}
    (hx : κ.Closed K → ∀ a, x = .ok a → Q κ a) :
    Concludes machines K κ Q fun _ => silent (Run.ofExcept x) := by
  refine .of_keeps (keeps_runOfExcept hx) fun m => ?_
  cases x with
  | ok a => exact not_failsWith_ok
  | error e => exact not_failsWith_of_error

theorem concludes_writeTexts (texts : List String) :
    Concludes machines K κ (fun _ _ => True) fun _ => Recorded.writeTexts texts := by
  refine .of_keeps (keeps_writeTexts texts) fun m => ?_
  show ¬FailsWith .exhausted (Run.writeLine (String.intercalate " " texts) m)
  unfold Run.writeLine
  split
  · exact not_failsWith_ok
  · exact not_failsWith_of_error

theorem concludes_look {α : Type} {Q : Census → α → Prop} {p : Exec α}
    (hp : Keeps frames K κ Q (silent p)) (find : Frame → Except RuntimeError α)
    (hfind : ∀ f, p f = Exec.ofExcept (find f) f) : Concludes frames K κ Q fun _ => silent p := by
  refine .of_keeps hp fun f => ?_
  rw [Recorded.step_silent, hfind]
  cases find f with
  | ok a => exact not_failsWith_ok
  | error e => exact fun hfails => absurd (failsWith_error.mp hfails) nofun

/-- To conclude is a matter of bookkeeping. -/
theorem concludes_bookkeeping (K : Class → Prop) :
    Bookkeeping K (fun κ Q P => Concludes machines K κ Q P) (fun κ Q P => Concludes frames K κ Q P) where
  runPure := .pure
  runBind hp hf := hp.bind hf
  runOfExcept := concludes_runOfExcept
  notice n := .of_keeps (keeps_notice n) fun _ => not_failsWith_ok
  create hc := .of_keeps (keeps_create hc) fun _ => not_failsWith_ok
  setField haddress field _ hvalue :=
    .of_keeps (keeps_setField haddress field hvalue) fun _ => not_failsWith_ok
  writeTexts := concludes_writeTexts
  body := concludes_body
  pure := .pure
  bind hp hf := hp.bind hf
  returned hvalue := .throw hvalue nofun
  ofRun := concludes_ofRun
  lookup path := concludes_look (keeps_lookup path) (fun f => f.scope.lookup f.machine.store path)
    fun _ => rfl
  lookupInstance path := concludes_look (keeps_lookupInstance path)
    (fun f => f.scope.lookupInstance f.machine.store path) fun _ => rfl
  assign name _ hvalue := .of_keeps (keeps_assign name hvalue) fun _ => not_failsWith_ok

/-! ## Nodes and calls -/

/-- The node hands on nothing of a store, and it runs no method unless all calls conclude. -/
def Node.Tame (K : Class → Prop) (x : Node) : Prop :=
  x.Backed .empty K ∧ (x.isQuiet = true ∨ OnCalls fun κ Q P => Concludes machines K κ Q P)

/-- Evaluating the node concludes in every census. -/
def Node.Concludes (K : Class → Prop) (x : Node) : Prop :=
  ∀ κ, Offside.Concludes frames K κ (fun κ value => value.Listed κ) fun depth => Recorded.eval depth x

/-- A tame node concludes, as all nodes below it are tame. -/
theorem concludes_eval {x : Node} (hx : x.All (Node.Tame K)) : x.Concludes K := by
  induction hx with
  | @mk x here _ ih =>
      intro κ
      have hbacked : x.Backed κ K := here.1.extend (Census.empty_extends κ)
      have hcalls : x.isQuiet = false → OnCalls fun κ Q P => Concludes machines K κ Q P := by
        intro hloud
        rcases here.2 with hquiet | hcalls
        · rw [hloud] at hquiet
          cases hquiet
        · exact hcalls
      exact .of_succ <| (concludes_bookkeeping K).eval_succ hbacked hcalls concludes_render
        fun y hy κ' _ => ih y hy κ'

/-- Calls conclude if the bodies of the methods that they run do. -/
theorem concludes_invoke (hbodies : ∀ c name m, K c → c.method? name = some m → m.body.Concludes K) :
    OnCalls fun κ Q P => Concludes machines K κ Q P := by
  intro κ receiver name args hreceiver hargs
  refine .of_succ ((concludes_bookkeeping K).invoke_succ ?_ name hreceiver hargs)
  exact fun c name m _ hc hm κ' _ => hbodies c name m hc hm κ'

/-! ## Programs -/

namespace Program

variable {source : String} {p : Program}

/-- A run is cut off exactly where its statements are. -/
theorem failsWith_run_iff {depth : Nat} {m : Machine} :
    FailsWith .exhausted (p.run depth m)
      ↔ FailsWith (.fault .exhausted) ((p.recorded depth).step (p.start m)) := by
  -- That the output cannot be flushed is a failure of another kind.
  have hflush : ∀ (globals : Scope) (m : Machine),
      ¬FailsWith .exhausted ((do Run.flush; return globals : Run Scope) m) := by
    rintro globals m ⟨after, h⟩
    replace h : EStateM.bind Run.flush _ m = .error .exhausted after := h
    unfold EStateM.bind Run.flush at h
    cases hstuck : m.sink.flush with
    | ok _ =>
        rw [hstuck] at h
        cases h
    | error reason =>
        rw [hstuck] at h
        cases h
  rw [run_eq]
  rcases (p.recorded depth).step (p.start m) with ⟨value, f⟩ | ⟨value | e, f⟩
  · exact ⟨fun h => absurd h (hflush _ _), nofun⟩
  · refine ⟨fun h => absurd h (hflush _ _), ?_⟩
    rintro ⟨_, h⟩
    cases h
  · constructor
    · rintro ⟨m, h⟩
      cases h
      exact ⟨f, rfl⟩
    · rintro ⟨g, h⟩
      cases h
      exact ⟨f.machine, rfl⟩

/-- What a run does to a depth is the beginning of what it does to a greater one. -/
theorem continues_recorded {depth deeper : Nat} (h : depth ≤ deeper) :
    Continues (.fault .exhausted) (p.recorded depth) (p.recorded deeper) :=
  continues_tandem.block (continues_tandem.evaluation h).eval p.statements

/-- In a run that is not cut off all values settle whose rendering begins at any depth. -/
theorem settles_of_run {enough depth : Nat} {m before : Machine} {value : Value}
    (h : ¬FailsWith .exhausted (p.run enough m)) (hshows : .shows value before ∈ p.events depth m) :
    Settles value before := by
  rw [failsWith_run_iff] at h
  have hsettled : SettledUnless (.fault .exhausted) (p.recorded enough) :=
    @Tandem.block _ _ settled_tandem _ (Recorded.eval enough)
      (settled_tandem.evaluation (Nat.le_refl enough)).eval p.statements
  refine hsettled (p.start m) h value before ?_
  -- Both depths are below the greater of them, and the run does not notice how much greater it is.
  have hbegins := (continues_recorded (p := p) (Nat.le_max_right enough depth)).begins (p.start m)
  have hsame := ((continues_recorded (p := p) (Nat.le_max_left enough depth)).agrees (p.start m) h).2
  exact hsame ▸ hbegins.subset hshows

theorem tame_of_quiet (h : Program.parse source = .ok p) (hquiet : p.QuietMethods) {c : Class}
    (hc : c ∈ p.classes) {name : String} {m : Method} (hm : c.method? name = some m) :
    m.body.All (Node.Tame (· ∈ p.classes)) := by
  have hbacked := (closed_of_parse h).bodies c name m hc hm
  rcases exists_definition h hc hm with ⟨d, hd, hmd⟩
  exact (hbacked.and (hquiet d hd m hmd)).mono fun x hx => ⟨hx.1, .inl hx.2⟩

end Program

/-- A program that was read, and whose methods neither call methods nor construct, compare, convert or
print anything, runs to an end exactly if every value settles whose rendering the run begins. -/
theorem run_ends_iff {source : String} {p : Program} (h : Program.parse source = .ok p)
    (hquiet : p.QuietMethods) (sink : Sink) (supply : Nat → Nat) :
    let m := Machine.writingTo sink supply
    (∃ depth, ¬FailsWith .exhausted (p.run depth m))
      ↔ ∀ depth value before, .shows value before ∈ p.events depth m → Settles value before := by
  intro m
  constructor
  · rintro ⟨enough, henough⟩ depth value before hshows
    exact Program.settles_of_run henough hshows
  · intro hsettles
    have hcalls : OnCalls fun κ Q P => Concludes machines (· ∈ p.classes) κ Q P :=
      concludes_invoke fun c name method hc hm => concludes_eval (Program.tame_of_quiet h hquiet hc hm)
    have hstatements : Concludes frames (· ∈ p.classes) .empty (fun κ value => value.Listed κ)
        fun depth => p.recorded depth := by
      refine (concludes_bookkeeping _).block fun x hx κ _ => concludes_eval ?_ κ
      exact (Program.backed_of_parse h hx).mono fun y hy => ⟨hy, .inr hcalls⟩
    have hlisted : (p.start m).Listed .empty := ⟨Scope.listed_empty, Store.listed_empty supply⟩
    rcases hstatements (Program.closed_of_parse h) (p.start m) hlisted
        ⟨0, fun depth _ value before hshows => hsettles depth value before hshows⟩
      with ⟨enough, result, events, hsame, hends, -⟩
    refine ⟨enough, ?_⟩
    rw [Program.failsWith_run_iff, (hsame enough (Nat.le_refl enough)).1]
    exact hends

/-! ### Programs that end and programs that do not -/

/-- Whether the node and the nodes below it are quiet, which nodes deeper than allowed for do not count
as. -/
def Node.quietTo : Nat → Node → Bool
  | 0, _ => false
  | n + 1, x => x.isQuiet && x.children.all (quietTo n)

theorem Node.all_of_quietTo {n : Nat} {x : Node} (h : x.quietTo n = true) :
    x.All fun y => y.isQuiet = true := by
  induction n generalizing x with
  | zero => cases h
  | succ n ih =>
      rw [quietTo, Bool.and_eq_true] at h
      exact .mk h.1 fun y hy => ih (List.all_eq_true.mp h.2 y hy)

/-- Whether a reading gives a program with quiet methods that is of a certain kind. -/
def isQuietAnd (kind : Program → Bool) : Except ParseError Program → Bool
  | .ok p => (p.classes.all fun c => c.methods.all fun m => m.body.quietTo 9) && kind p
  | .error _ => false

theorem exists_of_isQuietAnd {kind : Program → Bool} {reading : Except ParseError Program}
    (h : isQuietAnd kind reading = true) :
    ∃ p, reading = .ok p ∧ p.QuietMethods ∧ kind p = true := by
  cases reading with
  | error e => cases h
  | ok p =>
      rw [isQuietAnd, Bool.and_eq_true] at h
      refine ⟨p, rfl, fun c hc m hm => ?_, h.2⟩
      exact Node.all_of_quietTo (List.all_eq_true.mp (List.all_eq_true.mp h.1 c hc) m hm)

/-- Whether the method `__str__` of the class gives the instance that it is asked of. -/
def Class.givesItself (c : Class) : Bool :=
  match c.method? "__str__" with
  | some ⟨_, params, .block [.ret (.variable path)]⟩ =>
      params == [receiverName] && path == [receiverName]
  | _ => false

theorem not_settles_of_givesItself {c : Class} (h : c.givesItself = true) (address : Address)
    (m : Machine) : ¬Settles (.inst c address) m := by
  unfold Class.givesItself at h
  split at h
  next name params path hmethod =>
    rw [Bool.and_eq_true] at h
    cases (eq_of_beq h.1 : params = _)
    cases (eq_of_beq h.2 : path = _)
    have hshown : (Value.inst c address).shownByMethod = true := by
      show (c.method? "__str__").any _ = true
      rw [hmethod]
      rfl
    have hdispatch : Run.dispatch c "__str__" []
        = .ok ⟨name, [receiverName], .block [.ret (.variable [receiverName])]⟩ := by
      rw [Run.dispatch, hmethod]
      rfl
    have hitself : ∀ m, ∃ after, invoke 5 (.inst c address) "__str__" [] m
        = .ok (.inst c address) after := by
      intro m
      rw [invoke, hdispatch]
      exact ⟨_, rfl⟩
    exact not_settles_of_itself hshown hitself
  next => cases h

/-- Whether the run begins to render an instance whose method `__str__` gives the instance itself. -/
def Program.showsItself (p : Program) : Bool :=
  (p.events 9 (.writingTo .unlimited id)).any fun
    | .shows (.inst c _) _ => c.givesItself
    | _ => false

/-- A program whose only method returns its receiver runs forever where it prints an instance. -/
theorem endless_run :
    ¬ ∀ (source : String) (p : Program), Program.parse source = .ok p → p.QuietMethods →
      ∀ (sink : Sink) (supply : Nat → Nat),
        ∃ depth, ¬FailsWith .exhausted (p.run depth (.writingTo sink supply)) := by
  intro hall
  have hread : isQuietAnd Program.showsItself (Program.parse
      "class A:\n  def __str__(self):\n    return self\nprint(A())\n") = true := by
    decide +kernel
  rcases exists_of_isQuietAnd hread with ⟨p, hparse, hquiet, hitself⟩
  rcases List.any_eq_true.mp hitself with ⟨event, hevent, hgives⟩
  rcases hall _ p hparse hquiet .unlimited id with ⟨enough, hends⟩
  cases event with
  | shows value before =>
      cases value with
      | inst c address =>
          exact not_settles_of_givesItself hgives address before (Program.settles_of_run hends hevent)
      | _ => cases hgives
  | _ => cases hgives

/-- A program whose method `__str__` returns a text runs to an end. -/
theorem run_ends_iff_shown :
    ∃ source p, Program.parse source = .ok p ∧ p.QuietMethods
      ∧ ∀ depth value before, .shows value before ∈ p.events depth (.writingTo .unlimited id) →
        Settles value before := by
  let ends (p : Program) : Bool :=
    match p.run 9 (.writingTo .unlimited id) with
    | .error .exhausted _ => false
    | _ => true
  have hread : isQuietAnd ends (Program.parse
      "class A:\n  def __str__(self):\n    return 'a'\nprint(A())\n") = true := by
    decide +kernel
  rcases exists_of_isQuietAnd hread with ⟨p, hparse, hquiet, hends⟩
  refine ⟨_, p, hparse, hquiet, (run_ends_iff hparse hquiet .unlimited id).mp ⟨9, ?_⟩⟩
  rintro ⟨m, hm⟩
  simp only [ends, hm] at hends
  cases hends

end Offside
