import Offside.Proofs.Evaluation.Depth

/-!
# Rendering — which texts come to an end

An instance can be shown as what its method `__str__` gives, and that may be an instance in its turn.
This file says when this ends:

- `Settles`             : from value to value, each of which a method gives for the one before, the
  rendering comes to one that is shown without a method, or to a failure
- `settles_of_render`, `exists_render_of_settles` : a rendering is not cut off at every depth exactly if
  the value settles
- `SettledUnless`       : where a step is not cut off, all values settle whose rendering it begins; so do
  all evaluations (`settled_tandem`)

The methods on the way may do whatever they like; it is only asked that their calls end.
-/

namespace Offside

open Recorded (silent announced)

/-! ## Values that settle -/

/-- Whether the text of the value is made by a method of its class. -/
def Value.shownByMethod : Value → Bool
  | .inst c _ => c.understands "__str__" 0
  | _ => false

/-- On this machine the rendering of the value comes to an end. -/
inductive Settles : Value → Machine → Prop where
  | plain {value : Value} {m : Machine} (h : value.shownByMethod = false) : Settles value m
  | fails {value : Value} {m after : Machine} {e : RuntimeError} (depth : Nat)
      (h : invoke depth value "__str__" [] m = .error (.error e) after) : Settles value m
  /-- The method gives the value that is shown instead. -/
  | step {value shown : Value} {m after : Machine} (depth : Nat)
      (h : invoke depth value "__str__" [] m = .ok shown after) (hshown : Settles shown after) :
      Settles value m

theorem render_plain {value : Value} (h : value.shownByMethod = false) (depth : Nat) :
    render (depth + 1) value = pure value.text := by
  cases value with
  | inst c address =>
      have hnot : ¬c.understands "__str__" 0 = true := Bool.not_eq_true _ ▸ h
      rw [render, if_neg hnot]
  | _ => rfl

theorem render_shown {value : Value} (h : value.shownByMethod = true) (depth : Nat) :
    render (depth + 1) value = (do
      let shown ← invoke depth value "__str__" []
      render depth shown) := by
  cases value with
  | inst c address =>
      have hasked : c.understands "__str__" 0 = true := h
      rw [render, if_pos hasked]
  | _ => cases h

/-- A rendering that is not cut off has come to an end. -/
theorem settles_of_render {depth : Nat} {value : Value} {m : Machine}
    (h : ¬FailsWith .exhausted (render depth value m)) : Settles value m := by
  induction depth generalizing value m with
  | zero =>
      rw [render] at h
      exact absurd ⟨m, rfl⟩ h
  | succ depth ih =>
      cases hshown : value.shownByMethod with
      | false => exact .plain hshown
      | true =>
          rw [render_shown hshown] at h
          cases hcall : invoke depth value "__str__" [] m with
          | ok shown after =>
              rw [bind_of_ok hcall] at h
              exact .step depth hcall (ih h)
          | error e after =>
              cases e with
              | error e => exact .fails depth hcall
              | exhausted =>
                  rw [bind_of_error hcall] at h
                  exact absurd ⟨after, rfl⟩ h

theorem not_failsWith_of_error {e : RuntimeError} {after : Machine} {α : Type} :
    ¬FailsWith .exhausted (.error (.error e) after : EStateM.Result Fault Machine α) :=
  fun h => Fault.noConfusion (failsWith_error.mp h)

/-- A value that settles is rendered if the rendering may nest deeply enough. -/
theorem exists_render_of_settles {value : Value} {m : Machine} (h : Settles value m) :
    ∃ depth, ¬FailsWith .exhausted (render depth value m) := by
  induction h with
  | plain hplain =>
      refine ⟨1, ?_⟩
      rw [render_plain hplain]
      exact not_failsWith_ok
  | @fails value m after e depth hcall =>
      refine ⟨depth + 1, ?_⟩
      cases hshown : value.shownByMethod with
      | false =>
          rw [render_plain hshown]
          exact not_failsWith_ok
      | true =>
          rw [render_shown hshown, bind_of_error hcall]
          exact not_failsWith_of_error
  | @step value shown m after depth hcall _ ih =>
      cases hshown : value.shownByMethod with
      | false =>
          refine ⟨1, ?_⟩
          rw [render_plain hshown]
          exact not_failsWith_ok
      | true =>
          -- Deep enough for the call and for what it gives.
          rcases ih with ⟨later, hlater⟩
          have hends : ¬FailsWith .exhausted (invoke depth value "__str__" [] m) :=
            hcall ▸ not_failsWith_ok
          have hcall' := (invoke_deeper (Nat.le_max_left depth later) hends).trans hcall
          have hlater' := render_deeper (Nat.le_max_right depth later) hlater
          refine ⟨max depth later + 1, ?_⟩
          rw [render_shown hshown, bind_of_ok hcall', hlater']
          exact hlater

/-- A value that its method gives for itself is never shown. -/
theorem not_settles_of_itself {value : Value} {m : Machine} {enough : Nat}
    (hshown : value.shownByMethod = true)
    (hitself : ∀ m, ∃ after, invoke enough value "__str__" [] m = .ok value after) :
    ¬Settles value m := by
  intro h
  induction h with
  | plain hplain =>
      rw [hplain] at hshown
      cases hshown
  | @fails value m after e depth hcall =>
      rcases hitself m with ⟨after', hcall'⟩
      have hsame := invoke_agree (hcall ▸ not_failsWith_of_error) (hcall' ▸ not_failsWith_ok)
      rw [hcall, hcall'] at hsame
      cases hsame
  | @step value shown m after depth hcall _ ih =>
      rcases hitself m with ⟨after', hcall'⟩
      have hsame := invoke_agree (hcall ▸ not_failsWith_ok) (hcall' ▸ not_failsWith_ok)
      rw [hcall, hcall'] at hsame
      cases hsame
      exact ih hshown hitself

/-! ## Evaluations that end -/

section Steps

variable {ε σ α β : Type} {e : ε}

/-- Where the step does not end in the failure `e`, all values settle whose rendering it has begun. -/
def SettledUnless (e : ε) (p : Recorded ε σ α) : Prop :=
  ∀ s, ¬FailsWith e (p.step s) → ∀ value m, .shows value m ∈ p.events s → Settles value m

namespace SettledUnless

/-- A step that begins no rendering. -/
theorem of_events {p : Recorded ε σ α} (h : ∀ s value m, .shows value m ∉ p.events s) :
    SettledUnless e p :=
  fun s _ value m hshows => absurd hshows (h s value m)

theorem silent (p : EStateM ε σ α) : SettledUnless e (silent p) :=
  of_events fun _ _ _ => List.not_mem_nil

theorem noted {p : EStateM ε σ α} {event : σ → Event} (h : ∀ s value m, event s ≠ .shows value m) :
    SettledUnless e (Recorded.noted event p) := by
  refine of_events fun s value m hshows => ?_
  cases hstep : p s with
  | ok x t =>
      rw [Recorded.events_noted_of_ok hstep] at hshows
      exact h s value m (List.mem_singleton.mp hshows).symm
  | error e t =>
      rw [Recorded.events_noted_of_error hstep] at hshows
      cases hshows

theorem bind {p : Recorded ε σ α} {f : α → Recorded ε σ β} (hp : SettledUnless e p)
    (hf : ∀ x, SettledUnless e (f x)) : SettledUnless e (p >>= f) := by
  intro s hends value m hshows
  have hfirst := hp s (mt FailsWith.bind hends)
  cases hstep : p.step s with
  | ok x t =>
      rw [Recorded.step_bind, bind_of_ok hstep] at hends
      rw [Recorded.events_bind_of_ok hstep] at hshows
      rcases List.mem_append.mp hshows with hshows | hshows
      · exact hfirst value m hshows
      · exact hf x t hends value m hshows
  | error e' t =>
      rw [Recorded.events_bind_of_error hstep] at hshows
      exact hfirst value m hshows

end SettledUnless

end Steps

theorem settled_shows {value : Value} {n : Nat} {p : RecordedRun String}
    (hstep : p.step = render n value) (hp : SettledUnless .exhausted p) :
    SettledUnless .exhausted (announced (.shows value) p) := by
  intro m hends shown before hshows
  rcases List.mem_cons.mp hshows with heq | hshows
  · cases heq
    rw [Recorded.step_announced, hstep] at hends
    exact settles_of_render hends
  · exact hp m hends shown before hshows

theorem settled_body {p : RecordedExec Value} (hp : SettledUnless (.fault .exhausted) p)
    (locals : Scope) : SettledUnless .exhausted (Recorded.body p locals) :=
  fun m hends => hp ⟨locals, m⟩ (mt failsWith_body_iff.mpr hends)

theorem settled_ofRun {α : Type} {p : RecordedRun α} (hp : SettledUnless .exhausted p) :
    SettledUnless (.fault .exhausted) (Recorded.ofRun p) :=
  fun f hends => hp f.machine (mt failsWith_ofRun_iff.mpr hends)

/-- The second step is not looked at. -/
theorem settled_tandem : Tandem (fun p _ => SettledUnless .exhausted p)
    (fun p _ => SettledUnless (.fault .exhausted) p) where
  runPure _ := .silent _
  runBind := .bind
  runThrow _ := .silent _
  runCutOff _ := .silent _
  notice _ := .silent _
  create _ := .noted nofun
  setField _ _ _ := .noted nofun
  writeTexts _ := .noted nofun
  shows := settled_shows
  body := settled_body
  pure _ := .silent _
  bind := .bind
  throw _ := .silent _
  cutOff _ := .silent _
  ofRun := settled_ofRun
  lookup _ := .silent _
  lookupInstance _ := .silent _
  assign _ _ := .silent _

end Offside
