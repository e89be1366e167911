import Mathlib.Logic.Relation
import Offside.Proofs.Instances.Programs

/-!
# Cycles — which writes make instances contain themselves

Instances are shared, and a field may hold any of them.  This file says when the instances of a program
form cycles:

- `Store.Points`   : a field of the one instance holds the other
- `Store.Acyclic`  : no instance is reached from itself
- `Event.Closes`   : an instance is written to a field of one that it reaches already, or that it is
- `acyclic_of_parse` : in a run, all stores so far are acyclic exactly if no such write has happened

So nothing but a field write makes a cycle, and there are programs with such writes
(`run_with_cycle`).
-/

open Relation (TransGen ReflTransGen)

namespace Offside

/-! ## The graph of instances -/

namespace Store

/-- A field of the instance at the first address holds the instance at the second one. -/
def Points (s : Store) (address target : Address) : Prop :=
  ∃ field c, (s.fields address).get? field = some (.inst c target)

/-- No instance is reached from itself. -/
def Acyclic (s : Store) : Prop :=
  ∀ address, ¬TransGen s.Points address address

/-- The store after events, one after the other. -/
def after (s : Store) (events : List Event) : Store :=
  events.foldl (fun s event => event.apply s) s

end Store

/-- An instance is written to a field of an instance that it reaches. -/
def Event.Closes : Event → Store → Prop
  | .stores address _ (.inst _ target), s => ReflTransGen s.Points target address
  | _, _ => False

theorem Event.Leads.eq_after {s t : Store} {events : List Event} (h : Event.Leads s events t) :
    t = s.after events := by
  induction h with
  | nil => rfl
  | cons _ _ ih => exact ih

namespace Store

variable {s : Store}

theorem acyclic_empty (supply : Nat → Nat) : (Store.empty supply).Acyclic := by
  intro address hcycle
  rcases TransGen.head'_iff.mp hcycle with ⟨next, ⟨field, c, hfield⟩, -⟩
  have hnone : (Store.empty supply).fields address = .empty :=
    fields_eq_empty (not_holds_empty supply address)
  rw [hnone] at hfield
  cases hfield

theorem points_allocate (s : Store) : s.allocate.Points = s.Points := by
  funext address target
  simp only [Points, fields_allocate]

/-! ### One field more -/

section Write

variable {address : Address} {field : String} {value : Value}

/-- A write adds at most one edge, to the instance that is written. -/
theorem points_setField {a b : Address} (h : (s.setField address field value).Points a b) :
    s.Points a b ∨ a = address ∧ ∃ c, value = .inst c b := by
  rcases h with ⟨name, c, hname⟩
  by_cases hfield : (a, name) = (address, field)
  · cases hfield
    by_cases hin : s.Holds address
    · rw [fields_setField_self s hin, Scope.get?_insert_self] at hname
      exact .inr ⟨rfl, c, Option.some.inj hname⟩
    · rw [fields_eq_empty (mt holds_setField.mp hin)] at hname
      cases hname
  · rw [get?_setField_of_ne s hfield] at hname
    exact .inl ⟨name, c, hname⟩

/-- A path after a write either was there before or goes through the edge that was added. -/
theorem transGen_setField {c : Class} {target a b : Address}
    (h : TransGen (s.setField address field (.inst c target)).Points a b) :
    TransGen s.Points a b ∨ ReflTransGen s.Points a address ∧ ReflTransGen s.Points target b := by
  induction h with
  | single hedge =>
      rcases points_setField hedge with hold | ⟨rfl, d, hvalue⟩
      · exact .inl (.single hold)
      · cases hvalue
        exact .inr ⟨.refl, .refl⟩
  | tail _ hedge ih =>
      rcases points_setField hedge with hold | ⟨rfl, d, hvalue⟩
      · exact ih.imp (·.tail hold) fun h => ⟨h.1, h.2.tail hold⟩
      · cases hvalue
        exact .inr ⟨ih.elim (·.to_reflTransGen) (·.1), .refl⟩

theorem acyclic_setField (hs : s.Acyclic)
    (hcloses : ¬(Event.stores address field value).Closes s) :
    (s.setField address field value).Acyclic := by
  intro a hcycle
  cases value with
  | inst c target =>
      rcases transGen_setField hcycle with hold | ⟨hfirst, hlater⟩
      · exact hs a hold
      · -- From the written instance the path leads to the one that it was written to.
        exact hcloses (hlater.trans hfirst)
  | _ =>
      refine hs a (TransGen.mono (fun x y hedge => ?_) a a hcycle)
      rcases points_setField hedge with hold | ⟨-, d, hvalue⟩
      · exact hold
      · cases hvalue

/-- What leads to the instance that is written to still leads there. -/
theorem reflTransGen_setField {a : Address} (h : ReflTransGen s.Points a address) :
    ReflTransGen (s.setField address field value).Points a address := by
  induction h using ReflTransGen.head_induction_on with
  | refl => exact .refl
  | @head a b hedge _ ih =>
      by_cases ha : a = address
      · rw [ha]
      · rcases hedge with ⟨name, c, hname⟩
        refine .head ⟨name, c, ?_⟩ ih
        rw [fields_setField_of_ne s ha]
        exact hname

theorem not_acyclic_setField (hin : s.Holds address)
    (hcloses : (Event.stores address field value).Closes s) :
    ¬(s.setField address field value).Acyclic := by
  intro hacyclic
  cases value with
  | inst c target =>
      -- The edge that is added leads to the way back, which the write has left as it was.
      have hedge : (s.setField address field (.inst c target)).Points address target := by
        refine ⟨field, c, ?_⟩
        rw [fields_setField_self s hin, Scope.get?_insert_self]
      exact hacyclic address (.head' hedge (reflTransGen_setField hcloses))
  | _ => exact hcloses

end Write

/-! ## Runs -/

/-- An event that closes no cycle keeps the store acyclic. -/
theorem acyclic_apply {event : Event} (hs : s.Acyclic) (h : ¬event.Closes s) :
    (event.apply s).Acyclic := by
  cases event with
  | creates c address =>
      show s.allocate.Acyclic
      rw [Acyclic, points_allocate]
      exact hs
  | stores address field value => exact acyclic_setField hs h
  | shows value m => exact hs
  | prints texts => exact hs

theorem not_acyclic_apply {event : Event} (hfits : event.Fits s) (h : event.Closes s) :
    ¬(event.apply s).Acyclic := by
  cases event with
  | stores address field value => exact not_acyclic_setField hfits h
  | _ => exact absurd h id

/-- The stores on the way are all acyclic exactly if no event closes a cycle. -/
theorem acyclic_iff {t : Store} {events : List Event} (hs : s.Acyclic)
    (h : Event.Leads s events t) :
    (∀ sofar, sofar <+: events → (s.after sofar).Acyclic)
      ↔ ∀ before event, before ++ [event] <+: events → ¬event.Closes (s.after before) := by
  induction h with
  | nil =>
      refine ⟨fun _ before event hpart => ?_, fun _ sofar hpart => ?_⟩
      · have hnil := List.prefix_nil.mp hpart
        simp at hnil
      · rw [List.prefix_nil.mp hpart]
        exact hs
  | @cons s t first events hfits _ ih =>
      constructor
      · intro hacyclic before event hpart
        have hfirst : (first.apply s).Acyclic :=
          hacyclic [first] (List.cons_prefix_cons.mpr ⟨rfl, List.nil_prefix⟩)
        cases before with
        | nil =>
            cases (List.cons_prefix_cons.mp hpart).1
            exact fun hcloses => not_acyclic_apply hfits hcloses hfirst
        | cons head before =>
            rcases List.cons_prefix_cons.mp hpart with ⟨rfl, hlater⟩
            refine (ih hfirst).mp (fun sofar hsofar => ?_) before event hlater
            exact hacyclic (head :: sofar) (List.cons_prefix_cons.mpr ⟨rfl, hsofar⟩)
      · intro hopen sofar hpart
        have hfirst : (first.apply s).Acyclic :=
          acyclic_apply hs (hopen [] first (List.cons_prefix_cons.mpr ⟨rfl, List.nil_prefix⟩))
        cases sofar with
        | nil => exact hs
        | cons head sofar =>
            rcases List.cons_prefix_cons.mp hpart with ⟨rfl, hlater⟩
            refine (ih hfirst).mpr (fun before event hbefore => ?_) sofar hlater
            exact hopen (head :: before) event (List.cons_prefix_cons.mpr ⟨rfl, hbefore⟩)

end Store

/-- A run of a program that was read does to its store what its events say. Up to any of them all stores
so far are acyclic exactly if no instance has been written to a field of an instance that it reached; a
write of that kind closes a cycle at once, and nothing else does. -/
theorem acyclic_of_parse {source : String} {p : Program} (h : Program.parse source = .ok p)
    (depth : Nat) (supply : Nat → Nat) (sink : Sink) :
    let m := Machine.writingTo sink supply
    (endOf (p.run depth m)).store = m.store.after (p.events depth m)
      ∧ ∀ events, events <+: p.events depth m →
        ((∀ sofar, sofar <+: events → (m.store.after sofar).Acyclic)
          ↔ ∀ before event, before ++ [event] <+: events → ¬event.Closes (m.store.after before)) := by
  intro m
  have hlisted : (p.start m).Listed .empty := ⟨Scope.listed_empty, Store.listed_empty supply⟩
  rcases Program.keeps_of_parse h depth (Program.closed_of_parse h) (p.start m) hlisted
    with ⟨κ, -, -, -, hleads⟩
  refine ⟨?_, fun events hevents => ?_⟩
  · rw [Program.store_run]
    exact hleads.eq_after
  · rcases hevents with ⟨later, hevents⟩
    have hevents : p.events depth m = events ++ later := hevents.symm
    rw [show (p.recorded depth).events (p.start m) = _ from hevents] at hleads
    rcases hleads.split with ⟨t, hfirst, -⟩
    exact Store.acyclic_iff (Store.acyclic_empty supply) hfirst

/-! ### A program with a cycle -/

/-- Whether a reading gives a program that ends with the first instance in a field of itself. -/
def leavesLoop (field : String) : Except ParseError Program → Bool
  | .ok p =>
      match ((endOf (p.run 9 (.writingTo .unlimited id))).store.fields ⟨0, 0⟩).get? field with
      | some (.inst _ address) => address == ⟨0, 0⟩
      | _ => false
  | .error _ => false

theorem exists_of_leavesLoop {field : String} {reading : Except ParseError Program}
    (h : leavesLoop field reading = true) :
    ∃ p, reading = .ok p ∧ ¬(endOf (p.run 9 (.writingTo .unlimited id))).store.Acyclic := by
  unfold leavesLoop at h
  split at h
  next p =>
    split at h
    next c address hfield =>
      cases (eq_of_beq h : address = ⟨0, 0⟩)
      exact ⟨p, rfl, fun hacyclic => hacyclic ⟨0, 0⟩ (.single ⟨field, c, hfield⟩)⟩
    next => cases h
  next => cases h

theorem parse_loop : leavesLoop "me" (Program.parse
    "class A:\n  def f():\n    return 1\na = A()\na.me = a\n") = true := by
  decide +kernel

/-- A program that was read can end with an instance that is its own field. -/
theorem run_with_cycle :
    ¬ ∀ (source : String) (p : Program) (depth : Nat) (supply : Nat → Nat),
      Program.parse source = .ok p → (endOf (p.run depth (.writingTo .unlimited supply))).store.Acyclic := by
  intro hall
  rcases exists_of_leavesLoop parse_loop with ⟨p, hparse, hcyclic⟩
  exact hcyclic (hall _ p 9 id hparse)

/-- In that program there is a write that closes the cycle. -/
theorem acyclic_of_parse_loop :
    ∃ source p, Program.parse source = .ok p
      ∧ ∃ before event, before ++ [event] <+: p.events 9 (.writingTo .unlimited id)
        ∧ event.Closes ((Store.empty id).after before) := by
  rcases exists_of_leavesLoop parse_loop with ⟨p, hparse, hcyclic⟩
  refine ⟨_, p, hparse, ?_⟩
  rcases acyclic_of_parse hparse 9 id .unlimited with ⟨hstore, hiff⟩
  by_contra hnone
  have hacyclic := (hiff _ (List.prefix_refl _)).mpr fun before event hpart hcloses =>
    hnone ⟨before, event, hpart, hcloses⟩
  refine hcyclic ?_
  rw [hstore]
  exact hacyclic _ (List.prefix_refl _)

end Offside
