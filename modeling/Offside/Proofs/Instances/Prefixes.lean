import Offside.Proofs.Instances.Paths

/-!
# Prefixes — how far the look-up of a path gets

A dotted path is looked up name by name, and a look-up that fails tells how far it got.  This file takes a
look-up apart at any place of its path:

- `Scope.Leads`  : every name of the path exists, and an instance stands before every name but the first
- `Scope.Breaks` : the path is the first one along which there is no value, and the error says why

The main statement, `lookup_by_prefixes`, says what becomes of a look-up when names are added to its path,
and that these two notions are the two outcomes of a look-up.  A path without names is left out.  Its look-up
fails, and the look-up of a name that is added to it need not (`lookup_without_names`).
-/

namespace Offside

namespace Scope

variable {s : Scope} {store : Store}

/-! ## Paths that lead somewhere -/

/-- The path leads to the value. Its first name is bound in the scope, and every other one is a field of the
instance to which the path before it leads. -/
inductive Leads (s : Scope) (store : Store) : List String → Value → Prop where
  | name {name : String} {value : Value} (h : s.get? name = some value) : Leads s store [name] value
  | field {path : List String} {c : Class} {address : Address} {field : String} {value : Value}
      (hpath : Leads s store path (.inst c address))
      (h : (store.fields address).get? field = some value) : Leads s store (path ++ [field]) value

/-- The path leads to no value, but what stands before its last name does. The error names the part of it
that is not there, or that has no fields. -/
inductive Breaks (s : Scope) (store : Store) : List String → RuntimeError → Prop where
  | name {name : String} (h : s.get? name = none) :
      Breaks s store [name] (.undefinedVariable (pathText [name]))
  | field {path : List String} {c : Class} {address : Address} {field : String}
      (hpath : Leads s store path (.inst c address))
      (h : (store.fields address).get? field = none) :
      Breaks s store (path ++ [field]) (.undefinedVariable (pathText (path ++ [field])))
  | noInstance {path : List String} {value : Value} (field : String)
      (hpath : Leads s store path value) (h : value.kind ≠ .inst) :
      Breaks s store (path ++ [field]) (.notAnInstance (pathText path) value.kind)

/-- A path that leads to a value leads to some value all along. -/
theorem Leads.of_append {front later path : List String} {value : Value}
    (h : Leads s store path value) (hpath : path = front ++ later) (hfront : front ≠ []) :
    ∃ v, Leads s store front v := by
  induction h generalizing later with
  | @name name value hname =>
      -- One name has no other part than itself.
      rcases List.singleton_eq_append_iff.mp hpath with ⟨hnil, -⟩ | ⟨rfl, -⟩
      · exact absurd hnil hfront
      · exact ⟨value, .name hname⟩
  | @field before c address field value hbefore hfield ih =>
      rcases List.eq_nil_or_concat later with rfl | ⟨middle, last, rfl⟩
      · rw [List.append_nil] at hpath
        subst hpath
        exact ⟨value, .field hbefore hfield⟩
      · rw [List.concat_eq_append, ← List.append_assoc] at hpath
        exact ih (List.append_inj_left' hpath rfl)

/-- Whatever stands before the last name of a path that breaks leads somewhere. -/
theorem Breaks.of_append {front later path : List String} {e : RuntimeError}
    (h : Breaks s store path e) (hpath : path = front ++ later) (hfront : front ≠ [])
    (hlater : later ≠ []) : ∃ v, Leads s store front v := by
  have hlast : ∀ {before : List String} {field : String} {v : Value},
      Leads s store before v → before ++ [field] = front ++ later → ∃ v, Leads s store front v := by
    intro before field v hbefore hsplit
    rcases List.eq_nil_or_concat later with hnil | ⟨middle, last, rfl⟩
    · exact absurd hnil hlater
    · rw [List.concat_eq_append, ← List.append_assoc] at hsplit
      exact hbefore.of_append (List.append_inj_left' hsplit rfl) hfront
  cases h with
  | name =>
      -- A single name cannot be cut in two parts that both have names.
      rcases List.singleton_eq_append_iff.mp hpath with ⟨hnil, -⟩ | ⟨-, hnil⟩
      · exact absurd hnil hfront
      · exact absurd hnil hlater
  | field hbefore => exact hlast hbefore hpath
  | noInstance _ hbefore => exact hlast hbefore hpath

/-! ## The two outcomes -/

theorem Leads.lookup_eq {path : List String} {value : Value} (h : Leads s store path value) :
    s.lookup store path = .ok value := by
  induction h with
  | name hname =>
      rw [lookup, hname]
      rfl
  | field _ hfield ih =>
      rw [lookup_append _ ih, follow, hfield]
      rfl

/-- Names that are added to a path that breaks are not looked at. -/
theorem Breaks.lookup_append_eq {path : List String} {e : RuntimeError} (h : Breaks s store path e)
    (later : List String) : s.lookup store (path ++ later) = .error e := by
  cases h with
  | name hname =>
      rw [List.singleton_append, lookup, hname]
      rfl
  | field hpath hfield =>
      rw [List.append_assoc, lookup_append _ hpath.lookup_eq, List.singleton_append, follow, hfield]
  | @noInstance path value field hpath hkind =>
      rw [List.append_assoc, lookup_append _ hpath.lookup_eq, List.singleton_append]
      cases value with
      | inst c address => exact absurd rfl hkind
      | _ => rfl

/-- Where a path leads to a value, more names lead further or break off. -/
theorem Leads.follow_or {walked : List String} {value : Value} (h : Leads s store walked value)
    (rest : List String) :
    (∃ v, Leads s store (walked ++ rest) v)
      ∨ ∃ front later e, walked ++ rest = front ++ later ∧ Breaks s store front e := by
  induction rest generalizing walked value with
  | nil =>
      rw [List.append_nil]
      exact .inl ⟨value, h⟩
  | cons field rest ih =>
      have hsplit : walked ++ field :: rest = walked ++ [field] ++ rest := by simp
      rw [hsplit]
      -- Only an instance has fields, and the next name must be one of them.
      by_cases hkind : value.kind = .inst
      · cases value with
        | inst c address =>
            cases hfield : (store.fields address).get? field with
            | some next => exact ih (.field h hfield)
            | none => exact .inr ⟨_, rest, _, rfl, .field h hfield⟩
        | _ => cases hkind
      · exact .inr ⟨_, rest, _, rfl, .noInstance field h hkind⟩

theorem leads_or_breaks (s : Scope) (store : Store) {path : List String} (hpath : path ≠ []) :
    (∃ v, Leads s store path v)
      ∨ ∃ front later e, path = front ++ later ∧ Breaks s store front e := by
  cases path with
  | nil => exact absurd rfl hpath
  | cons first rest =>
      cases hfirst : s.get? first with
      | none => exact .inr ⟨[first], rest, _, rfl, .name hfirst⟩
      | some value => exact Leads.follow_or (.name hfirst) rest

theorem lookup_eq_ok_iff {path : List String} {value : Value} :
    s.lookup store path = .ok value ↔ Leads s store path value := by
  constructor
  · intro h
    have hpath : path ≠ [] := by
      rintro rfl
      cases h
    -- A path that breaks somewhere gives an error and not this value.
    rcases leads_or_breaks s store hpath
      with ⟨v, hv⟩ | ⟨front, later, e, rfl, hbreaks⟩
    · rw [hv.lookup_eq] at h
      cases h
      exact hv
    · rw [hbreaks.lookup_append_eq later] at h
      cases h
  · exact Leads.lookup_eq

theorem lookup_eq_error_iff {path : List String} (hpath : path ≠ []) {e : RuntimeError} :
    s.lookup store path = .error e
      ↔ ∃ front later, path = front ++ later ∧ Breaks s store front e := by
  constructor
  · intro h
    rcases leads_or_breaks s store hpath
      with ⟨v, hv⟩ | ⟨front, later, e', rfl, hbreaks⟩
    · rw [hv.lookup_eq] at h
      cases h
    · rw [hbreaks.lookup_append_eq later] at h
      cases h
      exact ⟨front, later, rfl, hbreaks⟩
  · rintro ⟨front, later, rfl, hbreaks⟩
    exact hbreaks.lookup_append_eq later

end Scope

/-! ## Longer paths -/

/-- Names are added to a path. Where its look-up fails, the failure stays. Where it gives a value, the first
added name decides: there is no instance to ask, or it has no such field, or the look-up goes on from the
field. A look-up thus gives a value exactly if its path leads there, and fails exactly if some part of the
path breaks; the parts before that one lead somewhere. -/
theorem lookup_by_prefixes (s : Scope) (store : Store) {p : List String} (hp : p ≠ []) :
    (∀ e q, s.lookup store p = .error e → s.lookup store (p ++ q) = .error e)
      ∧ (∀ v f q, s.lookup store p = .ok v →
        (v.kind ≠ .inst →
          s.lookup store (p ++ f :: q) = .error (.notAnInstance (pathText p) v.kind))
        ∧ ∀ c address, v = .inst c address →
          ((store.fields address).get? f = none →
            s.lookup store (p ++ f :: q) = .error (.undefinedVariable (pathText (p ++ [f]))))
          ∧ ∀ w, (store.fields address).get? f = some w →
            s.lookup store (p ++ [f]) = .ok w
              ∧ s.lookup store (p ++ f :: q) = Scope.follow store (p ++ [f]) w q)
      ∧ (∀ v, s.lookup store p = .ok v ↔ s.Leads store p v)
      ∧ (∀ e, s.lookup store p = .error e
        ↔ ∃ front later, p = front ++ later ∧ s.Breaks store front e)
      ∧ ∀ front e, s.Breaks store front e → ∀ shorter later, front = shorter ++ later →
        shorter ≠ [] → later ≠ [] → ∃ v, s.lookup store shorter = .ok v := by
  refine ⟨?_, ?_, fun v => Scope.lookup_eq_ok_iff, fun e => Scope.lookup_eq_error_iff hp, ?_⟩
  · intro e q h
    rcases (Scope.lookup_eq_error_iff hp).mp h with ⟨front, later, rfl, hbreaks⟩
    rw [List.append_assoc]
    exact hbreaks.lookup_append_eq (later ++ q)
  · intro v f q h
    have hleads := Scope.lookup_eq_ok_iff.mp h
    have hsplit : p ++ f :: q = p ++ [f] ++ q := by simp
    rw [hsplit]
    refine ⟨fun hkind => ?_, ?_⟩
    · exact (Scope.Breaks.noInstance f hleads hkind).lookup_append_eq q
    · rintro c address rfl
      refine ⟨fun hfield => ?_, fun w hfield => ?_⟩
      · exact (Scope.Breaks.field hleads hfield).lookup_append_eq q
      · have hnext := (Scope.Leads.field hleads hfield).lookup_eq
        exact ⟨hnext, Scope.lookup_append q hnext⟩
  · intro front e hbreaks shorter later hfront hshorter hlater
    rcases hbreaks.of_append hfront hshorter hlater with ⟨v, hv⟩
    exact ⟨v, hv.lookup_eq⟩

/-- Three ways on from the end of a chain of two instances: to a field, past a field that is missing, and
past a number. -/
theorem lookup_by_prefixes_of_chain :
    let c : Class := ⟨"A", none, []⟩
    let near : Address := ⟨0, 0⟩
    let far : Address := ⟨1, 1⟩
    let made : Store := (Store.empty id).allocate.allocate
    let store : Store := (made.setField near "b" (.inst c far)).setField far "n" (.int 3)
    let s : Scope := Scope.empty.insert "a" (.inst c near)
    s.lookup store ["a", "b", "n"] = .ok (.int 3)
      ∧ s.lookup store ["a", "b", "lost", "x"] = .error (.undefinedVariable "a.b.lost")
      ∧ s.lookup store ["a", "b", "n", "x", "y"] = .error (.notAnInstance "a.b.n" .int) := by
  intro c near far made store s
  have hchain := lookup_by_prefixes s store (p := ["a", "b"]) (List.cons_ne_nil _ _)
  have hnumber := lookup_by_prefixes s store (p := ["a", "b", "n"]) (List.cons_ne_nil _ _)
  have hend : s.lookup store ["a", "b"] = .ok (.inst c far) := rfl
  have hfield := ((hchain.2.1 _ "n" [] hend).2 c far rfl).2 (.int 3) rfl
  have hlost := ((hchain.2.1 _ "lost" ["x"] hend).2 c far rfl).1 rfl
  exact ⟨hfield.1, hlost, (hnumber.2.1 _ "x" ["y"] hfield.1).1 (by decide)⟩

/-- The look-up of a path without names fails, and that of one name need not. -/
theorem lookup_without_names :
    ¬ ∀ (s : Scope) (store : Store) (p q : List String) (e : RuntimeError),
      s.lookup store p = .error e → s.lookup store (p ++ q) = .error e := by
  intro hall
  have hfails := hall (Scope.empty.insert "x" (.int 1)) (.empty id) [] ["x"] (.undefinedVariable "") rfl
  cases hfails

end Offside
