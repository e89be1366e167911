import Mathlib.Logic.Function.Basic
import Offside.Proofs.Grammar.Context

/-!
# Building — classes from lists of methods

A class is built from the methods that its definition lists, one after the other:

- `Method.RepeatsFirst` : the earliest method of a list that has the name of one before it
- `Method.enterAll`     : a table of methods by name, which takes each name once
- `Class.Holds`         : what a class that was built answers to a name

The table and the list that a class keeps are two ways to the same answers (`build_eq_enterAll`).  The main
statement, `build_class`, says when a class is built, what it answers then, and which method is to blame
otherwise.
-/

namespace Offside

/-! ## Repeated names -/

namespace Method

variable {methods : List Method} {seen : List String}

/-- No name repeats in front of the method, and its own is one of them. -/
def RepeatsFirst (methods : List Method) (m : Method) : Prop :=
  ∃ before after, methods = before ++ m :: after ∧ (before.map (·.name)).Nodup
    ∧ m.name ∈ before.map (·.name)

/-- With some names met before the list, the search stops at the first method that has one of them or that
of a method in front of it. -/
theorem firstRepeat?_eq_some {m : Method} (h : firstRepeat? seen methods = some m) :
    ∃ before after, methods = before ++ m :: after ∧ firstRepeat? seen before = none
      ∧ (m.name ∈ seen ∨ m.name ∈ before.map (·.name)) := by
  induction methods generalizing seen with
  | nil => cases h
  | cons first ms ih =>
      rw [firstRepeat?] at h
      split at h
      next hseen =>
        cases h
        exact ⟨[], ms, rfl, rfl, .inl hseen⟩
      next hnew =>
        rcases ih h with ⟨before, after, rfl, hbefore, hname⟩
        refine ⟨first :: before, after, rfl, ?_, ?_⟩
        · rw [firstRepeat?, if_neg hnew, hbefore]
        · rcases hname with hname | hname
          · rcases List.mem_cons.mp hname with hfirst | hseen
            · exact .inr (hfirst ▸ List.mem_cons_self)
            · exact .inl hseen
          · exact .inr (List.mem_cons_of_mem _ hname)

/-- Behind a list without repeated names the search goes on with these names. -/
theorem firstRepeat?_append {before after : List Method} (h : firstRepeat? seen before = none) :
    firstRepeat? seen (before ++ after)
      = firstRepeat? ((before.map (·.name)).reverse ++ seen) after := by
  induction before generalizing seen with
  | nil => rfl
  | cons first before ih =>
      rw [firstRepeat?] at h
      split at h
      next => cases h
      next hnew =>
        rw [List.cons_append, firstRepeat?, if_neg hnew, ih h, List.map_cons, List.reverse_cons,
          List.append_assoc]
        rfl

theorem firstRepeat?_eq_some_iff {m : Method} :
    firstRepeat? [] methods = some m ↔ RepeatsFirst methods m := by
  constructor
  · intro h
    rcases firstRepeat?_eq_some h with ⟨before, after, hsplit, hbefore, hname⟩
    have hnodup := (Grammar.firstRepeat?_eq_none_iff [] before).mp hbefore
    exact ⟨before, after, hsplit, hnodup.1, hname.resolve_left List.not_mem_nil⟩
  · rintro ⟨before, after, rfl, hnodup, hname⟩
    have hbefore : firstRepeat? [] before = none :=
      (Grammar.firstRepeat?_eq_none_iff [] before).mpr ⟨hnodup, fun _ _ => List.not_mem_nil⟩
    have hmet : m.name ∈ (before.map (·.name)).reverse ++ [] := by simpa using hname
    rw [firstRepeat?_append hbefore, firstRepeat?, if_pos hmet]

/-! ## Tables of methods -/

/-- Enters methods into a table by their names. A name that is taken stops this. -/
def enterAll (className : String) (table : String → Option Method) :
    List Method → Except RuntimeError (String → Option Method)
  | [] => .ok table
  | m :: ms =>
      match table m.name with
      | some _ => .error (.duplicateMethod className m.name)
      | none => enterAll className (Function.update table m.name (some m)) ms

/-- Methods are entered where the search finds no repeated name, and then the table holds each of them
beside what it held before. -/
theorem enterAll_eq {table : String → Option Method} (className : String)
    (hseen : ∀ name, name ∈ seen ↔ (table name).isSome = true) :
    enterAll className table methods
      = match firstRepeat? seen methods with
        | some m => .error (.duplicateMethod className m.name)
        | none => .ok fun name => (table name).or (methods.find? (·.name == name)) := by
  induction methods generalizing table seen with
  | nil => simp [enterAll, firstRepeat?]
  | cons m ms ih =>
      rw [enterAll, firstRepeat?]
      cases htaken : table m.name with
      | some _ =>
          have hm : m.name ∈ seen := (hseen m.name).mpr (by rw [htaken]; rfl)
          rw [if_pos hm]
      | none =>
          have hm : m.name ∉ seen := fun hmem => by simpa [htaken] using (hseen m.name).mp hmem
          -- The names met and the names of the table grow together.
          have hnext : ∀ name, name ∈ m.name :: seen
              ↔ (Function.update table m.name (some m) name).isSome = true := by
            intro name
            by_cases hname : name = m.name
            · simp [hname]
            · rw [Function.update_of_ne hname, ← hseen name, List.mem_cons]
              exact ⟨fun h => h.resolve_left hname, .inr⟩
          rw [if_neg hm]
          simp only [ih hnext]
          cases firstRepeat? (m.name :: seen) ms with
          | some _ => rfl
          | none =>
              refine congrArg Except.ok (funext fun name => ?_)
              by_cases hname : name = m.name
              · subst hname
                simp [htaken]
              · have hother : (m.name == name) = false := beq_false_of_ne (Ne.symm hname)
                rw [Function.update_of_ne hname, List.find?_cons, hother]

end Method

/-! ## Classes -/

namespace Class

variable {methods : List Method}

/-- A class answers as the table of its methods does, and fails to be built as the table fails. -/
theorem build_eq_enterAll (name : String) (parent : Option Class) (methods : List Method) :
    (build name parent methods).map own? = Method.enterAll name (fun _ => none) methods := by
  have hnone : ∀ other : String, other ∈ [] ↔ (none : Option Method).isSome = true := by simp
  rw [Method.enterAll_eq name hnone, build]
  cases Method.firstRepeat? [] methods with
  | some m => rfl
  | none => rfl

/-- What a class answers that was built of methods on a parent. -/
structure Holds (c : Class) (name : String) (parent : Option Class) (methods : List Method) :
    Prop where
  name_eq : c.name = name
  parent_eq : c.parent = parent
  /-- Each method of the list is found by its name. -/
  listed : ∀ m ∈ methods, c.method? m.name = some m
  /-- A name that the list does not have is one for the parent. -/
  inherited : ∀ other, other ∉ methods.map (·.name) →
    c.method? other = parent.bind (·.method? other)

theorem holds_of_nodup (name : String) (parent : Option Class)
    (h : (methods.map (·.name)).Nodup) : (Class.mk name parent methods).Holds name parent methods where
  name_eq := rfl
  parent_eq := rfl
  listed m hm := by
    rw [method?_eq, own?, Grammar.find?_of_nodup_names h hm]
    rfl
  inherited other hother := by
    have hnone : methods.find? (·.name == other) = none := by
      refine List.find?_eq_none.mpr fun m hm hname => hother ?_
      exact List.mem_map.mpr ⟨m, hm, eq_of_beq hname⟩
    rw [method?_eq, own?, hnone]
    rfl

/-- A class is built where the names of its methods are distinct, and then it finds each of them and asks
its parent for all other names. Otherwise the earliest method that repeats a name is to blame. There is
one then. -/
theorem build_class (name : String) (parent : Option Class) (methods : List Method) :
    ((∃ c, build name parent methods = .ok c) ↔ (methods.map (·.name)).Nodup)
      ∧ (∀ c, build name parent methods = .ok c → c.Holds name parent methods)
      ∧ (∀ m, Method.RepeatsFirst methods m →
        build name parent methods = .error (.duplicateMethod name m.name))
      ∧ (¬(methods.map (·.name)).Nodup → ∃ m, Method.RepeatsFirst methods m)
      ∧ (build name parent methods).map own? = Method.enterAll name (fun _ => none) methods := by
  refine ⟨?_, ?_, ?_, ?_, build_eq_enterAll name parent methods⟩
  · constructor
    · rintro ⟨c, hc⟩
      exact (Grammar.build_eq_ok_iff.mp hc).1
    · intro hnodup
      exact ⟨_, Grammar.build_eq_ok_iff.mpr ⟨hnodup, rfl⟩⟩
  · intro c hc
    rcases Grammar.build_eq_ok_iff.mp hc with ⟨hnodup, rfl⟩
    exact holds_of_nodup name parent hnodup
  · intro m hm
    rw [build, Method.firstRepeat?_eq_some_iff.mpr hm]
  · intro hrepeated
    cases hrepeat : Method.firstRepeat? [] methods with
    | some m => exact ⟨m, Method.firstRepeat?_eq_some_iff.mp hrepeat⟩
    | none => exact absurd ((Grammar.firstRepeat?_eq_none_iff [] methods).mp hrepeat).1 hrepeated

/-- Of two methods that repeat names the earlier one is to blame, and a class finds what its parent has. -/
theorem build_class_of_repeats :
    let f : Method := ⟨"f", [], .block []⟩
    let g : Method := ⟨"g", ["self"], .block []⟩
    build "A" none [f, g, g, f] = .error (.duplicateMethod "A" "g")
      ∧ ∃ c d, build "A" none [f, g] = .ok c ∧ build "B" (some c) [f] = .ok d
        ∧ d.method? "g" = some g ∧ d.method? "h" = none := by
  intro f g
  have hblame : Method.RepeatsFirst [f, g, g, f] g := ⟨[f, g], [f], rfl, by decide, by decide⟩
  rcases (build_class "A" none [f, g]).1.mpr (by decide) with ⟨c, hc⟩
  rcases (build_class "B" (some c) [f]).1.mpr (by decide) with ⟨d, hd⟩
  have hparent := (build_class "A" none [f, g]).2.1 c hc
  have hchild := (build_class "B" (some c) [f]).2.1 d hd
  refine ⟨(build_class "A" none [f, g, g, f]).2.2.1 g hblame, c, d, hc, hd, ?_, ?_⟩
  · rw [hchild.inherited "g" (by decide)]
    exact hparent.listed g (List.mem_cons_of_mem f List.mem_cons_self)
  · rw [hchild.inherited "h" (by decide)]
    exact hparent.inherited "h" (by decide)

end Class
end Offside
