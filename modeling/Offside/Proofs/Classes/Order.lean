import Offside.Proofs.Classes.Mentions
import Mathlib.Data.List.Nodup
import Mathlib.Logic.Relation

/-!
# Order — the classes of a program

This file shows that the definitions of a program put its classes in an order:

- `Grounded`     : classes, the latest first, that have distinct names and refer to earlier ones only
- `Class.lineage` : the search of a method goes through a part of that row, so that it ends
- `Program.Refers` : the relation of names that is acyclic by it
- `Program.ClassOrder` : all of this for a program that is read from a text

The relation is one of names.  As values, classes are finite trees and cannot contain each other anyway.
-/

namespace Offside

/-! ## Grounded rows -/

/-- The classes, the latest first, have distinct names and refer to earlier ones only. -/
inductive Grounded : List Class → Prop where
  | nil : Grounded []
  | cons {c : Class} {classes : List Class} (hnew : ∀ d ∈ classes, d.name ≠ c.name)
      (hrefers : ∀ d, c.RefersTo d → d ∈ classes) (h : Grounded classes) : Grounded (c :: classes)

theorem Orderly.grounded {classes after : List Class} {mentions : List Mention}
    (h : Orderly classes mentions after) (hclasses : Grounded classes) : Grounded after := by
  induction h with
  | nil => exact hclasses
  | inherits _ _ ih => exact ih hclasses
  | constructs _ _ ih => exact ih hclasses
  | completes hnew hrefers _ ih => exact ih (.cons hnew hrefers hclasses)

theorem Orderly.after_eq {classes after : List Class} {mentions : List Mention}
    (h : Orderly classes mentions after) :
    after = (mentions.filterMap Mention.completed?).reverse ++ classes := by
  induction h with
  | nil => rfl
  | inherits _ _ ih => simpa [List.filterMap_cons, Mention.completed?] using ih
  | constructs _ _ ih => simpa [List.filterMap_cons, Mention.completed?] using ih
  | completes _ _ _ ih => simpa [List.filterMap_cons, Mention.completed?] using ih

/-- What a mention speaks of without defining it is complete in front of it. -/
theorem Orderly.mem_completed {classes after : List Class} {before later : List Mention}
    {mention : Mention} (h : Orderly classes (before ++ mention :: later) after)
    (huse : mention.completed? = none) :
    mention.subject ∈ classes ∨ .completes mention.subject ∈ before := by
  induction before generalizing classes with
  | nil =>
      cases h with
      | inherits hc _ => exact .inl hc
      | constructs hc _ => exact .inl hc
      | completes => cases huse
  | cons first before ih =>
      cases h with
      | inherits _ h => exact (ih h).imp_right (List.mem_cons_of_mem _)
      | constructs _ h => exact (ih h).imp_right (List.mem_cons_of_mem _)
      | completes _ _ h =>
          rcases ih h with hc | hbefore
          · rcases List.mem_cons.mp hc with heq | hc
            · exact .inr (heq ▸ List.mem_cons_self)
            · exact .inl hc
          · exact .inr (List.mem_cons_of_mem _ hbefore)

namespace Grounded

variable {classes : List Class}

theorem nodup_names (h : Grounded classes) : (classes.map (·.name)).Nodup := by
  induction h with
  | nil => exact List.nodup_nil
  | cons hnew _ _ ih =>
      refine List.nodup_cons.mpr ⟨fun hmem => ?_, ih⟩
      rcases List.mem_map.mp hmem with ⟨d, hd, hname⟩
      exact hnew d hd hname

theorem eq_of_name (h : Grounded classes) {c d : Class} (hc : c ∈ classes) (hd : d ∈ classes)
    (hname : c.name = d.name) : c = d :=
  List.inj_on_of_nodup_map h.nodup_names hc hd hname

/-- A class is found by its name. -/
theorem find?_eq_some (h : Grounded classes) {c : Class} (hc : c ∈ classes) :
    classes.find? (·.name = c.name) = some c :=
  Grammar.find?_of_nodup_names h.nodup_names hc

theorem mem_of_refersTo (h : Grounded classes) {c d : Class} (hc : c ∈ classes)
    (hd : c.RefersTo d) : d ∈ classes := by
  induction h with
  | nil => cases hc
  | cons _ hrefers _ ih =>
      rcases List.mem_cons.mp hc with rfl | hc
      · exact List.mem_cons_of_mem _ (hrefers d hd)
      · exact List.mem_cons_of_mem _ (ih hc)

/-- A class refers to classes that stand behind it in the row. -/
theorem idxOf_lt (h : Grounded classes) {c d : Class} (hc : c ∈ classes) (hd : c.RefersTo d) :
    (classes.map (·.name)).idxOf c.name < (classes.map (·.name)).idxOf d.name := by
  induction h with
  | nil => cases hc
  | @cons head classes hnew hrefers h ih =>
      -- The classes behind the first one have other names than it.
      have hlater : ∀ {e : Class}, e ∈ classes → ((head :: classes).map (·.name)).idxOf e.name
          = (classes.map (·.name)).idxOf e.name + 1 := fun he =>
        List.idxOf_cons_ne _ (hnew _ he).symm
      rcases List.mem_cons.mp hc with rfl | hc
      · rw [hlater (hrefers d hd), List.map_cons, List.idxOf_cons_self]
        exact Nat.succ_pos _
      · rw [hlater hc, hlater (h.mem_of_refersTo hc hd)]
        exact Nat.succ_lt_succ (ih hc)

/-- A class and what it inherits from stand in the order of the row. -/
theorem lineage_sublist (h : Grounded classes) {c : Class} (hc : c ∈ classes) :
    c.lineage.Sublist classes := by
  induction h generalizing c with
  | nil => cases hc
  | cons _ hrefers _ ih =>
      rcases List.mem_cons.mp hc with rfl | hc
      · rcases c with ⟨name, parent, methods⟩
        cases parent with
        | none =>
            rw [Class.lineage]
            exact (List.nil_sublist _).cons_cons _
        | some parent =>
            have hparent : (Class.mk name (some parent) methods).RefersTo parent :=
              ⟨.inherits parent, List.mem_cons_self, rfl⟩
            rw [Class.lineage]
            exact (ih (hrefers parent hparent)).cons_cons _
      · exact (ih hc).cons _

end Grounded

/-- The search of a method asks one class of the lineage after the other. -/
theorem Class.method?_eq_findSome? : (c : Class) → (name : String) →
    c.method? name = c.lineage.findSome? (·.own? name)
  | ⟨_, none, _⟩, _ => by simp [method?, lineage, own?]
  | ⟨_, some parent, _⟩, name => by
      have ih := method?_eq_findSome? parent name
      rw [method?, lineage, List.findSome?_cons, ← ih, own?]
      cases List.find? (fun m : Method => m.name == name) _ with
      | none => rfl
      | some m => rfl

/-! ## Programs -/

namespace Program

/-- A class of the one name refers to a class of the other. -/
def Refers (p : Program) (name other : String) : Prop :=
  ∃ c ∈ p.classes, ∃ d, c.RefersTo d ∧ c.name = name ∧ d.name = other

/-- How the classes of a program stand in its text, whose tokens are of the kinds `ks`. -/
structure ClassOrder (p : Program) (ks : List Kind) : Prop where
  /-- The order of mentions is the order of their tokens. -/
  mentions : (p.mentions.map (·.kind)).Sublist ks
  distinct : (p.classes.map (·.name)).Nodup
  /-- An instance is created of the only class of the name, whose definition has ended before the call. -/
  constructed : ∀ (before later : List Mention) (c : Class),
    p.mentions = before ++ .constructs c :: later →
      .completes c ∈ before ∧ ∀ d ∈ p.classes, d.name = c.name → d = c
  /-- The definition of a parent has ended before the header that names it. -/
  inherited : ∀ (before later : List Mention) (c : Class),
    p.mentions = before ++ .inherits c :: later →
      .completes c ∈ before ∧ ∀ d ∈ p.classes, d.name = c.name → d = c
  /-- No definition has a call in it that creates an instance of its own class. -/
  outside : ∀ c ∈ p.classes, ∀ d, .constructs d ∈ c.inside → d.name ≠ c.name
  acyclic : ∀ name, ¬ Relation.TransGen p.Refers name name
  /-- The classes that the search of a method asks are among those of the program, the later ones first. -/
  lineage : ∀ c ∈ p.classes, c.lineage.Sublist p.classes.reverse
  method : ∀ c ∈ p.classes, ∀ name, c.method? name = c.lineage.findSome? (·.own? name)

theorem refers_lt {p : Program} (h : Grounded p.classes.reverse) {name other : String}
    (hrefers : p.Refers name other) :
    (p.classes.reverse.map (·.name)).idxOf name < (p.classes.reverse.map (·.name)).idxOf other := by
  rcases hrefers with ⟨c, hc, d, hd, rfl, rfl⟩
  exact h.idxOf_lt (List.mem_reverse.mpr hc) hd

theorem refers_lt_of_transGen {p : Program} (h : Grounded p.classes.reverse) {name other : String}
    (hpath : Relation.TransGen p.Refers name other) :
    (p.classes.reverse.map (·.name)).idxOf name < (p.classes.reverse.map (·.name)).idxOf other := by
  induction hpath with
  | single hrefers => exact refers_lt h hrefers
  | tail _ hrefers ih => exact Nat.lt_trans ih (refers_lt h hrefers)

theorem mem_classes_of_completes {p : Program} {c : Class} (h : .completes c ∈ p.mentions) :
    c ∈ p.classes :=
  List.mem_filterMap.mpr ⟨_, h, rfl⟩

theorem classOrder_of_orderly {p : Program} {after : List Class} {ks : List Kind}
    (h : Orderly [] p.mentions after) (hkinds : (p.mentions.map (·.kind)).Sublist ks) :
    p.ClassOrder ks := by
  have hafter : after = p.classes.reverse := by
    rw [h.after_eq, List.append_nil]
    rfl
  have hgrounded : Grounded p.classes.reverse := hafter ▸ h.grounded .nil
  have hsame : ∀ {c d : Class}, c ∈ p.classes → d ∈ p.classes → c.name = d.name → c = d :=
    fun hc hd => hgrounded.eq_of_name (List.mem_reverse.mpr hc) (List.mem_reverse.mpr hd)
  have huse : ∀ {before later : List Mention} {mention : Mention},
      p.mentions = before ++ mention :: later → mention.completed? = none →
      .completes mention.subject ∈ before ∧
        ∀ d ∈ p.classes, d.name = mention.subject.name → d = mention.subject := by
    intro before later mention hp hnone
    have hbefore : .completes mention.subject ∈ before :=
      ((hp ▸ h).mem_completed hnone).resolve_left List.not_mem_nil
    have hmem : mention.subject ∈ p.classes :=
      mem_classes_of_completes (hp ▸ List.mem_append_left _ hbefore)
    exact ⟨hbefore, fun d hd hname => hsame hd hmem hname⟩
  have hacyclic : ∀ name, ¬ Relation.TransGen p.Refers name name := fun name hcycle =>
    Nat.lt_irrefl _ (refers_lt_of_transGen hgrounded hcycle)
  exact {
    mentions := hkinds
    distinct := by simpa using hgrounded.nodup_names
    constructed := fun _ _ _ hp => huse hp rfl
    inherited := fun _ _ _ hp => huse hp rfl
    outside := fun c hc d hd hname =>
      hacyclic c.name (.single ⟨c, hc, d, ⟨_, hd, rfl⟩, rfl, hname⟩)
    acyclic := hacyclic
    lineage := fun _ hc => hgrounded.lineage_sublist (List.mem_reverse.mpr hc)
    method := fun c _ => c.method?_eq_findSome?
  }

/-- The classes of a program that is read from a text stand in an order by which no class refers to
itself, directly or through others. -/
theorem parse_classOrder {source : String} {p : Program} (h : Program.parse source = .ok p) :
    ∃ tokens, tokenize source = .ok tokens ∧ p.ClassOrder (tokens.map (·.kind)) := by
  rcases Grammar.orderly_of_parse h with ⟨tokens, after, htokens, horder, hkinds⟩
  exact ⟨tokens, htokens, classOrder_of_orderly horder hkinds⟩

/-- Whether a reading gives a program that defines classes of these names. -/
def definesClasses (names : List String) : Except ParseError Program → Bool
  | .ok p => p.classes.map (·.name) == names
  | .error _ => false

theorem exists_of_definesClasses {names : List String} {reading : Except ParseError Program}
    (h : definesClasses names reading = true) :
    ∃ p, reading = .ok p ∧ p.classes.map (·.name) = names := by
  cases reading with
  | ok p => exact ⟨p, rfl, eq_of_beq h⟩
  | error e => cases h

/-- A class that is defined within a method, and one that inherits from the class around it. -/
theorem parse_nested_classes :
    ∃ source p, Program.parse source = .ok p ∧ p.classes.map (·.name) = ["B", "A", "C"] ∧
      ∃ tokens, tokenize source = .ok tokens ∧ p.ClassOrder (tokens.map (·.kind)) := by
  let source := "class A:
  def f(self):
    class B:
      def g(self):
        x = 1
    b = B()
class C(A):
  def h(self):
    a = A()
"
  have hread : definesClasses ["B", "A", "C"] (Program.parse source) = true := by
    decide +kernel
  rcases exists_of_definesClasses hread with ⟨p, hparse, hnames⟩
  exact ⟨source, p, hparse, hnames, parse_classOrder hparse⟩

end Program
end Offside
