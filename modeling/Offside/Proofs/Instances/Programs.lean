import Offside.Proofs.Classes.Order
import Offside.Proofs.Instances.Keeping

/-!
# Programs — the instances of a program that was read

Programs that are read from a text hold no handles of instances and construct their own classes only.
This file shows so and draws the conclusion for their runs:

- `Program.backed_of_parse` : what the statements of a program hand on by themselves
- `Program.closed_of_parse` : the classes of the program construct each other only
- `Program.keeps_of_parse`  : a run creates instances of the program's classes, and its events lead from
  the store at its start to the one at its end

Of the order in which the classes of a program are complete (`Grounded`) only this is used, that a class
refers to classes of the program.
-/

namespace Offside

/-! ## Parts of a node -/

theorem mentions_subset_mentionsAll {y : Node} {xs : List Node} (h : y ∈ xs) :
    y.mentions ⊆ Node.mentionsAll xs := by
  induction xs with
  | nil => cases h
  | cons x xs ih =>
      rw [Node.mentionsAll]
      rcases List.mem_cons.mp h with rfl | h
      · exact List.subset_append_left _ _
      · exact List.Subset.trans (ih h) (List.subset_append_right _ _)

/-- A node mentions what its children mention. -/
theorem mentions_subset_of_mem_children {x y : Node} (h : y ∈ x.children) :
    y.mentions ⊆ x.mentions := by
  cases x with
  | constant | none | «variable» | classDef => cases h
  | arithmetic op left right | logical op left right | comparison op left right =>
      rw [Node.mentions]
      rcases List.mem_cons.mp h with rfl | h
      · exact List.subset_append_left _ _
      · cases List.mem_singleton.mp h
        exact List.subset_append_right _ _
  | signed | not | assign | setField | stringify | ret =>
      cases List.mem_singleton.mp h
      rw [Node.mentions]
      exact List.Subset.refl _
  | block xs | print xs =>
      rw [Node.mentions]
      exact mentions_subset_mentionsAll h
  | call receiver method args =>
      rw [Node.mentions]
      rcases List.mem_cons.mp h with rfl | h
      · exact List.subset_append_left _ _
      · exact List.Subset.trans (mentions_subset_mentionsAll h) (List.subset_append_right _ _)
  | construct c args =>
      rw [Node.mentions]
      exact List.Subset.trans (mentions_subset_mentionsAll h) (List.subset_cons_self _ _)
  | ifElse condition thenBody elseBody =>
      rw [Node.mentions]
      rcases List.mem_cons.mp h with rfl | h
      · exact List.Subset.trans (List.subset_append_left _ _) (List.subset_append_left _ _)
      rcases List.mem_cons.mp h with rfl | h
      · exact List.Subset.trans (List.subset_append_right _ _) (List.subset_append_left _ _)
      cases elseBody with
      | none => cases h
      | some body =>
          cases List.mem_singleton.mp h
          exact List.subset_append_right _ _

namespace Node

theorem Expression.child {x y : Node} (hx : x.Expression) (h : y ∈ x.children) : y.Expression := by
  cases hx with
  | constant | none | «variable» => cases h
  | arithmetic hleft hright | logical hleft hright | comparison hleft hright =>
      rcases List.mem_cons.mp h with rfl | h
      · exact hleft
      · cases List.mem_singleton.mp h
        exact hright
  | signed hx | not hx | stringify hx =>
      cases List.mem_singleton.mp h
      exact hx
  | call hreceiver _ hargs =>
      rcases List.mem_cons.mp h with rfl | h
      · exact hreceiver
      · exact hargs y h
  | construct _ hargs => exact hargs y h

theorem Statement.child {x y : Node} (hx : x.Statement) (h : y ∈ x.children) :
    y.Statement ∨ y.Block := by
  cases hx with
  | expression hx => exact .inl (.expression (hx.child h))
  | assign _ hvalue | setField _ _ _ hvalue | ret hvalue =>
      cases List.mem_singleton.mp h
      exact .inl (.expression hvalue)
  | print hargs => exact .inl (.expression (hargs y h))
  | ifElse hcondition hthen helse =>
      rcases List.mem_cons.mp h with rfl | h
      · exact .inl (.expression hcondition)
      rcases List.mem_cons.mp h with rfl | h
      · exact .inr hthen
      · exact .inr (helse y (Option.mem_toList.mp h))
  | classDef => cases h

theorem Block.child {x y : Node} (hx : x.Block) (h : y ∈ x.children) : y.Statement := by
  cases hx with
  | block _ hstatements => exact hstatements y h

/-- A literal is no instance. -/
theorem listed_of_isLiteral {κ : Census} {value : Value} (h : value.isLiteral = true) :
    value.Listed κ := by
  cases value with
  | inst c address => cases h
  | _ => trivial

/-- A node that was read hands on literals, and constructs the classes that it mentions. -/
theorem backed_of_mentions {κ : Census} {K : Class → Prop} {x : Node} (hx : x.Statement ∨ x.Block)
    (hK : ∀ mention ∈ x.mentions, K mention.subject) : x.All (Node.Backed κ K) := by
  let S (x : Node) := (x.Statement ∨ x.Block) ∧ ∀ mention ∈ x.mentions, K mention.subject
  refine All.of_handedDown (S := S) (fun y hy => ⟨?_, fun z hz => ⟨?_, fun mention hm => ?_⟩⟩) ⟨hx, hK⟩
  · cases y with
    | constant value =>
        rcases hy.1 with hstatement | hblock
        · cases hstatement with
          | expression hx =>
              cases hx with
              | constant hvalue => exact listed_of_isLiteral hvalue
        · cases hblock
    | construct c args =>
        refine hy.2 (.constructs c) ?_
        rw [Node.mentions]
        exact List.mem_cons_self
    | _ => trivial
  · rcases hy.1 with hstatement | hblock
    · exact hstatement.child hz
    · exact .inl (hblock.child hz)
  · exact hy.2 mention (mentions_subset_of_mem_children hz hm)

end Node

/-! ## The classes of a program -/

namespace Program

variable {source : String} {p : Program}

/-- The classes of a program that was read: the latest first they stand in a row of complete classes, and
each is well-formed. -/
theorem orderly_classes_of_parse (h : Program.parse source = .ok p) :
    Orderly [] p.mentions p.classes.reverse ∧ ∀ c ∈ p.classes, c.WellFormed := by
  rcases Grammar.exists_derivation_of_parse h with ⟨tokens, htokens, d, hd⟩
  rcases Grammar.Derivation.program?_eq_some_iff.mp hd with ⟨classes, hread⟩
  have hadmissible := (layout_of_tokenize htokens).admissible
  rw [← d.kinds_eq] at hadmissible
  have hfront := hadmissible.of_part (List.prefix_append d.statements.kinds _).isInfix
  have hfits := (d.statements.fits hfront (fun c hc => absurd hc List.not_mem_nil) hread).2
  rcases d.statements.tracks hread with ⟨mentions, hmentions, horder, -⟩
  cases (Grammar.Each.eq_mentionsAll hmentions : mentions = p.mentions)
  -- The classes that are complete in the end are those of the program.
  have hclasses : classes = p.classes.reverse := by
    rw [horder.after_eq, List.append_nil]
    rfl
  subst hclasses
  exact ⟨horder, fun c hc => hfits c (List.mem_reverse.mpr hc)⟩

theorem subject_mem_classes (h : Program.parse source = .ok p) {mention : Mention}
    (hmention : mention ∈ p.mentions) : mention.subject ∈ p.classes :=
  List.mem_reverse.mp ((orderly_classes_of_parse h).1.subject_mem hmention)

/-- A method that instances of a class of the program have is defined in a class of the program. -/
theorem exists_definition (h : Program.parse source = .ok p) {c : Class} (hc : c ∈ p.classes)
    {name : String} {m : Method} (hm : c.method? name = some m) : ∃ d ∈ p.classes, m ∈ d.methods := by
  have hrow := (orderly_classes_of_parse h).1.grounded .nil
  rw [c.method?_eq_findSome?] at hm
  rcases List.exists_of_findSome?_eq_some hm with ⟨d, hd, hown⟩
  have hlineage := (hrow.lineage_sublist (List.mem_reverse.mpr hc)).subset hd
  exact ⟨d, List.mem_reverse.mp hlineage, List.mem_of_find?_eq_some hown⟩

theorem backed_of_parse (h : Program.parse source = .ok p) {x : Node} (hx : x ∈ p.statements) :
    x.All (Node.Backed .empty (· ∈ p.classes)) := by
  refine Node.backed_of_mentions (.inl (Program.wellFormed_of_parse h x hx)) fun mention hmention => ?_
  exact subject_mem_classes h (mentions_subset_mentionsAll hx hmention)

theorem mentions_subset_inside {c : Class} {m : Method} (h : m ∈ c.methods) :
    m.body.mentions ⊆ c.inside := by
  have hself : m.mentions = m.body.mentions := by
    cases m
    rw [Method.mentions]
  have hall : ∀ {ms : List Method}, m ∈ ms → m.body.mentions ⊆ Method.mentionsAll ms := by
    intro ms hms
    induction ms with
    | nil => cases hms
    | cons first ms ih =>
        rw [Method.mentionsAll]
        rcases List.mem_cons.mp hms with rfl | hms
        · rw [hself]
          exact List.subset_append_left _ _
        · exact List.Subset.trans (ih hms) (List.subset_append_right _ _)
  cases c
  rw [Class.inside]
  exact List.Subset.trans (hall h) (List.subset_append_right _ _)

/-- No instance is known when a program starts, and its classes construct classes of the program. -/
theorem closed_of_parse (h : Program.parse source = .ok p) :
    Census.empty.Closed (· ∈ p.classes) where
  known := nofun
  bodies c name m hc hm := by
    rcases orderly_classes_of_parse h with ⟨horder, hwell⟩
    rcases exists_definition h hc hm with ⟨d, hd, hmd⟩
    have hbody : m.body.Block := by
      cases hwell d hd with
      | mk _ _ _ _ heach =>
          cases heach m hmd with
          | mk _ _ hbody => exact hbody
    refine Node.backed_of_mentions (.inr hbody) fun mention hmention => ?_
    have hrefers : d.RefersTo mention.subject := ⟨mention, mentions_subset_inside hmd hmention, rfl⟩
    have hrow := horder.grounded .nil
    exact List.mem_reverse.mp (hrow.mem_of_refersTo (List.mem_reverse.mpr hd) hrefers)

/-- A run creates instances of the program's classes. -/
theorem keeps_of_parse (h : Program.parse source = .ok p) (depth : Nat) :
    Keeps frames (· ∈ p.classes) .empty (fun κ value => Value.Listed κ value) (p.recorded depth) := by
  refine (keeps_bookkeeping (· ∈ p.classes) depth).block fun x hx κ hκ => ?_
  exact (keepsCensus (· ∈ p.classes) depth).eval ((backed_of_parse h hx).extend hκ)

end Program

end Offside
