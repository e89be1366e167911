import Offside.Proofs.Parsing.Composition

/-!
# Mentions — where a program speaks of classes

This file follows the classes of a program through its text:

- `Mention`       : a base in a header, a constructor call, or the end of a class definition
- `Node.mentions` : the mentions in a node, those inside of class definitions included, as they stand in
  the text from left to right
- `Orderly`       : a row of mentions, each of a class that is complete where it stands, and the classes
  that are complete after it

That the mentions of every program are orderly, and stand in that order among its tokens, is shown along
the grammar (`orderly_of_parse`).
-/

namespace Offside

/-! ## Mentions -/

/-- A place in a text that has to do with a class. -/
inductive Mention where
  /-- The header of a class definition names its base. -/
  | inherits (c : Class)
  /-- A call by the name of a class creates an instance of it. -/
  | constructs (c : Class)
  /-- The definition of a class ends. -/
  | completes (c : Class)

namespace Mention

def subject : Mention → Class
  | inherits c | constructs c | completes c => c

/-- The token at the place: the name that is used, or the end of the block of methods. -/
def kind : Mention → Kind
  | inherits c | constructs c => .identifier c.name
  | completes _ => .dedent

/-- The class that is complete from here on. -/
def completed? : Mention → Option Class
  | completes c => some c
  | inherits _ | constructs _ => none

end Mention

mutual

/-- The mentions of a node from left to right. -/
def Node.mentions : Node → List Mention
  | .constant _ | .none | .variable _ => []
  | .arithmetic _ left right => left.mentions ++ right.mentions
  | .signed _ x => x.mentions
  | .not x => x.mentions
  | .logical _ left right => left.mentions ++ right.mentions
  | .comparison _ left right => left.mentions ++ right.mentions
  | .assign _ x => x.mentions
  | .setField _ _ x => x.mentions
  | .block body => Node.mentionsAll body
  | .print args => Node.mentionsAll args
  | .call receiver _ args => receiver.mentions ++ Node.mentionsAll args
  | .construct c args => .constructs c :: Node.mentionsAll args
  | .stringify x => x.mentions
  | .ret x => x.mentions
  | .ifElse condition thenBody elseBody =>
      condition.mentions ++ thenBody.mentions ++ Node.mentionsOption elseBody
  | .classDef c => c.inside ++ [.completes c]

def Node.mentionsAll : List Node → List Mention
  | [] => []
  | x :: xs => x.mentions ++ Node.mentionsAll xs

def Node.mentionsOption : Option Node → List Mention
  | .none => []
  | .some x => x.mentions

/-- The mentions in the definition of a class, up to its end. -/
def Class.inside : Class → List Mention
  | ⟨_, parent, methods⟩ => parent.toList.map .inherits ++ Method.mentionsAll methods

def Method.mentions : Method → List Mention
  | ⟨_, _, body⟩ => body.mentions

def Method.mentionsAll : List Method → List Mention
  | [] => []
  | m :: ms => m.mentions ++ Method.mentionsAll ms

end

def Program.mentions (p : Program) : List Mention :=
  Node.mentionsAll p.statements

/-- The classes that a program defines anywhere, in the order in which their definitions end. -/
def Program.classes (p : Program) : List Class :=
  p.mentions.filterMap Mention.completed?

/-- A class speaks of another in its header or in the bodies of its methods. -/
def Class.RefersTo (c d : Class) : Prop :=
  ∃ mention ∈ c.inside, mention.subject = d

/-! ## Order -/

/-- Where `classes` are complete, the mentions are of complete classes, and those of `after` are complete
behind them. The latest class comes first. -/
inductive Orderly : List Class → List Mention → List Class → Prop where
  | nil {classes : List Class} : Orderly classes [] classes
  | inherits {classes after : List Class} {c : Class} {later : List Mention} (hc : c ∈ classes)
      (h : Orderly classes later after) : Orderly classes (.inherits c :: later) after
  | constructs {classes after : List Class} {c : Class} {later : List Mention} (hc : c ∈ classes)
      (h : Orderly classes later after) : Orderly classes (.constructs c :: later) after
  | completes {classes after : List Class} {c : Class} {later : List Mention}
      (hnew : ∀ d ∈ classes, d.name ≠ c.name) (hrefers : ∀ d, c.RefersTo d → d ∈ classes)
      (h : Orderly (c :: classes) later after) : Orderly classes (.completes c :: later) after

namespace Orderly

variable {classes between after : List Class} {mentions later : List Mention}

theorem append (h : Orderly classes mentions between) (h' : Orderly between later after) :
    Orderly classes (mentions ++ later) after := by
  induction h with
  | nil => exact h'
  | inherits hc _ ih => exact .inherits hc (ih h')
  | constructs hc _ ih => exact .constructs hc (ih h')
  | completes hnew hrefers _ ih => exact .completes hnew hrefers (ih h')

theorem mem_after (h : Orderly classes mentions after) {c : Class} (hc : c ∈ classes) :
    c ∈ after := by
  induction h with
  | nil => exact hc
  | inherits _ _ ih => exact ih hc
  | constructs _ _ ih => exact ih hc
  | completes _ _ _ ih => exact ih (List.mem_cons_of_mem _ hc)

/-- What has been spoken of is complete in the end. -/
theorem subject_mem (h : Orderly classes mentions after) {mention : Mention}
    (hm : mention ∈ mentions) : mention.subject ∈ after := by
  induction h with
  | nil => cases hm
  | inherits hc h ih =>
      rcases List.mem_cons.mp hm with rfl | hm
      · exact h.mem_after hc
      · exact ih hm
  | constructs hc h ih =>
      rcases List.mem_cons.mp hm with rfl | hm
      · exact h.mem_after hc
      · exact ih hm
  | completes _ _ h ih =>
      rcases List.mem_cons.mp hm with rfl | hm
      · exact h.mem_after List.mem_cons_self
      · exact ih hm

end Orderly

namespace Grammar

/-! ## Mentions of what phrases stand for -/

/-- What stands behind a node adds its mentions behind those of the node. -/
def Extends (f : Node → Node) (mentions : List Mention) : Prop :=
  ∀ x, (f x).mentions = x.mentions ++ mentions

/-- The mentions of several things one after the other. -/
inductive Each {α : Type} (M : α → List Mention → Prop) : List α → List Mention → Prop where
  | nil : Each M [] []
  | cons {x : α} {xs : List α} {mentions later : List Mention} (hx : M x mentions)
      (hxs : Each M xs later) : Each M (x :: xs) (mentions ++ later)

/-- The mentions of what a phrase of the symbol stands for. -/
def Symbol.Mentions : (s : Symbol) → s.Meaning → List Mention → Prop
  | .name | .path => fun _ mentions => mentions = []
  | .many s | .list s => Each s.Mentions
  | .option s => fun x mentions =>
      match x with
      | .none => mentions = []
      | .some x => s.Mentions x mentions
  | .after _ s => s.Mentions
  | .link _ | .relation | .call => Extends
  | .application => fun (args, calls) mentions =>
      ∃ later, mentions = Node.mentionsAll args ++ later ∧ Extends (applyAll · calls) later
  | .base => fun c mentions => mentions = [.inherits c]
  | .method => fun m mentions => mentions = m.mentions
  | .expr _ | .simple | .block | .statement | .alternative => fun x mentions => mentions = x.mentions

namespace Each

variable {α : Type} {M : α → List Mention → Prop} {mentions : List Mention}

theorem eq_nil {xs : List α} (h : Each M xs mentions)
    (hM : ∀ x mentions, M x mentions → mentions = []) : mentions = [] := by
  induction h with
  | nil => rfl
  | cons hx _ ih => rw [hM _ _ hx, ih, List.append_nil]

theorem eq_mentionsAll {xs : List Node}
    (h : Each (fun x mentions => mentions = x.mentions) xs mentions) :
    mentions = Node.mentionsAll xs := by
  induction h with
  | nil => rfl
  | cons hx _ ih => rw [hx, ih, Node.mentionsAll]

theorem eq_mentionsAll_methods {ms : List Method}
    (h : Each (fun m mentions => mentions = m.mentions) ms mentions) :
    mentions = Method.mentionsAll ms := by
  induction h with
  | nil => rfl
  | cons hm _ ih => rw [hm, ih, Method.mentionsAll]

/-- Links and calls behind a node add their mentions in their order. -/
theorem extends_applyAll {fs : List (Node → Node)} (h : Each Extends fs mentions) :
    Extends (applyAll · fs) mentions := by
  induction h with
  | nil => exact fun x => (List.append_nil _).symm
  | @cons f fs mentions later hf _ ih =>
      intro x
      calc (applyAll (f x) fs).mentions = (f x).mentions ++ later := ih (f x)
        _ = (x.mentions ++ mentions) ++ later := by rw [hf x]
        _ = x.mentions ++ (mentions ++ later) := List.append_assoc _ _ _

end Each

theorem extends_link {l : Level} (j : Joint l) (right : Node) :
    Extends (j.node · right) right.mentions := by
  cases j <;> exact fun _ => rfl

theorem mentions_assignment (p : String × List String) (value : Node) :
    (assignment p value).mentions = value.mentions := by
  rw [assignment]
  split
  · rfl
  · rfl

theorem mentions_literal (v : Literal) : v.node.mentions = [] := by
  cases v <;> rfl

/-! ## Readings that are in order -/

/-- What is read from tokens of the kinds `ks` has orderly mentions, which stand among the tokens. -/
def Tracks {α : Type} (ks : List Kind) (M : α → List Mention → Prop) (r : Reading α) : Prop :=
  ∀ ⦃classes after : List Class⦄ ⦃a : α⦄, r classes = some (a, after) →
    ∃ mentions, M a mentions ∧ Orderly classes mentions after
      ∧ (mentions.map (·.kind)).Sublist ks

namespace Tracks

variable {α β : Type} {ks later : List Kind} {M : α → List Mention → Prop}
  {N : β → List Mention → Prop}

theorem pure {a : α} (h : M a []) : Tracks [] M (pure a : Reading α) := by
  intro classes after b hb
  rcases Reading.eq_of_pure_eq_some hb with ⟨rfl, rfl⟩
  exact ⟨[], h, .nil, .refl []⟩

theorem bind {r : Reading α} {f : α → Reading β} (hr : Tracks ks M r)
    (hf : ∀ a mentions, M a mentions → Tracks later (fun b more => N b (mentions ++ more)) (f a)) :
    Tracks (ks ++ later) N (r >>= f) := by
  intro classes after b hb
  rcases Reading.bind_eq_some hb with ⟨a, between, ha, hb⟩
  rcases hr ha with ⟨mentions, hM, horder, hkinds⟩
  rcases hf a mentions hM hb with ⟨more, hN, horder', hkinds'⟩
  refine ⟨mentions ++ more, hN, horder.append horder', ?_⟩
  rw [List.map_append]
  exact hkinds.append hkinds'

theorem mono {ks' : List Kind} {r : Reading α} (h : Tracks ks M r) (hks : ks.Sublist ks') :
    Tracks ks' M r := by
  intro classes after a ha
  rcases h ha with ⟨mentions, hM, horder, hkinds⟩
  exact ⟨mentions, hM, horder, hkinds.trans hks⟩

theorem cons {k : Kind} {r : Reading α} (h : Tracks ks M r) : Tracks (k :: ks) M r :=
  h.mono (List.sublist_cons_self k ks)

/-- What is done with the result at the end. -/
theorem map {r : Reading α} {f : α → β} (h : Tracks ks M r)
    (hf : ∀ a mentions, M a mentions → N (f a) mentions) :
    Tracks ks N (do let a ← r; return f a) := by
  refine (h.bind fun a mentions ha => pure ?_).mono (by simp)
  rw [List.append_nil]
  exact hf a mentions ha

end Tracks

/-! ## Phrases -/

/-- The name that is called by itself is the first token of its path. -/
theorem identifier_sublist_of_path {p : Phrase .path} {classes after : List Class}
    {called : String × List String} (h : p.meaning classes = some (called, after))
    (hbare : object called = []) : [Kind.identifier (lastName called)].Sublist p.kinds := by
  cases p with
  | path first rest =>
      cases first with
      | name n =>
          rw [Phrase.meaning, Phrase.meaning] at h
          rcases Reading.bind_eq_some h with ⟨first, between, hfirst, hmore⟩
          rcases Reading.bind_eq_some hmore with ⟨names, between', -, hpair⟩
          rcases Reading.eq_of_pure_eq_some hfirst with ⟨rfl, rfl⟩
          rcases Reading.eq_of_pure_eq_some hpair with ⟨rfl, rfl⟩
          cases names with
          | nil => simp [lastName]
          | cons next names => simp [object] at hbare

theorem Tracks.of_present {t : Symbol} {x : Phrase t}
    (h : Tracks (Phrase.present x).kinds (Symbol.option t).Mentions (Phrase.present x).meaning) :
    Tracks x.kinds t.Mentions x.meaning := by
  intro classes after a ha
  have hsome : (Phrase.present x).meaning classes = some (some a, after) := by
    rw [Phrase.meaning, Reading.bind_of_some ha]
    rfl
  exact h hsome

/-- The class of a constructor call is complete, and its name stands in front of the arguments. -/
theorem tracks_callee {p : Phrase .path} {applied : Phrase .application}
    (happlied : Tracks applied.kinds Symbol.application.Mentions applied.meaning)
    {classes before between after : List Class} {called : String × List String} {args : List Node}
    {calls : List (Node → Node)} {x : Node} (hp : p.meaning classes = some (called, before))
    (hargs : applied.meaning before = some ((args, calls), between))
    (hx : Reading.callee (object called) (lastName called) args between = some (x, after)) :
    ∃ mentions, mentions = (applyAll x calls).mentions ∧ Orderly classes mentions after
      ∧ (mentions.map (·.kind)).Sublist (p.kinds ++ applied.kinds) := by
  rcases happlied hargs with ⟨mentions, ⟨later, rfl, hlater⟩, horder, hkinds⟩
  -- A call defines no class.
  have hbefore : before = classes := p.keeps rfl hp
  have hbetween : between = before := applied.keeps rfl hargs
  have hafter : after = between := Reading.Keeps.callee _ _ _ hx
  subst hbefore hbetween hafter
  have hskip := hkinds.trans (List.sublist_append_right p.kinds applied.kinds)
  have hcalls : (applyAll x calls).mentions = x.mentions ++ later := hlater x
  rw [hcalls]
  unfold Reading.callee at hx
  split at hx
  next first rest hobject =>
    cases hx
    exact ⟨_, rfl, horder, hskip⟩
  next c hobject hclass =>
    cases hx
    have hname : c.name = lastName called := by simpa using List.find?_some hclass
    refine ⟨_, rfl, .constructs (List.mem_of_find?_eq_some hclass) horder, ?_⟩
    have hident := identifier_sublist_of_path hp hobject
    rw [← hname] at hident
    exact hident.append hkinds
  next hobject hclass =>
    split at hx
    next y =>
      split at hx
      next hname =>
        cases hx
        refine ⟨_, rfl, ?_, ?_⟩
        · simpa [Node.mentions, Node.mentionsAll] using horder
        · simpa [Node.mentions, Node.mentionsAll] using hskip
      next => cases hx
    next => cases hx

theorem tracks_classDefinition {n : Phrase .name} {parent : Phrase (.option .base)}
    {methods : Phrase (.many .method)}
    (hparent : Tracks parent.kinds (Symbol.option .base).Mentions parent.meaning)
    (hmethods : Tracks methods.kinds (Symbol.many .method).Mentions methods.meaning) :
    Tracks (Phrase.classDefinition n parent methods).kinds Symbol.statement.Mentions
      (Phrase.classDefinition n parent methods).meaning := by
  intro classes after x h
  rw [Phrase.meaning] at h
  rcases Reading.bind_eq_some h with ⟨name, between, hn, hrest⟩
  rcases Reading.bind_eq_some hrest with ⟨base, between₁, hbase, hrest⟩
  rcases Reading.bind_eq_some hrest with ⟨ms, between₂, hms, hdeclare⟩
  have hkeep : between = classes := n.keeps rfl hn
  subst hkeep
  rcases hparent hbase with ⟨inherited, hinherited, horder₁, hkinds₁⟩
  rcases hmethods hms with ⟨inner, hinner, horder₂, hkinds₂⟩
  rcases Reading.declare_eq_some_iff.mp hdeclare with ⟨hnew, -, rfl, rfl⟩
  have horder := horder₁.append horder₂
  have hinside : inherited ++ inner = (Class.mk name base ms).inside := by
    have hinner : inner = Method.mentionsAll ms := Each.eq_mentionsAll_methods hinner
    rw [Class.inside, hinner]
    cases base with
    | none => rw [show inherited = [] from hinherited]; rfl
    | some c => rw [show inherited = [.inherits c] from hinherited]; rfl
  refine ⟨inherited ++ inner ++ [.completes ⟨name, base, ms⟩], ?_, ?_, ?_⟩
  · show _ = (Node.classDef ⟨name, base, ms⟩).mentions
    rw [hinside, Node.mentions]
  · -- Whatever the definition speaks of is complete where it ends.
    refine horder.append (.completes ?_ ?_ .nil)
    · simpa using hnew
    · rintro d ⟨mention, hmention, rfl⟩
      rw [← hinside] at hmention
      exact horder.subject_mem hmention
  · rw [List.map_append, List.map_append]
    have hbody := (hkinds₁.append (hkinds₂.cons .indent |>.cons .newline |>.cons (.punct .colon)))
    have hall := (hbody.append (.refl [Kind.dedent]))
    refine hall.trans ?_
    simp

/-- What the grammar reads mentions complete classes only, in the order of its tokens. -/
theorem Phrase.tracks {s : Symbol} (d : Phrase s) : Tracks d.kinds s.Mentions d.meaning := by
  induction d with
  | name n =>
      have hnone : Symbol.name.Mentions n [] := rfl
      exact (Tracks.pure hnone).mono (List.nil_sublist _)
  | path first rest ihFirst ihRest =>
      refine ihFirst.bind fun _ mentions hfirst => ihRest.map fun _ more hrest => ?_
      have hnil : more = [] := hrest.eq_nil fun _ _ h => h
      rw [show mentions = [] from hfirst, hnil]
      rfl
  | done => exact .pure .nil
  | more x xs ihX ihXs => exact ihX.bind fun _ _ hx => ihXs.map fun _ _ hxs => .cons hx hxs
  | absent => exact .pure rfl
  | present x ihX => exact ihX.map fun _ _ hx => hx
  | after p x ihX => exact ihX.cons
  | noItems => exact (Tracks.pure .nil).mono (by simp)
  | items first rest ihFirst ihRest =>
      exact (ihFirst.bind fun _ _ hx => ihRest.map fun _ _ hxs => Each.cons hx hxs).mono (by simp)
  | chain first rest ihFirst ihRest =>
      refine ihFirst.bind fun x mentions hx => ihRest.map fun links more hlinks => ?_
      rw [show mentions = x.mentions from hx]
      exact (hlinks.extends_applyAll x).symm
  | link j right ihRight =>
      refine Tracks.cons (ihRight.map fun x mentions hx => ?_)
      rw [show mentions = x.mentions from hx]
      exact extends_link j x
  | not x ihX => exact Tracks.cons (ihX.map fun _ _ hx => hx)
  | compared x ihX => exact ihX
  | comparison left right ihLeft ihRight =>
      refine ihLeft.bind fun x mentions hx => ihRight.map fun f more hf => ?_
      rw [show mentions = x.mentions from hx]
      cases f with
      | none => rw [show more = [] from hf]; exact List.append_nil _
      | some f => exact (hf x).symm
  | relation op right ihRight =>
      refine Tracks.cons (ihRight.map fun x mentions hx => ?_)
      rw [show mentions = x.mentions from hx]
      exact fun _ => rfl
  | signed sign x ihX => exact Tracks.cons (ihX.map fun _ _ hx => hx)
  | unsigned x ihX => exact ihX
  | literal v => exact (Tracks.pure (mentions_literal v).symm).mono (by simp)
  | reference p applied ihP ihApplied =>
      intro classes after x h
      rw [meaning] at h
      rcases Reading.bind_eq_some h with ⟨called, before, hp, h⟩
      rcases Reading.bind_eq_some h with ⟨call, between, hcall, h⟩
      cases applied with
      | absent =>
          rcases Reading.eq_of_pure_eq_some hcall with ⟨rfl, rfl⟩
          rcases Reading.eq_of_pure_eq_some h with ⟨rfl, rfl⟩
          rcases ihP hp with ⟨mentions, rfl, horder, hkinds⟩
          exact ⟨[], rfl, horder, List.nil_sublist _⟩
      | present applied =>
          rcases Reading.bind_eq_some hcall with ⟨⟨args, calls⟩, between, hargs, hsome⟩
          rcases Reading.eq_of_pure_eq_some hsome with ⟨rfl, rfl⟩
          rcases Reading.bind_eq_some h with ⟨y, between, hy, h⟩
          rcases Reading.eq_of_pure_eq_some h with ⟨rfl, rfl⟩
          exact tracks_callee ihApplied.of_present hp hargs hy
  | group x calls ihX ihCalls =>
      refine (ihX.bind fun x mentions hx => ihCalls.map fun calls more hcalls => ?_).mono (by simp)
      rw [show mentions = x.mentions from hx]
      exact (hcalls.extends_applyAll x).symm
  | application args calls ihArgs ihCalls =>
      refine ihArgs.bind fun args mentions hargs => ihCalls.map fun calls more hcalls => ?_
      exact ⟨more, by rw [hargs.eq_mentionsAll], hcalls.extends_applyAll⟩
  | call m args ihM ihArgs =>
      refine (ihM.bind fun _ mentions hm => ihArgs.map fun args more hargs => ?_).mono (by simp)
      rw [show mentions = [] from hm, hargs.eq_mentionsAll]
      exact fun _ => rfl
  | ret x ihX => exact Tracks.cons (ihX.map fun _ _ hx => hx)
  | print args ihArgs =>
      refine Tracks.cons (ihArgs.map fun args mentions hargs => ?_)
      cases args with
      | none => exact hargs
      | some args => exact hargs.eq_mentionsAll
  | assign target value ihTarget ihValue =>
      refine (ihTarget.bind fun p mentions hp => ihValue.map fun x more hx => ?_).mono (by simp)
      rw [show mentions = [] from hp, show more = x.mentions from hx]
      exact (mentions_assignment p x).symm
  | apply callee applied ihCallee ihApplied =>
      intro classes after x h
      rw [meaning] at h
      rcases Reading.bind_eq_some h with ⟨called, before, hcallee, h⟩
      rcases Reading.bind_eq_some h with ⟨⟨args, calls⟩, between, hargs, h⟩
      rcases Reading.bind_eq_some h with ⟨y, between, hy, h⟩
      rcases Reading.eq_of_pure_eq_some h with ⟨rfl, rfl⟩
      exact tracks_callee ihApplied hcallee hargs hy
  | block body ihBody =>
      refine Tracks.mono (ihBody.map fun body mentions hbody => ?_)
        (((List.sublist_append_left _ _).cons _).cons _)
      exact hbody.eq_mentionsAll
  | simple x ihX => exact ihX.mono (List.sublist_append_left _ _)
  | conditional condition thenBody elseBody ihCondition ihThen ihElse =>
      refine (ihCondition.bind fun c mentions hc => ihThen.bind fun t more ht =>
        ihElse.map fun e rest he => ?_).mono (by simp)
      rw [show mentions = c.mentions from hc, show more = t.mentions from ht]
      cases e with
      | none => rw [show rest = [] from he]; simp [Symbol.Mentions, Node.mentions, Node.mentionsOption]
      | some e =>
          rw [show rest = e.mentions from he]
          simp [Symbol.Mentions, Node.mentions, Node.mentionsOption]
  | alternative body ihBody => exact ihBody.mono (by simp)
  | classDefinition n parent methods ihN ihParent ihMethods =>
      exact tracks_classDefinition ihParent ihMethods
  | base n ihN =>
      intro classes after c h
      rw [meaning] at h
      rcases Reading.bind_eq_some h with ⟨name, between, hn, hdeclared⟩
      cases n with
      | name n =>
          rcases Reading.eq_of_pure_eq_some hn with ⟨rfl, rfl⟩
          rcases Option.map_eq_some_iff.mp hdeclared with ⟨d, hd, hpair⟩
          rcases Prod.mk.inj hpair with ⟨rfl, rfl⟩
          have hname : d.name = n := by simpa using List.find?_some hd
          refine ⟨[.inherits d], rfl, .inherits (List.mem_of_find?_eq_some hd) .nil, ?_⟩
          simp [Mention.kind, hname]
  | method n params body ihN ihParams ihBody =>
      refine (ihN.bind fun _ mentions hn => ihParams.bind fun _ more hparams =>
        ihBody.map fun x rest hx => ?_).mono (by simp)
      have hnil : more = [] := hparams.eq_nil fun _ _ h => h
      rw [show mentions = [] from hn, hnil, show rest = x.mentions from hx]
      rfl

/-- The mentions of a program are of complete classes, and stand among its tokens in their order. -/
theorem orderly_of_parse {source : String} {p : Program} (h : Program.parse source = .ok p) :
    ∃ tokens after, tokenize source = .ok tokens ∧ Orderly [] p.mentions after
      ∧ (p.mentions.map (·.kind)).Sublist (tokens.map (·.kind)) := by
  rcases exists_derivation_of_parse h with ⟨tokens, htokens, d, hd⟩
  rcases Derivation.program?_eq_some_iff.mp hd with ⟨after, hread⟩
  rcases d.statements.tracks hread with ⟨mentions, hmentions, horder, hkinds⟩
  have hprogram : mentions = p.mentions := Each.eq_mentionsAll hmentions
  subst hprogram
  refine ⟨tokens, after, htokens, horder, ?_⟩
  rw [← d.kinds_eq]
  exact hkinds.trans (List.sublist_append_left _ _)

end Grammar
end Offside
