import Offside.Proofs.Classes.Mentions
import Offside.Proofs.Layout.Nesting
import Offside.Proofs.Lexis.Spelling

/-!
# Well-formed trees — what the reader of programs builds

The types of the syntax have room for trees that no text stands for: empty paths, names with blanks in
them, statements in the place of operands.  This file says which trees are meant:

- `Node.Expression`   : a node that stands for a value, down to the classes that it constructs
- `Node.Statement`    : a node that stands in a block or on the top level
- `Node.Block`        : the body of a method or of a branch, which is not empty
- `Class.WellFormed`  : a class with its parents and with the bodies of its methods

What the grammar reads is of this form (`Phrase.fits`).  That blocks are not empty is nothing that the
grammar asks for: it depends on the layout of the tokens (`Kind.Admissible`), in which opening a block is
never followed by closing it.
-/

namespace Offside

/-! ## Names and constants -/

/-- The word can be written as a name: no keyword, and of the right characters. -/
def isName (word : String) : Bool :=
  match word.toList with
  | [] => false
  | first :: later =>
      Lexeme.startsName first && later.all Lexeme.continuesName && (Keyword.ofText? word).isNone

/-- The value can be written down in a text. There is no sign in front of an integer. -/
def Value.isLiteral : Value → Bool
  | .int n => 0 ≤ n
  | .str _ | .bool _ => true
  | .none | .cls _ | .inst .. => false

/-! ## Nodes and classes -/

mutual

inductive Node.Expression : Node → Prop where
  | constant {value : Value} (hvalue : value.isLiteral = true) : Node.Expression (.constant value)
  | none : Node.Expression .none
  | variable {path : List String} (hpath : path ≠ []) (hnames : ∀ name ∈ path, isName name = true) :
      Node.Expression (.variable path)
  | arithmetic {op : Arithmetic} {left right : Node} (hleft : Node.Expression left)
      (hright : Node.Expression right) : Node.Expression (.arithmetic op left right)
  | signed {sign : Sign} {x : Node} (hx : Node.Expression x) : Node.Expression (.signed sign x)
  | not {x : Node} (hx : Node.Expression x) : Node.Expression (.not x)
  | logical {op : Connective} {left right : Node} (hleft : Node.Expression left)
      (hright : Node.Expression right) : Node.Expression (.logical op left right)
  | comparison {op : Relation} {left right : Node} (hleft : Node.Expression left)
      (hright : Node.Expression right) : Node.Expression (.comparison op left right)
  | call {receiver : Node} {method : String} {args : List Node} (hreceiver : Node.Expression receiver)
      (hmethod : isName method = true) (hargs : ∀ x ∈ args, Node.Expression x) :
      Node.Expression (.call receiver method args)
  | construct {c : Class} {args : List Node} (hclass : Class.WellFormed c)
      (hargs : ∀ x ∈ args, Node.Expression x) : Node.Expression (.construct c args)
  | stringify {x : Node} (hx : Node.Expression x) : Node.Expression (.stringify x)

inductive Node.Statement : Node → Prop where
  | expression {x : Node} (hx : Node.Expression x) : Node.Statement x
  | assign {name : String} {value : Node} (hname : isName name = true)
      (hvalue : Node.Expression value) : Node.Statement (.assign name value)
  | setField {path : List String} {field : String} {value : Node} (hpath : path ≠ [])
      (hnames : ∀ name ∈ path, isName name = true) (hfield : isName field = true)
      (hvalue : Node.Expression value) : Node.Statement (.setField path field value)
  | print {args : List Node} (hargs : ∀ x ∈ args, Node.Expression x) : Node.Statement (.print args)
  | ret {value : Node} (hvalue : Node.Expression value) : Node.Statement (.ret value)
  | ifElse {condition thenBody : Node} {elseBody : Option Node}
      (hcondition : Node.Expression condition) (hthen : Node.Block thenBody)
      (helse : ∀ body ∈ elseBody, Node.Block body) : Node.Statement (.ifElse condition thenBody elseBody)
  | classDef {c : Class} (hclass : Class.WellFormed c) : Node.Statement (.classDef c)

inductive Node.Block : Node → Prop where
  | block {body : List Node} (hbody : body ≠ []) (hstatements : ∀ x ∈ body, Node.Statement x) :
      Node.Block (.block body)

inductive Method.WellFormed : Method → Prop where
  | mk {name : String} {params : List String} {body : Node} (hname : isName name = true)
      (hparams : ∀ param ∈ params, isName param = true) (hbody : Node.Block body) :
      Method.WellFormed ⟨name, params, body⟩

inductive Class.WellFormed : Class → Prop where
  | mk {name : String} {parent : Option Class} {methods : List Method} (hname : isName name = true)
      (hparent : ∀ c ∈ parent, Class.WellFormed c) (hmethods : methods ≠ [])
      (hdistinct : (methods.map (·.name)).Nodup) (heach : ∀ m ∈ methods, Method.WellFormed m) :
      Class.WellFormed ⟨name, parent, methods⟩

end

def Program.WellFormed (p : Program) : Prop :=
  ∀ x ∈ p.statements, x.Statement

/-! ## Tokens -/

/-- A token of the kind can be read from a line. -/
def Kind.isSpelled : Kind → Bool
  | .identifier name => isName name
  | .integer n => 0 ≤ n
  | _ => true

/-- Kinds that can be read, among which no block opens that closes at once. -/
structure Kind.Admissible (ks : List Kind) : Prop where
  spelled : ∀ k ∈ ks, k.isSpelled = true
  nonempty : ¬[Kind.indent, .dedent] <:+: ks

theorem Kind.Admissible.of_part {ks part : List Kind} (h : Kind.Admissible ks)
    (hpart : part <:+: ks) : Kind.Admissible part where
  spelled k hk := h.spelled k (hpart.subset hk)
  nonempty hempty := h.nonempty (hempty.trans hpart)

theorem isName_of_word {first : Char} {later : List Char} (hstart : Lexeme.startsName first = true)
    (hlater : ∀ c ∈ later, Lexeme.continuesName c = true)
    (hword : Keyword.ofText? (String.ofList (first :: later)) = none) :
    isName (String.ofList (first :: later)) = true := by
  rw [isName, String.toList_ofList, hword]
  simp [hstart, List.all_eq_true.mpr hlater]

theorem Spells.isSpelled {k : Kind} {lexeme : List Char} (h : Spells k lexeme) :
    k.isSpelled = true := by
  cases h with
  | @word first later hstart hlater =>
      cases hword : Keyword.ofText? (String.ofList (first :: later)) with
      | some k =>
          rw [Kind.ofWord, hword]
          rfl
      | none =>
          rw [Kind.ofWord, hword]
          exact isName_of_word hstart hlater hword
  | @integer first later hdigits hle =>
      -- The greatest integer that can be written is the greatest with a sign.
      have hbound : Lexeme.decimal (first :: later) < 2 ^ 63 := Nat.lt_succ_of_le hle
      simp only [Kind.isSpelled, decide_eq_true_eq]
      rw [Int64.le_iff_toInt_le, Int64.toInt_ofNat_of_lt hbound]
      exact Int.natCast_nonneg _
  | string => rfl
  | punct p => rfl

namespace Layout

theorem Reads.isSpelled {text : List Char} {ks : List Kind} (h : Reads text ks) :
    ∀ k ∈ ks, k.isSpelled = true := by
  induction h with
  | done => exact nofun
  | token _ hread _ ih =>
      exact List.forall_mem_cons.mpr ⟨(Lexeme.spells_of_reading hread).1.isSpelled, ih⟩

theorem isSpelled_of_mem_shift {depth level : Nat} {k : Kind} (hk : k ∈ shift depth level) :
    k.isSpelled = true := by
  rcases List.mem_append.mp hk with hk | hk
  · rw [List.eq_of_mem_replicate hk]
    rfl
  · rw [List.eq_of_mem_replicate hk]
    rfl

end Layout

theorem Layout.isSpelled {depth : Nat} {lines : List Layout.Line} {tokens : List Token}
    (h : Layout depth lines tokens) : ∀ k ∈ tokens.map (·.kind), k.isSpelled = true := by
  induction h with
  | finish hclosing hlast =>
      intro k hk
      rw [List.map_append, hclosing, List.map_singleton, hlast] at hk
      rcases List.mem_append.mp hk with hk | hk
      · rw [List.eq_of_mem_replicate hk]
        rfl
      · rw [List.mem_singleton.mp hk]
        rfl
  | line _ htokens _ _ ih =>
      intro k hk
      rw [List.map_append, htokens.kinds_eq] at hk
      rcases List.mem_append.mp hk with hk | hk
      · rcases List.mem_append.mp hk with hk | hk
        · rcases List.mem_append.mp hk with hk | hk
          · exact isSpelled_of_mem_shift hk
          · exact htokens.content_kinds.isSpelled k hk
        · rw [List.mem_singleton.mp hk]
          rfl
      · exact ih k hk

/-- In a layout no block opens that closes at once. -/
theorem Layout.admissible {lines : List Layout.Line} {tokens : List Token}
    (h : Layout 0 lines tokens) : Kind.Admissible (tokens.map (·.kind)) where
  spelled := h.isSpelled
  nonempty := by
    rintro ⟨before, after, heq⟩
    rw [List.append_assoc] at heq
    rcases List.map_eq_append_iff.mp heq.symm with ⟨before', rest, htokens, -, hrest⟩
    rcases List.map_eq_cons_iff.mp hrest with ⟨t, rest, rfl, hindent, hrest⟩
    rcases List.map_eq_cons_iff.mp hrest with ⟨t', after', rfl, hdedent, -⟩
    have hnested := h.nested fun _ hline => hline
    rw [htokens] at hnested
    rcases hnested.append with ⟨depth, hd, -⟩
    exact hd.ne_dedent_of_indent hindent hdedent

namespace Grammar

/-! ## What phrases stand for -/

/-- What goes behind an expression makes another one of it. -/
def Continues (f : Node → Node) : Prop :=
  ∀ x, x.Expression → (f x).Expression

/-- The form of what the phrases of a symbol stand for. -/
def Symbol.Fits : (s : Symbol) → s.Meaning → Prop
  | .name => fun name => isName name = true
  | .path => fun p => ∀ name ∈ p.1 :: p.2, isName name = true
  | .many s | .list s => fun xs => ∀ x ∈ xs, s.Fits x
  | .option s => fun x => ∀ y ∈ x, s.Fits y
  | .after _ s => s.Fits
  | .expr _ => Node.Expression
  | .link _ | .relation | .call => Continues
  | .application => fun (args, calls) => (∀ x ∈ args, x.Expression) ∧ ∀ f ∈ calls, Continues f
  | .simple | .statement => Node.Statement
  | .block | .alternative => Node.Block
  | .base => Class.WellFormed
  | .method => Method.WellFormed

theorem Continues.applyAll {fs : List (Node → Node)} (hfs : ∀ f ∈ fs, Continues f) :
    Continues (applyAll · fs) := by
  induction fs with
  | nil => exact fun x hx => hx
  | cons f fs ih =>
      have hall := List.forall_mem_cons.mp hfs
      exact fun x hx => ih hall.2 (f x) (hall.1 x hx)

theorem continues_link {l : Level} (j : Joint l) {right : Node} (hright : right.Expression) :
    Continues (j.node · right) := by
  intro left hleft
  cases j with
  | or | and => exact .logical hleft hright
  | _ => exact .arithmetic hleft hright

theorem expression_literal {v : Literal} (hv : v.kind.isSpelled = true) : v.node.Expression := by
  cases v with
  | integer n => exact .constant hv
  | string s => exact .constant rfl
  | truth b => exact .constant rfl
  | none => exact .none

section Paths

variable {p : String × List String}

theorem mem_of_mem_object {name : String} (h : name ∈ object p) : name ∈ p.1 :: p.2 :=
  (List.dropLast_sublist _).subset h

theorem lastName_mem (p : String × List String) : lastName p ∈ p.1 :: p.2 := by
  rcases p with ⟨first, rest⟩
  rw [lastName, List.getLastD_eq_getLast?]
  cases hlast : rest.getLast? with
  | none => exact List.mem_cons_self
  | some name => exact List.mem_cons_of_mem _ (List.mem_of_getLast? hlast)

theorem statement_assignment (hp : ∀ name ∈ p.1 :: p.2, isName name = true) {value : Node}
    (hvalue : value.Expression) : (assignment p value).Statement := by
  have hlast := hp _ (lastName_mem p)
  rw [assignment]
  split
  next => exact .assign hlast hvalue
  next hobject => exact .setField hobject (fun name h => hp name (mem_of_mem_object h)) hlast hvalue

/-- What a call by a path stands for, where the classes that are complete are well-formed. -/
theorem expression_callee (hp : ∀ name ∈ p.1 :: p.2, isName name = true) {args : List Node}
    (hargs : ∀ x ∈ args, x.Expression) {classes after : List Class} {x : Node}
    (hclasses : ∀ c ∈ classes, c.WellFormed)
    (h : Reading.callee (object p) (lastName p) args classes = some (x, after)) :
    x.Expression := by
  have hlast := hp _ (lastName_mem p)
  unfold Reading.callee at h
  split at h
  next first rest hobject =>
    cases h
    have hpath : object p ≠ [] := hobject ▸ List.cons_ne_nil first rest
    exact .call (.variable hpath fun name h => hp name (mem_of_mem_object h)) hlast hargs
  next c hobject hclass =>
    cases h
    exact .construct (hclasses c (List.mem_of_find?_eq_some hclass)) hargs
  next =>
    split at h
    next y =>
      split at h
      next =>
        cases h
        exact .stringify (hargs y List.mem_cons_self)
      next => cases h
    next => cases h

end Paths

/-! ## Readings that fit -/

/-- Where the classes that are complete are well-formed, so is what is read from admissible tokens of
the kinds `ks`, and so are the classes that are complete behind it. -/
def Yields {α : Type} (ks : List Kind) (M : α → Prop) (r : Reading α) : Prop :=
  Kind.Admissible ks → ∀ ⦃classes after : List Class⦄ ⦃a : α⦄, (∀ c ∈ classes, c.WellFormed) →
    r classes = some (a, after) → M a ∧ ∀ c ∈ after, c.WellFormed

namespace Yields

variable {α β : Type} {ks later : List Kind} {M : α → Prop} {N : β → Prop}

theorem pure (ks : List Kind) {a : α} (h : M a) : Yields ks M (pure a : Reading α) := by
  intro _ classes after b hclasses hb
  rcases Reading.eq_of_pure_eq_some hb with ⟨rfl, rfl⟩
  exact ⟨h, hclasses⟩

theorem bind {r : Reading α} {f : α → Reading β} (hr : Yields ks M r)
    (hf : ∀ a, M a → Yields later N (f a)) : Yields (ks ++ later) N (r >>= f) := by
  intro hks classes after b hclasses hb
  rcases Reading.bind_eq_some hb with ⟨a, between, ha, hb⟩
  have hfront := hks.of_part (List.prefix_append ks later).isInfix
  have hback := hks.of_part (List.suffix_append ks later).isInfix
  rcases hr hfront hclasses ha with ⟨hM, hbetween⟩
  exact hf a hM hback hbetween hb

theorem mono {ks' : List Kind} {r : Reading α} (h : Yields ks M r) (hks : ks <:+: ks') :
    Yields ks' M r :=
  fun hadmissible => h (hadmissible.of_part hks)

theorem cons (k : Kind) {r : Reading α} (h : Yields ks M r) : Yields (k :: ks) M r :=
  h.mono (List.suffix_cons k ks).isInfix

/-- Behind the last token there is no other. -/
theorem bindLast {r : Reading α} {f : α → Reading β} (hr : Yields ks M r)
    (hf : ∀ a, M a → Yields [] N (f a)) : Yields ks N (r >>= f) := by
  have hbind := hr.bind hf
  rwa [List.append_nil] at hbind

theorem map {r : Reading α} {f : α → β} (h : Yields ks M r) (hf : ∀ a, M a → N (f a)) :
    Yields ks N (do let a ← r; return f a) :=
  h.bindLast fun a ha => pure [] (hf a ha)

end Yields

/-! ## Phrases -/

/-- Between the tokens that open and close a block there is something to read. -/
theorem ne_nil_of_enclosed {s : Symbol} {d : Phrase (.many s)} {ks : List Kind}
    (hks : Kind.Admissible ks) (hpart : .indent :: d.kinds ++ [.dedent] <:+: ks)
    {classes after : List Class} {xs : List s.Meaning}
    (h : d.meaning classes = some (xs, after)) : xs ≠ [] := by
  cases d with
  | done => exact absurd hpart hks.nonempty
  | more x rest =>
      rw [Phrase.meaning] at h
      rcases Reading.bind_eq_some h with ⟨y, between, -, h⟩
      rcases Reading.bind_eq_some h with ⟨ys, between', -, h⟩
      rcases Reading.eq_of_pure_eq_some h with ⟨rfl, -⟩
      exact List.cons_ne_nil y ys

/-- A call by a path, and the calls behind it. -/
theorem yields_callee {p : String × List String} (hp : ∀ name ∈ p.1 :: p.2, isName name = true)
    {args : List Node} {calls : List (Node → Node)}
    (happlied : Symbol.application.Fits (args, calls)) :
    Yields [] Node.Expression (do
      let x ← Reading.callee (object p) (lastName p) args
      return applyAll x calls) := by
  intro _ classes after y hclasses h
  rcases Reading.map_eq_some h with ⟨x, hx, rfl⟩
  have hsame : after = classes := Reading.Keeps.callee _ _ _ hx
  subst hsame
  exact ⟨Continues.applyAll happlied.2 x (expression_callee hp happlied.1 hclasses hx), hclasses⟩

theorem yields_classDefinition {n : Phrase .name} {parent : Phrase (.option .base)}
    {methods : Phrase (.many .method)} (hname : Yields n.kinds Symbol.name.Fits n.meaning)
    (hparent : Yields parent.kinds (Symbol.option .base).Fits parent.meaning)
    (hmethods : Yields methods.kinds (Symbol.many .method).Fits methods.meaning) :
    Yields (Phrase.classDefinition n parent methods).kinds Symbol.statement.Fits
      (Phrase.classDefinition n parent methods).meaning := by
  intro hks classes after x hclasses h
  rw [Phrase.meaning] at h
  rcases Reading.bind_eq_some h with ⟨name, between, hn, h⟩
  rcases Reading.bind_eq_some h with ⟨base, between₁, hbase, h⟩
  rcases Reading.bind_eq_some h with ⟨ms, between₂, hms, hdeclare⟩
  -- Each part stands in one piece among the tokens.
  have hn' : n.kinds <:+: (Phrase.classDefinition n parent methods).kinds :=
    ⟨[.keyword .classKw], _, by simp; rfl⟩
  have hparent' : parent.kinds <:+: (Phrase.classDefinition n parent methods).kinds :=
    ⟨.keyword .classKw :: n.kinds, _, by simp; rfl⟩
  have hbody : .indent :: methods.kinds ++ [.dedent]
      <:+: (Phrase.classDefinition n parent methods).kinds :=
    ⟨.keyword .classKw :: n.kinds ++ parent.kinds ++ [.punct .colon, .newline], [], by simp⟩
  have hmethods' : methods.kinds <:+: (Phrase.classDefinition n parent methods).kinds :=
    List.IsInfix.trans ⟨[.indent], [.dedent], rfl⟩ hbody
  rcases hname (hks.of_part hn') hclasses hn with ⟨hname, hbetween⟩
  rcases hparent (hks.of_part hparent') hbetween hbase with ⟨hbaseFits, hbetween₁⟩
  rcases hmethods (hks.of_part hmethods') hbetween₁ hms with ⟨hmethodsFit, hbetween₂⟩
  rcases Reading.declare_eq_some_iff.mp hdeclare with ⟨-, hdistinct, rfl, rfl⟩
  have hclass : Class.WellFormed ⟨name, base, ms⟩ :=
    .mk hname hbaseFits (ne_nil_of_enclosed hks hbody hms) hdistinct hmethodsFit
  exact ⟨.classDef hclass, List.forall_mem_cons.mpr ⟨hclass, hbetween₂⟩⟩

/-- What the grammar reads from admissible tokens has the form of its symbol. -/
theorem Phrase.fits {s : Symbol} (d : Phrase s) : Yields d.kinds s.Fits d.meaning := by
  induction d with
  | name n =>
      intro hks
      exact Yields.pure _ (hks.spelled _ List.mem_cons_self) hks
  | path first rest ihFirst ihRest =>
      refine ihFirst.bind fun name hname => ihRest.map fun names hnames => ?_
      exact List.forall_mem_cons.mpr ⟨hname, hnames⟩
  | done => exact .pure _ nofun
  | more x xs ihX ihXs =>
      exact ihX.bind fun y hy => ihXs.map fun ys hys => List.forall_mem_cons.mpr ⟨hy, hys⟩
  | absent => exact .pure _ nofun
  | present x ihX =>
      refine ihX.map fun y hy z hz => ?_
      cases hz
      exact hy
  | after p x ihX => exact ihX.cons _
  | noItems => exact .pure _ nofun
  | items first rest ihFirst ihRest =>
      refine Yields.mono (ihFirst.bind fun y hy => ihRest.map fun ys hys =>
        List.forall_mem_cons.mpr ⟨hy, hys⟩) ⟨[.punct .leftParen], [.punct .rightParen], by simp⟩
  | chain first rest ihFirst ihRest =>
      exact ihFirst.bind fun x hx => ihRest.map fun links hlinks =>
        Continues.applyAll hlinks x hx
  | link j right ihRight => exact Yields.cons _ (ihRight.map fun x hx => continues_link j hx)
  | not x ihX => exact Yields.cons _ (ihX.map fun y hy => .not hy)
  | compared x ihX => exact ihX
  | comparison left right ihLeft ihRight =>
      refine ihLeft.bind fun x hx => ihRight.map fun f hf => ?_
      cases f with
      | none => exact hx
      | some f => exact hf f rfl x hx
  | relation op right ihRight =>
      exact Yields.cons _ (ihRight.map fun y hy x hx => .comparison hx hy)
  | signed sign x ihX => exact Yields.cons _ (ihX.map fun y hy => .signed hy)
  | unsigned x ihX => exact ihX
  | literal v =>
      intro hks
      have hv := expression_literal (hks.spelled _ List.mem_cons_self)
      exact Yields.pure _ hv hks
  | reference p applied ihP ihApplied =>
      refine ihP.bind fun p hp => ihApplied.bindLast fun call hcall => ?_
      cases call with
      | none => exact .pure [] (.variable (List.cons_ne_nil _ _) hp)
      | some call => exact yields_callee hp (hcall call rfl)
  | group x calls ihX ihCalls =>
      have hcalls := ihCalls.cons (.punct .rightParen)
      exact Yields.cons _ (ihX.bind fun y hy => hcalls.map fun fs hfs => Continues.applyAll hfs y hy)
  | application args calls ihArgs ihCalls =>
      exact ihArgs.bind fun xs hxs => ihCalls.map fun fs hfs => ⟨hxs, hfs⟩
  | call m args ihM ihArgs =>
      exact Yields.cons _ (ihM.bind fun name hname => ihArgs.map fun xs hxs x hx =>
        .call hx hname hxs)
  | ret x ihX => exact Yields.cons _ (ihX.map fun y hy => .ret hy)
  | print args ihArgs =>
      refine Yields.cons _ (ihArgs.map fun xs hxs => .print ?_)
      cases xs with
      | none => exact nofun
      | some xs => exact hxs xs rfl
  | assign target value ihTarget ihValue =>
      exact ihTarget.bind fun p hp => Yields.cons _ (ihValue.map fun x hx => statement_assignment hp hx)
  | apply callee applied ihCallee ihApplied =>
      refine ihCallee.bind fun p hp => ihApplied.bindLast fun call hcall => ?_
      intro hks classes after x hclasses h
      rcases yields_callee hp hcall hks hclasses h with ⟨hx, hafter⟩
      exact ⟨.expression hx, hafter⟩
  | block body ihBody =>
      intro hks classes after x hclasses h
      rw [meaning] at h
      rcases Reading.map_eq_some h with ⟨xs, hxs, rfl⟩
      have hbody : .indent :: body.kinds ++ [.dedent] <:+: (Phrase.block body).kinds :=
        (List.suffix_cons _ _).isInfix
      have hinner : body.kinds <:+: (Phrase.block body).kinds :=
        List.IsInfix.trans ⟨[.indent], [.dedent], rfl⟩ hbody
      rcases ihBody (hks.of_part hinner) hclasses hxs with ⟨hfits, hbetween⟩
      exact ⟨.block (ne_nil_of_enclosed hks hbody hxs) hfits, hbetween⟩
  | simple x ihX => exact Yields.mono ihX (List.prefix_append _ _).isInfix
  | conditional condition thenBody elseBody ihCondition ihThen ihElse =>
      have hthen := ihThen.cons (.punct .colon)
      have hall := ihCondition.bind fun c hc => hthen.bind fun t ht => ihElse.map fun e he =>
        Node.Statement.ifElse hc ht he
      exact hall.mono ⟨[.keyword .ifKw], [], by simp⟩
  | alternative body ihBody => exact (ihBody.cons _).cons _
  | classDefinition n parent methods ihN ihParent ihMethods =>
      exact yields_classDefinition ihN ihParent ihMethods
  | base n ihN =>
      intro hks classes after c hclasses h
      rw [meaning] at h
      rcases Reading.bind_eq_some h with ⟨name, between, hn, hdeclared⟩
      have hsame : between = classes := n.keeps rfl hn
      subst hsame
      rcases Option.map_eq_some_iff.mp hdeclared with ⟨d, hd, hpair⟩
      rcases Prod.mk.inj hpair with ⟨rfl, rfl⟩
      exact ⟨hclasses d (List.mem_of_find?_eq_some hd), hclasses⟩
  | method n params body ihN ihParams ihBody =>
      have hbody := ihBody.cons (.punct .colon)
      have hall := ihN.bind fun name hname => ihParams.bind fun ps hps => hbody.map fun x hx =>
        Method.WellFormed.mk hname hps hx
      exact hall.mono ⟨[.keyword .defKw], [], by simp⟩

end Grammar

/-- A program that is read from a text is well-formed, and so are its classes. -/
theorem Program.wellFormed_of_parse {source : String} {p : Program}
    (h : Program.parse source = .ok p) : p.WellFormed := by
  rcases Grammar.exists_derivation_of_parse h with ⟨tokens, htokens, d, hd⟩
  rcases Grammar.Derivation.program?_eq_some_iff.mp hd with ⟨classes, hread⟩
  have hadmissible := (layout_of_tokenize htokens).admissible
  rw [← d.kinds_eq] at hadmissible
  have hfront := hadmissible.of_part (List.prefix_append d.statements.kinds _).isInfix
  exact (d.statements.fits hfront (fun c hc => absurd hc List.not_mem_nil) hread).1

end Offside
