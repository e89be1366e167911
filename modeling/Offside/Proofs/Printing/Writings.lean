import Offside.Proofs.Grammar.Context
import Offside.Proofs.Grammar.Steps
import Offside.Proofs.Printing.Source

/-!
# Writings — the phrases of printed expressions

This file finds, for the tokens of a printed expression, a phrase of the grammar that stands for it:

- `Writes` : the tokens are a phrase of a symbol with a given meaning
- `Leads`  : with any calls behind them they are a primary that stands for the calls

A rung takes what tighter ones write (`Writes.loosen`), and parentheses take everything
(`Leads.group`), so that an operand is written where it stands (`Writes.enclosed`).  A path before a call
is no expression by itself, but it leads to one all the same (`Leads.variable`).  The main statement,
`writes_kinds`, goes along the tree, with a lemma for each operator.
-/

namespace Offside
namespace Grammar

/-! ## Repetitions -/

namespace Phrase

/-- A repetition with one more phrase at its end. -/
def snoc {s : Symbol} : Phrase (.many s) → Phrase s → Phrase (.many s)
  | .done, y => .more y .done
  | .more x xs, y => .more x (xs.snoc y)

theorem kinds_snoc {s : Symbol} : (xs : Phrase (.many s)) → (y : Phrase s) →
    (xs.snoc y).kinds = xs.kinds ++ y.kinds
  | .done, y => by simp [snoc]
  | .more x xs, y => by rw [snoc, kinds, kinds, kinds_snoc xs y, List.append_assoc]

theorem meaning_snoc {s : Symbol} {classes between after : List Class} {m : s.Meaning} :
    {ms : List s.Meaning} → (xs : Phrase (.many s)) → (y : Phrase s) →
    xs.meaning classes = some (ms, between) → y.meaning between = some (m, after) →
    (xs.snoc y).meaning classes = some (ms ++ [m], after)
  | _, .done, y, hxs, hy => by
      rcases Reading.eq_of_pure_eq_some hxs with ⟨rfl, rfl⟩
      rw [snoc, meaning, Reading.bind_of_some hy]
      rfl
  | _, .more x xs, y, hxs, hy => by
      rw [meaning] at hxs
      rcases Reading.bind_eq_some hxs with ⟨first, middle, hx, hmore⟩
      rcases Reading.map_eq_some hmore with ⟨rest, hrest, rfl⟩
      rw [snoc, meaning, Reading.bind_of_some hx, Reading.bind_of_some (meaning_snoc xs y hrest hy)]
      rfl

end Phrase

theorem applyAll_concat (x : Node) (fs : List (Node → Node)) (f : Node → Node) :
    applyAll x (fs ++ [f]) = f (applyAll x fs) := by
  simp [applyAll]

/-! ## Writings -/

/-- The tokens are a phrase of the symbol that stands for `m` where `classes` are complete. -/
def Writes (classes : List Class) (s : Symbol) (ks : List Kind) (m : s.Meaning) : Prop :=
  ∃ d : Phrase s, d.kinds = ks ∧ d.meaning classes = some (m, classes)

/-- With calls behind them, the tokens are a primary that stands for the calls on the expression. -/
def Leads (classes : List Class) (ks : List Kind) (x : Node) : Prop :=
  ∀ (later : List Kind) (calls : List (Node → Node)), Writes classes (.many .call) later calls →
    Writes classes (.expr .primary) (ks ++ later) (applyAll x calls)

section Writings

variable {classes : List Class} {ks later : List Kind} {x y : Node}

/-! ### Rungs -/

/-- The next looser rung. -/
def Rung.above : Rung → Rung
  | .primary => .factor
  | .factor => .chain .product
  | .chain .product => .chain .sum
  | .chain .sum => .comparison
  | .comparison => .inversion
  | .inversion => .chain .and
  | .chain .and | .chain .or => .chain .or

theorem Rung.height_le (r : Rung) : r.height ≤ 7 := by
  cases r with
  | chain l => cases l <;> decide
  | _ => decide

theorem Rung.height_above {r : Rung} (h : r.height < 7) : r.above.height = r.height + 1 := by
  cases r with
  | chain l =>
      cases l with
      | or => exact absurd h (Nat.lt_irrefl 7)
      | _ => rfl
  | _ => rfl

theorem Rung.height_injective {r r' : Rung} (h : r.height = r'.height) : r = r' := by
  cases r with
  | chain l =>
      cases r' with
      | chain l' => cases l <;> cases l' <;> first | rfl | cases h
      | _ => cases l <;> cases h
  | _ =>
      cases r' with
      | chain l' => cases l' <;> cases h
      | _ => first | rfl | cases h

namespace Writes

theorem done {s : Symbol} : Writes classes (.many s) [] [] :=
  ⟨.done, rfl, rfl⟩

theorem more {s : Symbol} {m : s.Meaning} {ms : List s.Meaning} (h : Writes classes s ks m)
    (hs : Writes classes (.many s) later ms) : Writes classes (.many s) (ks ++ later) (m :: ms) := by
  rcases h with ⟨d, rfl, hd⟩
  rcases hs with ⟨ds, rfl, hds⟩
  exact ⟨.more d ds, rfl, (Reading.bind_of_some hd).trans (Reading.map_of_some hds)⟩

theorem chain {l : Level} (h : Writes classes (.expr l.operand) ks x) :
    Writes classes (.expr (.chain l)) ks x := by
  rcases h with ⟨d, rfl, hd⟩
  exact ⟨.chain d .done, by simp, (Reading.bind_of_some hd).trans rfl⟩

theorem uncompared (h : Writes classes (.expr (.chain .sum)) ks x) :
    Writes classes (.expr .comparison) ks x := by
  rcases h with ⟨d, rfl, hd⟩
  exact ⟨.comparison d .absent, by simp, (Reading.bind_of_some hd).trans rfl⟩

theorem above {r : Rung} (h : Writes classes (.expr r) ks x) : Writes classes (.expr r.above) ks x := by
  cases r with
  | primary =>
      rcases h with ⟨d, hkinds, hd⟩
      exact ⟨.unsigned d, hkinds, hd⟩
  | factor => exact h.chain (l := .product)
  | comparison =>
      rcases h with ⟨d, hkinds, hd⟩
      exact ⟨.compared d, hkinds, hd⟩
  | inversion => exact h.chain (l := .and)
  | chain l =>
      cases l with
      | product => exact h.chain (l := .sum)
      | sum => exact h.uncompared
      | and => exact h.chain (l := .or)
      | or => exact h

/-- What is written on a rung is written on all looser ones. -/
theorem loosen {r r' : Rung} (h : Writes classes (.expr r) ks x) (hle : r.height ≤ r'.height) :
    Writes classes (.expr r') ks x := by
  induction hn : r'.height - r.height generalizing r with
  | zero =>
      have hsame : r = r' := Rung.height_injective (by omega)
      exact hsame ▸ h
  | succ n ih =>
      have hmax := r'.height_le
      have hstep : r.above.height = r.height + 1 := Rung.height_above (by omega)
      exact ih h.above (by omega) (by omega)

/-- Without restrictions everything is written. -/
theorem expression {r : Rung} (h : Writes classes (.expr r) ks x) : Writes classes .expression ks x :=
  h.loosen r.height_le

/-! ### Operators -/

theorem literal (classes : List Class) (v : Literal) : Writes classes (.expr .primary) [v.kind] v.node :=
  ⟨.literal v, rfl, rfl⟩

/-- What stands on the right of an operator is an operand of its level. -/
theorem link {l : Level} (j : Joint l) (hleft : Writes classes (.expr (.chain l)) ks x)
    (hright : Writes classes (.expr l.operand) later y) :
    Writes classes (.expr (.chain l)) (ks ++ j.kind :: later) (j.node x y) := by
  rcases hleft with ⟨left, rfl, hleft⟩
  rcases hright with ⟨right, rfl, hright⟩
  have hlink : (Phrase.link j right).meaning classes = some ((j.node · y), classes) :=
    Reading.map_of_some hright
  cases left with
  | chain first rest =>
      rw [Phrase.meaning] at hleft
      rcases Reading.bind_eq_some hleft with ⟨a, between, hfirst, hmore⟩
      rcases Reading.map_eq_some hmore with ⟨links, hlinks, rfl⟩
      have hall := Phrase.meaning_snoc rest (.link j right) hlinks hlink
      refine ⟨.chain first (rest.snoc (.link j right)), ?_, ?_⟩
      · rw [Phrase.kinds, Phrase.kinds_snoc, Phrase.kinds, Phrase.kinds, List.append_assoc]
      · -- The last link is applied to what the links before it give.
        rw [Phrase.meaning, Reading.bind_of_some hfirst, Reading.bind_of_some hall, applyAll_concat]
        rfl

theorem comparison (op : Relation) (hleft : Writes classes (.expr (.chain .sum)) ks x)
    (hright : Writes classes (.expr (.chain .sum)) later y) :
    Writes classes (.expr .comparison) (ks ++ .punct (relationMark op) :: later)
      (.comparison op x y) := by
  rcases hleft with ⟨left, rfl, hleft⟩
  rcases hright with ⟨right, rfl, hright⟩
  have hrelation : (Phrase.present (.relation op right)).meaning classes
      = some (some (Node.comparison op · y), classes) :=
    Reading.map_of_some (Reading.map_of_some hright)
  exact ⟨.comparison left (.present (.relation op right)), rfl,
    (Reading.bind_of_some hleft).trans (Reading.map_of_some hrelation)⟩

theorem not (h : Writes classes (.expr .inversion) ks x) :
    Writes classes (.expr .inversion) (.keyword .notKw :: ks) (.not x) := by
  rcases h with ⟨d, rfl, hd⟩
  exact ⟨.not d, rfl, Reading.map_of_some hd⟩

theorem signed (sign : Sign) (h : Writes classes (.expr .factor) ks x) :
    Writes classes (.expr .factor) (.punct (signMark sign) :: ks) (.signed sign x) := by
  rcases h with ⟨d, rfl, hd⟩
  exact ⟨.signed sign d, rfl, Reading.map_of_some hd⟩

/-! ### Names, arguments and calls -/

theorem path (classes : List Class) (first : String) (rest : List String) :
    Writes classes .path (Kind.dotted (first :: rest)) (first, rest) := by
  have hrest : Writes classes (.many (.after .dot .name))
      (rest.flatMap fun name => [.punct .dot, .identifier name]) rest := by
    induction rest with
    | nil => exact .done
    | cons name rest ih => exact .more ⟨.after .dot (.name name), rfl, rfl⟩ ih
  rcases hrest with ⟨d, hkinds, hd⟩
  exact ⟨.path (.name first) d, by rw [Phrase.kinds, hkinds]; rfl, Reading.map_of_some hd⟩

theorem «variable» {path : List String} (hpath : path ≠ []) :
    Writes classes (.expr .primary) (Kind.dotted path) (.variable path) := by
  rcases List.exists_cons_of_ne_nil hpath with ⟨first, rest, rfl⟩
  rcases Writes.path classes first rest with ⟨d, hkinds, hd⟩
  exact ⟨.reference d .absent, by rw [← hkinds]; simp, (Reading.bind_of_some hd).trans rfl⟩

theorem items {xs : List Node} (h : Writes classes .expression ks x)
    (hs : Writes classes (.many (.after .comma .expression)) later xs) :
    Writes classes (.list .expression) (.punct .leftParen :: ks ++ later ++ [.punct .rightParen])
      (x :: xs) := by
  rcases h with ⟨d, rfl, hd⟩
  rcases hs with ⟨ds, rfl, hds⟩
  exact ⟨.items d ds, rfl, (Reading.bind_of_some hd).trans (Reading.map_of_some hds)⟩

/-- The line of an assignment to a variable. -/
theorem assign (name : String) (h : Writes classes .expression ks x) :
    Writes classes .statement (.identifier name :: .punct .assign :: ks ++ [.newline])
      (.assign name x) := by
  rcases h with ⟨d, rfl, hd⟩
  rcases Writes.path classes name [] with ⟨target, htarget, hpath⟩
  exact ⟨.simple (.assign target d), by simp [htarget, Kind.dotted],
    (Reading.bind_of_some hpath).trans (Reading.map_of_some hd)⟩

/-- What stands behind an expression is nothing, or a call and what stands behind that. -/
theorem nil_or_call {calls : List (Node → Node)} (h : Writes classes (.many .call) ks calls) :
    (ks = [] ∧ calls = [])
      ∨ ∃ (n : String) (args : List Kind) (xs : List Node) (more : List Kind)
          (fs : List (Node → Node)), ks = .punct .dot :: .identifier n :: args ++ more
        ∧ calls = (Node.call · n xs) :: fs ∧ Writes classes (.list .expression) args xs
        ∧ Writes classes (.many .call) more fs := by
  rcases h with ⟨d, rfl, hd⟩
  cases d with
  | done =>
      rcases Reading.eq_of_pure_eq_some hd with ⟨rfl, -⟩
      exact .inl ⟨rfl, rfl⟩
  | more call behind =>
      cases call with
      | call name args =>
          cases name with
          | name n =>
              rw [Phrase.meaning, Phrase.meaning, Phrase.meaning] at hd
              rcases Reading.bind_eq_some hd with ⟨f, between, hcall, hmore⟩
              rw [Reading.bind_of_some rfl] at hcall
              rcases Reading.map_eq_some hcall with ⟨xs, hargs, rfl⟩
              rcases Reading.map_eq_some hmore with ⟨fs, hbehind, rfl⟩
              -- The arguments define no class.
              have hkeep := args.keeps rfl hargs
              subst hkeep
              exact .inr ⟨n, args.kinds, xs, behind.kinds, fs, rfl, rfl, ⟨args, rfl, hargs⟩,
                ⟨behind, rfl, hbehind⟩⟩

end Writes

namespace Leads

theorem writes (h : Leads classes ks x) : Writes classes (.expr .primary) ks x := by
  have hnone := h [] [] .done
  rwa [List.append_nil] at hnone

/-- Parentheses make a primary of every expression. -/
theorem group (h : Writes classes .expression ks x) :
    Leads classes (.punct .leftParen :: ks ++ [.punct .rightParen]) x := by
  rcases h with ⟨d, rfl, hd⟩
  rintro later calls ⟨behind, rfl, hbehind⟩
  exact ⟨.group d behind, by simp, (Reading.bind_of_some hd).trans (Reading.map_of_some hbehind)⟩

/-- The call of a path, whatever its name stands for. -/
theorem callee {first : String} {rest : List String} {args : List Node}
    (hargs : Writes classes (.list .expression) ks args)
    (hx : Reading.callee (object (first, rest)) (lastName (first, rest)) args classes
      = some (x, classes)) : Leads classes (Kind.dotted (first :: rest) ++ ks) x := by
  rcases Writes.path classes first rest with ⟨p, hkinds, hp⟩
  rcases hargs with ⟨d, rfl, hd⟩
  rintro later calls ⟨behind, rfl, hbehind⟩
  have happlied : (Phrase.present (.application d behind)).meaning classes
      = some (some (args, calls), classes) :=
    Reading.map_of_some ((Reading.bind_of_some hd).trans (Reading.map_of_some hbehind))
  refine ⟨.reference p (.present (.application d behind)), by simp [hkinds], ?_⟩
  rw [Phrase.meaning, Reading.bind_of_some hp, Reading.bind_of_some happlied]
  exact Reading.map_of_some hx

/-- One more call behind an expression. -/
theorem call {args : List Node} (h : Leads classes ks x) (method : String)
    (hargs : Writes classes (.list .expression) later args) :
    Leads classes (ks ++ .punct .dot :: .identifier method :: later) (.call x method args) := by
  rcases hargs with ⟨d, rfl, hd⟩
  have hcall : Writes classes .call (.punct .dot :: .identifier method :: d.kinds)
      (Node.call · method args) := by
    have hname : (Phrase.name method).meaning classes = some (method, classes) := rfl
    exact ⟨.call (.name method) d, rfl, (Reading.bind_of_some hname).trans (Reading.map_of_some hd)⟩
  intro behind calls hcalls
  have hall := h _ _ (hcall.more hcalls)
  rwa [← List.append_assoc] at hall

/-- The first call behind a path belongs to the path: its name is the last one of it. -/
theorem «variable» {path : List String} (hpath : path ≠ []) :
    Leads classes (Kind.dotted path) (.variable path) := by
  intro later calls hcalls
  rcases List.exists_cons_of_ne_nil hpath with ⟨first, rest, rfl⟩
  rcases hcalls.nil_or_call with ⟨rfl, rfl⟩ | ⟨n, args, xs, more, fs, rfl, rfl, hargs, hmore⟩
  · rw [List.append_nil]
    exact .variable hpath
  · have hobject : object (first, rest ++ [n]) = first :: rest := by
      rw [object, ← List.cons_append, List.dropLast_concat]
    have hname : lastName (first, rest ++ [n]) = n := by simp [lastName]
    have hcallee : Reading.callee (object (first, rest ++ [n])) (lastName (first, rest ++ [n])) xs
        classes = some (.call (.variable (first :: rest)) n xs, classes) := by
      rw [hobject, hname, Reading.callee]
    have hall := Leads.callee hargs hcallee more fs hmore
    simpa [Kind.dotted, applyAll] using hall

/-- An expression with calls behind it, in parentheses or not. -/
theorem enclosed {bare : Bool} (h : Writes classes (.expr x.rung) ks x)
    (hbare : bare = true → Leads classes ks x) : Leads classes (Kind.enclosed bare ks) x := by
  rw [Kind.enclosed]
  split
  next hb => exact hbare hb
  next => exact group h.expression

end Leads

/-- An expression on any rung, in parentheses or not. -/
theorem Writes.enclosed (h : Writes classes (.expr x.rung) ks x) (r : Rung) :
    Writes classes (.expr r) (Kind.enclosed (x.standsOn r) ks) x := by
  rw [Kind.enclosed]
  split
  next hstands => exact h.loosen (of_decide_eq_true hstands)
  next =>
    have hgroup := Leads.group h.expression
    exact hgroup.writes.loosen (Nat.zero_le _)

end Writings

/-! ## Expressions -/

/-- Where `classes` are complete, the names in constructor calls stand for the classes of these. -/
structure Names (classes : List Class) (mentions : List Mention) : Prop where
  constructs : ∀ c, .constructs c ∈ mentions → classes.find? (·.name = c.name) = some c
  /-- No class takes the name of the conversion to text. -/
  stringify : classes.find? (·.name = "str") = none

theorem Names.of_subset {classes : List Class} {mentions part : List Mention}
    (h : Names classes mentions) (hpart : part ⊆ mentions) : Names classes part where
  constructs c hc := h.constructs c (hpart hc)
  stringify := h.stringify

theorem Names.left {classes : List Class} {mentions more : List Mention}
    (h : Names classes (mentions ++ more)) : Names classes mentions :=
  h.of_subset (List.subset_append_left _ _)

theorem Names.right {classes : List Class} {mentions more : List Mention}
    (h : Names classes (mentions ++ more)) : Names classes more :=
  h.of_subset (List.subset_append_right _ _)

section Expressions

variable {classes : List Class}

mutual

/-- The tokens of an expression are a phrase of its rung that stands for it, also with calls behind them
where no parentheses are asked for. -/
theorem writes_kinds (x : Node) (h : x.Expression) (hnames : Names classes x.mentions) :
    Writes classes (.expr x.rung) x.kinds x ∧ (x.isCallable = true → Leads classes x.kinds x) := by
  cases x with
  | constant value =>
      cases h with
      | constant hvalue =>
          have hliteral := Writes.literal classes value.literal
          rw [Value.node_literal hvalue] at hliteral
          exact ⟨hliteral, nofun⟩
  | none => exact ⟨.literal classes .none, nofun⟩
  | «variable» path =>
      cases h with
      | «variable» hpath => exact ⟨.variable hpath, fun _ => .variable hpath⟩
  | arithmetic op left right =>
      cases h with
      | arithmetic hleft hright =>
          have ihLeft := (writes_kinds left hleft hnames.left).1
          have ihRight := (writes_kinds right hright hnames.right).1
          have hlink := (ihLeft.enclosed _).link op.joint (ihRight.enclosed _)
          rw [op.node_joint] at hlink
          exact ⟨hlink, nofun⟩
  | logical op left right =>
      cases h with
      | logical hleft hright =>
          have ihLeft := (writes_kinds left hleft hnames.left).1
          have ihRight := (writes_kinds right hright hnames.right).1
          have hlink := (ihLeft.enclosed _).link op.joint (ihRight.enclosed _)
          rw [op.node_joint] at hlink
          exact ⟨hlink, nofun⟩
  | comparison op left right =>
      cases h with
      | comparison hleft hright =>
          have ihLeft := (writes_kinds left hleft hnames.left).1
          have ihRight := (writes_kinds right hright hnames.right).1
          exact ⟨(ihLeft.enclosed _).comparison op (ihRight.enclosed _), nofun⟩
  | signed sign x =>
      cases h with
      | signed hx => exact ⟨((writes_kinds x hx hnames).1.enclosed _).signed sign, nofun⟩
  | not x =>
      cases h with
      | not hx => exact ⟨((writes_kinds x hx hnames).1.enclosed _).not, nofun⟩
  | call receiver method args =>
      cases h with
      | call hreceiver hmethod hargs =>
          have ihReceiver := writes_kinds receiver hreceiver hnames.left
          have ihArgs := writes_kindsOfArgs args hargs hnames.right
          have hleads := (Leads.enclosed ihReceiver.1 ihReceiver.2).call method ihArgs
          exact ⟨hleads.writes, fun _ => hleads⟩
  | construct c args =>
      cases h with
      | construct hclass hargs =>
          have ihArgs := writes_kindsOfArgs args hargs (hnames.of_subset (List.subset_cons_self _ _))
          have hfind := hnames.constructs c List.mem_cons_self
          have hcallee : Reading.callee (object (c.name, [])) (lastName (c.name, [])) args classes
              = some (.construct c args, classes) := by
            simp [object, lastName, Reading.callee, hfind]
          have hleads := Leads.callee ihArgs hcallee
          exact ⟨hleads.writes, fun _ => hleads⟩
  | stringify x =>
      cases h with
      | stringify hx =>
          have ihX := (writes_kinds x hx hnames).1
          have hargs := ihX.expression.items .done
          have hcallee : Reading.callee (object ("str", [])) (lastName ("str", [])) [x] classes
              = some (.stringify x, classes) := by
            simp [object, lastName, Reading.callee, hnames.stringify]
          have hleads := Leads.callee hargs hcallee
          rw [List.append_nil] at hleads
          exact ⟨hleads.writes, fun _ => hleads⟩
  | assign | setField | block | print | ret | ifElse | classDef => nomatch h

theorem writes_kindsOfArgs (args : List Node) (h : ∀ x ∈ args, x.Expression)
    (hnames : Names classes (Node.mentionsAll args)) :
    Writes classes (.list .expression) (Node.kindsOfArgs args) args := by
  cases args with
  | nil => exact ⟨.noItems, rfl, rfl⟩
  | cons x xs =>
      have hall := List.forall_mem_cons.mp h
      have ihX := (writes_kinds x hall.1 hnames.left).1
      have ihXs := writes_kindsOfMoreArgs xs hall.2 hnames.right
      exact ihX.expression.items ihXs

theorem writes_kindsOfMoreArgs (args : List Node) (h : ∀ x ∈ args, x.Expression)
    (hnames : Names classes (Node.mentionsAll args)) :
    Writes classes (.many (.after .comma .expression)) (Node.kindsOfMoreArgs args) args := by
  cases args with
  | nil => exact .done
  | cons x xs =>
      have hall := List.forall_mem_cons.mp h
      have ihX := (writes_kinds x hall.1 hnames.left).1
      have ihXs := writes_kindsOfMoreArgs xs hall.2 hnames.right
      rcases ihX.expression with ⟨d, hkinds, hd⟩
      have hcomma : Writes classes (.after .comma .expression) (.punct .comma :: x.kinds) x :=
        ⟨.after .comma d, by rw [Phrase.kinds, hkinds], hd⟩
      exact hcomma.more ihXs

end

end Expressions

end Grammar
end Offside
