import Offside.Proofs.Grammar.Shapes

/-!
# Productions — what the next token leaves of a symbol

One lemma for each production: where the next token is one that the production starts with, or one that
the others do not start with, the symbol is narrowed to the parts of that production in a row.
-/

namespace Offside
namespace Grammar
namespace Shape

variable {s : Symbol} {stops : Kind → Bool} {k : Kind}

/-! ## Names, repetition, options and lists -/

theorem narrows_name (n : String) :
    (symbol .name).Narrows (.identifier n) (token (.identifier n)) := by
  refine Narrows.of_phrases ?_ (fun _ _ => rfl) fun d _ _ _ _ heq => ?_
  · rintro _ rfl
    exact ⟨.name n, rfl⟩
  · cases d with
    | name n' =>
        rw [Phrase.kinds, (List.cons.inj heq).1]
        rfl

theorem narrows_path :
    (symbol .path).Narrows k
      (symbol .name ++ (symbol (.many (.after .dot .name))).upTo Symbol.path.stops) := by
  refine Narrows.of_phrases ?_ (fun _ h => h) fun d _ _ _ _ _ => ?_
  · rintro _ ⟨_, ⟨first, rfl⟩, _, ⟨rest, rfl⟩, rfl⟩
    exact ⟨.path first rest, rfl⟩
  · cases d with
    | path first rest => exact ⟨_, ⟨first, rfl⟩, _, ⟨rest, rfl⟩, rfl⟩

theorem narrows_more (hk : stops k = false) :
    ((symbol (.many s)).upTo stops).Narrows k (symbol s ++ (symbol (.many s)).upTo stops) := by
  refine Narrows.of_phrases ?_ (fun _ h => h) fun d k' r' r hk' heq => ?_
  · rintro _ ⟨_, ⟨x, rfl⟩, _, ⟨xs, rfl⟩, rfl⟩
    exact ⟨.more x xs, rfl⟩
  · cases d with
    | done =>
        -- The current token would stand after the repetition.
        rw [(List.cons.inj heq).1, hk] at hk'
        cases hk'
    | more x xs => exact ⟨_, ⟨x, rfl⟩, _, ⟨xs, rfl⟩, rfl⟩

theorem narrows_done (hs : s.nullable = false) (hk : s.starts k = false) :
    ((symbol (.many s)).upTo stops).Narrows k (nothing.upTo stops) := by
  refine Narrows.of_phrases ?_ (fun _ h => h) fun d k' r' r hk' heq => ?_
  · rintro _ rfl
    exact ⟨.done, rfl⟩
  · cases d with
    | done => rfl
    | more x xs => exact absurd heq.symm ((x.heads_append xs hs).ne hs hk)

theorem narrows_present (hk : stops k = false) :
    ((symbol (.option s)).upTo stops).Narrows k ((symbol s).upTo stops) := by
  refine Narrows.of_phrases ?_ (fun _ h => h) fun d k' r' r hk' heq => ?_
  · rintro _ ⟨x, rfl⟩
    exact ⟨.present x, rfl⟩
  · cases d with
    | absent =>
        rw [(List.cons.inj heq).1, hk] at hk'
        cases hk'
    | present x => exact ⟨x, rfl⟩

theorem narrows_absent (hs : s.nullable = false) (hk : s.starts k = false) :
    ((symbol (.option s)).upTo stops).Narrows k (nothing.upTo stops) := by
  refine Narrows.of_phrases ?_ (fun _ h => h) fun d k' r' r hk' heq => ?_
  · rintro _ rfl
    exact ⟨.absent, rfl⟩
  · cases d with
    | absent => rfl
    | present x => exact absurd heq.symm (x.heads.ne hs hk)

theorem narrows_after {p : Punct} :
    (symbol (.after p s)).Narrows k (token (.punct p) ++ symbol s) := by
  refine Narrows.of_phrases ?_ (fun _ h => h) fun d _ _ _ _ _ => ?_
  · rintro _ ⟨_, rfl, _, ⟨x, rfl⟩, rfl⟩
    exact ⟨.after p x, rfl⟩
  · cases d with
    | after _ x => exact ⟨_, rfl, _, ⟨x, rfl⟩, rfl⟩

/-- What stands behind the opening parenthesis of a list. -/
def listRest (s : Symbol) : Shape :=
  either (token (.punct .rightParen))
    (symbol s ++ (symbol (.many (.after .comma s)) ++ token (.punct .rightParen)))

theorem narrows_list :
    (symbol (.list s)).Narrows k (token (.punct .leftParen) ++ listRest s) := by
  refine Narrows.of_phrases ?_ (fun _ h => h) fun d _ _ _ _ _ => ?_
  · rintro _ ⟨_, rfl, _, rfl | ⟨_, ⟨first, rfl⟩, _, ⟨_, ⟨rest, rfl⟩, _, rfl, rfl⟩, rfl⟩, rfl⟩
    · exact ⟨.noItems, rfl⟩
    · exact ⟨.items first rest, by simp⟩
  · cases d with
    | noItems => exact ⟨_, rfl, _, .inl rfl, rfl⟩
    | items first rest =>
        exact ⟨_, rfl, _, .inr ⟨_, ⟨first, rfl⟩, _, ⟨_, ⟨rest, rfl⟩, _, rfl, rfl⟩, rfl⟩, by simp⟩

/-! ## Expressions -/

theorem narrows_chain {l : Level} :
    (symbol (.expr (.chain l))).Narrows k
      (symbol (.expr l.operand)
        ++ (symbol (.many (.link l))).upTo (Symbol.expr (.chain l)).stops) := by
  refine Narrows.of_phrases ?_ (fun _ h => h) fun d _ _ _ _ _ => ?_
  · rintro _ ⟨_, ⟨first, rfl⟩, _, ⟨rest, rfl⟩, rfl⟩
    exact ⟨.chain first rest, rfl⟩
  · cases d with
    | chain first rest => exact ⟨_, ⟨first, rfl⟩, _, ⟨rest, rfl⟩, rfl⟩

theorem narrows_link {l : Level} (j : Joint l) :
    (symbol (.link l)).Narrows j.kind (token j.kind ++ symbol (.expr l.operand)) := by
  refine Narrows.of_phrases ?_ (fun _ h => h) fun d _ _ _ _ heq => ?_
  · rintro _ ⟨_, rfl, _, ⟨right, rfl⟩, rfl⟩
    exact ⟨.link j right, rfl⟩
  · cases d with
    | link j' right =>
        rw [Phrase.kinds, (List.cons.inj heq).1]
        exact ⟨_, rfl, _, ⟨right, rfl⟩, rfl⟩

theorem narrows_not :
    (symbol (.expr .inversion)).Narrows (.keyword .notKw)
      (token (.keyword .notKw) ++ symbol (.expr .inversion)) := by
  refine Narrows.of_phrases ?_ (fun _ h => h) fun d _ _ _ _ heq => ?_
  · rintro _ ⟨_, rfl, _, ⟨x, rfl⟩, rfl⟩
    exact ⟨.not x, rfl⟩
  · cases d with
    | not x => exact ⟨_, rfl, _, ⟨x, rfl⟩, rfl⟩
    | compared x => exact absurd heq.symm (x.heads.ne rfl rfl)

theorem narrows_compared (hk : k ≠ .keyword .notKw) :
    (symbol (.expr .inversion)).Narrows k (symbol (.expr .comparison)) := by
  refine Narrows.of_phrases ?_ (fun _ h => h) fun d _ _ _ _ heq => ?_
  · rintro _ ⟨x, rfl⟩
    exact ⟨.compared x, rfl⟩
  · cases d with
    | not x => exact absurd (List.cons.inj heq).1.symm hk
    | compared x => exact ⟨x, rfl⟩

theorem narrows_comparison :
    (symbol (.expr .comparison)).Narrows k
      (symbol (.expr (.chain .sum))
        ++ (symbol (.option .relation)).upTo (Symbol.expr .comparison).stops) := by
  refine Narrows.of_phrases ?_ (fun _ h => h) fun d _ _ _ _ _ => ?_
  · rintro _ ⟨_, ⟨left, rfl⟩, _, ⟨right, rfl⟩, rfl⟩
    exact ⟨.comparison left right, rfl⟩
  · cases d with
    | comparison left right => exact ⟨_, ⟨left, rfl⟩, _, ⟨right, rfl⟩, rfl⟩

theorem narrows_relation (op : Relation) :
    (symbol .relation).Narrows (.punct (relationMark op))
      (token (.punct (relationMark op)) ++ symbol (.expr (.chain .sum))) := by
  refine Narrows.of_phrases ?_ (fun _ h => h) fun d _ _ _ _ heq => ?_
  · rintro _ ⟨_, rfl, _, ⟨right, rfl⟩, rfl⟩
    exact ⟨.relation op right, rfl⟩
  · cases d with
    | relation op' right =>
        rw [Phrase.kinds, (List.cons.inj heq).1]
        exact ⟨_, rfl, _, ⟨right, rfl⟩, rfl⟩

theorem narrows_signed (sign : Sign) :
    (symbol (.expr .factor)).Narrows (.punct (signMark sign))
      (token (.punct (signMark sign)) ++ symbol (.expr .factor)) := by
  refine Narrows.of_phrases ?_ (fun _ h => h) fun d _ _ _ _ heq => ?_
  · rintro _ ⟨_, rfl, _, ⟨x, rfl⟩, rfl⟩
    exact ⟨.signed sign x, rfl⟩
  · cases d with
    | signed sign' x =>
        rw [Phrase.kinds, (List.cons.inj heq).1]
        exact ⟨_, rfl, _, ⟨x, rfl⟩, rfl⟩
    | unsigned x => exact absurd heq.symm (x.heads.ne rfl (by cases sign <;> rfl))

theorem narrows_unsigned (hk : ∀ sign, k ≠ .punct (signMark sign)) :
    (symbol (.expr .factor)).Narrows k (symbol (.expr .primary)) := by
  refine Narrows.of_phrases ?_ (fun _ h => h) fun d _ _ _ _ heq => ?_
  · rintro _ ⟨x, rfl⟩
    exact ⟨.unsigned x, rfl⟩
  · cases d with
    | signed sign x => exact absurd (List.cons.inj heq).1.symm (hk sign)
    | unsigned x => exact ⟨x, rfl⟩

theorem narrows_literal (v : Literal) : (symbol (.expr .primary)).Narrows v.kind (token v.kind) := by
  refine Narrows.of_phrases ?_ (fun _ _ => rfl) fun d _ _ _ _ heq => ?_
  · rintro _ rfl
    exact ⟨.literal v, rfl⟩
  · cases d with
    | literal v' =>
        rw [Phrase.kinds, (List.cons.inj heq).1]
        rfl
    | reference p applied =>
        exact absurd heq.symm ((p.heads_append applied rfl).ne rfl v.starts_path_kind)
    | group x calls => exact absurd (List.cons.inj heq).1.symm v.kind_ne_leftParen

theorem narrows_reference (hk : Symbol.path.starts k = true) :
    (symbol (.expr .primary)).Narrows k
      (symbol .path ++ (symbol (.option .application)).upTo (Symbol.expr .primary).stops) := by
  refine Narrows.of_phrases ?_ (fun _ h => h) fun d _ _ _ _ heq => ?_
  · rintro _ ⟨_, ⟨p, rfl⟩, _, ⟨applied, rfl⟩, rfl⟩
    exact ⟨.reference p applied, rfl⟩
  · cases d with
    -- Only the path starts with a name.
    | literal v =>
        rw [← (List.cons.inj heq).1, v.starts_path_kind] at hk
        cases hk
    | reference p applied => exact ⟨_, ⟨p, rfl⟩, _, ⟨applied, rfl⟩, rfl⟩
    | group x calls =>
        rw [← (List.cons.inj heq).1] at hk
        cases hk

theorem narrows_group :
    (symbol (.expr .primary)).Narrows (.punct .leftParen)
      (token (.punct .leftParen) ++ (symbol .expression ++ (token (.punct .rightParen)
        ++ (symbol (.many .call)).upTo (Symbol.expr .primary).stops))) := by
  refine Narrows.of_phrases ?_ (fun _ h => h) fun d _ _ _ _ heq => ?_
  · rintro _ ⟨_, rfl, _, ⟨_, ⟨x, rfl⟩, _, ⟨_, rfl, _, ⟨calls, rfl⟩, rfl⟩, rfl⟩, rfl⟩
    exact ⟨.group x calls, rfl⟩
  · cases d with
    | literal v => exact absurd (List.cons.inj heq).1 v.kind_ne_leftParen
    | reference p applied => exact absurd heq.symm ((p.heads_append applied rfl).ne rfl rfl)
    | group x calls =>
        exact ⟨_, rfl, _, ⟨_, ⟨x, rfl⟩, _, ⟨_, rfl, _, ⟨calls, rfl⟩, rfl⟩, rfl⟩, rfl⟩

theorem narrows_application :
    ((symbol .application).upTo stops).Narrows k
      (symbol (.list .expression) ++ (symbol (.many .call)).upTo stops) := by
  refine Narrows.of_phrases ?_ (fun _ h => h) fun d _ _ _ _ _ => ?_
  · rintro _ ⟨_, ⟨args, rfl⟩, _, ⟨calls, rfl⟩, rfl⟩
    exact ⟨.application args calls, rfl⟩
  · cases d with
    | application args calls => exact ⟨_, ⟨args, rfl⟩, _, ⟨calls, rfl⟩, rfl⟩

theorem narrows_call :
    (symbol .call).Narrows k
      (token (.punct .dot) ++ (symbol .name ++ symbol (.list .expression))) := by
  refine Narrows.of_phrases ?_ (fun _ h => h) fun d _ _ _ _ _ => ?_
  · rintro _ ⟨_, rfl, _, ⟨_, ⟨m, rfl⟩, _, ⟨args, rfl⟩, rfl⟩, rfl⟩
    exact ⟨.call m args, rfl⟩
  · cases d with
    | call m args => exact ⟨_, rfl, _, ⟨_, ⟨m, rfl⟩, _, ⟨args, rfl⟩, rfl⟩, rfl⟩

/-! ## Statements -/

theorem narrows_ret :
    (symbol .simple).Narrows (.keyword .returnKw)
      (token (.keyword .returnKw) ++ (symbol .expression).upTo Symbol.simple.stops) := by
  refine Narrows.of_phrases ?_ (fun _ h => h) fun d _ _ _ _ heq => ?_
  · rintro _ ⟨_, rfl, _, ⟨x, rfl⟩, rfl⟩
    exact ⟨.ret x, rfl⟩
  · cases d with
    | ret x => exact ⟨_, rfl, _, ⟨x, rfl⟩, rfl⟩
    | print args => cases heq
    | assign target value =>
        simp only [Phrase.kinds, List.append_assoc] at heq
        exact absurd heq.symm (target.heads.ne rfl rfl)
    | apply callee applied => exact absurd heq.symm ((callee.heads_append applied rfl).ne rfl rfl)

theorem narrows_print :
    (symbol .simple).Narrows (.keyword .printKw)
      (token (.keyword .printKw)
        ++ (symbol (.option (.list .expression))).upTo Symbol.simple.stops) := by
  refine Narrows.of_phrases ?_ (fun _ h => h) fun d _ _ _ _ heq => ?_
  · rintro _ ⟨_, rfl, _, ⟨args, rfl⟩, rfl⟩
    exact ⟨.print args, rfl⟩
  · cases d with
    | ret x => cases heq
    | print args => exact ⟨_, rfl, _, ⟨args, rfl⟩, rfl⟩
    | assign target value =>
        simp only [Phrase.kinds, List.append_assoc] at heq
        exact absurd heq.symm (target.heads.ne rfl rfl)
    | apply callee applied => exact absurd heq.symm ((callee.heads_append applied rfl).ne rfl rfl)

/-- What stands behind the path at the start of a statement. -/
def pathRest : Shape :=
  (either (token (.punct .assign) ++ symbol .expression) (symbol .application)).upTo
    Symbol.simple.stops

theorem narrows_pathRest (hret : k ≠ .keyword .returnKw) (hprint : k ≠ .keyword .printKw) :
    (symbol .simple).Narrows k (symbol .path ++ pathRest) := by
  refine Narrows.of_phrases ?_ (fun _ h => h) fun d _ _ _ _ heq => ?_
  · rintro _ ⟨_, ⟨p, rfl⟩, _, ⟨_, rfl, _, ⟨value, rfl⟩, rfl⟩ | ⟨applied, rfl⟩, rfl⟩
    · exact ⟨.assign p value, rfl⟩
    · exact ⟨.apply p applied, rfl⟩
  · cases d with
    | ret x => exact absurd (List.cons.inj heq).1.symm hret
    | print args => exact absurd (List.cons.inj heq).1.symm hprint
    | assign target value =>
        exact ⟨_, ⟨target, rfl⟩, _, .inl ⟨_, rfl, _, ⟨value, rfl⟩, rfl⟩, rfl⟩
    | apply callee applied => exact ⟨_, ⟨callee, rfl⟩, _, .inr ⟨applied, rfl⟩, rfl⟩

theorem narrows_block :
    (symbol .block).Narrows k
      (token .newline ++ (token .indent
        ++ ((symbol (.many .statement)).upTo (· = .dedent) ++ token .dedent))) := by
  refine Narrows.of_phrases ?_ (fun _ h => h) fun d _ _ _ _ _ => ?_
  · rintro _ ⟨_, rfl, _, ⟨_, rfl, _, ⟨_, ⟨body, rfl⟩, _, rfl, rfl⟩, rfl⟩, rfl⟩
    exact ⟨.block body, rfl⟩
  · cases d with
    | block body => exact ⟨_, rfl, _, ⟨_, rfl, _, ⟨_, ⟨body, rfl⟩, _, rfl, rfl⟩, rfl⟩, rfl⟩

theorem narrows_simple (hclass : k ≠ .keyword .classKw) (hif : k ≠ .keyword .ifKw) :
    (symbol .statement).Narrows k (symbol .simple ++ token .newline) := by
  refine Narrows.of_phrases ?_ (fun _ _ => rfl) fun d _ _ _ _ heq => ?_
  · rintro _ ⟨_, ⟨x, rfl⟩, _, rfl, rfl⟩
    exact ⟨.simple x, rfl⟩
  · cases d with
    | simple x => exact ⟨_, ⟨x, rfl⟩, _, rfl, rfl⟩
    | conditional condition thenBody elseBody => exact absurd (List.cons.inj heq).1.symm hif
    | classDefinition n parent methods => exact absurd (List.cons.inj heq).1.symm hclass

theorem narrows_conditional :
    (symbol .statement).Narrows (.keyword .ifKw)
      (token (.keyword .ifKw) ++ (symbol .expression ++ (token (.punct .colon) ++ (symbol .block
        ++ (symbol (.option .alternative)).upTo Symbol.statement.stops)))) := by
  refine Narrows.of_phrases ?_ (fun _ h => h) fun d _ _ _ _ heq => ?_
  · rintro _ ⟨_, rfl, _, ⟨_, ⟨condition, rfl⟩, _, ⟨_, rfl, _, ⟨_, ⟨thenBody, rfl⟩, _,
      ⟨elseBody, rfl⟩, rfl⟩, rfl⟩, rfl⟩, rfl⟩
    exact ⟨.conditional condition thenBody elseBody, by simp⟩
  · cases d with
    | simple x =>
        simp only [Phrase.kinds, List.append_assoc] at heq
        exact absurd heq.symm (x.heads.ne rfl rfl)
    | conditional condition thenBody elseBody =>
        exact ⟨_, rfl, _, ⟨_, ⟨condition, rfl⟩, _, ⟨_, rfl, _, ⟨_, ⟨thenBody, rfl⟩, _,
          ⟨elseBody, rfl⟩, rfl⟩, rfl⟩, rfl⟩, by simp⟩
    | classDefinition n parent methods => cases heq

theorem narrows_alternative :
    ((symbol .alternative).upTo stops).Narrows k
      (token (.keyword .elseKw) ++ (token (.punct .colon) ++ symbol .block)) := by
  refine Narrows.of_phrases ?_ (fun _ _ => rfl) fun d _ _ _ _ _ => ?_
  · rintro _ ⟨_, rfl, _, ⟨_, rfl, _, ⟨body, rfl⟩, rfl⟩, rfl⟩
    exact ⟨.alternative body, rfl⟩
  · cases d with
    | alternative body => exact ⟨_, rfl, _, ⟨_, rfl, _, ⟨body, rfl⟩, rfl⟩, rfl⟩

theorem narrows_classDefinition :
    (symbol .statement).Narrows (.keyword .classKw)
      (token (.keyword .classKw) ++ (symbol .name ++ (symbol (.option .base)
        ++ (token (.punct .colon) ++ (token .newline ++ (token .indent
          ++ (symbol (.many .method) ++ token .dedent))))))) := by
  refine Narrows.of_phrases ?_ (fun _ _ => rfl) fun d _ _ _ _ heq => ?_
  · rintro _ ⟨_, rfl, _, ⟨_, ⟨n, rfl⟩, _, ⟨_, ⟨parent, rfl⟩, _, ⟨_, rfl, _, ⟨_, rfl, _, ⟨_, rfl, _,
      ⟨_, ⟨methods, rfl⟩, _, rfl, rfl⟩, rfl⟩, rfl⟩, rfl⟩, rfl⟩, rfl⟩, rfl⟩
    exact ⟨.classDefinition n parent methods, by simp⟩
  · cases d with
    | simple x =>
        simp only [Phrase.kinds, List.append_assoc] at heq
        exact absurd heq.symm (x.heads.ne rfl rfl)
    | conditional condition thenBody elseBody => cases heq
    | classDefinition n parent methods =>
        exact ⟨_, rfl, _, ⟨_, ⟨n, rfl⟩, _, ⟨_, ⟨parent, rfl⟩, _, ⟨_, rfl, _, ⟨_, rfl, _, ⟨_, rfl, _,
          ⟨_, ⟨methods, rfl⟩, _, rfl, rfl⟩, rfl⟩, rfl⟩, rfl⟩, rfl⟩, rfl⟩, by simp⟩

theorem narrows_base :
    ((symbol .base).upTo stops).Narrows k
      (token (.punct .leftParen) ++ (symbol .name ++ token (.punct .rightParen))) := by
  refine Narrows.of_phrases ?_ (fun _ _ => rfl) fun d _ _ _ _ _ => ?_
  · rintro _ ⟨_, rfl, _, ⟨_, ⟨n, rfl⟩, _, rfl, rfl⟩, rfl⟩
    exact ⟨.base n, rfl⟩
  · cases d with
    | base n => exact ⟨_, rfl, _, ⟨_, ⟨n, rfl⟩, _, rfl, rfl⟩, rfl⟩

theorem narrows_method :
    (symbol .method).Narrows k
      (token (.keyword .defKw) ++ (symbol .name ++ (symbol (.list .name)
        ++ (token (.punct .colon) ++ symbol .block)))) := by
  refine Narrows.of_phrases ?_ (fun _ h => h) fun d _ _ _ _ _ => ?_
  · rintro _ ⟨_, rfl, _, ⟨_, ⟨n, rfl⟩, _, ⟨_, ⟨params, rfl⟩, _, ⟨_, rfl, _, ⟨body, rfl⟩, rfl⟩, rfl⟩,
      rfl⟩, rfl⟩
    exact ⟨.method n params body, by simp⟩
  · cases d with
    | method n params body =>
        exact ⟨_, rfl, _, ⟨_, ⟨n, rfl⟩, _, ⟨_, ⟨params, rfl⟩, _, ⟨_, rfl, _, ⟨body, rfl⟩, rfl⟩, rfl⟩,
          rfl⟩, by simp⟩

end Shape
end Grammar
end Offside
