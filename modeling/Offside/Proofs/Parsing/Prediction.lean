import Offside.Proofs.Grammar.Context
import Offside.Proofs.Grammar.Productions

/-!
# Predictions — parsers that go wrong at the first wrong token

A parser decides by one token at a time.  This file says what it means that it never decides too late:

* `Parser.Predicts a p s`: from the state `s`, what `p` takes is forced by the shape `a`, and a token
  that it refuses is refused by the shape;
* `Parser.Exact a p`: so it is from every state in which a text can be read;
* `Parser.Silent p`: the parser takes and refuses no token.

Exactness is closed under composition (`Exact.bind`), and repetition, lists and chains of operators are
exact where their items are.  Errors that are not about tokens are left out of account.
-/

namespace Offside

open Grammar

/-! ## Operators ahead -/

namespace Grammar

theorem Level.stops_joint (l : Level) (j : Joint l) :
    (Symbol.expr (.chain l)).stops j.kind = false := by
  simp [Symbol.stops, j.looseness_kind]

/-- A token that is no operator of a level starts no link of it. -/
theorem Level.starts_of_op?_eq_none {l : Level} {k : Kind} (h : l.op? k = none) :
    (Symbol.link l).starts k = false := by
  refine eq_false_of_ne_true fun hk => ?_
  have hk : looseness k = (Rung.chain l).rank := of_decide_eq_true hk
  unfold looseness at hk
  split at hk <;> cases l <;> cases hk <;> cases h

end Grammar

/-! ## Tokens ahead -/

namespace ParseState

/-- The tokens ahead. -/
def tokens (s : ParseState Stream) : List Token :=
  s.current :: s.upcoming

/-- Without a lexical error ahead, the end of the input stands at the end, and nowhere else. -/
def Closed (s : ParseState Stream) : Prop :=
  s.fault = none → Ends (s.tokens.map (·.kind))

theorem Closed.of_eq {s t : ParseState Stream} (hs : s.Closed) (htokens : t.tokens = s.tokens)
    (hfault : t.fault = s.fault) : t.Closed := by
  rwa [Closed, htokens, hfault]

theorem kinds_eq {s : ParseState Stream} {read later : List Token} {token : Token}
    (h : s.tokens = read ++ token :: later) :
    read.map (·.kind) ++ token.kind :: later.map (·.kind)
      = s.current.kind :: s.upcoming.map (·.kind) := by
  have hmap := congrArg (List.map (·.kind)) h
  rw [List.map_append, List.map_cons] at hmap
  exact hmap.symm

end ParseState

namespace Parser

open Shape (token symbol nothing)

variable {α β : Type} {a b : Shape} {p : Parser Stream α} {f : α → Parser Stream β}
  {s : ParseState Stream} {stops starts : Kind → Bool}

/-! ## Steps that take no token -/

/-- The parser leaves the tokens ahead as they are, and its errors are not about them. -/
structure Silent (p : Parser Stream α) : Prop where
  ok : ∀ ⦃s t : ParseState Stream⦄ ⦃x : α⦄, p s = .ok x t → t.tokens = s.tokens ∧ t.fault = s.fault
  not_refused : ∀ {s t : ParseState Stream} {expected : Expected} {found : Token},
    p s ≠ .error (.error (.unexpectedToken expected found)) t

namespace Silent

theorem pure (x : α) : Silent (pure x : Parser Stream α) where
  ok _ _ _ h := by
    cases h
    exact ⟨rfl, rfl⟩
  not_refused := nofun

theorem fail {e : ParseError} (he : ∀ expected found, e ≠ .unexpectedToken expected found) :
    Silent (fail e : Parser Stream α) where
  ok _ _ _ := nofun
  not_refused {_ _ expected found} h := by
    cases h
    exact he expected found rfl

theorem line : Silent Parser.line where
  ok _ _ _ h := by
    cases h
    exact ⟨rfl, rfl⟩
  not_refused := nofun

theorem class? (name : String) : Silent (Parser.class? name) where
  ok _ _ _ h := by
    cases h
    exact ⟨rfl, rfl⟩
  not_refused := nofun

theorem declare (c : Class) : Silent (Parser.declare c) where
  ok _ _ _ h := by
    cases h
    exact ⟨rfl, rfl⟩
  not_refused := nofun

theorem bind (hp : Silent p) (hf : ∀ x, Silent (f x)) : Silent (p >>= f) where
  ok s t y h := by
    rcases bind_eq_ok h with ⟨x, u, hx, hy⟩
    rcases hp.ok hx with ⟨htokens, hfault⟩
    rcases (hf x).ok hy with ⟨htokens', hfault'⟩
    exact ⟨htokens'.trans htokens, hfault'.trans hfault⟩
  not_refused h := by
    rcases bind_eq_error h with hfirst | ⟨x, u, -, hsecond⟩
    · exact hp.not_refused hfirst
    · exact (hf x).not_refused hsecond

end Silent

/-! ## Predictions -/

/-- What the parser takes from the state is a word of `a`, and no other can be read; what it refuses, `a`
refuses. -/
structure Predicts (a : Shape) (p : Parser Stream α) (s : ParseState Stream) : Prop where
  ok : ∀ ⦃x : α⦄ ⦃t : ParseState Stream⦄, p s = .ok x t →
    t.Closed ∧ ∃ read, s.tokens = read ++ t.tokens
      ∧ a.Forces (read.map (·.kind)) t.current.kind
  refused : ∀ ⦃expected : Expected⦄ ⦃found : Token⦄ ⦃t : ParseState Stream⦄,
    p s = .error (.error (.unexpectedToken expected found)) t →
      ∃ before after, s.tokens = before ++ found :: after
        ∧ a.Refuses (before.map (·.kind)) found.kind

def Exact (a : Shape) (p : Parser Stream α) : Prop :=
  ∀ ⦃s : ParseState Stream⦄, s.Closed → Predicts a p s

namespace Predicts

theorem bind (hp : Predicts a p s) (hab : a.Precedes b) (hf : ∀ x, Exact b (f x)) :
    Predicts (a ++ b) (p >>= f) s where
  ok y t h := by
    rcases bind_eq_ok h with ⟨x, u, hx, hy⟩
    rcases hp.ok hx with ⟨hu, front, hfront, hforces⟩
    rcases (hf x hu).ok hy with ⟨ht, back, hback, hforces'⟩
    refine ⟨ht, front ++ back, by rw [hfront, hback, List.append_assoc], ?_⟩
    rw [List.map_append]
    exact hforces.append hforces' hab (ParseState.kinds_eq hback)
  refused expected found t h := by
    rcases bind_eq_error h with hfirst | ⟨x, u, hx, hsecond⟩
    · rcases hp.refused hfirst with ⟨before, after, htokens, hrefuses⟩
      exact ⟨before, after, htokens, hrefuses.append hab⟩
    · rcases hp.ok hx with ⟨hu, front, hfront, hforces⟩
      rcases (hf x hu).refused hsecond with ⟨before, after, htokens, hrefuses⟩
      refine ⟨front ++ before, after, by rw [hfront, htokens, List.append_assoc], ?_⟩
      rw [List.map_append]
      exact hforces.append_refuses hrefuses hab (ParseState.kinds_eq htokens)

theorem bind_silent (hp : Predicts a p s) (hf : ∀ x, Silent (f x)) :
    Predicts a (p >>= f) s where
  ok y t h := by
    rcases bind_eq_ok h with ⟨x, u, hx, hy⟩
    rcases hp.ok hx with ⟨hu, read, hread, hforces⟩
    rcases (hf x).ok hy with ⟨htokens, hfault⟩
    have hcurrent : t.current = u.current := (List.cons.inj htokens).1
    exact ⟨hu.of_eq htokens hfault, read, by rw [hread, htokens], by rwa [hcurrent]⟩
  refused expected found t h := by
    rcases bind_eq_error h with hfirst | ⟨x, u, -, hsecond⟩
    · exact hp.refused hfirst
    · exact absurd hsecond (hf x).not_refused

theorem narrow (hb : Predicts b p s) (hab : a.Narrows s.current.kind b) : Predicts a p s where
  ok x t h := by
    rcases hb.ok h with ⟨ht, read, hread, hforces⟩
    exact ⟨ht, read, hread, hforces.narrow hab (ParseState.kinds_eq hread)⟩
  refused expected found t h := by
    rcases hb.refused h with ⟨before, after, htokens, hrefuses⟩
    exact ⟨before, after, htokens, hrefuses.narrow hab (ParseState.kinds_eq htokens)⟩

theorem narrow_at {k : Kind} (hb : Predicts b p s) (hk : s.current.kind = k)
    (hab : a.Narrows k b) : Predicts a p s := by
  subst hk
  exact hb.narrow hab

/-- The kind of the current token is looked at. -/
theorem kind {f : Kind → Parser Stream β} (h : Predicts a (f s.current.kind) s) :
    Predicts a (Parser.kind >>= f) s :=
  ⟨h.ok, h.refused⟩

theorem line {f : Nat → Parser Stream β} (h : Predicts a (f s.current.place.line) s) :
    Predicts a (Parser.line >>= f) s :=
  ⟨h.ok, h.refused⟩

theorem unexpected {expected : Expected} (h : a.Rejects s.current.kind) :
    Predicts a (Parser.unexpected expected : Parser Stream α) s where
  ok _ _ := nofun
  refused _ _ _ h' := by
    cases h'
    exact ⟨[], s.upcoming, rfl, h.refuses⟩

theorem exhausted : Predicts a (Parser.exhausted : Parser Stream α) s where
  ok _ _ := nofun
  refused _ _ _ := nofun

theorem advance {k : Kind} (hs : s.Closed) (hk : s.current.kind = k) (hne : k ≠ .endOfInput) :
    Predicts (token k) Parser.advance s where
  ok x t h := by
    subst hk
    rw [advance_of_ne hne] at h
    split at h
    next next later _ hup =>
      cases h
      refine ⟨fun hfault => ?_, [s.current], ?_, rfl, ?_⟩
      · have hends := hs hfault
        rw [ParseState.tokens, hup] at hends
        exact hends.tail hne
      · rw [ParseState.tokens, hup]
        rfl
      · rintro _ rest r ⟨rfl, -⟩ -
        rfl
    next => cases h
    next hup hfault =>
      -- Only the end of the input has no token after it.
      have hends := hs hfault
      rw [ParseState.tokens, hup] at hends
      exact absurd (hends.tail hne) id
  refused expected found t h := by
    rw [advance_of_ne (hk ▸ hne)] at h
    split at h <;> cases h

end Predicts

theorem Exact.bind (hp : Exact a p) (hab : a.Precedes b) (hf : ∀ x, Exact b (f x)) :
    Exact (a ++ b) (p >>= f) :=
  fun _ hs => (hp hs).bind hab hf

theorem Exact.bind_silent (hp : Exact a p) (hf : ∀ x, Silent (f x)) : Exact a (p >>= f) :=
  fun _ hs => (hp hs).bind_silent hf

theorem Exact.narrow (hb : Exact b p) (hab : ∀ k, a.Narrows k b) : Exact a p :=
  fun _ hs => (hb hs).narrow (hab _)

theorem Silent.exact (hp : Silent p) : Exact (nothing.upTo stops) p := by
  intro s hs
  refine ⟨fun x t h => ?_, fun expected found t h => absurd h hp.not_refused⟩
  rcases hp.ok h with ⟨htokens, hfault⟩
  exact ⟨hs.of_eq htokens hfault, [], htokens.symm, rfl, fun w' rest r hfit _ => hfit.word⟩

theorem Silent.bind_exact (hp : Silent p) (hf : ∀ x, Exact b (f x)) : Exact b (p >>= f) := by
  intro s hs
  constructor
  · intro y t h
    rcases bind_eq_ok h with ⟨x, u, hx, hy⟩
    rcases hp.ok hx with ⟨htokens, hfault⟩
    rw [← htokens]
    exact (hf x (hs.of_eq htokens hfault)).ok hy
  · intro expected found t h
    rcases bind_eq_error h with hfirst | ⟨x, u, hx, hsecond⟩
    · exact absurd hfirst hp.not_refused
    · rcases hp.ok hx with ⟨htokens, hfault⟩
      rw [← htokens]
      exact (hf x (hs.of_eq htokens hfault)).refused hsecond

/-! ## Single tokens -/

/-- The current token is all that is left of `a`. -/
theorem Predicts.advance_silent {k : Kind} (hs : s.Closed) (hk : s.current.kind = k)
    (hne : k ≠ .endOfInput) (ha : a.Narrows k (token k)) (hp : Silent p) :
    Predicts a (do Parser.advance; p) s := by
  subst hk
  exact ((advance hs rfl hne).bind_silent fun _ => hp).narrow ha

/-- The current token decides what is left of `a` behind it. -/
theorem Predicts.advance_exact {k : Kind} (hs : s.Closed) (hk : s.current.kind = k)
    (hne : k ≠ .endOfInput) (ha : a.Narrows k (token k ++ b)) (hp : Exact b p) :
    Predicts a (do Parser.advance; p) s := by
  subst hk
  exact ((advance hs rfl hne).bind (.of_stops fun _ => rfl) fun _ => hp).narrow ha

theorem exact_expect (k : Kind) (hk : k ≠ .endOfInput) : Exact (token k) (expect k) := by
  intro s hs
  refine Predicts.kind ?_
  split
  next heq => exact .advance hs heq hk
  next hne => exact .unexpected (Shape.rejects_token hne)

theorem exact_identifier : Exact (symbol .name) identifier := by
  intro s hs
  refine Predicts.kind ?_
  split
  next name heq =>
    exact .advance_silent hs heq nofun (Shape.narrows_name name) (.pure name)
  next hne =>
    refine .unexpected (Shape.rejects_symbol rfl ?_)
    cases hk : s.current.kind with
    | identifier name => exact absurd hk (hne name)
    | _ => rfl

/-! ## Repetition -/

variable {t : Symbol} {n : Nat}

/-- A repetition is exact where its items are, and where one token tells whether it goes on. The
parser may go on at more tokens than start an item, if these do not follow the repetition. -/
theorem exact_whileKind
    (hp : ∀ ⦃s⦄, s.Closed → starts s.current.kind = true → Predicts (symbol t) p s)
    (ht : t.nullable = false)
    (hstart : ∀ k, t.starts k = true → starts k = true ∧ t.stops k = true)
    (hstop : ∀ k, stops k = true → starts k = false ∧ t.stops k = true) :
    Exact ((symbol (.many t)).upTo stops) (whileKind starts p n) := by
  induction n with
  | zero => exact fun _ _ => .exhausted
  | succ n ih =>
      intro s hs
      refine Predicts.kind ?_
      have hitems : (symbol t).Precedes ((symbol (.many t)).upTo stops) :=
        .symbol (fun k hk => (hstart k hk).2) fun _ k hk => (hstop k hk).2
      -- Where the parser goes on, the repetition cannot end; where it ends, no item starts.
      split
      next hgoes =>
        have hstops : stops s.current.kind = false := by
          refine eq_false_of_ne_true fun hk => ?_
          rw [(hstop _ hk).1] at hgoes
          cases hgoes
        exact ((hp hs hgoes).bind hitems fun x => ih.bind_silent fun xs => .pure (x :: xs)).narrow
          (Shape.narrows_more hstops)
      next hends =>
        have hstarts : t.starts s.current.kind = false :=
          eq_false_of_ne_true fun hk => hends (hstart _ hk).1
        exact ((Silent.pure []).exact hs).narrow (Shape.narrows_done ht hstarts)

theorem predicts_after (hp : Exact (symbol t) p) {mark : Punct} (hs : s.Closed)
    (hk : s.current.kind = .punct mark) :
    Predicts (symbol (.after mark t)) (do Parser.advance; p) s :=
  .advance_exact hs hk nofun Shape.narrows_after hp

theorem exact_parenthesized {item : Parser Stream α} (hitem : Exact (symbol t) item)
    (ht : t.nullable = false) (hstart : t.starts (.punct .rightParen) = false)
    (hcomma : t.stops (.punct .comma) = true) (hclose : t.stops (.punct .rightParen) = true) :
    Exact (symbol (.list t)) (parenthesized item n) := by
  have hstops : ∀ k, (Symbol.many (.after .comma t)).stops k = true →
      decide (k = .punct .comma) = false ∧ t.stops k = true := by
    intro k hk
    simpa using hk
  have hcommas : ∀ k, (Symbol.after .comma t).starts k = true →
      decide (k = .punct .comma) = true ∧ t.stops k = true :=
    fun k hk => ⟨hk, of_decide_eq_true hk ▸ hcomma⟩
  have hrest : (symbol (.many (.after .comma t))).Precedes (token (.punct .rightParen)) :=
    .token (by simp [symbol, hclose])
  have hfirst : (symbol t).Precedes
      (symbol (.many (.after .comma t)) ++ token (.punct .rightParen)) :=
    .append (.symbol (fun k hk => (hcommas k hk).2) fun _ k hk => (hstops k hk).2) hrest
  have hopen := exact_expect (.punct .leftParen) nofun
  refine Exact.narrow (hopen.bind (.of_stops fun _ => rfl) fun _ s hs => ?_)
    fun _ => Shape.narrows_list
  refine Predicts.kind ?_
  -- The closing parenthesis starts no item, so it tells the empty list from the others.
  split
  next heq =>
    exact .advance_silent hs heq nofun
      (.left ((Shape.rejects_symbol ht hstart).append hfirst)) (.pure [])
  next hne =>
    have hitems : Exact (symbol (.many (.after .comma t)))
        (whileKind (· = .punct .comma) (do advance; item) n) :=
      exact_whileKind (fun _ hs hk => predicts_after hitem hs (of_decide_eq_true hk)) rfl hcommas
        hstops
    refine Predicts.narrow ?_ (.right (Shape.rejects_token hne))
    exact (hitem.bind hfirst fun x => hitems.bind hrest fun xs =>
      (exact_expect (.punct .rightParen) nofun).bind_silent fun _ => .pure (x :: xs)) hs

/-! ## Operators -/

variable {l : Level} {operand : Parser Stream Node}

theorem precedes_links : (symbol (.expr l.operand)).Precedes
    ((symbol (.many (.link l))).upTo (Symbol.expr (.chain l)).stops) :=
  .upTo (.of_symbols (Symbol.precedes_links l)) fun _ => Symbol.stops_links

theorem exact_leftChain (hoperand : Exact (symbol (.expr l.operand)) operand) (left : Node) :
    Exact ((symbol (.many (.link l))).upTo (Symbol.expr (.chain l)).stops)
      (leftChain operand l.op? n left) := by
  induction n generalizing left with
  | zero => exact fun _ _ => .exhausted
  | succ n ih =>
      intro s hs
      refine Predicts.kind ?_
      split
      next op hop =>
        rcases l.exists_joint hop with ⟨j, hk, -⟩
        -- An operator of the level leaves a link and the rest of the chain.
        have hlink := (Shape.narrows_more (l.stops_joint j)).trans
          ((Shape.narrows_link j).append precedes_links)
        rw [Shape.append_assoc] at hlink
        exact .advance_exact hs hk j.kind_ne_endOfInput hlink
          (hoperand.bind precedes_links fun right => ih (op left right))
      next hop =>
        exact ((Silent.pure left).exact hs).narrow
          (Shape.narrows_done rfl (l.starts_of_op?_eq_none hop))

theorem exact_chain (hoperand : Exact (symbol (.expr l.operand)) operand) :
    Exact (symbol (.expr (.chain l))) (operand >>= leftChain operand l.op? n) :=
  (hoperand.bind precedes_links fun left => exact_leftChain hoperand left).narrow
    fun _ => Shape.narrows_chain

end Parser
end Offside
