import Offside.Token.Stream

/-!
# Token sources — what a parser pulls its tokens from

This file says what a parser needs of the place that its tokens come from: one pull gives one token, or
the lexical error that stands where a token should be, and what is left.  The lexer is such a source, and
each pull is one call of it.  The stream of a whole text is another one.
-/

namespace Offside

/-- A source of tokens. Every pull of a token lowers its size, unless the token is the end of the input. -/
class TokenSource (σ : Type) where
  /-- The next token or error, and what is left. There is none where a list of tokens is used up. -/
  pull : σ → Option (Except LexError Token × σ)
  size : σ → Nat
  size_lt_of_pull {source after : σ} {token : Token} (h : pull source = some (.ok token, after))
    (hend : token.kind ≠ .endOfInput) : size after < size source

/-- The lexer answers every call. -/
instance : TokenSource Lexer where
  pull l := some l.next
  size := Lexer.work
  size_lt_of_pull {l after token} h hend := by
    have hnext : l.next = (.ok token, after) := Option.some.inj h
    -- Of all calls only one that reports the end of the input may leave the work as it is.
    rcases l.work_next with ⟨place, hlast⟩ | hlt
    · rw [hnext] at hlast
      cases hlast
      exact absurd rfl hend
    · rwa [hnext] at hlt

/-- The first token of a stream. The fault of the stream stays where it is. -/
def Stream.pull : Stream → Option (Except LexError Token × Stream)
  | ⟨token :: later, fault⟩ => some (.ok token, ⟨later, fault⟩)
  | ⟨[], some e⟩ => some (.error e, ⟨[], some e⟩)
  | ⟨[], none⟩ => none

instance : TokenSource Stream where
  pull := Stream.pull
  size stream := stream.tokens.length
  size_lt_of_pull {stream after token} h _ := by
    rcases stream with ⟨_ | ⟨first, later⟩, fault⟩
    · cases fault <;> cases h
    · cases h
      exact Nat.lt_succ_self _

end Offside
