import Blade.Lexer.Step

/-!
# Lexer — Pull

Tokens taken from a lexer one at a time.  A pull hands out the first token that is queued and steps
the lexer while none is; once the input has ended every pull hands out the end of input, and once
the lexer has failed every pull fails again after the queued tokens are gone.
-/

namespace Blade.Lexer

variable [Limits]

/-- What is left to do: the characters to read, and the end of input to notice. -/
def workLeft (l : Lexer) : Nat :=
  l.cursor.rest.length + if l.finished.isSome then 0 else 1

theorem workLeft_step_lt {l : Lexer} (hf : l.finished = none) (he : l.step.error = none) :
    l.step.workLeft < l.workLeft := by
  by_cases h : l.cursor.rest = []
  · obtain ⟨hfin, hrest⟩ := finished_step h he
    simp [workLeft, hfin, hrest, hf]
  · obtain ⟨hlt, hfin⟩ := advances_step h he
    simp only [workLeft, hfin, hf]
    simpa using hlt

/-- The end-of-input token. -/
def eofToken (stop : Position) : LocatedToken :=
  ⟨.eof, .point stop⟩

/-- The next token from the queue, or from as many steps as it takes. -/
def produce (l : Lexer) : Except LexError LocatedToken × Lexer :=
  match l.queue with
  | token :: queue => (.ok token, { l with queue })
  | [] =>
      match l.error with
      | some e => (.error e, l)
      | none =>
          match _hf : l.finished with
          | some stop => (.ok (eofToken stop), l)
          | none =>
              let stepped := l.step
              match _he : stepped.error with
              | some e => (.error e, stepped)
              | none => produce stepped
termination_by l.workLeft
decreasing_by exact workLeft_step_lt _hf _he

/-- The next token, which stays to be taken. -/
def peek (l : Lexer) : Except LexError LocatedToken × Lexer :=
  match l.peeked with
  | some token => (.ok token, l)
  | none =>
      match l.produce with
      | (.ok token, l) => (.ok token, { l with peeked := some token })
      | (.error e, l) => (.error e, l)

/-- Takes the next token. -/
def next (l : Lexer) : Except LexError LocatedToken × Lexer :=
  match l.peeked with
  | some token => (.ok token, { l with peeked := none })
  | none => l.produce

/-- Takes tokens up to the end of input, after those in `taken` and no more than `allowance` besides
the end of input; one token more is an error at that token. -/
def collectFrom (taken : Array LocatedToken) (l : Lexer) (allowance : Nat) :
    Except LexError (Array LocatedToken) × Lexer :=
  match l.next with
  | (.error e, l) => (.error e, l)
  | (.ok token, l) =>
      if token.value.isEof then (.ok (taken.push token), l)
      else
        match allowance with
        | 0 =>
            let e : LexError :=
              ⟨.tooManyTokens (taken.size + 1) Limits.tokenCount, token.span, l.source⟩
            (.error e, l.fail e)
        | allowance + 1 => collectFrom (taken.push token) l allowance

/-- Takes all tokens up to and including the end of input. -/
def collect (l : Lexer) : Except LexError (Array LocatedToken) × Lexer :=
  collectFrom #[] l Limits.tokenCount

end Blade.Lexer
