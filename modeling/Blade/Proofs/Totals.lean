import Blade.Proofs.Lockstep

/-!
# Proofs — Totals

A lexer that is to gather no metrics for each kind of token goes through the same states as one that
is to gather them, but for these metrics: only the number of tokens and the depth of brackets are
kept (`Metrics.totals`).

* `neutral_totals`: lexing does not notice which metrics are dropped.
* `totalsOnly_after`: calls commute with dropping them.
-/

namespace Blade

/-- The metrics that are gathered in any case. -/
def Metrics.totals (m : Metrics) : Metrics :=
  { total := m.total, maxBracketDepth := m.maxBracketDepth }

/-- The preferences with metrics for each kind of token. -/
def Preferences.detailed (p : Preferences) : Preferences := { p with detailedMetrics := true }

/-- The preferences without metrics for each kind of token. -/
def Preferences.totalsOnly (p : Preferences) : Preferences := { p with detailedMetrics := false }

theorem Metrics.totals_count (m : Metrics) (detailed : Bool) (token : Token) :
    (m.count detailed token).totals = m.totals.count false token := by
  cases detailed with
  | false => rfl
  | true => cases token <;> rfl

theorem neutral_totals : Neutral Preferences.totalsOnly Metrics.totals where
  strict _ := rfl
  isTransparent _ _ := rfl
  isRawFunction _ _ _ := rfl
  count p m token := m.totals_count p.detailedMetrics token
  noteDepth _ _ := rfl

variable [Limits]

namespace Lexer

/-- The lexer without metrics for each kind of token. -/
def totalsOnly (l : Lexer) : Lexer :=
  { l with preferences := l.preferences.totalsOnly, metrics := l.metrics.totals }

/-- **Calls commute with dropping the metrics for each kind of token.** -/
theorem totalsOnly_after (l : Lexer) (calls : List Call) :
    l.totalsOnly.after calls = (l.after calls).totalsOnly :=
  neutral_totals.after l calls

end Lexer

end Blade
