import ShellTokens.FirstWords.Basic

/-!
# Words with several holders

A holder can pass its words on in two ways: as a copy that goes its own way, or by letting another
holder see and change the very same words.
-/

namespace ShellTokens.FirstWords

/-- `cells` are the words that are kept apart, and `holders` says for each holder which of them it
holds. -/
structure Pool where
  cells : List FirstWords := [.untracked]
  holders : List Nat := [0]
  deriving DecidableEq, Repr

namespace Pool

/-- What a holder can do. Copying and sharing both add a holder at the end. -/
inductive Step where
  | change (c : Change)
  | fork
  | share
  deriving DecidableEq, Repr

/-- One step of one holder. A holder that is not there does nothing. -/
def perform (p : Pool) (holder : Nat) (s : Step) : Pool :=
  match p.holders[holder]? with
  | none => p
  | some cell =>
    match s with
    | .change c => { p with cells := p.cells.modify cell (·.change c) }
    | .fork => ⟨p.cells ++ [p.cells.getD cell .untracked], p.holders ++ [p.cells.length]⟩
    | .share => { p with holders := p.holders ++ [cell] }

def words (p : Pool) : List (Option String) :=
  p.holders.map fun cell => (p.cells.getD cell .untracked).word?

end Pool

end ShellTokens.FirstWords
