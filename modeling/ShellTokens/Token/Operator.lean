import ShellTokens.Token.Kind

/-!
# Operators

Each operator has one spelling, and the name of the operation that it stands for.
-/

namespace ShellTokens

structure Operator where
  spelling : String
  kind : Kind
  name : String
  deriving DecidableEq, Repr

namespace Operator

def all : List Operator := [
  ⟨"!>", .redirect, "_redirect_stderr_"⟩,
  ⟨"!>>", .redirect, "_append_stderr_"⟩,
  ⟨"!|", .pipe, "_pipe_stderr_"⟩,
  ⟨"!|+", .pipe, "_channel_stderr_"⟩,
  ⟨"&", .background, "spawn"⟩,
  ⟨"&&", .and, "and"⟩,
  ⟨"<", .redirect, "_redirect_stdin_"⟩,
  ⟨"<(", .substitute, "_substitute_stdout_"⟩,
  ⟨">", .redirect, "_redirect_stdout_"⟩,
  ⟨">(", .substitute, "_substitute_stdin_"⟩,
  ⟨">>", .redirect, "_append_stdout_"⟩,
  ⟨"|", .pipe, "_pipe_stdout_"⟩,
  ⟨"|+", .pipe, "_channel_stdout_"⟩,
  ⟨"||", .or, "or"⟩]

def ofSpelling? (spelling : String) : Option Operator := all.find? (·.spelling = spelling)

def ofName? (name : String) : Option Operator := all.find? (·.name = name)

/-- A spelling belongs to one operator. -/
theorem ofSpelling?_spelling : ∀ o ∈ all, ofSpelling? o.spelling = some o := by decide

/-- A name belongs to one operator. -/
theorem ofName?_name : ∀ o ∈ all, ofName? o.name = some o := by decide

end Operator

end ShellTokens
