import ShellTokens.Prompt.Transcript
import ShellTokens.Proofs.Session.Script

/-!
# What keys come to

A key edits the line, or it answers the reader with what is on the line. Where the input ends, and
where a line is cancelled, the keys behind come to what they would come to alone.
-/

namespace ShellTokens.Prompt

/-! ## One key -/

def ctrlC : Key := .char 'c' onlyCtrl

def ctrlD : Key := .char 'd' onlyCtrl

namespace Key

/-- The characters on the line behind the key. -/
def edit (line : List Char) (key : Key) : List Char :=
  match key with
  | .char c _ => if key = ctrlC then [] else if key = ctrlD then line else line ++ [c]
  | .backspace => line.dropLast
  | .enter | .esc | .failure _ => []
  | .other => line

def endsInput (line : List Char) (key : Key) : Bool :=
  match key with
  | .esc | .failure _ => true
  | .char .. => key = ctrlD && line.isEmpty
  | _ => false

/-- What the key answers. -/
def answer? (line : List Char) (key : Key) : Option Answer :=
  match key with
  | .enter => some (.line (String.ofList (line ++ ['\n'])))
  | .esc => some (.eof (String.ofList line))
  | .failure reason => some (.fatal (String.ofList line) reason)
  | .char .. =>
    if key = ctrlC then some .cancelled
    else if key.endsInput line then some (.eof (String.ofList line))
    else none
  | _ => none

theorem isLast_answer? (line : List Char) (key : Key) :
    (key.answer? line).any Answer.isLast = key.endsInput line := by
  cases key with
  | char c held =>
    unfold answer?
    simp only
    split
    · next h =>
      rw [h]
      rfl
    · split
      · next h => exact h.symm
      · next h => exact (Bool.eq_false_iff.2 h).symm
  | _ => rfl

end Key

theorem press_eq (typed : List Char) (key : Key) :
    (press typed key).answer = key.answer? typed.reverse ∧
      (press typed key).typed.reverse = key.edit typed.reverse := by
  cases key with
  | char c held =>
    have hc : Key.char c held = ctrlC ↔ c = 'c' ∧ held = onlyCtrl := by
      rw [ctrlC, Key.char.injEq]
    have hd : Key.char c held = ctrlD ↔ c = 'd' ∧ held = onlyCtrl := by
      rw [ctrlD, Key.char.injEq]
    unfold press Key.answer? Key.edit Key.endsInput
    simp only [hc, hd]
    split
    · exact ⟨rfl, rfl⟩
    · split
      · cases typed <;> simp_all
      · simp_all
  | enter => exact ⟨by simp [press, Key.answer?, textOf], rfl⟩
  | backspace => cases typed <;> simp [press, Key.answer?, Key.edit]
  | _ => exact ⟨rfl, rfl⟩

/-! ## One key after the other -/

variable {typed : List Char} {echo : String} {n : Nat} {keys : List Key}

def endInput (line : List Char) : List Key → Bool
  | [] => false
  | key :: keys => key.endsInput line || endInput (key.edit line) keys

theorem entriesFrom_of_none {key : Key} (h : (press typed key).answer = none) :
    entriesFrom typed echo n (key :: keys) =
      entriesFrom (press typed key).typed (echo ++ (press typed key).echo) (n + 1) keys := by
  rw [entriesFrom]
  simp only [h]

theorem entriesFrom_of_some {key : Key} {a : Answer} (h : (press typed key).answer = some a) :
    entriesFrom typed echo n (key :: keys) =
      ⟨echo ++ (press typed key).echo, a, n + 1⟩ ::
        entriesFrom (press typed key).typed "" 0 keys := by
  rw [entriesFrom]
  simp only [h]

theorem isLast_entriesFrom (typed : List Char) (echo : String) (n : Nat) (keys : List Key) :
    (entriesFrom typed echo n keys).any (·.answer.isLast) = true := by
  induction keys generalizing typed echo n with
  | nil => rfl
  | cons key keys ih =>
    cases h : (press typed key).answer with
    | none =>
      rw [entriesFrom_of_none h]
      exact ih _ _ _
    | some a =>
      rw [entriesFrom_of_some h, List.any_cons, ih, Bool.or_true]

theorem events_entriesFrom (typed : List Char) (echo : String) (n m : Nat) (keys : List Key) :
    (entriesFrom typed echo n keys).foldl (fun n e => n + e.events) m = m + n + keys.length := by
  induction keys generalizing typed echo n m with
  | nil => rfl
  | cons key keys ih =>
    cases h : (press typed key).answer with
    | none =>
      rw [entriesFrom_of_none h, ih, List.length_cons]
      omega
    | some a =>
      rw [entriesFrom_of_some h, List.foldl_cons, ih, List.length_cons]
      show m + (n + 1) + 0 + keys.length = _
      omega

theorem entriesFrom_of_endInput (typed : List Char) (echo : String) (n : Nat)
    (h : endInput typed.reverse keys = true) :
    ∃ first line rest, first.any (·.answer.isLast) = true ∧ ∀ more,
      entriesFrom typed echo n (keys ++ more) = first ++ entriesFrom line "" 0 (rest ++ more) := by
  induction keys generalizing typed echo n with
  | nil => cases h
  | cons key keys ih =>
    obtain ⟨ha, ht⟩ := press_eq typed key
    have hl := key.isLast_answer? typed.reverse
    rw [endInput, ← hl, ← ha, ← ht] at h
    cases hp : (press typed key).answer with
    | none =>
      rw [hp] at h
      obtain ⟨first, line, rest, hf, hm⟩ := ih _ _ _ h
      refine ⟨first, line, rest, hf, fun more => ?_⟩
      rw [List.cons_append, entriesFrom_of_none hp]
      exact hm more
    | some a =>
      rw [hp, Bool.or_eq_true] at h
      cases hal : a.isLast with
      | true =>
        -- What is on the line behind the last text does not matter any more.
        refine ⟨[⟨echo ++ (press typed key).echo, a, n + 1⟩], (press typed key).typed, keys, ?_,
          fun more => ?_⟩
        · rw [List.any_cons, hal, Bool.true_or]
        · rw [List.cons_append, entriesFrom_of_some hp]
          rfl
      | false =>
        obtain ⟨first, line, rest, hf, hm⟩ := ih _ _ _ (h.resolve_left (by simp [hal]))
        refine ⟨⟨echo ++ (press typed key).echo, a, n + 1⟩ :: first, line, rest, ?_,
          fun more => ?_⟩
        · rw [List.any_cons, hf, Bool.or_true]
        · rw [List.cons_append, entriesFrom_of_some hp, hm more]
          rfl

/-- Before the end of the input, a cancelled line leaves nothing of what was typed. -/
theorem entriesFrom_ctrlC (typed : List Char) (echo : String) (n : Nat)
    (h : endInput typed.reverse keys = false) :
    ∃ first e, first.any (·.answer.isLast) = false ∧ e.answer = .cancelled ∧
      (∃ before, e.echo = before ++ "^C\r\n") ∧ ∀ more,
        entriesFrom typed echo n (keys ++ ctrlC :: more) = first ++ e :: entries more := by
  induction keys generalizing typed echo n with
  | nil => exact ⟨[], ⟨echo ++ "^C\r\n", .cancelled, n + 1⟩, rfl, rfl, ⟨echo, rfl⟩, fun _ => rfl⟩
  | cons key keys ih =>
    obtain ⟨ha, ht⟩ := press_eq typed key
    have hl := key.isLast_answer? typed.reverse
    rw [endInput, ← hl, ← ha, ← ht, Bool.or_eq_false_iff] at h
    cases hp : (press typed key).answer with
    | none =>
      obtain ⟨first, e, hf, hc, he, hm⟩ := ih _ _ _ h.2
      refine ⟨first, e, hf, hc, he, fun more => ?_⟩
      rw [List.cons_append, entriesFrom_of_none hp]
      exact hm more
    | some a =>
      rw [hp] at h
      obtain ⟨first, e, hf, hc, he, hm⟩ := ih _ _ _ h.2
      refine ⟨⟨echo ++ (press typed key).echo, a, n + 1⟩ :: first, e, ?_, hc, he, fun more => ?_⟩
      · rw [List.any_cons, hf, Bool.or_false]
        exact h.1
      · rw [List.cons_append, entriesFrom_of_some hp, hm more]
        rfl

end ShellTokens.Prompt
