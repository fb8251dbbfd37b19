import Mathlib.Data.List.DropRight
import ShellTokens.Proofs.Prompt.Told

/-!
# Starting over at the prompt

Once a line has been cancelled, the prompt shows what a new one shows.
-/

namespace ShellTokens.Prompt

def Shown.isCancelled : Shown → Bool
  | .entry e => e.answer = .cancelled
  | _ => false

/-- What is on the screen up to the last line that was cancelled. -/
def upToCancelled (shown : List Shown) : List Shown := shown.rdropWhile (!·.isCancelled)

theorem upToCancelled_append {e : Entry} (he : e.answer = .cancelled) (shown : List Shown)
    {later : List Shown} (hl : later.any Shown.isCancelled = false) :
    upToCancelled (shown ++ [.entry e] ++ later) = shown ++ [.entry e] := by
  -- Seen from the end, all of `later` goes, and the cancelled line stays.
  have hdrop : ∀ x ∈ later.reverse, (!x.isCancelled) = true := by
    intro x hx
    rw [Bool.not_eq_true']
    exact Bool.eq_false_iff.2 fun hc =>
      Bool.eq_false_iff.1 hl (List.any_eq_true.2 ⟨x, List.mem_reverse.1 hx, hc⟩)
  have hkeep : (Shown.entry e).isCancelled = true := decide_eq_true he
  unfold upToCancelled List.rdropWhile
  rw [List.reverse_append, List.dropWhile_append_of_pos hdrop]
  simp [hkeep]

theorem any_isCancelled_shownOf (turns : Schedule) (text : String) (s : Scanner) :
    (shownOf turns text s).any Shown.isCancelled = false := by
  rw [shownOf, showing, List.any_map]
  exact List.any_eq_false.2 fun _ _ => Bool.false_ne_true

def Schedule.andThen (first : Schedule) (n : Nat) (later : Schedule) : Schedule :=
  fun i => if i < n then first i else later (i - n)

theorem Schedule.drop_andThen (first : Schedule) (n : Nat) (later : Schedule) :
    (first.andThen n later).drop n = later := by
  funext i
  show (if n + i < n then first (n + i) else later (n + i - n)) = later i
  rw [if_neg (by omega), Nat.add_sub_cancel_left]

theorem run_ctrlC {before : List Key} (hb : endInput [] before = false) :
    ∃ (n : Nat) (shown : Schedule → List Shown) (e : Entry), e.answer = .cancelled ∧
      (∃ typed, e.echo = typed ++ "^C\r\n") ∧ LooksAt n shown ∧
      (∀ turns, calls (shown turns ++ [.entry e]) = n + 2) ∧
      ∀ turns after, (run (before ++ ctrlC :: after) turns).shown =
          shown turns ++ [.entry e] ++ (run after (turns.drop (n + 2))).shown ∧
        (run (before ++ ctrlC :: after) turns).unread =
          (run after (turns.drop (n + 2))).unread := by
  obtain ⟨first, e, hf, hc, he, hm⟩ := entriesFrom_ctrlC [] "" 0 hb
  obtain ⟨t, n, shown, ht, hl, hn, ho⟩ := told_append_of_open hf (s := .fresh true) rfl
  refine ⟨n, shown, e, hc, he, hl, fun turns => ?_, fun turns after => ?_⟩
  · rw [calls_append, hn, calls, Shown.calls, hc]
    rfl
  · have htold : told turns (entries (before ++ ctrlC :: after)) (.fresh true) =
        following (shown turns ++ [.entry e])
          (told (turns.drop (n + 2)) (entries after) (.fresh true)) := by
      unfold entries
      rw [hm after, ho, told, hc]
      simp only [forgotten_eq ht, following_following, Schedule.drop_drop]
      rfl
    rw [run_eq, run_eq, htold]
    exact ⟨rfl, rfl⟩

/-- A Ctrl-C before the end of the input takes the prompt back to its start. What is shown from
there on is what a new prompt shows, whatever was typed and whatever came of it. The new prompt has
the turns that are left, and what has been shown before tells nothing about these. -/
theorem shown_after_ctrlC (before : List Key) (hb : endInput [] before = false)
    (after : List Key) :
    let handled (turns : Schedule) := upToCancelled (run (before ++ [ctrlC]) turns).shown
    let left (turns : Schedule) := turns.drop (calls (handled turns))
    let screen (turns : Schedule) := run (before ++ ctrlC :: after) turns
    (∀ turns, (∃ e typed, (handled turns).getLast? = some (.entry e) ∧ e.answer = .cancelled ∧
          (Shown.entry e).text = "> " ++ typed ++ "^C\r\n") ∧
        (screen turns).shown = handled turns ++ (run after (left turns)).shown ∧
        (screen turns).text =
          String.join ((handled turns).map Shown.text) ++ (run after (left turns)).text ∧
        (screen turns).unread = (run after (left turns)).unread) ∧
      ∀ first later, ∃ turns, handled turns = handled first ∧ left turns = later := by
  intro handled left screen
  obtain ⟨n, shown, e, hc, ⟨typed, he⟩, hl, hn, hrun⟩ := run_ctrlC hb
  have hnew (turns : Schedule) : (run [] turns).shown.any Shown.isCancelled = false := by
    rw [run_eq]
    show (Shown.entry ⟨"", .eof "", 0⟩ :: shownOf turns "\n" (.fresh true)).any _ = false
    rw [List.any_cons, any_isCancelled_shownOf]
    rfl
  have hh (turns : Schedule) : handled turns = shown turns ++ [.entry e] := by
    show upToCancelled (run (before ++ [ctrlC]) turns).shown = _
    rw [(hrun turns []).1, upToCancelled_append hc _ (hnew _)]
  have hleft (turns : Schedule) : left turns = turns.drop (n + 2) := by
    show turns.drop (calls (handled turns)) = _
    rw [hh, hn]
  refine ⟨fun turns => ?_, fun first later => ?_⟩
  · obtain ⟨hs, hu⟩ := hrun turns after
    rw [hh, hleft]
    refine ⟨⟨e, typed, List.getLast?_concat, hc, ?_⟩, hs, ?_, hu⟩
    · rw [Shown.text, he, String.append_assoc]
    · show String.join ((screen turns).shown.map Shown.text) = _
      rw [hs, List.map_append, String.join_append]
      rfl
  · -- The part up to the cancelled line has looked at the first turns only.
    refine ⟨first.andThen (n + 2) later, ?_, ?_⟩
    · rw [hh, hh, hl (first.andThen (n + 2) later) first fun i hi => if_pos (by omega)]
    · rw [hleft, Schedule.drop_andThen]

theorem shown_after_open_group :
    let typed (text : String) : List Key := text.toList.map (.char · {})
    let before := typed "( ls |" ++ [.enter] ++ typed "a 'b" ++ [.enter] ++ typed "c"
    let after := typed "d" ++ [.enter]
    let turns : Schedule := fun i => i % 2 == 0
    let handled := upToCancelled (run (before ++ [ctrlC]) turns).shown
    let screen := run (before ++ ctrlC :: after) turns
    endInput [] before = false ∧
      screen.shown = handled ++ (run after (turns.drop (calls handled))).shown ∧
      screen.shown.getLast? = some (.token ⟨.newline, "\n"⟩ "d") := by
  -- The line that is cancelled stands in an open group, in the middle of a quoted text. The scan
  -- task has every other turn.
  intro typed before after turns handled screen
  have hb : endInput [] before = false := by decide +kernel
  obtain ⟨-, hs, -⟩ := (shown_after_ctrlC before hb after).1 turns
  have hlast : (run after (turns.drop (calls handled))).shown.getLast? =
      some (.token ⟨.newline, "\n"⟩ "d") := by
    decide +kernel
  refine ⟨hb, hs, ?_⟩
  rw [hs, List.getLast?_append, hlast]
  rfl

end ShellTokens.Prompt
