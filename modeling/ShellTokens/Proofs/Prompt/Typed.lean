import ShellTokens.Proofs.Prompt.Told

/-!
# The prompt shows what was typed

The keys submit texts, and the prompt shows the tokens that one scanner makes of all these texts.
With each it shows the first word right after it, or where the scan task has been quicker, the one
right after the next token of the text.
-/

namespace ShellTokens.Prompt

variable {keys : List Key}

/-! ## The specification -/

/-- The texts that the keys submit when the characters are on the line already. Continued lines are
joined, and the last text gets a line end. -/
def textsFrom (line : List Char) : List Key → List String
  | [] => ["\n"]
  | key :: keys =>
    if key.endsInput line then [Text.joined (String.ofList line) ++ "\n"]
    else if key = .enter then
      Text.joined (String.ofList (line ++ ['\n'])) :: textsFrom [] keys
    else textsFrom (key.edit line) keys

def Shown.token? : Shown → Option (Token × Option String)
  | .token t word => some (t, some word)
  | _ => none

def Shown.line? : Shown → Option String
  | .token t word => some (Shown.token t word).text
  | _ => none

def blanks (n : Nat) : String := String.ofList (List.replicate n ' ')

/-- The tokens that one scanner makes of the texts one after the other, each with the first word
that is found when it is shown. -/
def seen : Schedule → List String → Scanner → List (Token × Option String)
  | _, [], _ => []
  | turns, text :: later, s =>
    let r := (s.append (Text.bytes text)).drain
    (found turns r.1).map (fun r => (r.1.toToken, r.2)) ++ seen (turns.drop r.1.length) later r.2

/-! ## Words that are found -/

theorem isSome_found {rs : List (Emission × Option String)} (h : ∀ r ∈ rs, r.2.isSome = true)
    (turns : Schedule) : ∀ r ∈ found turns rs, r.2.isSome = true := by
  induction rs generalizing turns with
  | nil => nofun
  | cons r later ih =>
    have hlater := fun r' hr' => h r' (List.mem_cons_of_mem r hr')
    intro r' hr'
    rcases List.mem_cons.1 hr' with rfl | hr'
    · have hr := h r List.mem_cons_self
      unfold foundWord
      cases later with
      | nil => split <;> exact hr
      | cons next later =>
        split
        · exact hlater next List.mem_cons_self
        · exact hr
    · exact ih hlater _ r' hr'

theorem found_idle (rs : List (Emission × Option String)) : found .idle rs = rs := by
  induction rs with
  | nil => rfl
  | cons r later ih =>
    show (r.1, r.2) :: found .idle later = _
    rw [ih]

theorem fst_seen {texts : List String} (hne : texts ≠ []) {s : Scanner} (hs : s.cursor.Sound)
    (turns : Schedule) :
    (seen turns texts s).map (·.1) =
      (s.append (Text.bytes (String.join texts))).emissions.map Emission.toToken := by
  have hfst (turns : Schedule) (rs : List (Emission × Option String)) :
      ((found turns rs).map fun r => (r.1.toToken, r.2)).map (·.1) =
        (rs.map (·.1)).map Emission.toToken := by
    rw [← fst_found turns rs, List.map_map, List.map_map]
    rfl
  induction texts generalizing s turns with
  | nil => exact absurd rfl hne
  | cons text later ih =>
    rw [seen, List.map_append, hfst, String.join_cons, Text.bytes_append]
    cases later with
    | nil =>
      rw [seen, List.map_nil, List.append_nil, String.join_nil, Text.bytes_empty, List.append_nil]
      rfl
    | cons text' later =>
      have hb := Scanner.sound_behind (Scanner.sound_append hs (Text.bytes text))
      rw [(Scanner.emissions_append_append hs _ _).1, List.map_append]
      exact congrArg _ (ih (List.cons_ne_nil text' later) hb _)

theorem seen_idle {texts : List String} (hne : texts ≠ []) {s : Scanner} (hs : s.cursor.Sound) :
    seen .idle texts s = (s.append (Text.bytes (String.join texts))).drain.1.map
      fun r => (r.1.toToken, r.2) := by
  induction texts generalizing s with
  | nil => exact absurd rfl hne
  | cons text later ih =>
    rw [seen, found_idle, String.join_cons, Text.bytes_append]
    cases later with
    | nil =>
      rw [seen, List.append_nil, String.join_nil, Text.bytes_empty, List.append_nil]
    | cons text' later =>
      have hb := Scanner.sound_behind (Scanner.sound_append hs (Text.bytes text))
      rw [Scanner.drain_append_append hs, List.map_append]
      exact congrArg _ (ih (List.cons_ne_nil text' later) hb)

/-! ## Lines -/

theorem Shown.line?_eq (x : Shown) :
    x.line? = x.token?.map fun r => "  " ++ r.1.display ++ blanks (32 - r.1.display.length) ++
      " first word " ++ Text.quoted (r.2.getD "") ++ "\r\n" := by
  cases x with
  | token t word =>
    have hp : padded 32 t.display = t.display ++ blanks (32 - t.display.length) := by
      unfold padded blanks
      rw [List.rightpad, String.ofList_append, String.ofList_toList, String.length_toList]
    show some (Shown.token t word).text = _
    rw [Shown.text, hp, ← String.append_assoc]
    rfl
  | entry e => rfl
  | failure f => rfl

/-! ## Texts and entries -/

theorem token?_shownOf {s : Scanner} (hs : s.words.word?.isSome = true) (turns : Schedule)
    (text : String) :
    (shownOf turns text s).filterMap Shown.token? =
      (found turns (s.append (Text.bytes text)).drain.1).map fun r => (r.1.toToken, r.2) := by
  have hw : (s.append (Text.bytes text)).words.word?.isSome = true := by
    rw [Scanner.words_append]
    exact hs
  have hwords : ∀ r ∈ (s.append (Text.bytes text)).drain.1, r.2.isSome = true := by
    rw [(Scanner.drain_words _).1]
    exact Emission.isSome_withWords hw _
  have hsome := isSome_found hwords turns
  have htoken : Shown.token? ∘ Shown.ofEmission =
      some ∘ fun r => (r.1.toToken, some (r.2.getD "")) := rfl
  unfold shownOf showing
  rw [List.filterMap_map, htoken, List.filterMap_eq_map]
  refine List.map_congr_left fun r hr => ?_
  obtain ⟨word, hword⟩ := Option.isSome_iff_exists.1 (hsome r hr)
  rw [hword, Option.getD_some]

theorem answer?_eq {key : Key} (line : List Char) (hc : key ≠ ctrlC)
    (hf : ∀ reason, key ≠ .failure reason) :
    key.answer? line =
      if key.endsInput line then some (.eof (String.ofList line))
      else if key = .enter then some (.line (String.ofList (line ++ ['\n'])))
      else none := by
  cases key with
  | char c held =>
    unfold Key.answer?
    simp [hc]
  | failure reason => exact absurd rfl (hf reason)
  | _ => rfl

theorem token?_told (typed : List Char) (echo : String) (n : Nat) (hc : ctrlC ∉ keys)
    (hf : ∀ reason, .failure reason ∉ keys) {s : Scanner} (hw : s.words.word?.isSome = true)
    (turns : Schedule) :
    (told turns (entriesFrom typed echo n keys) s).1.filterMap Shown.token? =
      seen turns (textsFrom typed.reverse keys) s := by
  have hlast (turns : Schedule) (text : String) (s : Scanner) (hw : s.words.word?.isSome = true) :
      (shownOf turns text s).filterMap Shown.token? = seen turns [text] s := by
    rw [token?_shownOf hw, seen, seen, List.append_nil]
  induction keys generalizing typed echo n s turns with
  | nil => exact hlast turns "\n" s hw
  | cons key keys ih =>
    rw [List.mem_cons, not_or] at hc
    have hfk : ∀ reason, key ≠ .failure reason := fun reason h =>
      hf reason (h ▸ List.mem_cons_self)
    have hfl : ∀ reason, .failure reason ∉ keys := fun reason h =>
      hf reason (List.mem_cons_of_mem key h)
    obtain ⟨ha, ht⟩ := press_eq typed key
    rw [answer?_eq _ (Ne.symm hc.1) hfk] at ha
    unfold textsFrom
    by_cases hend : key.endsInput typed.reverse = true
    · rw [if_pos hend] at ha ⊢
      rw [entriesFrom_of_some ha, told, ← hlast turns _ s hw]
      rfl
    · rw [if_neg hend] at ha ⊢
      by_cases henter : key = .enter
      · rw [if_pos henter] at ha ⊢
        let text := Text.joined (String.ofList (typed.reverse ++ ['\n']))
        have hwb := (s.isSome_word?_behind_append (Text.bytes text)).trans hw
        have hrest := ih (press typed key).typed "" 0 hc.2 hfl hwb
          (turns.drop (shownOf turns text s).length)
        have hedit : key.edit typed.reverse = [] := by rw [henter]; rfl
        have hlen : (shownOf turns text s).length =
            (s.append (Text.bytes text)).drain.1.length := length_showing _ _
        rw [ht, hedit] at hrest
        rw [entriesFrom_of_some ha, seen, ← token?_shownOf hw, ← hlen]
        show List.filterMap Shown.token? ([_] ++ (shownOf turns text s ++ _)) = _
        rw [List.filterMap_append, List.filterMap_append]
        exact congrArg (List.filterMap Shown.token? (shownOf turns text s) ++ ·) hrest
      · rw [if_neg henter] at ha ⊢
        rw [entriesFrom_of_none ha, ← ht]
        exact ih _ _ _ hc.2 hfl hw turns

theorem textsFrom_ne_nil (line : List Char) (keys : List Key) : textsFrom line keys ≠ [] := by
  induction keys generalizing line with
  | nil => exact List.cons_ne_nil _ _
  | cons key keys ih =>
    unfold textsFrom
    repeat' split
    · exact List.cons_ne_nil _ _
    · exact List.cons_ne_nil _ _
    · exact ih _

/-- The prompt prints a line for each token of what was typed, whatever turns the scan task has. The
first word that stands in it is the one right after the token, unless the task has been quicker.
Keys behind the end of the input are not even read. -/
theorem shown_typed (keys : List Key) (hc : ctrlC ∉ keys)
    (hf : ∀ reason, .failure reason ∉ keys) (turns : Schedule) :
    let texts := textsFrom [] keys
    let whole := ((Scanner.fresh true).append (Text.bytes (String.join texts))).drain.1
    let printed := seen turns texts (.fresh true)
    (run keys turns).shown.filterMap Shown.token? = printed ∧
      (run keys turns).shown.filterMap Shown.line? = printed.map (fun r =>
        "  " ++ r.1.display ++ blanks (32 - r.1.display.length) ++ " first word " ++
          Text.quoted (r.2.getD "") ++ "\r\n") ∧
      printed.map (·.1) = whole.map (·.1.toToken) ∧
      (turns = .idle → printed = whole.map fun r => (r.1.toToken, r.2)) ∧
      (endInput [] keys = true → ∀ more,
        (run (keys ++ more) turns).shown = (run keys turns).shown ∧
        (run (keys ++ more) turns).unread = (run keys turns).unread + more.length) := by
  intro texts whole printed
  have hne : texts ≠ [] := textsFrom_ne_nil [] keys
  have htokens : (run keys turns).shown.filterMap Shown.token? = printed := by
    rw [run_eq]
    exact token?_told [] "" 0 hc hf rfl turns
  refine ⟨htokens, ?_, ?_, ?_, fun he more => ?_⟩
  · rw [← htokens, List.map_filterMap]
    exact congrArg (List.filterMap · _) (funext Shown.line?_eq)
  · rw [fst_seen hne (Scanner.sound_fresh true), Scanner.emissions, List.map_map]
    rfl
  · rintro rfl
    exact seen_idle hne (Scanner.sound_fresh true)
  · obtain ⟨first, line, rest, hfirst, hm⟩ := entriesFrom_of_endInput [] "" 0 he
    have hrun (more : List Key) : run (keys ++ more) turns = ⟨(told turns first (.fresh true)).1,
        (told turns first (.fresh true)).2.foldl (fun n e => n + e.events) 0 +
          (rest.length + more.length)⟩ := by
      rw [run_eq]
      unfold entries
      rw [hm more, told_append_of_last hfirst, List.foldl_append, events_entriesFrom,
        List.length_append]
      rfl
    have hnone := hrun []
    rw [List.append_nil] at hnone
    rw [hrun more, hnone]
    refine ⟨rfl, ?_⟩
    show _ + (rest.length + more.length) = _ + (rest.length + 0) + more.length
    omega

theorem shown_edited :
    let typed (text : String) : List Key := text.toList.map (.char · {})
    let keys := typed "lsx" ++ [.backspace] ++ typed " (a\\" ++ [.enter] ++ typed "b" ++
      [ctrlD, .char 'c' { ctrl := true, shift := true }, .other, .esc]
    let turns : Schedule := fun i => i < 2
    ctrlC ∉ keys ∧ (∀ reason, .failure reason ∉ keys) ∧ endInput [] keys = true ∧
      textsFrom [] keys = ["ls (a", "bc\n"] ∧
      (run keys turns).shown.filterMap Shown.token? = [(⟨.symbol, "ls"⟩, some ""),
        (⟨.openParen, "("⟩, some ""), (⟨.symbol, "abc"⟩, some "abc"),
        (⟨.newline, "\n"⟩, some "abc")] ∧
      (run (keys ++ typed "d" ++ [.enter]) turns).shown = (run keys turns).shown := by
  -- A character is taken back, a line is continued in the middle of a word, the keys for
  -- cancelling and for the end of input are typed where they are none, and another line is typed
  -- behind the end. The scan task has its turn before the first two words are read, and there is
  -- another token in the first text only once.
  intro typed keys turns
  have hc : ctrlC ∉ keys := by decide +kernel
  have hf : ∀ reason, .failure reason ∉ keys := by
    intro reason
    simp [keys, typed, ctrlD]
  have he : endInput [] keys = true := by decide +kernel
  have ht : textsFrom [] keys = ["ls (a", "bc\n"] := by decide +kernel
  have hseen : seen turns (textsFrom [] keys) (.fresh true) = [(⟨.symbol, "ls"⟩, some ""),
      (⟨.openParen, "("⟩, some ""), (⟨.symbol, "abc"⟩, some "abc"),
      (⟨.newline, "\n"⟩, some "abc")] := by
    rw [ht]
    decide +kernel
  obtain ⟨htokens, -, -, -, hmore⟩ := shown_typed keys hc hf turns
  refine ⟨hc, hf, he, ht, htokens.trans hseen, ?_⟩
  rw [List.append_assoc]
  exact (hmore he _).1

/-- With the first token stands the word of the group that the next one opens. -/
theorem shown_one_ahead :
    let keys : List Key := "ls (foo bar) baz".toList.map (.char · {}) ++ [.enter]
    let turns : Schedule := (· == 0)
    let whole := ((Scanner.fresh true).append
      (Text.bytes (String.join (textsFrom [] keys)))).drain.1
    ctrlC ∉ keys ∧ (∀ reason, .failure reason ∉ keys) ∧
      (run keys turns).shown.filterMap Shown.token? ≠ whole.map (fun r => (r.1.toToken, r.2)) ∧
      ((run keys turns).shown.filterMap Shown.token?).head? = some (⟨.symbol, "ls"⟩, some "") ∧
      (whole.map fun r => (r.1.toToken, r.2)).head? = some (⟨.symbol, "ls"⟩, some "ls") := by
  refine ⟨by decide +kernel, fun reason => ?_, by decide +kernel, by decide +kernel,
    by decide +kernel⟩
  simp

end ShellTokens.Prompt
