import ShellTokens.Proofs.Session.Dead

/-!
# A parser that gives up

Once a parser has given up on a session, every call that could give it a token or take input fails
with the same failure. Only giving up once more puts another message into it.
-/

namespace ShellTokens

namespace Session

variable {s : Session} {label message : String} {lines : LineCount}

/-- The parser has given up at the line, last with the message. -/
structure GivenUp (label : String) (lines : LineCount) (message : String) (s : Session) : Prop where
  failure : s.failure = some (.aborted label lines message)
  alive : s.alive = false
  label : s.label = label
  lines : s.lines = lines

theorem givenUp_abort (s : Session) (message : String) :
    GivenUp s.label s.lines message (s.abort message).2.2 :=
  ⟨rfl, rfl, rfl, rfl⟩

theorem GivenUp.next (h : s.GivenUp label lines message) :
    s.next = ([], .failed (.aborted label lines message), s) :=
  pull_of_failure h.failure 0

theorem GivenUp.drain (h : s.GivenUp label lines message) :
    s.drain = ([], [], .failed (.aborted label lines message), s) :=
  drain_of_end h.next nofun

theorem GivenUp.feed (h : s.GivenUp label lines message) (text : String) :
    s.feed text = (some (.aborted label lines message), s) := by
  rw [feed_of_dead h.alive, h.failure]
  rfl

theorem GivenUp.settle (h : s.GivenUp label lines message) :
    s.settle.2.GivenUp label lines message := by
  unfold Session.settle
  simp only
  split
  · exact ⟨h.failure, h.alive, h.label, h.lines⟩
  · exact ⟨h.failure, h.alive, h.label, h.lines⟩

end Session

namespace Host

variable {α : Type} {g h : Host α} {s : Session} {label message : String} {lines : LineCount}

def Step.message? : Step α → Option String
  | .abort message => some message
  | _ => none

def lastMessage (first : String) (steps : List (Step α)) : String :=
  (steps.filterMap Step.message?).getLastD first

theorem lastMessage_cons (first : String) (step : Step α) (later : List (Step α)) :
    lastMessage first (step :: later) = lastMessage (step.message?.getD first) later := by
  unfold lastMessage
  cases hm : step.message? with
  | none => rw [List.filterMap_cons_none hm, Option.getD_none]
  | some message => rw [List.filterMap_cons_some hm, List.getLastD_cons, Option.getD_some]

/-- A parser that reads, or a host that has more input, is told the failure and changes nothing. -/
structure Fails (f : Failure) (g : Host α) : Prop where
  next : g.perform .next = ([], .pulled (.failed f), g)
  lex : g.perform .lex = ([], .pulled (.failed f), g)
  drain : g.perform .drain = ([], .drained [] (.failed f), g)
  feed : ∀ text, g.perform (.feed text) = ([], .fed (some f), g)

theorem fails_of_givenUp (hs : g.session = some s) (hg : s.GivenUp label lines message) :
    g.Fails (.aborted label lines message) := by
  have hw := withSession_self hs
  refine ⟨?_, ?_, ?_, fun text => ?_⟩
  all_goals
    rw [perform_eq hs]
    unfold act
    simp only
  · rw [hg.next, hw]
  · rw [hg.next, hw]
    rfl
  · rw [hg.drain, hw]
  · rw [hg.feed, hw]

theorem givenUp_act (hs : g.session = some s) (hg : s.GivenUp label lines message)
    {step : Step α} (hd : step ≠ .drop) :
    ∃ t, (act step s g).2.2.session = some t ∧
      t.GivenUp label lines (step.message?.getD message) := by
  cases step with
  | next | lex =>
    refine ⟨s.next.2.2, rfl, ?_⟩
    rw [hg.next]
    exact hg
  | drain =>
    refine ⟨s.drain.2.2.2, rfl, ?_⟩
    rw [hg.drain]
    exact hg
  | feed text =>
    refine ⟨(s.feed text).2, rfl, ?_⟩
    rw [hg.feed]
    exact hg
  | settle => exact ⟨_, rfl, hg.settle⟩
  | abort again =>
    refine ⟨_, rfl, ?_⟩
    obtain ⟨-, -, rfl, rfl⟩ := hg
    exact s.givenUp_abort again
  | probe line => exact ⟨s, hs, hg⟩
  | label => exact ⟨s, hs, hg⟩
  | submit value => exact ⟨s, (session_submit value g).trans hs, hg⟩
  | send signal =>
    refine ⟨_, rfl, ?_⟩
    cases signal with
    | interrupt => exact ⟨hg.failure, hg.alive, hg.label, hg.lines⟩
    | shutdown => exact ⟨hg.failure, rfl, hg.label, hg.lines⟩
  | activate | reset | discard => exact ⟨_, rfl, hg.failure, hg.alive, hg.label, hg.lines⟩
  | shutdown => exact ⟨_, rfl, hg.failure, rfl, hg.label, hg.lines⟩
  | drop => exact absurd rfl hd

theorem givenUp_after (hs : g.session = some s) (hg : s.GivenUp label lines message)
    {steps : List (Step α)} (hd : .drop ∉ steps) :
    ∃ t, (g.after steps).session = some t ∧
      t.GivenUp label lines (lastMessage message steps) := by
  induction steps generalizing g s message with
  | nil => exact ⟨s, hs, hg⟩
  | cons step later ih =>
    rw [List.mem_cons, not_or] at hd
    obtain ⟨t, ht, hgt⟩ := givenUp_act hs hg (Ne.symm hd.1)
    rw [← perform_eq hs] at ht
    rw [lastMessage_cons]
    exact ih ht hgt hd.2

/-- Once a parser has given up, reading and feeding fail for good, with the label and the line of
the first time that it gave up and the message of the last time. -/
theorem fails_after_abort (h : Host α) (s : Session) (hs : h.session = some s) (first : String)
    (later : List (Step α)) (hd : .drop ∉ later) :
    let g := (h.perform (.abort first)).2.2.after later
    (h.perform (.abort first)).2.1 = .failed (.aborted s.label s.lines first) ∧
      g.Fails (.aborted s.label s.lines (lastMessage first later)) ∧
      ∀ message, (g.perform (.abort message)).2.1 =
        .failed (.aborted s.label s.lines message) := by
  intro g
  have hg : (h.perform (.abort first)).2.2.session = some (s.abort first).2.2 := by
    rw [perform_eq hs]
    rfl
  obtain ⟨t, ht, hgt⟩ := givenUp_after hg (s.givenUp_abort first) hd
  refine ⟨?_, fails_of_givenUp ht hgt, fun message => ?_⟩
  · rw [perform_eq hs]
    rfl
  · rw [perform_eq ht, ← hgt.label, ← hgt.lines]
    rfl

theorem fails_with_input_left :
    let h : Host Nat := (start { label := "rc", lines := 7 } (some (.ofLines ["c\n", "d\n"]))
      none).after [.lex, .lex, .feed "a b\n", .settle, .send .interrupt]
    let later : List (Step Nat) := [.settle, .lex, .send .shutdown, .feed "e\n", .abort "late",
      .send .interrupt, .reset, .discard, .drain]
    ∃ s, h.session = some s ∧ s.held? = some ⟨.symbol, "a"⟩ ∧ .drop ∉ later ∧
      ((h.perform (.abort "early")).2.2.after later).Fails (.aborted "rc" 8 "late") := by
  -- Input, a token, an interrupt and a line of the supplier wait when the parser gives up.
  intro h later
  have hany : h.session.any (fun s => s.held? = some ⟨.symbol, "a"⟩ ∧ s.label = "rc" ∧
      s.lines = 8) = true := by decide +kernel
  obtain ⟨s, hs, hp⟩ := (Option.any_eq_true _ _).1 hany
  obtain ⟨hheld, hlabel, hlines⟩ := of_decide_eq_true hp
  have hd : .drop ∉ later := by simp [later]
  obtain ⟨-, hf, -⟩ := fails_after_abort h s hs "early" later hd
  rw [hlabel, hlines] at hf
  exact ⟨s, hs, hheld, hd, hf⟩

theorem next_after_second_abort :
    let once : Host Nat := (start {} none none).after [.abort "first"]
    (once.perform .next).2.1 = .pulled (.failed (.aborted "stdin" 0 "first")) ∧
      ((once.perform (.abort "second")).2.2.perform .next).2.1 =
        .pulled (.failed (.aborted "stdin" 0 "second")) := by
  -- Giving up once more replaces the failure of the first time.
  decide +kernel

end Host

end ShellTokens
