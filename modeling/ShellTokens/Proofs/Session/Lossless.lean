import ShellTokens.Proofs.Session.Ahead
import ShellTokens.Proofs.Session.Record

/-!
# A session loses nothing

Whatever a host does, as long as nobody throws input away, the reader gets the tokens that one
scanner makes of all the input: each of them once, and in their order.
-/

namespace ShellTokens

/-! ## The record holds what came back -/

def Pull.tokens : Pull → List Token
  | .token t => [t]
  | _ => []

def Turn.tokens : Turn → List Token
  | .done p => p.tokens
  | .again _ => []

namespace Session

variable {s t : Session}

theorem tokens_resultNotes (es : List Event) (r : Turn) :
    Note.tokens (resultNotes es r) = r.tokens := by
  unfold resultNotes
  rcases r with p | n
  · rcases p with k | _ | f | _
    · simp only
      split <;> rfl
    all_goals rfl
  · rfl

theorem tokens_turnNotes (retries : Nat) (s : Session) :
    Note.tokens (s.turnNotes retries) = (s.turn retries).2.1.tokens := by
  unfold turnNotes
  simp only
  rw [Note.tokens_append, tokens_resultNotes]
  split
  · cases (s.supplier.bind (·.ask.1.answer)).bind Answer.input? <;> rfl
  · rfl

theorem tokens_pullNotes (retries : Nat) (s : Session) :
    Note.tokens (s.pullNotes retries) = (s.pull retries).2.1.tokens := by
  fun_induction pullNotes retries s with
  | case1 retries s es p t hs =>
    rw [pull_of_done hs, tokens_turnNotes, hs]
    rfl
  | case2 retries s es n t hs ih =>
    rw [pull_of_again hs, Note.tokens_append, tokens_turnNotes, hs, ih]
    rfl

theorem tokens_drainNotes (s : Session) :
    Note.tokens s.drainNotes = s.drain.2.1.map (·.token) ++ s.drain.2.2.1.tokens := by
  fun_induction drainNotes s with
  | case1 s es k t hs ih =>
    rw [drain_of_token hs, Note.tokens_append, tokens_pullNotes, ih]
    unfold next at hs
    rw [hs]
    rfl
  | case2 s hn =>
    rcases hs : s.next with ⟨es, p, t⟩
    rw [drain_of_end hs fun k hp => hn es k t (hp ▸ hs), tokens_pullNotes]
    unfold next at hs
    rw [hs]
    rfl

end Session

namespace Host

variable {α : Type}

/-! ## Runs -/

/-- Nothing that a scanner makes of the input is thrown away by the step. -/
def Step.keepsInput : Step α → Bool
  | .abort _ | .discard | .shutdown | .send .shutdown | .drop => false
  | _ => true

def stepNotes (step : Step α) (s : Session) : List Note :=
  match step with
  | .next => s.pullNotes 0
  | .lex => s.pullNotes 0 ++ if s.next.2.1 = .nothing then [.returned .endOfInput] else []
  | .drain => s.drainNotes
  | .feed text => if (s.feed text).1 = none then [.appended text] else []
  | _ => []

/-- What is written down while a host takes its steps. -/
def record : List (Step α) → Host α → List Note
  | [], _ => []
  | step :: later, h =>
    (h.session.map (stepNotes step)).getD [] ++ record later (h.perform step).2.2

def outcomes : List (Step α) → Host α → List Outcome
  | [], _ => []
  | step :: later, h => (h.perform step).2.1 :: outcomes later (h.perform step).2.2

def Outcome.tokens : Outcome → List Token
  | .pulled p => p.tokens
  | .drained tokens last => tokens.map (·.token) ++ last.tokens
  | _ => []

variable {interactive : Bool} {notes : List Note} {s : Session} {h : Host α}

theorem tokens_stepNotes (step : Step α) (s : Session) (h : Host α) :
    Note.tokens (stepNotes step s) = (act step s h).2.1.tokens := by
  cases step with
  | next => exact s.tokens_pullNotes 0
  | lex =>
    unfold stepNotes
    rw [Note.tokens_append, s.tokens_pullNotes 0]
    show s.next.2.1.tokens ++ _ = s.next.2.1.orEnd.tokens
    rcases s.next.2.1 with k | _ | f | _ <;> rfl
  | drain => exact s.tokens_drainNotes
  | feed text =>
    unfold stepNotes
    simp only
    split <;> rfl
  | _ => rfl

theorem tokens_record (steps : List (Step α)) (h : Host α) :
    Note.tokens (h.record steps) = (h.outcomes steps).flatMap Outcome.tokens := by
  induction steps generalizing h with
  | nil => rfl
  | cons step later ih =>
    unfold record outcomes
    rw [Note.tokens_append, ih, List.flatMap_cons]
    congr 1
    unfold perform
    rcases h.session with _ | s
    · cases step <;> rfl
    · exact tokens_stepNotes step s h

theorem keeps_feed (hk : s.Keeps interactive notes) (text : String) :
    Session.Keeps interactive (notes ++ stepNotes (.feed text : Step α) s) (s.feed text).2 := by
  obtain ⟨hr, ho⟩ := Session.outlook_feed s text hk.quiet.failure hk.quiet.alive
  have hf := Session.follows_append hk.sound.cursor hk.follows text
  have hi := Session.outlook_input (s := s.append text) hk.quiet.alive
  unfold stepNotes
  simp only [hr, if_true]
  exact hk.quiet.keeps (hk.sound.feed text)
    (Scanner.sound_behind (Scanner.sound_append hk.sound.cursor _)) (ho.trans hi) hf

theorem keeps_outlook {t : Session} (hk : s.Keeps interactive notes) (ht : t.Sound)
    (ho : t.outlook = s.outlook) : t.Keeps interactive (notes ++ []) := by
  rw [List.append_nil]
  exact hk.quiet.keeps ht (Scanner.sound_behind hk.sound.cursor)
    (ho.trans (Session.outlook_input hk.quiet.alive)) hk.follows

theorem keeps_act (hk : s.Keeps interactive notes) (step : Step α)
    (hs : step.keepsInput = true) (hh : h.session = some s) :
    ∃ t, (act step s h).2.2.session = some t ∧
      Session.Keeps interactive (notes ++ stepNotes step s) t := by
  have hsame := keeps_outlook hk hk.sound rfl
  cases step with
  | next => exact ⟨_, rfl, hk.pull 0⟩
  | lex =>
    refine ⟨_, rfl, ?_⟩
    unfold stepNotes
    rw [← List.append_assoc]
    have hp := hk.pull 0
    split
    · exact ⟨hp.sound, hp.quiet, hp.follows.pass (.returned .endOfInput) rfl rfl nofun⟩
    · rw [List.append_nil]
      exact hp
  | drain => exact ⟨_, rfl, hk.drain⟩
  | feed text => exact ⟨_, rfl, keeps_feed hk text⟩
  | settle =>
    obtain ⟨-, ht, ho, -⟩ := Session.settle_spec hk.sound
    exact ⟨_, rfl, keeps_outlook hk ht ho⟩
  | probe line => exact ⟨s, hh, hsame⟩
  | submit value => exact ⟨s, (session_submit value h).trans hh, hsame⟩
  | label => exact ⟨s, hh, hsame⟩
  | activate =>
    have ha := Session.agrees_words hk.sound .fresh
    exact ⟨_, rfl, keeps_outlook hk ha.right ha.outlook.symm⟩
  | reset =>
    have ha := Session.agrees_words hk.sound s.scanner.words.reset
    exact ⟨_, rfl, keeps_outlook hk ha.right ha.outlook.symm⟩
  | send signal =>
    cases signal with
    | shutdown => cases hs
    | interrupt =>
      refine ⟨_, rfl, ?_⟩
      have hq := hk.quiet.signals
      refine ⟨hk.sound.send .interrupt, hk.quiet.of_signals ?_, hsame.follows⟩
      simp [hq]
  | abort message => cases hs
  | discard => cases hs
  | shutdown => cases hs
  | drop => cases hs

theorem keeps_record (steps : List (Step α)) (hs : steps.all Step.keepsInput = true)
    (hh : h.session = some s) (hk : s.Keeps interactive notes) :
    Note.Faithful interactive (notes ++ h.record steps) := by
  induction steps generalizing h s notes with
  | nil =>
    unfold record
    rw [List.append_nil]
    exact hk.follows.faithful
  | cons step later ih =>
    rw [List.all_cons, Bool.and_eq_true] at hs
    obtain ⟨t, ht, hkt⟩ := keeps_act hk step hs.1 hh
    have hp : h.perform step = act step s h := by unfold perform; rw [hh]
    unfold record
    rw [hh, hp, ← List.append_assoc]
    exact ih hs.2 ht hkt

/-- As long as nothing throws input away, a session loses no token, gives none out twice and keeps
their order, and holds none back when it asks for a line or has no more tokens. -/
theorem record_start (o : Options) (supplier : Option Supplier)
    (accepts : Option (List α → Bool)) (steps : List (Step α))
    (hs : steps.all Step.keepsInput = true)
    (hq : ∀ p, supplier = some p → ∀ call ∈ p.calls, .shutdown ∉ call.signals) :
    Note.tokens ((start o supplier accepts).record steps) =
        ((start o supplier accepts).outcomes steps).flatMap Outcome.tokens ∧
      Note.Faithful o.interactive ((start o supplier accepts).record steps) := by
  refine ⟨tokens_record steps _, ?_⟩
  have hsound := Session.sound_start o supplier
  have hk : Session.Keeps o.interactive [] (Session.start o supplier) := by
    refine ⟨hsound, ⟨rfl, rfl, nofun, hq⟩, ?_⟩
    rw [hsound.coming_eq_nil rfl rfl]
    exact Note.follows_nil o.interactive
  exact keeps_record steps hs rfl hk

theorem record_broken_off :
    let supplier : Supplier := ⟨[⟨[.interrupt], some (.line "b \\\n")⟩, ⟨[], some .retry⟩,
      ⟨[], some .cancelled⟩, ⟨[], none⟩, ⟨[.interrupt], some (.fatal "c" "gone")⟩]⟩
    let steps : List (Step Nat) := [.feed "a |", .settle, .next, .feed "& ", .send .interrupt,
      .drain, .probe "x", .activate, .drain, .reset, .drain, .lex]
    let h := start {} (some supplier) none
    steps.all Step.keepsInput = true ∧
      (∀ p, some supplier = some p → ∀ call ∈ p.calls, .shutdown ∉ call.signals) ∧
      Note.tokens (h.record steps) = (h.outcomes steps).flatMap Outcome.tokens ∧
      Note.Faithful false (h.record steps) := by
  intro supplier steps h
  have hs : steps.all Step.keepsInput = true := rfl
  have hq : ∀ p, some supplier = some p → ∀ call ∈ p.calls, .shutdown ∉ call.signals := by
    rintro p ⟨⟩
    decide
  exact ⟨hs, hq, record_start {} (some supplier) none steps hs hq⟩

end Host

end ShellTokens
