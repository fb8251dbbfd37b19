import ShellTokens.Proofs.Session.ReadOut

/-!
# Reading a script to its end

The answers of a supplier are a script. A session that is read until there is no token follows the
script answer by answer, up to the first that ends the input.
-/

namespace ShellTokens

namespace Answer

def isLine : Answer → Bool
  | line _ => true
  | _ => false

def isLast : Answer → Bool
  | eof _ | fatal .. => true
  | _ => false

/-- The answers that a reader asks for. A script that has run out answers with an empty end. -/
def asked : List Answer → List Answer
  | [] => [eof ""]
  | a :: later => a :: if a.isLast then [] else asked later

def sign : Answer → List Token
  | cancelled => [.interrupt]
  | fatal _ reason => [.error reason]
  | _ => []

/-- What the answers bring, where one scanner scans their texts one after the other. -/
def told : List Answer → Scanner → List Token
  | [], _ => []
  | a :: later, s =>
    match a.input? with
    | none => a.sign ++ told later s
    | some text =>
      let t := s.append (Text.bytes text)
      a.sign ++ t.emissions.map Emission.toToken ++ told later t.behind

end Answer

open Event (requests requests_append requests_request)

namespace Session

variable {s t : Session} {es : List Event} {ks : List Token} {lines : LineCount} {n : Nat}
  {answers later : List Answer}

/-! ## Reading until there is no token -/

/-- Reading on gives the tokens and then no more of them. So many lines have been counted then, and
the supplier has been asked so many times and is not asked again. -/
structure Gives (s : Session) (ks : List Token) (lines : LineCount) (n : Nat) : Prop where
  tokens : s.drain.2.1.map (·.token) = ks
  last : s.drain.2.2.1 = .nothing
  lines : s.drain.2.2.2.lines = lines
  supplier : s.drain.2.2.2.supplier = none
  asked : requests s.drain.1 = n

theorem Gives.token {k : Token} (h : t.Gives ks lines n)
    (ht : s.turn 0 = (es, .done (.token k), t)) : s.Gives (k :: ks) lines (requests es + n) := by
  have hd := drain_of_token (pull_of_done ht)
  constructor
  all_goals rw [hd]
  · exact congrArg (List.cons k) h.tokens
  · exact h.last
  · exact h.lines
  · exact h.supplier
  · rw [requests_append, h.asked]

theorem Gives.again {m : Nat} (h : t.Gives ks lines n) (ht : s.turn 0 = (es, .again m, t)) :
    s.Gives ks lines (requests es + n) := by
  obtain ⟨hd, hr⟩ := drain_of_again ht
  rw [h.asked] at hr
  refine ⟨?_, ?_, ?_, ?_, hr⟩
  all_goals rw [hd]
  · exact h.tokens
  · exact h.last
  · exact h.lines
  · exact h.supplier

theorem Gives.readOut (h : s.readOut.2.Gives ks lines n) :
    s.Gives (s.readOut.1 ++ ks) lines n := by
  obtain ⟨hk, he, hr⟩ := drain_readOut s
  refine ⟨?_, ?_, ?_, ?_, hr.trans h.asked⟩
  · rw [hk, h.tokens]
  all_goals rw [he]
  · exact h.last
  · exact h.lines
  · exact h.supplier

theorem gives_nothing (hw : s.Waits) (hh : s.handoff = none) (hp : s.supplier = none) :
    s.Gives [] s.lines 0 := by
  have hn : s.next = ([], .nothing, s) := pull_of_done (turn_of_no_supplier hw hh hp 0)
  have hd := drain_of_end hn nofun
  constructor
  all_goals rw [hd]
  · rfl
  · exact hp
  · rfl

/-! ## One answer after the other -/

structure Asks (s : Session) (answers : List Answer) : Prop where
  sound : s.Sound
  waits : s.Waits
  handoff : s.handoff = none
  scanner : s.scanner.behind = s.scanner
  supplier : s.supplier = some (.ofAnswers answers)

theorem asks_start (o : Options) (answers : List Answer) :
    (start o (some (.ofAnswers answers))).Asks answers where
  sound := sound_start o _
  waits := ⟨rfl, rfl, rfl⟩
  handoff := rfl
  scanner := Scanner.behind_of_halt (Scanner.step_of_empty rfl rfl)
  supplier := rfl

theorem Asks.go (h : s.Asks answers) (later : List Answer) :
    Asks { s with supplier := some (.ofAnswers later) } later where
  sound := ⟨h.sound.cursor, h.sound.abandoned, h.sound.opened, h.sound.idle⟩
  waits := ⟨h.waits.failure, h.waits.signals, h.waits.alive⟩
  handoff := h.handoff
  scanner := h.scanner
  supplier := rfl

theorem requests_answered (n : Nat) (a : Answer) (s : Session) :
    requests (s.answered n a).1 = 0 := by
  cases a <;> rfl

theorem Asks.turn {a : Answer} (h : s.Asks answers)
    (ha : (Supplier.ofAnswers answers).ask = (⟨[], some a⟩, .ofAnswers later)) :
    let u := { s with supplier := some (.ofAnswers later) }
    ∃ es, s.turn 0 = (es, (u.answered 0 a).2) ∧ requests es = 1 := by
  intro u
  have hc : s.called (.ofAnswers answers) = u := by
    unfold called
    rw [ha]
    rfl
  have hl : (Supplier.ofAnswers answers).ask.1.answer = some a := by rw [ha]
  rw [turn_of_supplier h.waits h.handoff h.supplier, ask_of_some hl, hc]
  refine ⟨_, rfl, ?_⟩
  rw [requests_request, requests_answered]

theorem Asks.readOut_receive (h : s.Asks answers) (text : String) (last : Bool) :
    let u := s.receive text last
    let v := s.scanner.append (Text.bytes (Text.joined text ++ if last then "\n" else ""))
    u.readOut.1 = v.emissions.map Emission.toToken ∧ u.PausesAt u.readOut.2 ∧
      u.readOut.2.scanner = v.behind := by
  intro u v
  have hw : u.Waits := ⟨h.waits.failure, h.waits.signals, h.waits.alive⟩
  obtain ⟨hk, hp⟩ := readOut_of_waits (h.sound.receive text last) hw
  exact ⟨hk, hp, hp.scanner (rests_of_not_idle rfl)⟩

theorem Asks.line (h : s.Asks later) (text : String) :
    (s.receive text false).readOut.2.Asks later := by
  obtain ⟨-, hp, hv⟩ := h.readOut_receive text false
  refine ⟨hp.sound, hp.waits, hp.handoff, ?_, hp.supplier.trans h.supplier⟩
  rw [hv, Scanner.behind, Scanner.drain_behind]

theorem Asks.gives_last (h : s.Asks answers) (text : String) :
    (s.receive text true).Gives
      ((s.scanner.append (Text.bytes (Text.joined text ++ "\n"))).emissions.map Emission.toToken)
      (s.lines + 1) 0 := by
  obtain ⟨hk, hp, -⟩ := h.readOut_receive text true
  have hn := gives_nothing hp.waits hp.handoff hp.supplier
  rw [hp.lines] at hn
  have hr := hn.readOut
  rw [List.append_nil, hk] at hr
  exact hr

theorem Asks.answer {a : Answer} (h : s.Asks answers)
    (ha : (Supplier.ofAnswers answers).ask = (⟨[], some a⟩, .ofAnswers later))
    (hlater : a.isLast = false → ∀ t : Session, t.Asks later →
      t.Gives (Answer.told (Answer.asked later) t.scanner)
        (t.lines + .ofNat ((Answer.asked later).countP Answer.isLine + 1))
        (Answer.asked later).length) :
    let asked := a :: if a.isLast then [] else Answer.asked later
    s.Gives (Answer.told asked s.scanner) (s.lines + .ofNat (asked.countP Answer.isLine + 1))
      asked.length := by
  intro asked
  let u := { s with supplier := some (.ofAnswers later) }
  have hu : u.Asks later := h.go later
  obtain ⟨es, ht, he⟩ := h.turn ha
  cases a with
  | line text =>
    -- All tokens of the line come before the next answer is asked for.
    obtain ⟨hk, hp, hv⟩ := hu.readOut_receive text false
    have hg := (hlater rfl _ (hu.line text)).readOut.again ht
    simp only [Bool.false_eq_true, if_false, String.append_empty] at hk hv
    rw [hk, hv, hp.lines, he, Nat.add_comm 1] at hg
    have hc : asked.countP Answer.isLine = (Answer.asked later).countP Answer.isLine + 1 :=
      List.countP_cons_of_pos rfl
    have hl : s.lines + .ofNat (asked.countP Answer.isLine + 1) =
        s.lines + 1 + .ofNat ((Answer.asked later).countP Answer.isLine + 1) := by
      rw [hc, Nat.add_comm _ 1, UInt64.ofNat_add, ← UInt64.add_assoc]
      rfl
    rw [hl]
    exact hg
  | retry =>
    -- The call goes on with another count of retries, which makes no difference.
    have hg := (hlater rfl u hu).again ht
    rw [he, Nat.add_comm 1] at hg
    exact hg
  | cancelled =>
    have hg := (hlater rfl u hu).token ht
    rw [he, Nat.add_comm 1] at hg
    exact hg
  | eof rest =>
    have hg := (hu.gives_last rest).again ht
    rw [he] at hg
    simpa [asked, Answer.told, Answer.input?, Answer.sign, Answer.isLast, Answer.isLine] using hg
  | fatal rest reason =>
    have hg := (hu.gives_last rest).token ht
    rw [he] at hg
    simpa [asked, Answer.told, Answer.input?, Answer.sign, Answer.isLast, Answer.isLine] using hg

theorem Asks.gives (h : s.Asks answers) :
    s.Gives (Answer.told (Answer.asked answers) s.scanner)
      (s.lines + .ofNat ((Answer.asked answers).countP Answer.isLine + 1))
      (Answer.asked answers).length := by
  induction answers generalizing s with
  | nil =>
    have ha : (Supplier.ofAnswers []).ask = (⟨[], some (.eof "")⟩, .ofAnswers []) := rfl
    exact h.answer ha nofun
  | cons a later ih => exact h.answer rfl fun _ t ht => ih ht

/-- Reading a supplied session on until there is no token comes to an end, and it follows the
script. Each answer brings what one scanner makes of its text. Nothing behind the first answer that
ends the input is asked for. Each line counts, and so does the end. -/
theorem drain_scripted (o : Options) (answers : List Answer) :
    let asked := Answer.asked answers
    let r := (start o (some (.ofAnswers answers))).drain
    r.2.1.map (·.token) = Answer.told asked (.fresh o.interactive) ∧ r.2.2.1 = .nothing ∧
      r.2.2.2.lines = o.lines + .ofNat (asked.countP Answer.isLine + 1) ∧
      r.2.2.2.lines.toNat = (o.lines.toNat + asked.countP Answer.isLine + 1) % UInt64.size ∧
      requests r.1 = asked.length ∧ r.2.2.2.supplier = none := by
  intro asked r
  have hg := (asks_start o answers).gives
  refine ⟨hg.tokens, hg.last, hg.lines, ?_, hg.asked, hg.supplier⟩
  show r.2.2.2.lines.toNat = _
  rw [hg.lines, UInt64.toNat_add, UInt64.toNat_ofNat', Nat.add_mod_mod, ← Nat.add_assoc]
  rfl

example :
    let script := [.line "a \\\n", .retry, .line "b &&\n", .cancelled, .fatal "c" "gone", .line "d"]
    let r := (start { lines := 4 } (some (.ofAnswers script))).drain
    r.2.1.map (·.token.text) = ["a", "b", "and", "", "gone", "c", "\n"] ∧ r.2.2.2.lines = 7 ∧
      requests r.1 = 5 := by
  decide +kernel

end Session

end ShellTokens
