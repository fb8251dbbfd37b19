import ShellTokens.Proofs.Scanner.Chunks
import ShellTokens.Text.Bytes

/-!
# Starting over at a boundary

A settled scanner has nothing behind it that tells on what comes. More input makes the same of it as
of a fresh scanner.
-/

namespace ShellTokens.Scanner

/-! ## Step by step in two scanners -/

/-- Two steps that give the same, with scanners behind them that `R` relates. -/
inductive Step.Both (R : Scanner → Scanner → Prop) : Step → Step → Prop
  | halt {s t : Scanner} (h : R s t) : Step.Both R (.halt s) (.halt t)
  | silent {s t : Scanner} (h : R s t) : Step.Both R (.silent s) (.silent t)
  | emit (e : Emission) {s t : Scanner} (h : R s t) : Step.Both R (.emit e s) (.emit e t)

theorem drain_both {R : Scanner → Scanner → Prop}
    (hR : ∀ s t, R s t → Step.Both R s.step t.step) {s t : Scanner} (h : R s t) :
    t.emissions = s.emissions ∧ R s.behind t.behind := by
  induction s using step_induction generalizing t with
  | halt s u hs =>
    have hst := hR s t h
    rw [hs] at hst
    generalize ht : t.step = next at hst
    cases hst with
    | halt hv =>
      rw [emissions_of_halt hs, emissions_of_halt ht, behind_of_halt hs, behind_of_halt ht]
      exact ⟨rfl, hv⟩
  | silent s u hs ih =>
    have hst := hR s t h
    rw [hs] at hst
    generalize ht : t.step = next at hst
    cases hst with
    | silent hv =>
      rw [emissions_of_silent hs, emissions_of_silent ht, behind_of_silent hs, behind_of_silent ht]
      exact ih hv
  | emit s e u hs ih =>
    have hst := hR s t h
    rw [hs] at hst
    generalize ht : t.step = next at hst
    cases hst with
    | emit _ hv =>
      obtain ⟨he, hb⟩ := ih hv
      rw [emissions_of_emit hs, emissions_of_emit ht, behind_of_emit hs, behind_of_emit ht, he]
      exact ⟨rfl, hb⟩

theorem look_both {R : Scanner → Scanner → Prop} {s t : Scanner}
    (hsame : t = { s with after := t.after, depth := t.depth })
    (hmove : ∀ cursor state saved,
      R { s with cursor, state, saved } { t with cursor, state, saved })
    (hfinish : ∀ u v, R u v → ∀ kind, Step.Both R (u.finish kind) (v.finish kind))
    (hresumed : ∀ u v, R u v → R u.resumed v.resumed) : Step.Both R s.look t.look := by
  rw [hsame] at hmove ⊢
  have hread := hmove s.cursor.next.2 s.state s.saved
  have hleft := hmove s.cursor.next.2.back s.state s.saved
  unfold Scanner.look
  simp only
  cases s.state.respond (s.cursor.firstByte? = some '!'.toUInt8) s.cursor.peek with
  | halt => exact .halt (hmove s.cursor s.state s.saved)
  | keep => exact .silent hread
  | enter next => exact .silent (hmove _ _ _)
  | become next => exact .silent (hmove _ _ _)
  | escape back => exact .silent (hmove _ _ _)
  | resume => exact .silent (hresumed _ _ hread)
  | take kind => exact hfinish _ _ hread kind
  | leave kind => exact hfinish _ _ hleft kind
  | reject byte => exact .emit _ (hresumed _ _ hread)

/-! ## The kind of the last token -/

variable {s t : Scanner} {k : Option Kind}

/-- `t` is `s` behind another token. Both commands go on past the end of the line, or both end
there. -/
structure UpToLast (s t : Scanner) : Prop where
  same : t = { s with after := t.after }
  continuesLine : t.continuesLine = s.continuesLine

theorem upToLast_after (h : k.any Kind.continuesLine = s.continuesLine) :
    s.UpToLast { s with after := k } :=
  ⟨rfl, h⟩

theorem UpToLast.finish (h : s.UpToLast t) (kind : Kind) :
    Step.Both UpToLast (s.finish kind) (t.finish kind) := by
  have hc := h.continuesLine
  rw [h.same] at hc ⊢
  unfold Scanner.finish
  rw [hc]
  split
  · exact .silent (upToLast_after hc)
  · exact .emit _ (upToLast_after rfl)

theorem UpToLast.resumed (h : s.UpToLast t) : s.resumed.UpToLast t.resumed := by
  have hc := h.continuesLine
  rw [h.same] at hc ⊢
  unfold Scanner.resumed
  simp only
  split
  · exact upToLast_after hc
  · exact upToLast_after hc

theorem UpToLast.marked (h : s.UpToLast t) : s.marked.UpToLast t.marked := by
  have hc := h.continuesLine
  rw [h.same] at hc ⊢
  unfold Scanner.marked
  simp only
  split
  · exact upToLast_after hc
  · exact upToLast_after hc

theorem UpToLast.look (h : s.UpToLast t) : Step.Both UpToLast s.look t.look := by
  have hc := h.continuesLine
  rw [h.same] at hc ⊢
  exact look_both rfl (fun _ _ _ => upToLast_after hc) (fun _ _ => finish) (fun _ _ => resumed)

theorem UpToLast.step (s t : Scanner) (h : s.UpToLast t) :
    Step.Both UpToLast s.step t.step :=
  h.marked.look

theorem UpToLast.isSettled (h : s.UpToLast t) : t.isSettled = s.isSettled := by
  have hc := h.continuesLine
  rw [h.same] at hc ⊢
  unfold Scanner.isSettled
  rw [hc]

/-! ## Settled scanners -/

def SameAhead (s t : Scanner) : Prop := ∃ u, s.Alike u ∧ t.UpToLast u

theorem SameAhead.append (h : s.SameAhead t) (chunk : List UInt8) :
    (s.append chunk).SameAhead (t.append chunk) := by
  obtain ⟨u, ha, hu⟩ := h
  refine ⟨u.append chunk, ha.append chunk, ?_, hu.continuesLine⟩
  rw [hu.same]
  rfl

theorem SameAhead.drain (h : s.SameAhead t) :
    s.emissions = t.emissions ∧ s.behind.SameAhead t.behind ∧
      s.behind.isSettled = t.behind.isSettled := by
  obtain ⟨u, ha, hu⟩ := h
  obtain ⟨hes, hbs⟩ := ha.drain
  obtain ⟨het, hbt⟩ := drain_both UpToLast.step hu
  refine ⟨hes.symm.trans het, ⟨u.behind, hbs, hbt⟩, ?_⟩
  exact hbs.twins_behind.isSettled.trans hbt.isSettled

theorem sameAhead_fresh (hs : s.cursor.Sound) (h : s.isSettled = true) (interactive : Bool) :
    s.SameAhead (fresh interactive) := by
  simp only [isSettled, Bool.and_eq_true, decide_eq_true_eq, Bool.not_eq_true'] at h
  obtain ⟨⟨⟨⟨hb, hv⟩, hd⟩, hz⟩, hc⟩ := h
  have hp : s.cursor.pending = [] := by
    rw [hs.isDrained_eq] at hd
    exact List.isEmpty_iff.1 hd
  have hu : s.cursor.unread = [] := by
    rw [hs.pending_eq] at hp
    exact (List.append_eq_nil_iff.1 hp).2
  refine ⟨{ fresh interactive with after := s.after }, ?_, upToLast_after hc⟩
  refine alike_iff.2 ⟨hs, sound_fresh interactive, ?_⟩
  unfold standing
  rw [hb, hv, hz, hu]
  rfl

/-! ## What an owner does -/

/-- What is done with one of several scanners. -/
inductive Deed where
  | append (chunk : List UInt8)
  | scan
  | discard
  /-- Whoever shares the first words changes them. -/
  | track (words : FirstWords)
  /-- A copy takes a place behind all others. -/
  | snapshot

def Deed.perform (d : Deed) (place : Nat) (ss : List Scanner) : List Scanner :=
  match d with
  | .append chunk => ss.modify place (·.append chunk)
  | .scan => ss.modify place (·.scan.2)
  | .discard => ss.modify place Scanner.discard
  | .track words => ss.modify place ({ · with words })
  | .snapshot => ss ++ ss[place]?.toList

def performAll : List (Nat × Deed) → List Scanner → List Scanner
  | [], ss => ss
  | (place, d) :: later, ss => performAll later (d.perform place ss)

theorem sound_modify {ss : List Scanner} (h : ∀ s ∈ ss, s.cursor.Sound) (place : Nat)
    (f : Scanner → Scanner) (hf : ∀ s : Scanner, s.cursor.Sound → (f s).cursor.Sound) :
    ∀ s ∈ ss.modify place f, s.cursor.Sound := by
  intro s hs
  obtain ⟨i, hi⟩ := List.mem_iff_getElem?.1 hs
  rw [List.getElem?_modify] at hi
  obtain ⟨t, ht, rfl⟩ := Option.map_eq_some_iff.1 hi
  have hts := h t (List.mem_of_getElem? ht)
  split
  · exact hf t hts
  · exact hts

theorem sound_perform {ss : List Scanner} (h : ∀ s ∈ ss, s.cursor.Sound) (d : Deed)
    (place : Nat) : ∀ s ∈ d.perform place ss, s.cursor.Sound := by
  cases d with
  | append chunk => exact sound_modify h place (·.append chunk) fun s hs => hs.append chunk
  | scan => exact sound_modify h place (·.scan.2) fun s hs => sound_scan hs
  | discard => exact sound_modify h place Scanner.discard fun s _ => sound_fresh false
  | track words => exact sound_modify h place ({ · with words }) fun s hs => hs
  | snapshot =>
    intro s hs
    rcases List.mem_append.1 hs with hs | hs
    · exact h s hs
    · exact h s (List.mem_of_getElem? (Option.mem_toList.1 hs))

theorem sound_performAll {ss : List Scanner} (h : ∀ s ∈ ss, s.cursor.Sound)
    (deeds : List (Nat × Deed)) : ∀ s ∈ performAll deeds ss, s.cursor.Sound := by
  induction deeds generalizing ss with
  | nil => exact h
  | cons first later ih =>
    obtain ⟨place, d⟩ := first
    exact ih (sound_perform h d place)

/-! ## At the boundary -/

inductive Feeding where
  | append (chunk : List UInt8)
  | drain

/-- What is seen of a scanner: all that comes out whenever it scans to the end of its input, and
whether it is settled then. -/
def shown : List Feeding → Scanner → List (List Emission × Bool)
  | [], _ => []
  | .append chunk :: later, s => shown later (s.append chunk)
  | .drain :: later, s => (s.emissions, s.behind.isSettled) :: shown later s.behind

theorem SameAhead.shown (h : s.SameAhead t) (feedings : List Feeding) :
    Scanner.shown feedings s = Scanner.shown feedings t := by
  induction feedings generalizing s t with
  | nil => rfl
  | cons feeding later ih =>
    cases feeding with
    | append chunk => exact ih (h.append chunk)
    | drain =>
      obtain ⟨he, hb, hs⟩ := h.drain
      simp only [Scanner.shown, he, hs, ih hb]

/-- Whatever has been done with a scanner: once it is settled, it goes on as a fresh one does. So a
text that leaves a scanner settled gives its own tokens, and what follows gives the rest. -/
theorem shown_of_isSettled (interactive anew : Bool) :
    (∀ deeds, ∀ s ∈ performAll deeds [fresh interactive], s.isSettled = true →
      ∀ feedings, shown feedings s = shown feedings (fresh anew)) ∧
    ∀ first later, ((fresh interactive).append first).behind.isSettled = true →
      ((fresh interactive).append (first ++ later)).emissions =
        ((fresh interactive).append first).emissions ++
          ((fresh interactive).append later).emissions := by
  have hf := sound_fresh interactive
  constructor
  · intro deeds s hs h feedings
    have hss : ∀ s ∈ [fresh interactive], s.cursor.Sound := by
      intro s hs
      rw [List.mem_singleton.1 hs]
      exact hf
    exact (sameAhead_fresh (sound_performAll hss deeds s hs) h anew).shown feedings
  · intro first later h
    have ha := sound_append hf first
    have hb := (sameAhead_fresh (sound_behind ha) h interactive).append later
    calc ((fresh interactive).append (first ++ later)).emissions
        = (((fresh interactive).append first).append later).emissions :=
          (append_append hf first later).drain.1
      _ = ((fresh interactive).append first).emissions ++
            (((fresh interactive).append first).behind.append later).emissions :=
          emissions_append ha later
      _ = ((fresh interactive).append first).emissions ++
            ((fresh interactive).append later).emissions := by
          rw [hb.drain.1]

theorem shown_with_copy :
    let deeds : List (Nat × Deed) := [(0, .append (Text.bytes "(a \"b")), (0, .scan), (0, .scan),
      (0, .scan), (0, .snapshot), (1, .append (Text.bytes "c")), (0, .append (Text.bytes "\")\n")),
      (1, .scan), (0, .scan), (0, .scan), (0, .scan)]
    let feedings : List Feeding := [.append (Text.bytes "x |"), .append [0xC3], .drain,
      .append (0xA9 :: Text.bytes "\n"), .drain]
    (∃ s ∈ performAll deeds [fresh true], s.isSettled = true ∧
      shown feedings s = shown feedings (fresh false)) ∧
    ((fresh true).append (Text.bytes "(a)\n" ++ Text.bytes "b | c")).emissions =
      ((fresh true).append (Text.bytes "(a)\n")).emissions ++
        ((fresh true).append (Text.bytes "b | c")).emissions := by
  -- Its copy has half a quoted text in it, and the scanner itself is settled.
  intro deeds feedings
  obtain ⟨hs, ht⟩ := shown_of_isSettled true false
  have ha : (performAll deeds [fresh true]).any isSettled = true := by decide +kernel
  obtain ⟨s, hm, hset⟩ := List.any_eq_true.1 ha
  refine ⟨⟨s, hm, hset, hs deeds s hm hset feedings⟩, ?_⟩
  exact ht _ _ (by decide +kernel)

end ShellTokens.Scanner
