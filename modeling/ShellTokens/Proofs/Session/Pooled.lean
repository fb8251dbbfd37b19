import Mathlib.Data.List.Nodup
import ShellTokens.Proofs.FirstWords.Holders
import ShellTokens.Proofs.Session.Foretold

/-!
# First words in a pool

The first words of a session and of its probes lie in one pool, and each party finds its own there.
Probes are passed a copy of the session's, and so all goes on as if everyone kept them to itself.
-/

namespace ShellTokens

/-! ## Cells that are not shared -/

namespace FirstWords.Pool

variable {p : Pool} {n i j : Nat} {w : FirstWords}

def write (holder : Nat) (words : Option FirstWords) (p : Pool) : Pool :=
  match words, p.holders[holder]? with
  | some w, some cell => { p with cells := p.cells.set cell w }
  | _, _ => p

theorem perform_change_eq_write (p : Pool) (i : Nat) (c : Change) :
    p.perform i (.change c) = p.write i ((p.held? i).map (·.change c)) := by
  unfold perform write held?
  cases p.holders[i]? with
  | none => rfl
  | some cell =>
    simp only [Option.map_some]
    rw [List.modify_eq_set_getElem?]
    cases hc : p.cells[cell]? with
    | none => simp [List.set_eq_of_length_le (List.getElem?_eq_none_iff.1 hc)]
    | some w => simp [hc]

/-- The holders are `n`, and none has the words of another. -/
structure Apart (n : Nat) (p : Pool) : Prop where
  count : p.holders.length = n
  inside : ∀ cell ∈ p.holders, cell < p.cells.length
  nodup : p.holders.Nodup

namespace Apart

theorem exists_cell (h : p.Apart n) (hi : i < n) : ∃ cell, p.holders[i]? = some cell := by
  rw [← h.count] at hi
  exact ⟨_, List.getElem?_eq_getElem hi⟩

theorem write (h : p.Apart n) (i : Nat) (words : Option FirstWords) :
    (p.write i words).Apart n := by
  unfold Pool.write
  split
  · exact ⟨h.count, by simpa using h.inside, h.nodup⟩
  · exact h

theorem held?_write (h : p.Apart n) (hi : i < n) (w : FirstWords) :
    (p.write i (some w)).held? i = some w ∧
      ∀ j ≠ i, (p.write i (some w)).held? j = p.held? j := by
  obtain ⟨cell, hcell⟩ := h.exists_cell hi
  have hlt := h.inside cell (List.mem_of_getElem? hcell)
  unfold Pool.write held?
  rw [hcell]
  refine ⟨?_, fun j hj => ?_⟩
  · simp [hcell, hlt]
  · cases hother : p.holders[j]? with
    | none => rfl
    | some other =>
      -- One cell has one holder.
      have hjlt := (List.getElem?_eq_some_iff.1 hother).1
      have hne : cell ≠ other := fun he =>
        hj ((List.getElem?_inj hjlt h.nodup).1 (hother.trans (he ▸ hcell.symm)))
      simp [hne]

theorem fork (h : p.Apart n) (hi : i < n) : (p.perform i .fork).Apart (n + 1) := by
  obtain ⟨cell, hcell⟩ := h.exists_cell hi
  rw [perform_fork hcell]
  refine ⟨by simp [h.count], fun other ho => ?_, ?_⟩
  · rw [List.length_append, List.length_singleton]
    rcases List.mem_append.1 ho with ho | ho
    · exact Nat.lt_succ_of_lt (h.inside other ho)
    · exact List.mem_singleton.1 ho ▸ Nat.lt_succ_self _
  · have hnew : p.cells.length ∉ p.holders := fun hm => Nat.lt_irrefl _ (h.inside _ hm)
    show (p.holders ++ [p.cells.length]).Nodup
    rw [← List.concat_eq_append]
    exact List.Nodup.concat hnew h.nodup

theorem held?_fork (h : p.Apart n) (hi : i < n) :
    (p.perform i .fork).held? n = p.held? i ∧
      ∀ j < n, (p.perform i .fork).held? j = p.held? j := by
  obtain ⟨cell, hcell⟩ := h.exists_cell hi
  refine ⟨?_, fun j hj => held?_fork_of_lt hcell h.inside (h.count ▸ hj)⟩
  rw [← h.count]
  exact Pool.held?_fork hcell

end Apart

end FirstWords.Pool

open FirstWords (Pool)

def Session.withWords (w : FirstWords) (s : Session) : Session :=
  { s with scanner := { s.scanner with words := w } }

def Probe.withWords (w : FirstWords) (p : Probe) : Probe :=
  { p with scanner := { p.scanner with words := w } }

/-! ## A workbench -/

namespace Workbench

variable {α : Type} {w : Workbench α}

def Step.holder : Step α → Nat
  | .host _ => 0
  | .probe place _ => place + 1

def words? (w : Workbench α) : Nat → Option FirstWords
  | 0 => w.host.session.map (·.scanner.words)
  | place + 1 => w.probes[place]?.map (·.scanner.words)

theorem words?_lt {i : Nat} {words : FirstWords} (h : w.words? i = some words) :
    i < w.probes.length + 1 := by
  cases i with
  | zero => exact Nat.succ_pos _
  | succ place =>
    obtain ⟨p, hp, -⟩ := Option.map_eq_some_iff.1 h
    exact Nat.succ_lt_succ (List.getElem?_eq_some_iff.1 hp).1

/-- Probes are made with the words of the session, and in no other way. -/
theorem given_perform (h : Host α) (step : Host.Step α) :
    given (h.perform step).2.1 = [] ∨
      ∃ s line, h.session = some s ∧ h.perform step = ([], .probed (s.probe line), h) := by
  unfold Host.perform
  cases hs : h.session with
  | none => cases step <;> exact .inl rfl
  | some s =>
    cases step with
    | probe line => exact .inr ⟨s, line, rfl, rfl⟩
    | _ => exact .inl rfl

end Workbench

/-- A workbench where the first words are the ones in the pool. -/
structure Pooled (α : Type) where
  bench : Workbench α
  pool : Pool

namespace Pooled

variable {α : Type} {b : Pooled α}

def found (b : Pooled α) (holder : Nat) : FirstWords := (b.pool.held? holder).getD .untracked

def look (b : Pooled α) : Workbench α where
  host := { b.bench.host with session := b.bench.host.session.map (Session.withWords (b.found 0)) }
  probes := b.bench.probes.mapIdx fun place => Probe.withWords (b.found (place + 1))

/-- A step is taken with the words from the pool, and what comes of these is put back. Each probe
that has been made by then is passed the words of the session. -/
def perform (pass : Pool.Step) (step : Workbench.Step α) (b : Pooled α) :
    Option Host.Outcome × Pooled α :=
  let r := b.look.perform step
  let pool := b.pool.write step.holder (r.2.words? step.holder)
  let made := r.1.toList.flatMap Workbench.given
  (r.1, { bench := r.2, pool := made.foldl (fun p _ => p.perform 0 pass) pool })

def after (pass : Pool.Step) (steps : List (Workbench.Step α)) (b : Pooled α) : Pooled α :=
  steps.foldl (fun b step => (b.perform pass step).2) b

def outcomes (pass : Pool.Step) : List (Workbench.Step α) → Pooled α → List Host.Outcome
  | [], _ => []
  | step :: later, b =>
    (b.perform pass step).1.toList ++ outcomes pass later (b.perform pass step).2

def ofHost (h : Host α) : Pooled α where
  bench := { host := h }
  pool := { cells := [(h.session.map (·.scanner.words)).getD .untracked] }

/-- The words in the pool are the ones that everyone has. -/
structure Fits (b : Pooled α) : Prop where
  apart : b.pool.Apart (b.bench.probes.length + 1)
  held : ∀ i w, b.bench.words? i = some w → b.pool.held? i = some w

theorem fits_ofHost (h : Host α) : (ofHost h).Fits where
  apart := ⟨rfl, by simp [ofHost], List.nodup_singleton 0⟩
  held i w hw := by
    obtain rfl : i = 0 := Nat.lt_one_iff.1 (Workbench.words?_lt hw)
    have hs : h.session.map (·.scanner.words) = some w := hw
    show some ((h.session.map (·.scanner.words)).getD .untracked) = _
    rw [hs]
    rfl

namespace Fits

theorem found_eq (h : b.Fits) {i : Nat} {w : FirstWords} (hw : b.bench.words? i = some w) :
    b.found i = w := by
  rw [found, h.held i w hw, Option.getD_some]

theorem look_eq (h : b.Fits) : b.look = b.bench := by
  have hsession : b.bench.host.session.map (Session.withWords (b.found 0)) =
      b.bench.host.session := by
    cases hs : b.bench.host.session with
    | none => rfl
    | some s =>
      have hw : b.bench.words? 0 = some s.scanner.words := by rw [Workbench.words?, hs]; rfl
      rw [h.found_eq hw]
      rfl
  have hprobes : (b.bench.probes.mapIdx fun place => Probe.withWords (b.found (place + 1))) =
      b.bench.probes := by
    refine List.ext_getElem? fun place => ?_
    rw [List.getElem?_mapIdx]
    cases hp : b.bench.probes[place]? with
    | none => rfl
    | some p =>
      have hw : b.bench.words? (place + 1) = some p.scanner.words := by
        rw [Workbench.words?, hp]
        rfl
      rw [Option.map_some, h.found_eq hw]
      rfl
  unfold look
  rw [hsession, hprobes]

theorem write (h : b.Fits) (bench : Workbench α) {i : Nat}
    (hn : bench.probes.length = b.bench.probes.length)
    (ho : ∀ j ≠ i, bench.words? j = b.bench.words? j) :
    Fits ⟨bench, b.pool.write i (bench.words? i)⟩ := by
  refine ⟨hn ▸ h.apart.write i _, fun j v hv => ?_⟩
  cases hw : bench.words? i with
  | none =>
    have hj : j ≠ i := fun hj => by rw [hj, hw] at hv; cases hv
    exact h.held j v (ho j hj ▸ hv)
  | some w =>
    obtain ⟨hown, hother⟩ := h.apart.held?_write (hn ▸ Workbench.words?_lt hw) w
    by_cases hj : j = i
    · subst hj
      exact hown.trans (hw.symm.trans hv)
    · exact (hother j hj).trans (h.held j v (ho j hj ▸ hv))

theorem fork (h : b.Fits) {s : Session} (hs : b.bench.host.session = some s) (line : String) :
    Fits ⟨{ b.bench with probes := b.bench.probes ++ [s.probe line] },
      b.pool.perform 0 .fork⟩ := by
  obtain ⟨hnew, hold⟩ := h.apart.held?_fork (Nat.succ_pos b.bench.probes.length)
  refine ⟨?_, fun i w hw => ?_⟩
  · rw [List.length_append, List.length_singleton]
    exact h.apart.fork (Nat.succ_pos _)
  · have hi := Workbench.words?_lt hw
    rw [List.length_append, List.length_singleton] at hi
    rcases Nat.lt_succ_iff_lt_or_eq.1 hi with hi | rfl
    · refine (hold i hi).trans (h.held i w ?_)
      cases i with
      | zero => exact hw
      | succ place =>
        rw [Workbench.words?, List.getElem?_append_left (Nat.succ_lt_succ_iff.1 hi)] at hw
        exact hw
    · rw [Workbench.words?, List.getElem?_concat_length] at hw
      refine hnew.trans (h.held 0 w ?_)
      rw [Workbench.words?, hs]
      exact hw

theorem perform (h : b.Fits) (step : Workbench.Step α) :
    (b.perform .fork step).2.Fits ∧ (b.perform .fork step).1 = (b.bench.perform step).1 ∧
      (b.perform .fork step).2.bench = (b.bench.perform step).2 := by
  unfold Pooled.perform
  rw [h.look_eq]
  refine ⟨?_, rfl, rfl⟩
  cases step with
  | host step =>
    have hwrite := h.write { b.bench with host := (b.bench.host.perform step).2.2 } (i := 0) rfl
      fun j hj => by
        cases j with
        | zero => exact absurd rfl hj
        | succ place => rfl
    rcases Workbench.given_perform b.bench.host step with hg | ⟨s, line, hs, hp⟩
    · simpa [Workbench.perform, hg, Workbench.Step.holder] using hwrite
    · rw [hp] at hwrite
      simpa [Workbench.perform, hp, Workbench.given, Workbench.Step.holder, Workbench.words?]
        using hwrite.fork hs line
  | probe place step =>
    refine h.write _ (List.length_modify _ _ _) fun j hj => ?_
    cases j with
    | zero => rfl
    | succ other =>
      have hne : place ≠ other := fun he => hj (congrArg Nat.succ he.symm)
      exact congrArg (Option.map _) (List.getElem?_modify_ne _ _ hne)

theorem after (h : b.Fits) (steps : List (Workbench.Step α)) :
    (b.after .fork steps).look = b.bench.after steps ∧
      b.outcomes .fork steps = b.bench.outcomes steps := by
  induction steps generalizing b with
  | nil => exact ⟨h.look_eq, rfl⟩
  | cons step later ih =>
    obtain ⟨hf, ho, hb⟩ := h.perform step
    obtain ⟨hlook, hlater⟩ := ih hf
    rw [hb] at hlook hlater
    refine ⟨hlook, ?_⟩
    rw [outcomes, Workbench.outcomes, ho, hlater]

end Fits

/-- Everyone comes upon the words that it would have if it kept them to itself, and all that comes
of the steps is the same. So the host goes on as if there were no probes. -/
theorem look_after (h : Host α) (steps : List (Workbench.Step α)) :
    let bench : Workbench α := { host := h }
    ((ofHost h).after .fork steps).look = bench.after steps ∧
      (ofHost h).outcomes .fork steps = bench.outcomes steps ∧
      ((ofHost h).after .fork steps).look.host =
        h.after (steps.filterMap Workbench.Step.ofHost?) := by
  intro bench
  obtain ⟨hl, ho⟩ := (fits_ofHost h).after steps
  refine ⟨hl, ho, ?_⟩
  rw [hl]
  exact (Workbench.without_probes steps bench).1

/-- If the words were shared with the probe, the session would come upon those of its line. -/
example :
    let b : Pooled Nat := ofHost (.start { interactive := true } none none)
    let steps : List (Workbench.Step Nat) := [.host (.probe "ls\n"), .probe 0 .next]
    (b.after .fork steps).look.host.session.map (·.firstWord?) = some (some "") ∧
      (b.after .share steps).look.host.session.map (·.firstWord?) = some (some "ls") := by
  decide +kernel

end Pooled

end ShellTokens
