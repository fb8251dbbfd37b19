import Mathlib.Data.List.Induction
import Mathlib.Logic.Relation
import ShellTokens.FirstWords.Pool

/-!
# What a holder has heard

Holders that share their words hear of the same changes, and a copy has heard of what was heard
before it was made. All of that can be told from a log of the steps, without the words themselves.
-/

namespace ShellTokens.FirstWords.Pool

/-- The steps that have been taken, each with the holder that took it. -/
abbrev Log := List (Nat × Step)

namespace Step

def addsHolder : Step → Bool
  | .change _ => false
  | .fork | .share => true

def change? : Step → Option Change
  | .change c => some c
  | .fork | .share => none

end Step

/-! ## Read off the log -/

/-- How many holders there are. At first it is one, and each one more has the next number. -/
def holderCount (log : Log) : Nat := log.countP (·.2.addsHolder) + 1

def Proper (log : Log) : Prop :=
  ∀ done holder step, done ++ [(holder, step)] <+: log → holder < holderCount done

/-- The holder `b` has come to be by a step with which `a` shared its words. -/
def Shared (log : Log) (a b : Nat) : Prop :=
  ∃ done, done ++ [(a, .share)] <+: log ∧ holderCount done = b

/-- Holders of the same words: whom they got them from, whom they passed them on to, and so on. -/
def SameWords (log : Log) : Nat → Nat → Prop := Relation.EqvGen (Shared log)

open Classical in
noncomputable def changesBy (own : Nat → Prop) (log : Log) : List Change :=
  (log.filter fun e => own e.1).filterMap (·.2.change?)

noncomputable def changes (log : Log) (i : Nat) : List Change := changesBy (SameWords log i) log

/-- What a holder has heard of: the changes to its words, and if these are a copy, before them what
the holder that was copied had heard of by then. -/
inductive History : Log → Nat → List Change → Prop
  | first {log : Log} {i : Nat} (h : SameWords log 0 i) : History log i (changes log i)
  | fork {log done : Log} {a i : Nat} {old : List Change} (hd : done ++ [(a, .fork)] <+: log)
      (h : SameWords log (holderCount done) i) (ho : History done a old) :
      History log i (old ++ changes log i)

variable {log done : Log} {e : Nat × Step} {a i j n : Nat} {c : Change}

/-! ## One step more -/

theorem concat_isPrefix_concat {e' : Nat × Step} :
    done ++ [e'] <+: log ++ [e] ↔ (done = log ∧ e' = e) ∨ done ++ [e'] <+: log := by
  rw [List.prefix_concat_iff, List.append_singleton_inj]

theorem holderCount_pos (log : Log) : 0 < holderCount log := Nat.succ_pos _

theorem holderCount_mono (h : done <+: log) : holderCount done ≤ holderCount log :=
  Nat.succ_le_succ h.sublist.countP_le

theorem holderCount_concat (log : Log) (e : Nat × Step) :
    holderCount (log ++ [e]) = holderCount log + if e.2.addsHolder then 1 else 0 := by
  simp only [holderCount, List.countP_append, List.countP_singleton]
  omega

theorem holderCount_change (log : Log) (a : Nat) (c : Change) :
    holderCount (log ++ [(a, .change c)]) = holderCount log :=
  holderCount_concat log (a, .change c)

theorem holderCount_add (log : Log) (he : e.2.addsHolder = true) :
    holderCount (log ++ [e]) = holderCount log + 1 := by
  rw [holderCount_concat, if_pos he]

theorem holderCount_lt (h : done ++ [e] <+: log) (he : e.2.addsHolder = true) :
    holderCount done < holderCount log := by
  have hm := holderCount_mono h
  rw [holderCount_add done he] at hm
  exact hm

theorem Proper.of_concat (h : Proper (log ++ [e])) : Proper log ∧ e.1 < holderCount log :=
  ⟨fun done holder step hd => h done holder step (hd.trans (List.prefix_append log [e])),
    h log e.1 e.2 List.prefix_rfl⟩

theorem Proper.lt_of_mem (h : Proper log) (he : e ∈ log) : e.1 < holderCount log := by
  obtain ⟨done, later, rfl⟩ := List.append_of_mem he
  have hd : done ++ [e] <+: done ++ e :: later := ⟨later, List.append_assoc _ _ _⟩
  exact Nat.lt_of_lt_of_le (h done e.1 e.2 hd) (holderCount_mono (List.prefix_append done _))

theorem proper_iff :
    Proper log ↔ ∀ k, ∀ hk : k < log.length, log[k].1 < holderCount (log.take k) := by
  constructor
  · intro h k hk
    have hd : log.take k ++ [log[k]] <+: log := by
      rw [List.take_append_getElem]
      exact List.take_prefix _ log
    exact h (log.take k) log[k].1 log[k].2 hd
  · rintro h done holder step ⟨later, rfl⟩
    simpa using h done.length (by simp)

instance (log : Log) : Decidable (Proper log) := decidable_of_iff _ proper_iff.symm

theorem Proper.shared_lt (h : Proper log) (hs : Shared log a n) : a < n ∧ n < holderCount log := by
  obtain ⟨done, hd, rfl⟩ := hs
  exact ⟨h done a .share hd, holderCount_lt hd rfl⟩

/-! ## Who holds the same words -/

namespace SameWords

theorem refl (log : Log) (i : Nat) : SameWords log i i := Relation.EqvGen.refl i

theorem symm (h : SameWords log i j) : SameWords log j i := Relation.EqvGen.symm i j h

theorem trans (h : SameWords log i j) (h' : SameWords log j n) : SameWords log i n :=
  Relation.EqvGen.trans i j n h h'

theorem value_eq {α : Type} {f : Nat → α} (h : SameWords log i j)
    (hf : ∀ a b, Shared log a b → f a = f b) : f i = f j := by
  induction h with
  | rel a b hs => exact hf a b hs
  | refl a => rfl
  | symm a b _ ih => exact ih.symm
  | trans a b d _ _ ih ih' => exact ih.trans ih'

theorem lt_iff (hp : Proper log) (h : SameWords log i j) :
    i < holderCount log ↔ j < holderCount log := by
  refine iff_of_eq (h.value_eq (f := (· < holderCount log)) fun a b hs => ?_)
  obtain ⟨hab, hb⟩ := hp.shared_lt hs
  exact propext (iff_of_true (Nat.lt_trans hab hb) hb)

theorem mono (hd : done <+: log) (h : SameWords done i j) : SameWords log i j := by
  have hs : Shared done ≤ Shared log := fun _ _ ⟨first, hf, hn⟩ => ⟨first, hf.trans hd, hn⟩
  exact Relation.EqvGen.mono hs i j h

end SameWords

theorem shared_concat :
    Shared (log ++ [e]) a n ↔ Shared log a n ∨ (e = (a, .share) ∧ holderCount log = n) := by
  constructor
  · rintro ⟨done, hd, hn⟩
    rcases concat_isPrefix_concat.1 hd with ⟨rfl, he⟩ | hd
    · exact .inr ⟨he.symm, hn⟩
    · exact .inl ⟨done, hd, hn⟩
  · rintro (⟨done, hd, hn⟩ | ⟨rfl, hn⟩)
    · exact ⟨done, hd.trans (List.prefix_append log [e]), hn⟩
    · exact ⟨log, List.prefix_rfl, hn⟩

theorem sameWords_concat (he : e.2 ≠ .share) : SameWords (log ++ [e]) = SameWords log := by
  have hs : Shared (log ++ [e]) = Shared log := by
    funext a n
    rw [shared_concat]
    refine propext (or_iff_left ?_)
    rintro ⟨rfl, -⟩
    exact he rfl
  rw [SameWords, SameWords, hs]

/-- Whose words a holder has when the holder `a` has let one more share its own. -/
def source (log : Log) (a i : Nat) : Nat := if i = holderCount log then a else i

theorem source_new (log : Log) (a : Nat) : source log a (holderCount log) = a := if_pos rfl

theorem source_of_lt (h : i < holderCount log) : source log a i = i := if_neg (Nat.ne_of_lt h)

theorem sameWords_share (hp : Proper log) (ha : a < holderCount log) :
    SameWords (log ++ [(a, .share)]) i j ↔ SameWords log (source log a i) (source log a j) := by
  constructor
  · intro h
    induction h with
    | rel b n hs =>
      rcases shared_concat.1 hs with hs | ⟨he, rfl⟩
      · obtain ⟨hb, hn⟩ := hp.shared_lt hs
        rw [source_of_lt (Nat.lt_trans hb hn), source_of_lt hn]
        exact .rel b n hs
      · obtain ⟨rfl, -⟩ := Prod.mk.inj he
        rw [source_of_lt ha, source_new]
        exact .refl log a
    | refl b => exact .refl log _
    | symm b d _ ih => exact ih.symm
    | trans b d f _ _ ih ih' => exact ih.trans ih'
  · intro h
    have hsource (k : Nat) : SameWords (log ++ [(a, .share)]) (source log a k) k := by
      by_cases hk : k = holderCount log
      · rw [hk, source_new]
        exact .rel _ _ ⟨log, List.prefix_rfl, rfl⟩
      · rw [source, if_neg hk]
        exact .refl _ k
    exact (hsource i).symm.trans ((h.mono (List.prefix_append log _)).trans (hsource j))

/-! ## What has been heard -/

section changesBy

variable {own own' : Nat → Prop}

theorem changesBy_append (own : Nat → Prop) (log later : Log) :
    changesBy own (log ++ later) = changesBy own log ++ changesBy own later := by
  rw [changesBy, List.filter_append, List.filterMap_append]
  rfl

theorem changesBy_singleton (h : own e.1) : changesBy own [e] = e.2.change?.toList := by
  cases he : e.2.change? <;> simp [changesBy, h, he]

theorem changesBy_congr (h : ∀ e ∈ log, own e.1 ↔ own' e.1) :
    changesBy own log = changesBy own' log := by
  rw [changesBy, changesBy, List.filter_congr fun e he => decide_eq_decide.2 (h e he)]

theorem changesBy_eq_nil (h : ∀ e ∈ log, own e.1 → e.2.change? = none) :
    changesBy own log = [] := by
  simp only [changesBy, List.filterMap_eq_nil_iff, List.mem_filter, decide_eq_true_eq]
  exact fun e he => h e he.1 he.2

end changesBy

theorem changes_concat (he : e.2 ≠ .share) (i : Nat) :
    changes (log ++ [e]) i = changes log i ++ changesBy (SameWords log i) [e] := by
  rw [changes, sameWords_concat he, changesBy_append, changes]

theorem changes_fork (log : Log) (i : Nat) : changes (log ++ [(a, .fork)]) i = changes log i := by
  rw [changes_concat (by simp), changesBy_eq_nil (by simp [Step.change?]), List.append_nil]

theorem changes_share (hp : Proper log) (ha : a < holderCount log) (i : Nat) :
    changes (log ++ [(a, .share)]) i = changes log (source log a i) := by
  have hlast : changesBy (SameWords (log ++ [(a, .share)]) i) [(a, .share)] = [] :=
    changesBy_eq_nil (by simp [Step.change?])
  rw [changes, changesBy_append, hlast, List.append_nil, changes]
  refine changesBy_congr fun e he => ?_
  rw [sameWords_share hp ha, source_of_lt (hp.lt_of_mem he)]

theorem changes_new (hp : Proper log) : changes log (holderCount log) = [] :=
  changesBy_eq_nil fun _ he hs =>
    absurd ((hs.lt_iff hp).2 (hp.lt_of_mem he)) (Nat.lt_irrefl (holderCount log))

variable {hist : List Change}

/-- What is heard in one step more, for all but a copy that is made in it: `later`, behind what `j`
has heard before. -/
theorem history_concat (hf : e.2 = .fork → ¬ SameWords (log ++ [e]) (holderCount log) i)
    (hs : ∀ k < holderCount log, SameWords (log ++ [e]) k i ↔ SameWords log k j)
    {later : List Change} (hc : changes (log ++ [e]) i = changes log j ++ later) :
    History (log ++ [e]) i hist ↔ ∃ old, History log j old ∧ hist = old ++ later := by
  constructor
  · intro h
    cases h with
    | first h => exact ⟨_, .first ((hs 0 (holderCount_pos log)).1 h), hc⟩
    | @fork _ done a _ old hd h ho =>
      rcases concat_isPrefix_concat.1 hd with ⟨rfl, he⟩ | hd
      · exact absurd h (hf (by rw [← he]))
      · refine ⟨_, .fork hd ((hs _ (holderCount_lt hd rfl)).1 h) ho, ?_⟩
        rw [hc, List.append_assoc]
  · rintro ⟨old, ho, rfl⟩
    cases ho with
    | first h =>
      rw [← hc]
      exact .first ((hs 0 (holderCount_pos log)).2 h)
    | fork hd h ho =>
      rw [List.append_assoc, ← hc]
      exact .fork (hd.trans (List.prefix_append log [e]))
        ((hs _ (holderCount_lt hd rfl)).2 h) ho

theorem history_change :
    History (log ++ [(a, .change c)]) i hist ↔
      ∃ old, History log i old ∧ hist = old ++ changesBy (SameWords log i) [(a, .change c)] :=
  history_concat (by simp) (fun k _ => by rw [sameWords_concat (by simp)])
    (changes_concat (by simp) i)

theorem history_share (hp : Proper log) (ha : a < holderCount log) :
    History (log ++ [(a, .share)]) i hist ↔ History log (source log a i) hist := by
  have hs (k : Nat) (hk : k < holderCount log) :
      SameWords (log ++ [(a, .share)]) k i ↔ SameWords log k (source log a i) := by
    rw [sameWords_share hp ha, source_of_lt hk]
  have hc := (changes_share hp ha i).trans (List.append_nil _).symm
  rw [history_concat (by simp) hs hc]
  simp

theorem Proper.not_sameWords (hp : Proper log) (hi : i < holderCount log) :
    ¬ SameWords log i (holderCount log) :=
  fun h => Nat.lt_irrefl _ ((h.lt_iff hp).1 hi)

theorem history_fork (hp : Proper log) (hi : i < holderCount log) :
    History (log ++ [(a, .fork)]) i hist ↔ History log i hist := by
  have hsame : SameWords (log ++ [(a, .fork)]) = SameWords log := sameWords_concat (by simp)
  have hnone : ¬ SameWords (log ++ [(a, .fork)]) (holderCount log) i := by
    rw [hsame]
    exact fun h => hp.not_sameWords hi h.symm
  have hc := (changes_fork (a := a) log i).trans (List.append_nil _).symm
  rw [history_concat (fun _ => hnone) (fun k _ => by rw [hsame]) hc]
  simp

theorem history_copy (hp : Proper log) :
    History (log ++ [(a, .fork)]) (holderCount log) hist ↔ History log a hist := by
  have hnone {k : Nat} (hk : k < holderCount log) :
      ¬ SameWords (log ++ [(a, .fork)]) k (holderCount log) := by
    rw [sameWords_concat (by simp)]
    exact hp.not_sameWords hk
  have hc : changes (log ++ [(a, .fork)]) (holderCount log) = [] := by
    rw [changes_fork, changes_new hp]
  constructor
  · intro h
    cases h with
    | first h => exact absurd h (hnone (holderCount_pos log))
    | fork hd h ho =>
      rcases concat_isPrefix_concat.1 hd with ⟨rfl, he⟩ | hd
      · cases he
        rwa [hc, List.append_nil]
      · exact absurd h (hnone (holderCount_lt hd rfl))
  · intro h
    have hnew := History.fork List.prefix_rfl (.refl (log ++ [(a, .fork)]) (holderCount log)) h
    rwa [hc, List.append_nil] at hnew

end ShellTokens.FirstWords.Pool
