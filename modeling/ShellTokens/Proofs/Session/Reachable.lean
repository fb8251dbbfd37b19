import ShellTokens.Proofs.Session.Ahead

/-!
# Sessions that can come about

A session is begun, then its host takes steps, and in some of these the reader takes turns. Nothing
is lost in any of them.
-/

namespace ShellTokens

namespace Host

variable {α : Type} {h : Host α}

def after (steps : List (Step α)) (h : Host α) : Host α :=
  steps.foldl (fun h step => (h.perform step).2.2) h

theorem after_append (steps later : List (Step α)) (h : Host α) :
    h.after (steps ++ later) = (h.after steps).after later :=
  List.foldl_append

theorem withSession_self {s : Session} (hs : h.session = some s) : h.withSession s = h := by
  unfold withSession
  rw [← hs]

theorem sound_perform {s t : Session} (hs : h.session = some s) (hsound : s.Sound) {step : Step α}
    (ht : (h.perform step).2.2.session = some t) : t.Sound := by
  have hrefl : h.Agrees h := by
    refine agrees_refl fun s' hs' => ?_
    cases hs.symm.trans hs'
    exact hsound
  obtain ⟨-, ha⟩ := hrefl.look step
  rcases ha.session with ⟨hn, -⟩ | ⟨u, v, hu, -, huv⟩
  · cases hn.symm.trans ht
  · cases hu.symm.trans ht
    exact huv.left

end Host

namespace Session

variable {s : Session}

/-- The sessions that a host may have, and those that the reader has in the middle of a call. -/
inductive Reachable : Session → Prop
  | start (o : Options) (supplier : Option Supplier) : Reachable (start o supplier)
  | perform {α : Type} {h : Host α} {s t : Session} (step : Host.Step α) (hs : h.session = some s)
      (hr : Reachable s) (ht : (h.perform step).2.2.session = some t) : Reachable t
  | turn {s : Session} (retries : Nat) (hr : Reachable s) : Reachable (s.turn retries).2.2

theorem Sound.turn (h : s.Sound) (retries : Nat) : (s.turn retries).2.2.Sound := by
  have hrefl : s.Agrees s := ⟨h, h, rfl⟩
  by_cases hw : s.Waits
  · rcases hh : s.handoff with _ | o
    · exact (hrefl.turn (.inr ⟨hh, hh⟩) retries).agrees.left
    · have hsome : s.handoff.isSome = true := by rw [hh]; rfl
      rw [turn_of_handoff hw hsome]
      exact (await_spec h hw.alive hsome retries).2.sound
  · exact (hrefl.turn (.inl hw) retries).agrees.left

theorem Reachable.sound (h : s.Reachable) : s.Sound := by
  induction h with
  | start o supplier => exact sound_start o supplier
  | perform step hs _ ht ih => exact Host.sound_perform hs ih ht
  | turn retries _ ih => exact ih.turn retries

end Session

namespace Host

variable {α : Type} {h : Host α}

theorem reachable_after (hr : ∀ s, h.session = some s → s.Reachable) (steps : List (Step α)) :
    ∀ s, (h.after steps).session = some s → s.Reachable := by
  induction steps generalizing h with
  | nil => exact hr
  | cons step later ih =>
    refine ih ?_
    intro s (hs : (h.perform step).2.2.session = some s)
    cases hh : h.session with
    | none =>
      -- A session that has been let go of does not come back.
      unfold perform at hs
      rw [hh] at hs
      cases hh.symm.trans hs
    | some t => exact .perform step hh (hr t hh) hs

theorem reachable_after_start (o : Options) (supplier : Option Supplier)
    (accepts : Option (List α → Bool)) (steps : List (Step α)) {s : Session}
    (hs : ((start o supplier accepts).after steps).session = some s) : s.Reachable := by
  refine reachable_after ?_ steps s hs
  rintro s ⟨⟩
  exact .start o supplier

end Host

end ShellTokens
