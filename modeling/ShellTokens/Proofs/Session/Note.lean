import ShellTokens.Proofs.Scanner.Chunks
import ShellTokens.Proofs.Scanner.Kinds
import ShellTokens.Text.Bytes

/-!
# Notes of what goes in and what comes out

They are written down in the order in which it happens. A record is faithful if no input is lost,
given out twice or out of turn.
-/

namespace ShellTokens

inductive Note where
  /-- Text was put behind all input. -/
  | appended (text : String)
  /-- The supplier was asked for a line. -/
  | asked
  | returned (t : Token)
  /-- The reader came back with the supplier's reason to break off. -/
  | reported (t : Token)
  /-- The reader came back without a token. -/
  | ended
  deriving DecidableEq, Repr

namespace Note

def input : List Note → List UInt8
  | [] => []
  | .appended text :: later => Text.bytes text ++ input later
  | _ :: later => input later

def tokens : List Note → List Token
  | [] => []
  | .returned t :: later => t :: tokens later
  | .reported t :: later => t :: tokens later
  | _ :: later => tokens later

def scanned : List Note → List Token
  | [] => []
  | .returned t :: later => if t.kind.isText then t :: scanned later else scanned later
  | _ :: later => scanned later

def expected (interactive : Bool) (notes : List Note) : List Token :=
  ((Scanner.fresh interactive).append (input notes)).emissions.map Emission.toToken

/-- No token is held back then. -/
def isPause : Note → Bool
  | asked | ended => true
  | _ => false

/-- At any time the reader has come back with a first part of what one scanner makes of the input
so far, and with all of it at each pause. -/
def Faithful (interactive : Bool) (notes : List Note) : Prop :=
  ∀ before after, notes = before ++ after →
    scanned before <+: expected interactive before ∧
      ((after.head?.any isPause) = true → scanned before = expected interactive before)

theorem input_append (notes more : List Note) :
    input (notes ++ more) = input notes ++ input more := by
  induction notes with
  | nil => rfl
  | cons note notes ih =>
    cases note <;> simp [input, ih]

theorem tokens_append (notes more : List Note) :
    tokens (notes ++ more) = tokens notes ++ tokens more := by
  induction notes with
  | nil => rfl
  | cons note notes ih =>
    cases note <;> simp [tokens, ih]

theorem scanned_append (notes more : List Note) :
    scanned (notes ++ more) = scanned notes ++ scanned more := by
  induction notes with
  | nil => rfl
  | cons note notes ih =>
    cases note
    case returned t =>
      simp only [List.cons_append, scanned, ih]
      split <;> rfl
    all_goals exact ih

/-! ## One note more -/

/-- The record is faithful, and `coming` is what is left of the input, with the scanner `behind`
it. -/
structure Follows (interactive : Bool) (notes : List Note) (coming : List Token)
    (behind : Scanner) : Prop where
  tokens : scanned notes ++ coming = expected interactive notes
  behind : ((Scanner.fresh interactive).append (input notes)).behind.Alike behind
  faithful : Faithful interactive notes

variable {interactive : Bool} {notes : List Note} {coming : List Token} {behind : Scanner}

theorem Faithful.snoc {note : Note} (h : Faithful interactive notes)
    (hp : note.isPause = true → scanned notes = expected interactive notes)
    (hn : scanned (notes ++ [note]) <+: expected interactive (notes ++ [note])) :
    Faithful interactive (notes ++ [note]) := by
  intro before after he
  rcases List.eq_nil_or_concat after with rfl | ⟨after, last, rfl⟩
  · rw [List.append_nil] at he
    subst he
    exact ⟨hn, nofun⟩
  · rw [List.concat_eq_append, ← List.append_assoc] at he
    obtain ⟨rfl, hl⟩ := List.append_inj' he rfl
    cases hl
    obtain ⟨h₁, h₂⟩ := h before after rfl
    refine ⟨h₁, fun ha => ?_⟩
    rcases after with _ | ⟨first, after⟩
    · simp only [List.append_nil] at hp
      exact hp (by simpa using ha)
    · exact h₂ (by simpa using ha)

theorem follows_nil (interactive : Bool) :
    Follows interactive [] [] (Scanner.fresh interactive).behind := by
  have ha : (Scanner.fresh interactive).Alike ((Scanner.fresh interactive).append []) :=
    Scanner.lacks_append (Scanner.sound_fresh interactive) []
  obtain ⟨he, hb⟩ := ha.drain
  have hn : expected interactive [] = [] := by
    unfold expected
    rw [show input [] = [] from rfl, he, Scanner.emissions_of_halt (Scanner.step_of_empty rfl rfl)]
    rfl
  refine ⟨hn.symm, hb.symm, ?_⟩
  intro before after hba
  obtain ⟨rfl, rfl⟩ := List.append_eq_nil_iff.1 hba.symm
  exact ⟨⟨_, List.nil_append _⟩, nofun⟩

theorem Follows.pass (h : Follows interactive notes coming behind) (note : Note)
    (hi : input [note] = []) (hs : scanned [note] = [])
    (hp : note.isPause = true → coming = []) :
    Follows interactive (notes ++ [note]) coming behind := by
  have hin : input (notes ++ [note]) = input notes := by rw [input_append, hi, List.append_nil]
  have hsc : scanned (notes ++ [note]) = scanned notes := by
    rw [scanned_append, hs, List.append_nil]
  have he : expected interactive (notes ++ [note]) = expected interactive notes := by
    unfold expected
    rw [hin]
  refine ⟨by rw [hsc, he, h.tokens], by rw [hin]; exact h.behind, h.faithful.snoc ?_ ?_⟩
  · intro hn
    have ht := h.tokens
    rwa [hp hn, List.append_nil] at ht
  · rw [hsc, he]
    exact ⟨coming, h.tokens⟩

theorem Follows.take {k : Token} {ks : List Token}
    (h : Follows interactive notes (k :: ks) behind) :
    Follows interactive (notes ++ [.returned k]) ks behind := by
  have hk : k.kind.isText = true := by
    have hm : k ∈ expected interactive notes := by
      rw [← h.tokens]
      exact List.mem_append_right _ List.mem_cons_self
    unfold expected at hm
    obtain ⟨e, he, rfl⟩ := List.mem_map.1 hm
    exact Scanner.isText_emissions _ e he
  have hin : input (notes ++ [.returned k]) = input notes := by
    rw [input_append]
    exact List.append_nil _
  have hsc : scanned (notes ++ [.returned k]) = scanned notes ++ [k] := by
    rw [scanned_append, scanned, if_pos hk]
    rfl
  have he : expected interactive (notes ++ [.returned k]) = expected interactive notes := by
    unfold expected
    rw [hin]
  have ht : scanned (notes ++ [.returned k]) ++ ks =
      expected interactive (notes ++ [.returned k]) := by
    rw [hsc, he, ← h.tokens, List.append_assoc]
    rfl
  exact ⟨ht, by rw [hin]; exact h.behind, h.faithful.snoc nofun ⟨ks, ht⟩⟩

theorem Follows.append (h : Follows interactive notes coming behind) (text : String) :
    Follows interactive (notes ++ [.appended text])
      (coming ++ (behind.append (Text.bytes text)).emissions.map Emission.toToken)
      (behind.append (Text.bytes text)).behind := by
  have hf := Scanner.sound_fresh interactive
  have hin : input (notes ++ [.appended text]) = input notes ++ Text.bytes text := by
    rw [input_append]
    exact congrArg _ (List.append_nil _)
  have hsc : scanned (notes ++ [.appended text]) = scanned notes := by
    rw [scanned_append]
    exact List.append_nil _
  obtain ⟨he, hb⟩ := (Scanner.append_append hf (input notes) (Text.bytes text)).drain
  have hsound := Scanner.sound_append hf (input notes)
  obtain ⟨hbe, hbb⟩ := (h.behind.append (Text.bytes text)).drain
  have ht : scanned (notes ++ [.appended text]) ++
      (coming ++ (behind.append (Text.bytes text)).emissions.map Emission.toToken) =
        expected interactive (notes ++ [.appended text]) := by
    rw [hsc, ← List.append_assoc, h.tokens]
    unfold expected
    rw [hin, he, Scanner.emissions_append hsound, hbe, List.map_append]
  refine ⟨ht, ?_, h.faithful.snoc nofun ⟨_, ht⟩⟩
  rw [hin]
  exact hb.symm.trans ((Scanner.behind_append hsound _).symm.trans hbb)

theorem Follows.alike {behind' : Scanner} (h : Follows interactive notes coming behind)
    (hb : behind.Alike behind') : Follows interactive notes coming behind' :=
  ⟨h.tokens, h.behind.trans hb, h.faithful⟩

end Note

end ShellTokens
