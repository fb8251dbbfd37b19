import Mathlib.Data.List.Induction
import ShellTokens.Proofs.Scanner.Boundary
import ShellTokens.Proofs.Scanner.Reached

/-!
# What has been done with each of several scanners

A copy has the past of the scanner that it was made of, and from then on a past of its own. So each
scanner is what its past makes of a fresh one, whatever has been done with the others.
-/

namespace ShellTokens.Scanner

namespace Deed

def act (s : Scanner) : Deed → Scanner
  | append chunk => s.append chunk
  | scan => s.scan.2
  | discard => s.discard
  | track words => { s with words }
  | snapshot => s

def note (place : Nat) (pasts : List (List Deed)) : Deed → List (List Deed)
  | snapshot => pasts ++ pasts[place]?.toList
  | d => pasts.modify place (· ++ [d])

end Deed

/-- The past of each scanner when all has been done. -/
def pastsAll : List (Nat × Deed) → List (List Deed) → List (List Deed)
  | [], pasts => pasts
  | (place, d) :: later, pasts => pastsAll later (d.note place pasts)

/-- What a past makes of a fresh scanner. -/
def relive (interactive : Bool) (past : List Deed) : Scanner :=
  past.foldl Deed.act (fresh interactive)

variable {interactive : Bool} {s : Scanner}

theorem relive_concat (interactive : Bool) (past : List Deed) (d : Deed) :
    relive interactive (past ++ [d]) = d.act (relive interactive past) := by
  rw [relive, List.foldl_concat]
  rfl

theorem modify_map_relive (place : Nat) (pasts : List (List Deed)) (d : Deed) :
    (pasts.map (relive interactive)).modify place d.act =
      (pasts.modify place (· ++ [d])).map (relive interactive) := by
  apply List.ext_getElem?
  intro i
  rw [List.getElem?_modify, List.getElem?_map, List.getElem?_map, List.getElem?_modify]
  by_cases hi : place = i
  · subst hi
    cases pasts[place]? <;> simp [relive_concat]
  · simp [hi]

theorem perform_map_relive (place : Nat) (pasts : List (List Deed)) (d : Deed) :
    d.perform place (pasts.map (relive interactive)) =
      (d.note place pasts).map (relive interactive) := by
  cases d with
  | snapshot =>
    rw [Deed.perform, Deed.note, List.map_append, List.getElem?_map]
    cases pasts[place]? <;> rfl
  | append chunk => exact modify_map_relive place pasts (.append chunk)
  | scan => exact modify_map_relive place pasts .scan
  | discard => exact modify_map_relive place pasts .discard
  | track words => exact modify_map_relive place pasts (.track words)

theorem performAll_map_relive (deeds : List (Nat × Deed)) (pasts : List (List Deed)) :
    performAll deeds (pasts.map (relive interactive)) =
      (pastsAll deeds pasts).map (relive interactive) := by
  induction deeds generalizing pasts with
  | nil => rfl
  | cons first later ih =>
    obtain ⟨place, d⟩ := first
    rw [performAll, perform_map_relive, ih, pastsAll]

theorem exists_past {deeds : List (Nat × Deed)} {place : Nat}
    (hs : (performAll deeds [fresh interactive])[place]? = some s) :
    ∃ past, (pastsAll deeds [[]])[place]? = some past ∧ s = relive interactive past := by
  have hp : performAll deeds [fresh interactive] =
      (pastsAll deeds [[]]).map (relive interactive) :=
    performAll_map_relive deeds [[]]
  rw [hp, List.getElem?_map, Option.map_eq_some_iff] at hs
  obtain ⟨past, hpast, rfl⟩ := hs
  exact ⟨past, hpast, rfl⟩

theorem reached_relive (interactive : Bool) (past : List Deed) :
    ∃ es, Reached (relive interactive past) es := by
  induction past using List.reverseRecOn with
  | nil => exact ⟨[], .fresh interactive⟩
  | append_singleton past d ih =>
    obtain ⟨es, h⟩ := ih
    rw [relive_concat]
    cases d with
    | append chunk => exact ⟨es, h.append chunk⟩
    | scan => exact ⟨_, h.scan⟩
    | discard => exact ⟨[], h.discard⟩
    | track words => exact ⟨es, h.track words⟩
    | snapshot => exact ⟨es, h⟩

theorem exists_has {deeds : List (Nat × Deed)}
    (hs : s ∈ performAll deeds [fresh interactive]) : ∃ rs, s.Has rs := by
  obtain ⟨place, hplace⟩ := List.mem_iff_getElem?.1 hs
  obtain ⟨past, -, rfl⟩ := exists_past hplace
  obtain ⟨es, h⟩ := reached_relive interactive past
  exact h.remembers.1

end ShellTokens.Scanner
