import Mathlib.Data.List.Chain
import ShellTokens.Proofs.Text.Whole
import ShellTokens.Scanner.State
import ShellTokens.Token.Normal

/-!
# How tokens are written

What a user types for a token. A token that no text makes is not writable.
-/

namespace ShellTokens

namespace Text

def isBlank (c : Char) : Bool := c = '\t' || c = '\r' || c = ' '

/-- No stop is in the characters but behind a backslash, and each backslash has its character. -/
def unbroken (stop : Char → Bool) : List Char → Bool
  | '\\' :: _ :: rest => unbroken stop rest
  | ['\\'] => false
  | c :: rest => !stop c && unbroken stop rest
  | [] => true

theorem unbroken_cons {stop : Char → Bool} {c : Char} (hc : c ≠ '\\') (cs : List Char) :
    unbroken stop (c :: cs) = (!stop c && unbroken stop cs) := by
  rw [unbroken]
  · rintro _ _ rfl
    exact absurd rfl hc
  · rintro rfl
    exact absurd rfl hc

@[elab_as_elim]
theorem unbroken_induction {stop : Char → Bool} {motive : List Char → Prop} (nil : motive [])
    (escaped : ∀ c cs, motive cs → motive ('\\' :: c :: cs))
    (char : ∀ c cs, c ≠ '\\' → stop c = false → motive cs → motive (c :: cs))
    (cs : List Char) (h : unbroken stop cs = true) : motive cs := by
  fun_induction unbroken stop cs with
  | case1 c rest ih => exact escaped c rest (ih h)
  | case2 => exact absurd h (by decide)
  | case3 c rest h₁ h₂ ih =>
    have hc : c ≠ '\\' := by
      rintro rfl
      cases rest with
      | nil => exact h₂ rfl rfl
      | cons d rest => exact h₁ d rest rfl rfl
    simp only [Bool.and_eq_true, Bool.not_eq_true'] at h
    exact char c rest hc h.1 (ih h.2)
  | case4 => exact nil

theorem unbroken_append {stop : Char → Bool} {cs : List Char} (h : unbroken stop cs = true)
    (ds : List Char) : unbroken stop (cs ++ ds) = unbroken stop ds := by
  refine unbroken_induction ?nil ?escaped ?char cs h
  case nil => rfl
  case escaped => exact fun c cs ih => ih
  case char =>
    intro c cs hc hs ih
    rw [List.cons_append, unbroken_cons hc, hs, ih]
    rfl

def isWord (cs : List Char) : Bool :=
  !cs.isEmpty && cs.head? != some '\x7d' && unbroken State.isDelimiter cs

end Text

namespace Token

/-- What a user types for the token. -/
def written (t : Token) : List Char :=
  match t.kind with
  | .background | .and | .or | .pipe | .redirect | .substitute =>
    (((Operator.ofName? t.text).map (·.spelling)).getD t.text).toList
  | .singleQuoted => ['\''] ++ t.text.toList ++ ['\'']
  | .doubleQuoted => ['"'] ++ t.text.toList ++ ['"']
  | .bangString => ['!', '"'] ++ t.text.toList ++ ['"']
  | _ => t.text.toList

/-- There is a text that makes the token. -/
def isWritable (t : Token) : Bool :=
  match t.kind with
  | .background | .and | .or | .pipe | .redirect | .substitute =>
    (Operator.ofName? t.text).any (·.kind = t.kind)
  | .cons => t.text = "::"
  | .singleQuoted => !t.text.toList.contains '\''
  | .doubleQuoted | .bangString => Text.unbroken (· = '"') t.text.toList
  | .symbol => Text.isWord t.text.toList && !t.text.toList.any isBrace
  | .braceExpansion =>
    Text.isWord t.text.toList && t.text.toList.any isBrace && 1 < t.text.utf8ByteSize
  | .error | .endOfInput | .interrupt => false
  | kind => t.text.toList = kind.char?.toList

theorem kind_ne_error {t : Token} (h : t.isWritable = true) : t.kind ≠ .error := by
  intro hk
  rw [isWritable, hk] at h
  cases h

/-- The one may be written behind the other. A newline would be lost in a command that needs
another line. -/
def Precedes (t next : Token) : Prop :=
  ¬ (next.kind = .newline ∧ t.kind.continuesLine = true)

instance (t next : Token) : Decidable (t.Precedes next) := inferInstanceAs (Decidable (¬ _))

structure Writable (ts : List Token) : Prop where
  each : ∀ t ∈ ts, t.isWritable = true
  order : ts.IsChain Precedes

/-! ## What normalizing makes of it -/

theorem normal_spelling :
    ∀ o ∈ Operator.all, normal o.kind o.spelling = ⟨o.kind, o.name⟩ := by decide

theorem written_operator :
    ∀ o ∈ Operator.all, written ⟨o.kind, o.name⟩ = o.spelling.toList := by decide

theorem exists_operator {kind : Kind} {text : String}
    (hw : (Operator.ofName? text).any (·.kind = kind) = true) :
    ∃ o ∈ Operator.all, (⟨kind, text⟩ : Token) = ⟨o.kind, o.name⟩ := by
  rw [Option.any_eq_true] at hw
  obtain ⟨o, ho, hk⟩ := hw
  have hn : o.name = text := by simpa using List.find?_some ho
  exact ⟨o, List.mem_of_find?_eq_some ho, by rw [of_decide_eq_true hk, hn]⟩

theorem normal_singleQuoted (text : String) :
    normal .singleQuoted (String.ofList (['\''] ++ text.toList ++ ['\''])) =
      ⟨.singleQuoted, text⟩ :=
  congrArg (Token.mk .singleQuoted) (Text.strip_quotes ['\''] text rfl)

theorem normal_doubleQuoted (text : String) :
    normal .doubleQuoted (String.ofList (['"'] ++ text.toList ++ ['"'])) =
      ⟨.doubleQuoted, text⟩ :=
  congrArg (Token.mk .doubleQuoted) (Text.strip_quotes ['"'] text rfl)

theorem normal_bangString (text : String) :
    normal .bangString (String.ofList (['!', '"'] ++ text.toList ++ ['"'])) =
      ⟨.bangString, text⟩ :=
  congrArg (Token.mk .bangString) (Text.strip_quotes ['!', '"'] text rfl)

theorem ofWord_of_ne {text : String} (ho : text.toList ≠ ['\x7b'])
    (hc : text.toList ≠ ['\x7d']) :
    ofWord text = if text.toList.any isBrace then ⟨.braceExpansion, text⟩ else ⟨.symbol, text⟩ := by
  unfold ofWord
  split
  · next h => exact absurd h ho
  · next h => exact absurd h hc
  · rfl

theorem ofWord_of_isWord {text : String} (hw : Text.isWord text.toList = true)
    (hb : text.toList ≠ ['\x7b']) :
    ofWord text = if text.toList.any isBrace then ⟨.braceExpansion, text⟩ else ⟨.symbol, text⟩ := by
  refine ofWord_of_ne hb fun h => ?_
  rw [h] at hw
  exact absurd hw (by decide)

end Token

end ShellTokens
