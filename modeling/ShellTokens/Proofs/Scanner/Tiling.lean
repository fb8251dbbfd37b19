import ShellTokens.Proofs.Cursor.Taken
import ShellTokens.Proofs.Scanner.Chunks
import ShellTokens.Proofs.Scanner.Reads
import ShellTokens.Proofs.Scanner.UnderWay

/-!
# Tokens tile the input

Scanning cuts the input into pieces that stand side by side. Some are tokens and the others are the
gaps between them. What is behind the last piece is still pending.
-/

namespace ShellTokens

open Rune (Row)

/-! ## The token under way -/

namespace Scanner

variable {s t u : Scanner} {rs : List Rune} {next : State}

/-- The runes have been read for the token under way, and the state knows their shape. -/
structure Has (rs : List Rune) (s : Scanner) : Prop where
  sound : s.cursor.Sound
  row : Row s.marked.cursor.pending rs s.marked.cursor.unread
  holds : s.state.Holds s.saved rs

theorem pending_marked (hr : Row s.cursor.pending rs s.cursor.unread)
    (hh : s.state.Holds s.saved rs) :
    s.marked.cursor.pending = s.cursor.pending ∧ s.marked.cursor.unread = s.cursor.unread := by
  unfold marked
  split
  · next hb =>
    rw [hb] at hh
    rw [hh.eq_nil] at hr
    have he : s.cursor.pending = s.cursor.unread := hr.bytes_eq
    exact ⟨he.symm, rfl⟩
  · exact ⟨rfl, rfl⟩

theorem has_of_row (hs : s.cursor.Sound) (hr : Row s.cursor.pending rs s.cursor.unread)
    (hh : s.state.Holds s.saved rs) : s.Has rs := by
  obtain ⟨hp, hu⟩ := pending_marked hr hh
  exact ⟨hs, by rwa [hp, hu], hh⟩

theorem has_of_blank (hs : s.cursor.Sound) (hb : s.state = .blank) (hn : s.saved = none) :
    s.Has [] := by
  refine ⟨hs, ?_, ?_⟩
  · unfold marked
    rw [if_pos hb]
    exact .nil _
  · rw [hb, hn]
    exact .blank

theorem pending_marked_of_blank (hb : s.state = .blank) :
    s.marked.cursor.pending = s.cursor.unread := by
  unfold marked
  rw [if_pos hb]
  rfl

end Scanner

/-! ## Pieces -/

def Emission.token? : Emission → Option Token
  | .token t => some t
  | .malformed _ _ => none

/-- A part of the input that scanning leaves whole. -/
inductive Piece where
  | blank (c : Char)
  /-- A byte between tokens that is no text. -/
  | undecodable (byte : UInt8)
  /-- A newline in a command that needs another line. A comment in front belongs to it. -/
  | skipped (line : List UInt8)
  | token (kind : Kind) (bytes : List UInt8)

namespace Piece

def bytes : Piece → List UInt8
  | blank c => String.utf8EncodeChar c
  | undecodable byte => [byte]
  | skipped line => line
  | token _ bytes => bytes

def token? : Piece → Option Token
  | token kind bytes => some (Token.normal kind (Text.lossy bytes))
  | _ => none

def lastKind (last : Option Kind) (p : Piece) : Option Kind := (p.token?.map Token.kind).or last

/-- The piece is one of its sort behind a token of the kind `last` and in front of `ahead`. -/
def Fits (last : Option Kind) (ahead : List UInt8) : Piece → Prop
  | blank c => Text.isBlank c = true
  | undecodable byte => Rune.read (byte :: ahead) = .invalid byte
  | skipped line => last.any Kind.continuesLine = true ∧
      ∃ rs, Row (line ++ ahead) rs ahead ∧ Kind.newline.Spelled rs
  | token kind bytes => Scanner.counts kind last ∧
      ∃ rs, Row (bytes ++ ahead) rs ahead ∧ kind.Spelled rs

end Piece

/-- The pieces stand side by side in front of `rest`, and each fits where it stands. -/
inductive Tiling : Option Kind → List Piece → List UInt8 → Prop
  | nil (last : Option Kind) (rest : List UInt8) : Tiling last [] rest
  | cons {last : Option Kind} {p : Piece} {ps : List Piece} {rest : List UInt8}
      (hp : p.Fits last (ps.flatMap Piece.bytes ++ rest)) (h : Tiling (p.lastKind last) ps rest) :
      Tiling last (p :: ps) rest

/-! ## The tokens of the pieces -/

variable {last : Option Kind} {p : Piece} {ps : List Piece} {ahead rest : List UInt8} {t : Token}

theorem Piece.Fits.isWritable (h : p.Fits last ahead) (ht : p.token? = some t) :
    t.isWritable = true := by
  cases p with
  | token kind bytes =>
    cases ht
    obtain ⟨-, rs, hr, hk⟩ := h
    have hb : bytes = rs.flatMap Rune.bytes := List.append_cancel_right hr.bytes_eq
    rw [Text.lossy, hb]
    exact hk.isWritable hr.shown
  | _ => cases ht

theorem Piece.Fits.counts (h : p.Fits last ahead) (ht : p.token? = some t) :
    Scanner.counts t.kind last := by
  cases p with
  | token kind bytes =>
    cases ht
    exact fun hn => h.1 ⟨Token.eq_newline_of_normal hn.1, hn.2⟩
  | _ => cases ht

theorem Tiling.isWritable (h : Tiling last ps rest) :
    ∀ t ∈ ps.filterMap Piece.token?, t.isWritable = true := by
  induction h with
  | nil => nofun
  | @cons _ p _ _ hp _ ih =>
    rw [List.filterMap_cons]
    split
    · exact ih
    · next t ht => exact List.forall_mem_cons.2 ⟨hp.isWritable ht, ih⟩

theorem Tiling.order (h : Tiling last ps rest) :
    (ps.filterMap Piece.token?).IsChain Token.Precedes ∧
      ∀ t ∈ (ps.filterMap Piece.token?).head?, Scanner.counts t.kind last := by
  induction h with
  | nil => exact ⟨.nil, nofun⟩
  | @cons last p _ _ hp _ ih =>
    rw [List.filterMap_cons]
    split
    · next ht =>
      rwa [Piece.lastKind, ht] at ih
    · next t ht =>
      rw [Piece.lastKind, ht] at ih
      refine ⟨List.isChain_cons.2 ⟨fun t' ht' => ih.2 t' ht', ih.1⟩, ?_⟩
      rintro _ ⟨⟩
      exact hp.counts ht

namespace Scanner

variable {s t u : Scanner} {rs : List Rune} {kind : Kind}

def Step.token? : Step → Option Token
  | .emit e _ => e.token?
  | _ => none

inductive Step.Tiles (s : Scanner) : Step → Prop
  | halt : Step.Tiles s (.halt s.marked)
  | on {next : Step} {t : Scanner} {rs : List Rune} (hn : next.on? = some t)
      (ht : next.token? = none) (hh : t.Has rs) (ha : t.after = s.after)
      (hp : t.marked.cursor.pending = s.marked.cursor.pending) : Step.Tiles s next
  | piece {next : Step} {t : Scanner} (p : Piece) {ahead : List UInt8} (hn : next.on? = some t)
      (ht : next.token? = p.token?) (hh : t.Has []) (ha : t.after = p.lastKind s.after)
      (hp : t.marked.cursor.pending = ahead) (he : s.marked.cursor.pending = p.bytes ++ ahead)
      (hf : p.Fits s.after ahead) : Step.Tiles s next

theorem tiles_finish (hs : u.cursor.Sound) (hr : Row u.cursor.pending rs u.cursor.unread)
    (hk : kind.Spelled rs) (hn : u.saved = none)
    (hp : u.cursor.pending = s.marked.cursor.pending) (ha : u.after = s.after) :
    (u.finish kind).Tiles s := by
  have he := hs.pending_eq
  have hrow : Row (u.cursor.tokenBytes ++ u.cursor.unread) rs u.cursor.unread := he ▸ hr
  unfold finish
  split
  · next hc =>
    obtain ⟨rfl, hc⟩ := hc
    exact .piece (.skipped u.cursor.tokenBytes) rfl rfl (has_of_blank hs.mark rfl hn) ha
      (pending_marked_of_blank rfl) (hp ▸ he) ⟨ha ▸ hc, rs, hrow, hk⟩
  · next hc =>
    exact .piece (.token kind u.cursor.tokenBytes) rfl rfl (has_of_blank hs.mark rfl hn) rfl
      (pending_marked_of_blank rfl) (hp ▸ he) ⟨ha ▸ hc, rs, hrow, hk⟩

theorem tiles_on {next : Step} (hn : next.on? = some u) (ht : next.token? = none)
    (hs : u.cursor.Sound) (hr : Row u.cursor.pending rs u.cursor.unread)
    (hh : u.state.Holds u.saved rs) (hp : u.cursor.pending = s.marked.cursor.pending)
    (ha : u.after = s.after) : next.Tiles s :=
  .on hn ht (has_of_row hs hr hh) ha ((pending_marked hr hh).1.trans hp)

theorem tiles_gap {next : Step} (p : Piece) (hn : next.on? = some u) (ht : next.token? = none)
    (hp : p.token? = none) (hs : u.cursor.Sound) (hb : u.state = .blank) (hv : u.saved = none)
    (ha : u.after = s.after) (he : s.marked.cursor.pending = p.bytes ++ u.cursor.unread)
    (hf : p.Fits s.after u.cursor.unread) : next.Tiles s := by
  refine .piece p hn (ht.trans hp.symm) (has_of_blank hs hb hv) ?_ (pending_marked_of_blank hb)
    he hf
  rw [Piece.lastKind, hp]
  exact ha

theorem Has.banged (h : s.Has rs) (hr : rs.head? = some (.char '!')) :
    decide (s.marked.cursor.firstByte? = some '!'.toUInt8) = true := by
  rw [decide_eq_true_eq, Cursor.firstByte?_eq, h.row.head?_eq hr]
  rfl

theorem tiles_resumed {next : Step} (hn : next.on? = some u.resumed) (ht : next.token? = none)
    (hs : u.cursor.Sound) (hr : Row u.cursor.pending rs u.cursor.unread)
    (hh : (u.state = .afterBackslash ∧ (u.saved.getD .symbol).Holds none rs) ∨
      (u.state ≠ .afterBackslash ∧ u.state.Holds u.saved rs))
    (hp : u.cursor.pending = s.marked.cursor.pending) (ha : u.after = s.after) : next.Tiles s := by
  unfold resumed at hn
  rcases hh with ⟨he, hh⟩ | ⟨he, hh⟩
  · rw [if_pos he] at hn
    exact tiles_on hn ht hs hr hh hp ha
  · rw [if_neg he] at hn
    exact tiles_on hn ht hs hr hh hp ha

theorem Has.hasRead (h : s.Has rs) : Cursor.HasRead rs s.marked.cursor :=
  ⟨sound_marked h.sound, h.row⟩

theorem Has.tiles (h : s.Has rs) : s.step.Tiles s := by
  have hs := sound_marked h.sound
  have hsuits := h.holds.suits _ h.banged s.marked.cursor.peek
  have ha := after_marked s
  have hv := h.holds.saved_eq
  rw [← state_marked, ← saved_marked] at hsuits hv
  have hnil (hb : s.marked.state = .blank) : rs = [] := by
    have hh := h.holds
    rw [← state_marked, hb] at hh
    exact hh.eq_nil
  have hback := h.hasRead.back_next.row
  rw [step, look]
  generalize hm : s.marked.state.respond _ _ = m at hsuits
  rcases eq_or_ne m .halt with rfl | hhalt
  · exact .halt
  have hpeek : s.marked.cursor.peek ≠ .exhausted :=
    fun he => hhalt (hm ▸ State.respond_eq_halt_iff.2 he)
  have hrow := (h.hasRead.read hpeek).row
  have hgap (hb : s.marked.state = .blank) : s.marked.cursor.pending =
      s.marked.cursor.peek.bytes ++ s.marked.cursor.next.2.unread := by
    have he := hrow.bytes_eq
    rwa [hnil hb, List.nil_append, List.flatMap_singleton] at he
  have hopen (hb : s.marked.state = .blank) : s.marked.state ≠ .afterBackslash := by
    rw [hb]
    decide
  cases m with
  | halt => exact absurd rfl hhalt
  | keep =>
    rcases hsuits with ⟨hb, c, hc, hblank⟩ | hholds
    · have he := hgap hb
      rw [hc] at he
      exact tiles_gap (.blank c) rfl rfl rfl hs.next hb (hv (hopen hb)) ha he hblank
    · exact tiles_on rfl rfl hs.next hrow hholds rfl ha
  | enter next => exact tiles_on rfl rfl hs.next hrow hsuits rfl ha
  | become next => exact tiles_on rfl rfl hs.back_next hback hsuits rfl ha
  | escape back => exact tiles_on rfl rfl hs.next hrow hsuits rfl ha
  | resume => exact tiles_resumed rfl rfl hs.next hrow (.inl hsuits) rfl ha
  | take kind =>
    exact tiles_finish hs.next hrow hsuits (hv (State.ne_afterBackslash (.inl hm))) rfl ha
  | leave kind =>
    exact tiles_finish hs.back_next hback hsuits (hv (State.ne_afterBackslash (.inr hm))) rfl ha
  | reject byte =>
    obtain ⟨hr, hb | hh⟩ := hsuits
    · have he := hgap hb
      rw [hr] at he
      refine tiles_gap (.undecodable byte) (congrArg some (if_neg (hopen hb))) rfl rfl hs.next hb
        (hv (hopen hb)) ha he ?_
      have hu : Rune.read s.marked.cursor.unread = .invalid byte := by rw [← Cursor.peek_eq, hr]
      have hp := h.row.bytes_eq
      rw [hnil hb, List.flatMap_nil, List.nil_append] at hp
      rwa [← hp, he] at hu
    · exact tiles_resumed rfl rfl hs.next hrow hh rfl ha

theorem Step.Tiles.remembers {next : Step} (h : next.Tiles s) (hn : next.on? = some t) :
    (∃ rs, t.Has rs) ∧ t.after = (next.token?.map Token.kind).or s.after ∧
      ∀ x ∈ next.token?, x.isWritable = true := by
  cases h with
  | halt => cases hn
  | @on _ _ rs hn' ht hh ha _ =>
    cases hn.symm.trans hn'
    rw [ht]
    exact ⟨⟨rs, hh⟩, ha, nofun⟩
  | piece p hn' ht hh ha _ _ hf =>
    cases hn.symm.trans hn'
    rw [ht]
    exact ⟨⟨[], hh⟩, ha, fun x hx => hf.isWritable hx⟩

/-! ## All of the input -/

def Tiled (s : Scanner) : Prop :=
  ∃ pieces : List Piece,
    pieces.flatMap Piece.bytes ++ s.behind.cursor.pending = s.marked.cursor.pending ∧
      pieces.filterMap Piece.token? = s.emissions.filterMap Emission.token? ∧
      Tiling s.after pieces s.behind.cursor.pending

theorem tiled_of_step {next : Step} (h : next.Tiles s) (hn : next.on? = some t)
    (hb : s.behind = t.behind) (he : s.emissions.filterMap Emission.token? =
      next.token?.toList ++ t.emissions.filterMap Emission.token?)
    (ih : ∀ rs, t.Has rs → t.Tiled) : s.Tiled := by
  cases h with
  | halt => cases hn
  | @on _ _ rs hn' ht hh ha hp =>
    cases hn.symm.trans hn'
    obtain ⟨pieces, hbytes, htokens, htiling⟩ := ih rs hh
    rw [ht, Option.toList_none, List.nil_append] at he
    exact ⟨pieces, hb ▸ hbytes.trans hp, htokens.trans he.symm, hb ▸ ha ▸ htiling⟩
  | piece p hn' ht hh ha hp hs hf =>
    cases hn.symm.trans hn'
    obtain ⟨pieces, hbytes, htokens, htiling⟩ := ih [] hh
    rw [← hp, ← hbytes] at hf hs
    refine ⟨p :: pieces, ?_, ?_, ?_⟩
    · rw [hb, hs, List.flatMap_cons, List.append_assoc]
    · rw [he, ht, List.filterMap_cons, htokens]
      cases p.token? <;> rfl
    · rw [hb]
      exact .cons hf (ha ▸ htiling)

theorem Has.tiled (h : s.Has rs) : s.Tiled := by
  induction s using step_induction generalizing rs with
  | halt s t hs =>
    have ht := step_halt hs
    refine ⟨[], ?_, ?_, .nil _ _⟩
    · rw [behind_of_halt hs, ht]
      rfl
    · rw [emissions_of_halt hs]
      rfl
  | silent s t hs ih =>
    have htiles := h.tiles
    rw [hs] at htiles
    exact tiled_of_step htiles rfl (behind_of_silent hs) (by rw [emissions_of_silent hs]; rfl)
      fun rs hh => ih hh
  | emit s e t hs ih =>
    have htiles := h.tiles
    rw [hs] at htiles
    refine tiled_of_step htiles rfl (behind_of_emit hs) ?_ fun rs hh => ih hh
    rw [emissions_of_emit hs, List.filterMap_cons, Step.token?]
    cases e.token? <;> rfl

theorem tiled_fresh (interactive : Bool) (input : List UInt8) :
    ((fresh interactive).append input).Tiled :=
  (has_of_blank (sound_append (sound_fresh interactive) input) rfl rfl).tiled

/-! ## What comes out -/

theorem tokens_of_isWritable {es : List Emission}
    (h : ∀ t ∈ es.filterMap Emission.token?, t.isWritable = true) :
    (es.map Emission.toToken).filter (·.kind ≠ .error) = es.filterMap Emission.token? := by
  induction es with
  | nil => rfl
  | cons e es ih =>
    cases e with
    | malformed byte state => exact ih h
    | token t =>
      obtain ⟨ht, hes⟩ := List.forall_mem_cons.1 h
      have hk := Token.kind_ne_error ht
      rw [List.map_cons, Emission.toToken, List.filter_cons_of_pos (by simpa using hk), ih hes]
      rfl

/-- Whatever the input is, it is the pieces one behind the other and then the bytes that are still
pending. The pieces that are tokens make the tokens that come out. -/
theorem pieces_of_drain (interactive : Bool) (input : List UInt8) :
    let s := (fresh interactive).append input
    ∃ pieces : List Piece,
      pieces.flatMap Piece.bytes ++ s.behind.cursor.pending = input ∧
        pieces.filterMap Piece.token? =
          (s.emissions.map Emission.toToken).filter (·.kind ≠ .error) ∧
        Tiling none pieces s.behind.cursor.pending := by
  intro s
  obtain ⟨pieces, hbytes, htokens, htiling⟩ := tiled_fresh interactive input
  have hp : s.marked.cursor.pending = input := by
    rw [pending_marked_of_blank rfl]
    exact (sound_fresh interactive).unread_append input
  have hw := htiling.isWritable
  rw [htokens] at hw
  exact ⟨pieces, hbytes.trans hp, htokens.trans (tokens_of_isWritable hw).symm, htiling⟩

end Scanner

end ShellTokens
