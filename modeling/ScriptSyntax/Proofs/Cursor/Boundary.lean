import Mathlib.Order.Bounds.Basic
import ScriptSyntax.Proofs.Cursor.Keeps
import ScriptSyntax.Proofs.Cursor.Lookahead
/-! # Where a cursor goes on behind an error

A cursor that synchronizes goes to the nearest place behind it where a statement may start or the input
ends. What it passes has no such place in it, so a keyword that begins a statement can only be the first
token that is dropped, and a semicolon only the last one.
-/

namespace ScriptSyntax

open TokenStream

/-! ## Places to stop at -/

/-- The places of a row where a cursor stops that looks for a statement. -/
inductive IsBoundary (row : List Token) : Nat → Prop where
  | atEnd {place : Nat} {t : Token} :
    row[place]? = some t → t.kind = .endOfInput → IsBoundary row place
  | beforeKeyword {place : Nat} {t : Token} :
    row[place]? = some t → t.kind.startsStatement → IsBoundary row place
  | behindSemicolon {place : Nat} {t : Token} :
    row[place]? = some t → t.kind = .semicolon → IsBoundary row (place + 1)

section places

variable {row : List Token} {start stop place : Nat} {t : Token}

theorem isBoundary_succ_iff :
    IsBoundary row (place + 1) ↔
      (∃ next ∈ row[place + 1]?, next.kind = .endOfInput ∨ next.kind.startsStatement) ∨
        ∃ t ∈ row[place]?, t.kind = .semicolon := by
  constructor
  · rintro (⟨hnext, hend⟩ | ⟨hnext, hkeyword⟩ | ⟨ht, hsemicolon⟩)
    · exact .inl ⟨_, hnext, .inl hend⟩
    · exact .inl ⟨_, hnext, .inr hkeyword⟩
    · exact .inr ⟨_, ht, hsemicolon⟩
  · rintro (⟨next, hnext, hend | hkeyword⟩ | ⟨t, ht, hsemicolon⟩)
    · exact .atEnd hnext hend
    · exact .beforeKeyword hnext hkeyword
    · exact .behindSemicolon ht hsemicolon

theorem isLeast_next (h : IsBoundary row (start + 1)) :
    IsLeast {place | start < place ∧ IsBoundary row place} (start + 1) :=
  ⟨⟨Nat.lt_succ_self start, h⟩, fun _ hplace => hplace.1⟩

theorem isLeast_of_not_next (h : ¬ IsBoundary row (start + 1))
    (hleast : IsLeast {place | start + 1 < place ∧ IsBoundary row place} stop) :
    IsLeast {place | start < place ∧ IsBoundary row place} stop := by
  obtain ⟨⟨hlt, hstop⟩, hlower⟩ := hleast
  refine ⟨⟨Nat.lt_of_succ_lt hlt, hstop⟩, fun place hplace => hlower ⟨?_, hplace.2⟩⟩
  have hne : start + 1 ≠ place := fun heq => h (heq ▸ hplace.2)
  exact Nat.lt_of_le_of_ne hplace.1 hne

/-- Of what is passed on the way to the nearest boundary, a keyword is the first token and a semicolon
the last one. -/
theorem first_or_last_of_passed
    (h : IsLeast {place | start < place ∧ IsBoundary row place} stop) (hstart : start ≤ place)
    (hstop : place < stop) (ht : row[place]? = some t) :
    (t.kind.startsStatement → place = start) ∧ (t.kind = .semicolon → place + 1 = stop) := by
  constructor
  · intro hkeyword
    by_contra hne
    have hle : stop ≤ place := h.2 ⟨by omega, .beforeKeyword ht hkeyword⟩
    omega
  · intro hsemicolon
    have hle : stop ≤ place + 1 := h.2 ⟨by omega, .behindSemicolon ht hsemicolon⟩
    omega

end places

/-! ## The nearest one -/

namespace Input

variable {input : Input} {rest : List Token} {t : Token}

theorem isBoundary_behind_iff (h : t :: rest <:+ input.row) :
    IsBoundary input.tokens (input.placeOf (t :: rest) + 1) ↔
      t.kind = .semicolon ∨ ∀ next ∈ rest.head?, next.kind.startsStatement := by
  have hrest : rest <:+ input.row := (List.suffix_cons t rest).trans h
  have hnext := getElem?_placeOf hrest
  rw [placeOf_cons h] at hnext
  rw [isBoundary_succ_iff, hnext, getElem?_placeOf h]
  cases rest with
  | nil => simp [input.ends]
  | cons next rest =>
    have hkind := input.goes_on next (hrest.subset List.mem_cons_self)
    simp [hkind, or_comm]

theorem isLeast_placeOf_dropStatement (h : t :: rest <:+ input.row) :
    IsLeast {place | input.placeOf (t :: rest) < place ∧ IsBoundary input.tokens place}
      (input.placeOf (dropStatement (t :: rest))) := by
  induction rest generalizing t with
  | nil =>
    rw [dropStatement, placeOf_cons h]
    exact isLeast_next ((isBoundary_behind_iff h).2 (.inr (by simp)))
  | cons next rest ih =>
    have hnext : next :: rest <:+ input.row := (List.suffix_cons t _).trans h
    unfold dropStatement
    split
    · rename_i hstops
      rw [placeOf_cons h]
      exact isLeast_next ((isBoundary_behind_iff h).2 (by simpa using hstops))
    · -- The next place is none to stop at, so the nearest one is that behind the next token.
      rename_i hgoes
      apply isLeast_of_not_next
      · rw [isBoundary_behind_iff h]
        simpa using hgoes
      · rw [← placeOf_cons h]
        exact ih hnext

end Input

/-! ## Synchronizing -/

namespace Trace

variable {trace : Trace} {input : Input} {ahead : List Token} {room : Nat}

theorem At.ofTokens_ahead (h : trace.At input ahead room) :
    (ofTokens trace.ahead).tokens = ahead := by
  have hgoes : ∀ t ∈ ahead, t.kind ≠ .endOfInput := fun t ht => input.goes_on t (h.suffix.subset ht)
  rw [Trace.ahead, h.now_sound.tokens_eq, h.position_eq, Input.drop_placeOf h.suffix,
    ofTokens_append_cons hgoes input.ends]

end Trace

/-- From every moment of any readings, synchronizing ends and changes nothing but the place of the
cursor. It changes nothing at all at the end of the input. Anywhere else it goes to the nearest boundary
behind the cursor, whatever stands at the cursor and in front of it: of the tokens it passes, only the
first one can be a keyword that begins a statement, and only the last one a semicolon. What is left to
be read is then what dropping a statement leaves. -/
theorem synchronize_nearest (tokens : List Token) (options : Options) (entries : List Entry) :
    ∃ trace : Trace, (Walk.session entries).run (.start tokens options) =
        some (.ok (answers options (ofTokens tokens) entries), trace) ∧
      ∀ moment : Trace, moment.now :: moment.past <:+ trace.now :: trace.past →
        let row := moment.now.tokens
        let start := moment.now.position
        ∃ t left, row[start]? = some t ∧ Walk.synchronize.run moment = some (.ok (), left) ∧
          let stop := left.now.position
          left.now = { moment.now with position := stop } ∧
            (t.kind = .endOfInput → left = moment) ∧
            (t.kind ≠ .endOfInput →
              IsLeast {place | start < place ∧ IsBoundary row place} stop ∧
                ∀ place passed, start ≤ place → place < stop → row[place]? = some passed →
                  (passed.kind.startsStatement → place = start) ∧
                    (passed.kind = .semicolon → place + 1 = stop)) ∧
            (ofTokens left.ahead).tokens = dropStatement (ofTokens moment.ahead).tokens := by
  obtain ⟨input, hinput, hstream⟩ := exists_input tokens
  obtain ⟨trace, hsession, hbetween⟩ :=
    Walk.run_session (Trace.between_start hinput hstream options) entries
  refine ⟨trace, hsession, fun moment hmoment => ?_⟩
  obtain ⟨ahead, room, hat⟩ := (hbetween.here.sound.of_moment hmoment).exists_at
  have hhere := Input.getElem?_placeOf hat.suffix
  rw [← hat.position_eq, ← hat.now_sound.tokens_eq] at hhere
  cases ahead with
  | nil =>
    have hrun := Walk.run_synchronize_of_end hat
    refine ⟨input.eof, moment, hhere, hrun, rfl, fun _ => rfl, fun h => absurd input.ends h, ?_⟩
    rw [hat.ofTokens_ahead]
    rfl
  | cons t ahead =>
    obtain ⟨left, hrun, hsound, hleft⟩ := Walk.synchronize_endsAs hat
    have hgoes := input.goes_on t (hat.suffix.subset List.mem_cons_self)
    have hat' := hat.move hsound (dropStatement_suffix (t :: ahead)) hleft
    have hleast := Input.isLeast_placeOf_dropStatement hat.suffix
    rw [← hat.position_eq, ← hat'.position_eq, ← hat.now_sound.tokens_eq] at hleast
    refine ⟨t, left, hhere, hrun, ?_, fun h => absurd h hgoes, fun _ => ⟨hleast, ?_⟩, ?_⟩
    · rw [hat'.position_eq, hleft, List.append_nil]
    · exact fun place passed hstart hstop hpassed =>
        first_or_last_of_passed hleast hstart hstop hpassed
    · rw [hat.ofTokens_ahead, hat'.ofTokens_ahead]

/-- A value, and a variable without a name behind it. -/
def valueAndVariable : List Token :=
  Token.ofKinds [.nilKeyword, .varKeyword, .nilKeyword, .semicolon, .nilKeyword]

theorem synchronize_nearest_behind_value :
    ∃ trace left : Trace, trace.Reached valueAndVariable .strict [.expression] ∧
      trace.now.position = 1 ∧ Walk.synchronize.run trace = some (.ok (), left) ∧
      left.now = { trace.now with position := 4 } := by
  obtain ⟨trace, hsession, hmoments⟩ := synchronize_nearest valueAndVariable .strict [.expression]
  have hreached : trace.Reached valueAndVariable .strict [.expression] := ⟨_, hsession⟩
  have hposition : trace.now.position = 1 := hreached.position_eq
  obtain ⟨t, left, ht, hrun, hleft, -, hnearest, -⟩ := hmoments trace List.suffix_rfl
  rw [hreached.tokens_eq, hposition] at ht hnearest
  obtain rfl : Token.ofKind .varKeyword = t := Option.some.inj ht
  have hfour : IsLeast {place | 1 < place ∧ IsBoundary (closed valueAndVariable) place} 4 := by
    apply isLeast_of_not_next (by rw [isBoundary_succ_iff]; decide)
    apply isLeast_of_not_next (by rw [isBoundary_succ_iff]; decide)
    exact isLeast_next (.behindSemicolon rfl rfl)
  rw [(hnearest (by decide)).1.unique hfour] at hleft
  exact ⟨trace, left, hreached, hposition, hrun, hleft⟩

end ScriptSyntax
