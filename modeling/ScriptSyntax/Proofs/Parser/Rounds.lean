import ScriptSyntax.Parser.Loop
import ScriptSyntax.Parser.Recovery
/-! # Loops, round by round

The loops of the parsers without any bound on their rounds. They end, since each round takes a token,
and with what the parsers make of a row, so that the bounds there never cut a loop short.
-/

namespace ScriptSyntax

variable {α β σ ρ : Type}

/-- A loop whose rounds go on from another state or end with a result ends after some rounds. -/
inductive EndsAfter (round : σ → σ ⊕ ρ) : Nat → σ → ρ → Prop
  | last {s : σ} {r : ρ} (ends : round s = .inr r) : EndsAfter round 1 s r
  | next {s s' : σ} {r : ρ} {n : Nat} (goes_on : round s = .inl s')
      (others : EndsAfter round n s' r) : EndsAfter round (n + 1) s r

/-! ## Loops over tokens -/

/-- Each round of a loop from the tokens left takes a token, unless it ends the loop. -/
structure TakesTokens (round : List Token × σ → (List Token × σ) ⊕ Outcome ρ) : Prop where
  of_goes_on : ∀ {s s'}, round s = .inl s' → s'.1.length < s.1.length
  of_ends : ∀ {s o}, round s = .inr o → o.rest.length ≤ s.1.length

variable {loop : List Token × σ → (List Token × σ) ⊕ Outcome ρ}

theorem TakesTokens.exists_endsAfter (h : TakesTokens loop) (s : List Token × σ) :
    ∃ rounds o, rounds + o.rest.length ≤ s.1.length + 1 ∧ EndsAfter loop rounds s o := by
  induction hn : s.1.length using Nat.strongRecOn generalizing s with
  | _ n ih =>
  rcases hround : loop s with s' | o
  · have hlt := h.of_goes_on hround
    obtain ⟨rounds, o, hle, hends⟩ := ih _ (hn ▸ hlt) s' rfl
    exact ⟨rounds + 1, o, by omega, .next hround hends⟩
  · have hle := h.of_ends hround
    exact ⟨1, o, by omega, .last hround⟩

/-- A loop with a bound on its rounds ends with the same result, if the bound is long enough. -/
theorem EndsAfter.eq_of_bounded {rounds : Nat} {s : List Token × σ} {o : Outcome ρ}
    (h : EndsAfter loop rounds s o) (htakes : TakesTokens loop)
    (bounded : List Token → List Token × σ → Outcome ρ)
    (hnil : ∀ state, loop ([], state) = .inr (bounded [] ([], state)))
    (hcons : ∀ b bound s, bounded (b :: bound) s = (loop s).elim (bounded bound) id)
    {bound : List Token} (hbound : s.1.length ≤ bound.length) : bounded bound s = o := by
  induction h generalizing bound with
  | @last s o hround =>
    cases bound with
    | nil =>
      obtain ⟨tokens, state⟩ := s
      obtain rfl : tokens = [] := List.length_eq_zero_iff.1 (Nat.le_zero.1 hbound)
      rw [hnil] at hround
      exact Sum.inr.inj hround
    | cons b bound =>
      rw [hcons, hround]
      rfl
  | @next s s' o n hround _ ih =>
    have hlt := htakes.of_goes_on hround
    cases bound with
    | nil =>
      rw [List.length_nil] at hbound
      omega
    | cons b bound =>
      rw [hcons, hround]
      apply ih
      rw [List.length_cons] at hbound
      omega

namespace Parser

variable {accepts stops : TokenKind → Bool} {step : β → Token → Parser β}
  {item : Parser (Option α)} {setting : Setting}

/-! ## As long as the next token is accepted -/

/-- A round from the tokens left, the value so far, and the errors so far, the last one first. -/
def foldWhile.round (accepts : TokenKind → Bool) (step : β → Token → Parser β) (setting : Setting) :
    List Token × β × List SyntaxError → (List Token × β × List SyntaxError) ⊕ Outcome β
  | ([], value, earlier) => .inr ⟨.ok value, earlier.reverse, []⟩
  | (t :: rest, value, earlier) =>
    if accepts t.kind then
      match (step value t).run setting rest with
      | ⟨.ok value, errors, left⟩ => .inl (left, value, errors.reverseAux earlier)
      | ⟨.error e, errors, left⟩ => .inr ⟨.error e, earlier.reverseAux errors, left⟩
    else .inr ⟨.ok value, earlier.reverse, t :: rest⟩

theorem foldWhile.takesTokens_round : TakesTokens (round accepts step setting) where
  of_goes_on {s s'} h := by
    obtain ⟨_ | ⟨t, rest⟩, value, earlier⟩ := s
    · contradiction
    by_cases haccepts : accepts t.kind = true
    · rcases hrun : (step value t).run setting rest with ⟨e | v, errors, left⟩
      · simp [round, haccepts, hrun] at h
      · obtain rfl : (left, v, errors.reverseAux earlier) = s' := by
          simpa [round, haccepts, hrun] using h
        exact Nat.lt_succ_of_le (suffix_of_run hrun).length_le
    · simp [round, haccepts] at h
  of_ends {s o} h := by
    obtain ⟨_ | ⟨t, rest⟩, value, earlier⟩ := s
    · cases h
      exact Nat.le_refl _
    by_cases haccepts : accepts t.kind = true
    · rcases hrun : (step value t).run setting rest with ⟨e | v, errors, left⟩
      · obtain rfl : ⟨.error e, earlier.reverseAux errors, left⟩ = o := by
          simpa [round, haccepts, hrun] using h
        exact Nat.le_succ_of_le (suffix_of_run hrun).length_le
      · simp [round, haccepts, hrun] at h
    · obtain rfl : ⟨.ok value, earlier.reverse, t :: rest⟩ = o := by
        simpa [round, haccepts] using h
      exact Nat.le_refl _

theorem foldWhile.go_cons (b : Token) (bound : List Token) (s : List Token × β × List SyntaxError) :
    go accepts step setting (b :: bound) s.1 s.2.1 s.2.2 =
      (round accepts step setting s).elim
        (fun s => go accepts step setting bound s.1 s.2.1 s.2.2) id := by
  obtain ⟨_ | ⟨t, rest⟩, value, earlier⟩ := s
  · rfl
  by_cases haccepts : accepts t.kind = true
  · rcases hrun : (step value t).run setting rest with ⟨e | v, errors, left⟩ <;>
      simp [go, round, haccepts, hrun]
  · simp [go, round, haccepts]

theorem foldWhile.exists_endsAfter (accepts : TokenKind → Bool) (step : β → Token → Parser β)
    (setting : Setting) (value : β) (tokens : List Token) :
    let outcome := (foldWhile accepts step value).run setting tokens
    ∃ rounds, rounds + outcome.rest.length ≤ tokens.length + 1 ∧
      EndsAfter (round accepts step setting) rounds (tokens, value, []) outcome := by
  intro outcome
  have htakes : TakesTokens (round accepts step setting) := takesTokens_round
  obtain ⟨rounds, o, hle, hends⟩ := htakes.exists_endsAfter (tokens, value, [])
  obtain rfl : outcome = o := hends.eq_of_bounded htakes
    (fun bound s => go accepts step setting bound s.1 s.2.1 s.2.2) (fun _ => rfl) go_cons
    (Nat.le_refl _)
  exact ⟨rounds, hle, hends⟩

/-! ## Until the next token is one to stop at -/

/-- A round from the tokens left, the items so far and the errors so far, the last ones first. -/
def collectUntil.round (stops : TokenKind → Bool) (item : Parser (Option α)) (setting : Setting) :
    List Token × List α × List SyntaxError →
      (List Token × List α × List SyntaxError) ⊕ Outcome (List α)
  | ([], items, earlier) => .inr ⟨.ok items.reverse, earlier.reverse, []⟩
  | (t :: rest, items, earlier) =>
    if stops t.kind then .inr ⟨.ok items.reverse, earlier.reverse, t :: rest⟩
    else
      match item.run setting (t :: rest) with
      | ⟨.ok found, errors, left⟩ => .inl (left, found.toList ++ items, errors.reverseAux earlier)
      | ⟨.error e, errors, left⟩ => .inr ⟨.error e, earlier.reverseAux errors, left⟩

theorem collectUntil.takesTokens_round (hitem : item.Advances) :
    TakesTokens (round stops item setting) where
  of_goes_on {s s'} h := by
    obtain ⟨_ | ⟨t, rest⟩, items, earlier⟩ := s
    · contradiction
    by_cases hstops : stops t.kind = true
    · simp [round, hstops] at h
    · rcases hrun : item.run setting (t :: rest) with ⟨e | found, errors, left⟩
      · simp [round, hstops, hrun] at h
      · obtain rfl : (left, found.toList ++ items, errors.reverseAux earlier) = s' := by
          simpa [round, hstops, hrun] using h
        exact hitem.length_lt_of_run hrun
  of_ends {s o} h := by
    obtain ⟨_ | ⟨t, rest⟩, items, earlier⟩ := s
    · cases h
      exact Nat.le_refl _
    by_cases hstops : stops t.kind = true
    · obtain rfl : ⟨.ok items.reverse, earlier.reverse, t :: rest⟩ = o := by
        simpa [round, hstops] using h
      exact Nat.le_refl _
    · rcases hrun : item.run setting (t :: rest) with ⟨e | found, errors, left⟩
      · obtain rfl : ⟨.error e, earlier.reverseAux errors, left⟩ = o := by
          simpa [round, hstops, hrun] using h
        exact (suffix_of_run hrun).length_le
      · simp [round, hstops, hrun] at h

theorem collectUntil.go_cons (b : Token) (bound : List Token)
    (s : List Token × List α × List SyntaxError) :
    go stops item setting (b :: bound) s.1 s.2.1 s.2.2 =
      (round stops item setting s).elim
        (fun s => go stops item setting bound s.1 s.2.1 s.2.2) id := by
  obtain ⟨_ | ⟨t, rest⟩, items, earlier⟩ := s
  · rfl
  by_cases hstops : stops t.kind = true
  · simp [go, round, hstops]
  · rcases hrun : item.run setting (t :: rest) with ⟨e | found, errors, left⟩ <;>
      simp [go, round, hstops, hrun]

theorem collectUntil.exists_endsAfter (stops : TokenKind → Bool) {item : Parser (Option α)}
    (hitem : item.Advances) (setting : Setting) (tokens : List Token) :
    let outcome := (collectUntil stops item).run setting tokens
    ∃ rounds, rounds + outcome.rest.length ≤ tokens.length + 1 ∧
      EndsAfter (round stops item setting) rounds (tokens, [], []) outcome := by
  intro outcome
  have htakes : TakesTokens (round stops item setting) := takesTokens_round hitem
  obtain ⟨rounds, o, hle, hends⟩ := htakes.exists_endsAfter (tokens, [], [])
  obtain rfl : outcome = o := hends.eq_of_bounded htakes
    (fun bound s => go stops item setting bound s.1 s.2.1 s.2.2) (fun _ => rfl) go_cons
    (Nat.le_refl _)
  exact ⟨rounds, hle, hends⟩

end Parser

/-! ## Up to the next statement -/

/-- A round from the tokens left and the last one dropped. -/
def dropStatement.round : List Token × Token → (List Token × Token) ⊕ List Token
  | ([], _) => .inr []
  | (next :: rest, t) =>
    if t.kind = .semicolon || next.kind.startsStatement then .inr (next :: rest) else .inl (rest, next)

theorem dropStatement.exists_endsAfter (t : Token) (rest : List Token) :
    ∃ rounds, rounds + (dropStatement (t :: rest)).length ≤ rest.length + 1 ∧
      EndsAfter round rounds (rest, t) (dropStatement (t :: rest)) := by
  induction rest generalizing t with
  | nil => exact ⟨1, by simp [dropStatement], .last rfl⟩
  | cons next rest ih =>
    unfold dropStatement
    split
    · rename_i hstops
      exact ⟨1, by omega, .last (by simp only [round, hstops, if_true])⟩
    · rename_i hgoes
      obtain ⟨rounds, hle, hends⟩ := ih next
      refine ⟨rounds + 1, ?_, .next (by simp only [round, hgoes]; rfl) hends⟩
      rw [List.length_cons]
      omega

end ScriptSyntax
