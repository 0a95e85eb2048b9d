import ScriptSyntax.Proofs.Completeness.Program
import ScriptSyntax.Proofs.Separation.Program
import ScriptSyntax.Proofs.Soundness.Program
/-! # A program behind another one

A program that is read without an error is read as the same in front of more tokens, and these are read
as if nothing stood in front of them. An `else` is the one token that must not come next, since the last
conditional would go on with it.
-/

namespace ScriptSyntax.TokenStream

open ScriptSyntax.Parser
open ScriptSyntax.Expr (tooManyAt)

variable {stream : TokenStream} {options : Options} {setting : Setting} {p others : List Stmt}
  {ts rest : List Token} {told : List SyntaxError}

/-! ## What is written, in front of what goes on -/

theorem run_program_of_written (hderivable : ∀ s ∈ p, s.Derivable)
    (hnesting : ∀ s ∈ p, s.nesting ≤ maxNesting) (hw : Stmt.WritesAll p ts)
    (hrest : ∀ t ∈ rest.head?, t.kind ≠ .elseKeyword)
    (hothers : program.run setting rest = ⟨.ok others, told, []⟩) :
    program.run setting (ts ++ rest) =
      ⟨.ok (p ++ others), (Stmt.excessOfAll p ts).map tooManyAt ++ told, []⟩ := by
  induction p generalizing ts with
  | nil =>
    cases hw
    exact hothers
  | cons s p ih =>
    cases hw with
    | @cons _ _ ts us hfirst hmore =>
      have hs := hderivable s List.mem_cons_self
      have hp : ∀ s ∈ p, s.Derivable := fun s hs => hderivable s (List.mem_cons_of_mem _ hs)
      have hbehind := ih hp (fun s hs => hnesting s (List.mem_cons_of_mem _ hs)) hmore
      -- What comes next is a statement of the row or `rest`, and neither starts with `else`.
      have hnext : s.MayPrecede (us ++ rest) := fun _ => hmore.kind_ne_else hp hrest
      have hread : (Stmt.parser maxNesting).run setting (ts ++ (us ++ rest)) = _ :=
        hs.takes_of_room hfirst (hnesting s List.mem_cons_self) hnext
      rw [Stmt.excessOfAll_cons (hs.length_eq hfirst), List.map_append, List.append_assoc,
        List.append_assoc]
      obtain ⟨t, more, rfl, -⟩ := hs.exists_first hfirst
      exact run_program_cons hread hbehind

/-! ## Programs without errors -/

theorem excess_eq_nil (h : (stream.readProgram options).1.errors = []) :
    Stmt.excessOfAll (stream.readProgram options).1.value stream.tokens = [] := by
  have hmade := readProgram_madeOf stream options
  have hnesting : Stmt.nestingOfAll (stream.readProgram options).1.value ≤ maxNesting :=
    Stmt.nestingOfAll_le_iff.2 fun s hs => Nat.le_of_lt_succ (hmade.nesting_lt s hs)
  have hread : program.Takes ⟨options, stream.inputEnd⟩ stream.tokens [] _ _ :=
    takes_program hmade.derivable hnesting (hmade.write h)
  have hrun := takes_to_end_iff.1 hread
  rw [run_program, h] at hrun
  simp only [Outcome.mk.injEq] at hrun
  exact List.map_eq_nil_iff.1 hrun.2.1.symm

theorem run_program_of_no_errors (h : (stream.readProgram options).1.errors = [])
    (hrest : ∀ t ∈ rest.head?, t.kind ≠ .elseKeyword)
    (hothers : program.run setting rest = ⟨.ok others, told, []⟩) :
    program.run setting (stream.tokens ++ rest) =
      ⟨.ok ((stream.readProgram options).1.value ++ others), told, []⟩ := by
  have hmade := readProgram_madeOf stream options
  have hrun := run_program_of_written hmade.derivable
    (fun s hs => Nat.le_of_lt_succ (hmade.nesting_lt s hs)) (hmade.write h) hrest hothers
  rw [excess_eq_nil h] at hrun
  exact hrun

theorem head?_ofTokens {tokens : List Token} {t : Token} (h : t ∈ (ofTokens tokens).tokens.head?) :
    t ∈ tokens.head? := by
  obtain ⟨more, hmore⟩ := List.takeWhile_prefix (l := tokens) (·.kind != .endOfInput)
  rw [← hmore]
  cases hrow : (ofTokens tokens).tokens with
  | nil => simp [hrow] at h
  | cons u us =>
    rw [hrow] at h
    have hrow : tokens.takeWhile (·.kind != .endOfInput) = u :: us := hrow
    rw [hrow]
    exact h

/-- What stands behind a program that is read without an error is read as if nothing stood in front of
it, and the program is the same with it and without, unless an `else` comes next. -/
theorem readProgram_behind_program (options : Options) (front back : List Token) (eof eof' : Token)
    (hfront : ∀ t ∈ front, t.kind ≠ .endOfInput) (heof : eof.kind = .endOfInput)
    (heof' : eof'.kind = .endOfInput) (hback : ∀ t ∈ back.head?, t.kind ≠ .elseKeyword) :
    let first := ((ofTokens (front ++ [eof])).readProgram options).1
    let second := ((ofTokens (back ++ [eof'])).readProgram options).1
    let both := ((ofTokens (front ++ back ++ [eof'])).readProgram options).1
    first.errors = [] →
      both.value = first.value ++ second.value ∧ both.errors = second.errors := by
  intro first second both herrors
  have htokens := ofTokens_append hfront (back ++ [eof'])
  have hend : (ofTokens (front ++ (back ++ [eof']))).inputEnd = (ofTokens (back ++ [eof'])).inputEnd :=
    ofTokens_append_inputEnd hfront heof'
  rw [← List.append_assoc] at htokens hend
  have hstream : (ofTokens (front ++ [eof])).tokens = front := by
    rw [ofTokens_append_cons hfront heof]
  have hnext : ∀ t ∈ (ofTokens (back ++ [eof'])).tokens.head?, t.kind ≠ .elseKeyword := by
    intro t ht
    have hhead := head?_ofTokens ht
    cases back with
    | nil =>
      obtain rfl : eof' = t := Option.some.inj hhead
      rw [heof']
      decide
    | cons u back => exact hback t hhead
  have hrun := run_program_of_no_errors herrors hnext (run_program _ options)
  rw [hstream] at hrun
  have hboth : both = ⟨first.value ++ second.value, second.errors⟩ := by
    unfold both
    rw [readProgram_of_run]
    rw [htokens, hend]
    exact hrun
  rw [hboth]
  exact ⟨rfl, rfl⟩

theorem readProgram_behind_choice :
    let back := Token.ofKinds [.leftBrace, .printKeyword, .semicolon]
    let first := ((ofTokens (choiceTokens ++ [.ofKind .endOfInput])).readProgram .strict).1
    let second := ((ofTokens (back ++ [.ofKind .endOfInput])).readProgram .strict).1
    let both := ((ofTokens (choiceTokens ++ back ++ [.ofKind .endOfInput])).readProgram .strict).1
    first.errors = [] ∧ first.value.length = 1 ∧ second.errors.length = 2 ∧
      both.value = first.value ++ second.value ∧ both.errors = second.errors := by
  refine ⟨by decide +kernel, rfl, rfl, ?_⟩
  exact readProgram_behind_program .strict choiceTokens _ (.ofKind .endOfInput) (.ofKind .endOfInput)
    (by decide) rfl rfl (by decide) (by decide +kernel)

end ScriptSyntax.TokenStream
