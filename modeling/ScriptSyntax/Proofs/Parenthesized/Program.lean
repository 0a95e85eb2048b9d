import ScriptSyntax.Proofs.Parenthesized.Stmt
import ScriptSyntax.Proofs.Soundness.Program
/-! # What a text shows of a program

The parenthesized form of what is read from a text without strings is the same for two texts if and only
if the same was read, but for places and the spelling of numbers.
-/

namespace ScriptSyntax.TokenStream

variable {s s' : String} {tokens tokens' : List Token} {options : Options}

theorem isPlainSource_of_tokenize (h : tokenize s = .ok tokens)
    (hstrings : ∀ t ∈ tokens, t.kind ≠ .string) :
    ∀ t ∈ (ofTokens tokens).tokens, Expr.IsPlainSource t := by
  intro t ht
  obtain ⟨hmem, hlexed⟩ := isLexed_of_tokenize h t ht
  exact ⟨hlexed, hstrings t hmem⟩

theorem allShown_of_tokenize (h : tokenize s = .ok tokens)
    (hstrings : ∀ t ∈ tokens, t.kind ≠ .string) :
    Stmt.AllShown ((ofTokens tokens).readProgram options).1.value := by
  have hmade := readProgram_madeOf (ofTokens tokens) options
  refine Stmt.allShown_iff.2 fun s hs => (hmade.derivable s hs).isShown fun t ht => ?_
  exact isPlainSource_of_tokenize h hstrings t (hmade.kept_sublist.subset (Stmt.mem_keptByAll hs ht))

theorem isShown_of_tokenize (h : tokenize s = .ok tokens)
    (hstrings : ∀ t ∈ tokens, t.kind ≠ .string) :
    ∀ e ∈ ((ofTokens tokens).readExpression options).1.value, e.IsShown := by
  intro e he
  obtain ⟨read, hread, hmade⟩ := readExpression_madeOf he
  refine hmade.derivable.isShown fun t ht => isPlainSource_of_tokenize h hstrings t ?_
  rw [hread]
  exact List.mem_append_left _ (hmade.kept_sublist.subset ht)

theorem parenthesized_getD_eq_iff {found found' : Option Expr} (h : ∀ e ∈ found, e.IsShown)
    (h' : ∀ e ∈ found', e.IsShown) :
    (found.map Expr.parenthesized).getD "" = (found'.map Expr.parenthesized).getD "" ↔
      found.map (Expr.mapTokens Token.plain) = found'.map (Expr.mapTokens Token.plain) := by
  have hne {e : Expr} (he : e.IsShown) : e.parenthesized ≠ "" := by
    rw [Ne, ← String.toList_inj, e.toList_parenthesized]
    exact he.text_ne_nil
  rcases found with _ | e <;> rcases found' with _ | e'
  · simp
  · simpa using (hne (h' e' rfl)).symm
  · simpa using hne (h e rfl)
  · have hiff := (h e rfl).text_eq_iff (h' e' rfl)
    rw [← Expr.toList_parenthesized, ← Expr.toList_parenthesized, String.toList_inj] at hiff
    simpa using hiff

/-- For two texts without strings: what is read of them as programs, whatever the options and with errors
or without, has the same parenthesized form if and only if it is the same but for the places of tokens
and the spelling of numbers. So it is for expressions. -/
theorem parenthesized_eq_iff (h : tokenize s = .ok tokens) (h' : tokenize s' = .ok tokens')
    (hstrings : ∀ t ∈ tokens, t.kind ≠ .string) (hstrings' : ∀ t ∈ tokens', t.kind ≠ .string)
    (options options' : Options) :
    let program := ((ofTokens tokens).readProgram options).1.value
    let program' := ((ofTokens tokens').readProgram options').1.value
    let expression := ((ofTokens tokens).readExpression options).1.value
    let expression' := ((ofTokens tokens').readExpression options').1.value
    (Stmt.allParenthesized program = Stmt.allParenthesized program' ↔
        program.map (Stmt.mapTokens Token.plain) = program'.map (Stmt.mapTokens Token.plain)) ∧
      ((expression.map Expr.parenthesized).getD "" = (expression'.map Expr.parenthesized).getD "" ↔
        expression.map (Expr.mapTokens Token.plain) =
          expression'.map (Expr.mapTokens Token.plain)) := by
  intro program program' expression expression'
  constructor
  · rw [← String.toList_inj, Stmt.toList_allParenthesized, Stmt.toList_allParenthesized]
    exact Stmt.textOfAll_eq_iff (allShown_of_tokenize h hstrings) (allShown_of_tokenize h' hstrings')
  · exact parenthesized_getD_eq_iff (isShown_of_tokenize h hstrings)
      (isShown_of_tokenize h' hstrings')

/-- A difference. -/
def difference : String := "1.0 - b;"

def differenceTokens : List Token :=
  [⟨.number, "1.0", some (.number ⟨0x3FF0000000000000⟩), ⟨1, 1⟩⟩, ⟨.minus, "-", none, ⟨1, 5⟩⟩,
    ⟨.identifier, "b", none, ⟨1, 7⟩⟩, ⟨.semicolon, ";", none, ⟨1, 8⟩⟩, .endOfInput ⟨1, 9⟩]

/-- The same without its semicolon, with the number spelled in another way. -/
def openDifference : String := "1-b"

def openDifferenceTokens : List Token :=
  [⟨.number, "1", some (.number ⟨0x3FF0000000000000⟩), ⟨1, 1⟩⟩, ⟨.minus, "-", none, ⟨1, 2⟩⟩,
    ⟨.identifier, "b", none, ⟨1, 3⟩⟩, .endOfInput ⟨1, 4⟩]

theorem tokenize_difference : tokenize difference = .ok differenceTokens :=
  tokenize_of_toOption (by decide +kernel)

theorem tokenize_openDifference : tokenize openDifference = .ok openDifferenceTokens :=
  tokenize_of_toOption (by decide +kernel)

theorem parenthesized_difference :
    let program := ((ofTokens differenceTokens).readProgram .strict).1
    let lenient := ((ofTokens openDifferenceTokens).readProgram ⟨false⟩).1
    let dropped := ((ofTokens openDifferenceTokens).readProgram .strict).1
    tokenize difference = .ok differenceTokens ∧
      tokenize openDifference = .ok openDifferenceTokens ∧ lenient.errors ≠ [] ∧
      Stmt.allParenthesized program.value = Stmt.allParenthesized lenient.value ∧
      Stmt.allParenthesized program.value ≠ Stmt.allParenthesized dropped.value := by
  intro program lenient dropped
  have hiff := parenthesized_eq_iff tokenize_difference tokenize_openDifference (by decide)
    (by decide) .strict
  refine ⟨tokenize_difference, tokenize_openDifference, List.cons_ne_nil _ _,
    (hiff ⟨false⟩).1.2 ?_, fun heq => ?_⟩
  · rfl
  · exact List.cons_ne_nil _ _ ((hiff .strict).1.1 heq)

end ScriptSyntax.TokenStream
