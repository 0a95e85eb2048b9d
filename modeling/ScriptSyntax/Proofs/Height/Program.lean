import ScriptSyntax.Proofs.Completeness.Program
import ScriptSyntax.Proofs.Height.Tree
import ScriptSyntax.Proofs.Lexical.Layout
import ScriptSyntax.Proofs.Soundness.Program
/-! # How high the trees are that are read

The limit on nesting does not bound them: a difference of many operands is as high as it is long.
What it bounds is the height with each row of operations or calls folded to one step.
-/

namespace ScriptSyntax

/-! ## Differences -/

/-- A difference of `count` and one more operands. -/
def differenceLexemes (count : Nat) : List Lexeme :=
  ⟨.nilKeyword, ['n', 'i', 'l']⟩ ::
    (List.replicate count [⟨.minus, ['-']⟩, ⟨.nilKeyword, ['n', 'i', 'l']⟩]).flatten

theorem differenceLexemes_spelled (count : Nat) :
    ∀ l ∈ differenceLexemes count, l.kind.Spelled l.text := by
  have hnil : TokenKind.nilKeyword.Spelled ['n', 'i', 'l'] := .keyword rfl
  have hminus : TokenKind.minus.Spelled ['-'] := .mark rfl
  refine List.forall_mem_cons.2 ⟨hnil, fun l hl => ?_⟩
  obtain ⟨pair, hpair, hl⟩ := List.mem_flatten.1 hl
  obtain rfl := List.eq_of_mem_replicate hpair
  simp only [List.mem_cons, List.not_mem_nil, or_false] at hl
  rcases hl with rfl | rfl
  · exact hminus
  · exact hnil

theorem Expr.exists_difference {count : Nat} {e : Expr} {front ts : List Token}
    (hderivable : e.Derivable) (hrank : 5 ≤ e.rank) (hw : e.Writes front)
    (hts : ts.map (·.kind) = (List.replicate count [.minus, .nilKeyword]).flatten) :
    ∃ whole : Expr, whole.Derivable ∧ whole.Writes (front ++ ts) ∧ whole.nesting = e.nesting ∧
      e.height + count ≤ whole.height := by
  -- Each sign and operand make all that stands in front of them the left operand of a difference.
  induction count generalizing e front ts with
  | zero =>
    obtain rfl : ts = [] := List.map_eq_nil_iff.1 hts
    exact ⟨e, hderivable, by simpa using hw, rfl, Nat.le_refl _⟩
  | succ count ih =>
    rw [List.replicate_succ, List.flatten_cons] at hts
    obtain ⟨sign, rest, rfl, hsign, hrest⟩ := List.map_eq_cons_iff.1 hts
    obtain ⟨operand, more, rfl, hoperand, hmore⟩ := List.map_eq_cons_iff.1 hrest
    have hkind : Precedence.ofKind? sign.kind = some .sum := by rw [hsign]; rfl
    have hright : (literal operand).Derivable := .literal (by rw [hoperand]; rfl)
    have hdifference : (binary e sign (literal operand)).Derivable :=
      .binary hkind rfl hrank (show 5 < 9 by decide) hderivable hright
    have hrank' : 5 ≤ (binary e sign (literal operand)).rank := by
      simp [rank, hkind, Precedence.rank]
    obtain ⟨whole, hwhole, hwrites, hnesting, hheight⟩ :=
      ih hdifference hrank' (.binary hw .literal) hmore
    refine ⟨whole, hwhole, by simpa using hwrites, ?_, ?_⟩
    · rw [hnesting]
      exact Nat.max_eq_left (Nat.zero_le _)
    · have hle : e.height ≤ max e.height 1 := Nat.le_max_left _ _
      have hhigher : max e.height 1 + 1 + count ≤ whole.height := hheight
      omega

theorem exists_difference_source (count : Nat) :
    ∃ s first ts place, tokenize s = .ok (first :: ts ++ [.endOfInput place]) ∧
      first.kind = .nilKeyword ∧
      ts.map (·.kind) = (List.replicate count [.minus, .nilKeyword]).flatten := by
  obtain ⟨s, hlaid⟩ := Lexeme.exists_laidOut (differenceLexemes_spelled count)
  obtain ⟨tokens, htokens, hcontents, -⟩ := hlaid.exists_tokens
  have hkinds : tokens.map (·.kind) = (differenceLexemes count).map (·.kind) := by
    have := congrArg (List.map Token.kind) hcontents
    simpa [Function.comp_def, Token.unplaced, Lexeme.toToken] using this
  obtain ⟨first, ts, rfl, hfirst, hts⟩ := List.map_eq_cons_iff.1 hkinds
  refine ⟨s, first, ts, _, htokens, hfirst, ?_⟩
  rw [hts, List.map_flatten, List.map_replicate]
  rfl

theorem exists_expression_higher (count : Nat) :
    ∃ s tokens e, tokenize s = .ok tokens ∧
      ((TokenStream.ofTokens tokens).readExpression {}).1.value = some e ∧ count < e.height := by
  obtain ⟨s, first, ts, place, htokens, hfirst, hts⟩ := exists_difference_source count
  have hderivable : (Expr.literal first).Derivable := .literal (by rw [hfirst]; rfl)
  obtain ⟨e, he, hw, hnesting, hheight⟩ :=
    Expr.exists_difference hderivable (show 5 ≤ 9 by decide) .literal hts
  have hstream := TokenStream.ofTokens_append (he.kind_ne_endOfInput hw) [.endOfInput place]
  have hends : Expr.EndsBefore 0 (TokenStream.ofTokens [.endOfInput place]).tokens :=
    TokenStream.endsBefore_ofTokens rfl []
  obtain ⟨hvalue, -⟩ := TokenStream.readExpression_of_takes {} hstream
    (he.takes_of_room hw (by rw [hnesting]; exact Nat.zero_le _) hends)
  refine ⟨_, _, e, htokens, hvalue, ?_⟩
  have hheight : 1 + count ≤ e.height := hheight
  omega

namespace TokenStream

/-- No number bounds the height of all that is read from texts. -/
theorem height_unbounded :
    ¬ ∃ bound, ∀ (s : String) (tokens : List Token) (options : Options) (entries : List Entry),
      tokenize s = .ok tokens →
      let stream := (ofTokens tokens).after options entries
      (∀ e, (stream.readExpression options).1.value = some e → e.height ≤ bound) ∧
        ∀ t ∈ (stream.readProgram options).1.value, t.height ≤ bound := by
  rintro ⟨bound, hbound⟩
  obtain ⟨s, tokens, e, htokens, he, hheight⟩ := exists_expression_higher bound
  have := (hbound s tokens {} [] htokens).1 e he
  omega

/-- With each row of operations of one precedence and each row of calls counted as one, what is read
is no higher than the limit on nesting allows. Its height is at most that times the length of its
longest row. -/
theorem height_of_read (tokens : List Token) (options : Options) (entries : List Entry) :
    let stream := (ofTokens tokens).after options entries
    (∀ e, (stream.readExpression options).1.value = some e →
      e.foldedHeight ≤ 10 * (maxNesting + 1) ∧ e.height ≤ e.longestRow * (10 * (maxNesting + 1))) ∧
      ∀ s ∈ (stream.readProgram options).1.value,
        s.foldedHeight ≤ 10 * (maxNesting + 1) + 1 ∧
          s.height ≤ s.longestRow * (10 * (maxNesting + 1) + 1) := by
  intro stream
  constructor
  · intro e he
    obtain ⟨read, -, hmade⟩ := readExpression_madeOf he
    have hfolded := hmade.derivable.folded_add_rank_le
    have hnesting := hmade.nesting_lt
    have hle : e.foldedHeight ≤ 10 * (maxNesting + 1) := by omega
    exact ⟨hle, Nat.le_trans e.height_le (Nat.mul_le_mul_left _ hle)⟩
  · intro s hs
    have hmade := readProgram_madeOf stream options
    have hfolded := (hmade.derivable s hs).folded_le
    have hnesting := hmade.nesting_lt s hs
    have hle : s.foldedHeight ≤ 10 * (maxNesting + 1) + 1 := by omega
    exact ⟨hle, Nat.le_trans s.height_le (Nat.mul_le_mul_left _ hle)⟩

/-- A call of what a call gives, with a difference in a sum as its argument. -/
def secondCall : List Token :=
  Token.ofKinds [.identifier, .leftParen, .rightParen, .leftParen, .nilKeyword, .minus, .nilKeyword,
    .plus, .nilKeyword, .rightParen, .semicolon]

theorem height_of_read_of_secondCall :
    (∃ e, ((ofTokens secondCall).readExpression {}).1.value = some e ∧
      e.height = 4 ∧ e.foldedHeight = 3 ∧ e.longestRow = 2 ∧
      e.foldedHeight ≤ 650 ∧ e.height ≤ e.longestRow * 650) ∧
    ∃ s, ((ofTokens secondCall).readProgram {}).1.value = [s] ∧
      s.height = 5 ∧ s.foldedHeight = 4 ∧ s.longestRow = 2 ∧
      s.foldedHeight ≤ 651 ∧ s.height ≤ s.longestRow * 651 :=
  have h := height_of_read secondCall {} []
  ⟨⟨_, rfl, rfl, rfl, rfl, h.1 _ rfl⟩, _, rfl, rfl, rfl, rfl, h.2 _ List.mem_cons_self⟩

end TokenStream

end ScriptSyntax
