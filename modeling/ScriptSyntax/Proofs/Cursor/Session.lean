import ScriptSyntax.Proofs.Cursor.Stmt
import ScriptSyntax.Proofs.Session
/-! # A cursor that reads again and again

Readings with a cursor, one after the other, read what streams do. Between two readings the cursor has
no errors left in its buffer and counts no level.
-/

namespace ScriptSyntax

/-- What a stream has of an input. -/
def Input.stream (input : Input) : TokenStream := ⟨input.row, input.eof.location⟩

namespace TokenStream

variable {tokens : List Token} {stream : TokenStream} {options : Options}

/-! ## Rows that end -/

/-- The tokens, and one that ends the input where the last one stands, unless that does it. -/
def closed (tokens : List Token) : List Token :=
  match tokens.getLast? with
  | some t => if t.kind = .endOfInput then tokens else tokens ++ [.endOfInput t.location]
  | none => [.endOfInput .nowhere]

theorem prefix_closed (tokens : List Token) : tokens <+: closed tokens := by
  unfold closed
  rcases hlast : tokens.getLast? with _ | t
  · rw [List.getLast?_eq_none_iff.1 hlast]
    exact List.nil_prefix
  · dsimp only
    split
    · exact List.prefix_rfl
    · exact List.prefix_append tokens _

theorem getLast?_closed (tokens : List Token) :
    ∃ eof, (closed tokens).getLast? = some eof ∧ eof.kind = .endOfInput := by
  unfold closed
  rcases hlast : tokens.getLast? with _ | t
  · exact ⟨_, rfl, rfl⟩
  · dsimp only
    split
    · rename_i hkind
      exact ⟨t, hlast, hkind⟩
    · exact ⟨_, List.getLast?_concat, rfl⟩

/-- The end that was added is where the input ended without it. -/
theorem ofTokens_closed (tokens : List Token) : ofTokens (closed tokens) = ofTokens tokens := by
  rcases hfind : tokens.find? (·.kind == .endOfInput) with _ | eof
  · have hall : ∀ t ∈ tokens, t.kind ≠ .endOfInput := by simpa using hfind
    rcases hlast : tokens.getLast? with _ | t
    · rw [List.getLast?_eq_none_iff.1 hlast]
      rfl
    · have hclosed : closed tokens = tokens ++ [.endOfInput t.location] := by
        simp [closed, hlast, hall t (List.mem_of_getLast? hlast)]
      have htokens := ofTokens_append hall []
      have hend : (ofTokens tokens).inputEnd = t.location := by simp [ofTokens, hfind, hlast]
      rw [List.append_nil] at htokens
      rw [hclosed, ofTokens_append_cons hall rfl [], ← hend]
      exact (congrArg (TokenStream.mk · _) (htokens.trans (List.append_nil tokens))).symm
  · obtain ⟨heof, row, behind, rfl, hrow⟩ := List.find?_eq_some_iff_append.1 hfind
    have heof : eof.kind = .endOfInput := by simpa using heof
    have hrow : ∀ t ∈ row, t.kind ≠ .endOfInput := by simpa using hrow
    obtain ⟨added, hadded⟩ := prefix_closed (row ++ eof :: behind)
    rw [← hadded, List.append_assoc, List.cons_append, ofTokens_append_cons hrow heof,
      ofTokens_append_cons hrow heof]

theorem exists_input (tokens : List Token) :
    ∃ input : Input, input.tokens = closed tokens ∧ ofTokens tokens = input.stream := by
  rcases hfind : (closed tokens).find? (·.kind == .endOfInput) with _ | eof
  · obtain ⟨eof, hlast, heof⟩ := getLast?_closed tokens
    have := List.find?_eq_none.1 hfind eof (List.mem_of_getLast? hlast)
    simp [heof] at this
  · obtain ⟨heof, row, behind, hclosed, hrow⟩ := List.find?_eq_some_iff_append.1 hfind
    have heof : eof.kind = .endOfInput := by simpa using heof
    have hrow : ∀ t ∈ row, t.kind ≠ .endOfInput := by simpa using hrow
    refine ⟨⟨row, eof, behind, hrow, heof⟩, hclosed.symm, ?_⟩
    rw [← ofTokens_closed, hclosed, ofTokens_append_cons hrow heof]
    rfl

/-! ## Answers -/

/-- What a reading gives. -/
inductive Answer where
  | expression (reading : Reading (Option Expr))
  | program (reading : Reading (List Stmt))
deriving Repr

def answer (options : Options) (stream : TokenStream) : Entry → Answer
  | .expression => .expression (stream.readExpression options).1
  | .program => .program (stream.readProgram options).1

/-- What some readings give, one after the other. -/
def answers (options : Options) (stream : TokenStream) : List Entry → List Answer
  | [] => []
  | entry :: entries =>
    answer options stream entry :: answers options (leftBy options stream entry) entries

end TokenStream

open TokenStream

/-- A cursor in front of a closed row. -/
def Trace.start (tokens : List Token) (options : Options) : Trace :=
  ⟨⟨closed tokens, 0, options, [], 0⟩, []⟩

namespace Walk

def read : Entry → Walk Answer
  | .expression => return .expression (← readExpression)
  | .program => return .program (← readProgram)

/-- Some readings, one after the other. -/
def session (entries : List Entry) : Walk (List Answer) := entries.mapM read

end Walk

namespace Trace

variable {trace : Trace} {input : Input} {stream : TokenStream} {options : Options}

/-- Between two readings the cursor is in front of what a stream has, with no errors in its buffer
and no level counted. -/
structure Between (trace : Trace) (input : Input) (options : Options) (stream : TokenStream) :
    Prop where
  here : trace.At input stream.tokens maxNesting
  errors_eq : trace.now.errors = []
  options_eq : trace.now.options = options
  inputEnd_eq : stream.inputEnd = input.eof.location

theorem Between.depth_eq (h : trace.Between input options stream) : trace.now.depth = 0 := by
  have := h.here.depth_eq
  omega

theorem between_start {tokens : List Token} (hinput : input.tokens = closed tokens)
    (hstream : ofTokens tokens = input.stream) (options : Options) :
    (start tokens options).Between input options (ofTokens tokens) := by
  rw [hstream]
  have hsound : (start tokens options).Sound input :=
    ⟨List.forall_mem_singleton.2 ⟨hinput.symm, Nat.zero_le _, Nat.zero_le _⟩,
      List.pairwise_singleton _ _⟩
  exact ⟨⟨hsound, List.suffix_rfl, (Nat.sub_self _).symm, Nat.zero_add _⟩, rfl, rfl, rfl⟩

end Trace

namespace Walk

variable {trace : Trace} {input : Input} {stream : TokenStream} {options : Options}

theorem takeErrors_between {ahead : List Token} (hat : trace.At input ahead maxNesting) :
    ∃ trace', takeErrors.run trace = some (.ok trace.now.errors, trace') ∧
      trace'.Between input trace.now.options ⟨ahead, input.eof.location⟩ := by
  have hnow := hat.now_sound
  have hsound : Trace.Sound ⟨{ trace.now with errors := [] }, trace.now :: trace.past⟩ input :=
    hat.sound.change ⟨hnow.tokens_eq, hnow.position_le, hnow.depth_le⟩ (Nat.le_refl _)
  exact ⟨_, rfl, ⟨hsound, hat.suffix, hat.position_eq, hat.depth_eq⟩, rfl, rfl, rfl⟩

theorem run_readExpression (h : trace.Between input options stream) :
    ∃ trace', readExpression.run trace = some (.ok (stream.readExpression options).1, trace') ∧
      trace'.Between input options (stream.readExpression options).2 := by
  obtain ⟨here, herrors, rfl, hinputEnd⟩ := h
  obtain ⟨read, hread, hsound, hnow⟩ :=
    expression_follows maxNesting stream.tokens.length here (Nat.le_refl _)
  rw [← hinputEnd] at hread hnow
  unfold TokenStream.readExpression TokenStream.read
  rcases hrun : (Expr.parser maxNesting).run ⟨trace.now.options, stream.inputEnd⟩ stream.tokens with
    ⟨e | a, errors, rest⟩
  all_goals
    rw [hrun] at hread hnow
    rw [herrors, List.nil_append] at hnow
    have hat := here.move hsound (Parser.suffix_of_run hrun) hnow
  · obtain ⟨told, htold, htoldSound, htoldNow⟩ := record_endsAs hat e
    obtain ⟨last, hlast, hbetween⟩ := takeErrors_between
      (hat.move htoldSound List.suffix_rfl htoldNow)
    rw [htoldNow, hnow] at hlast hbetween
    rw [← hinputEnd] at hbetween
    refine ⟨last, ?_, hbetween⟩
    unfold Walk.readExpression
    rw [run_bind_of_ok (run_attempt hread), run_bind_of_ok htold, run_bind_of_ok hlast]
    rfl
  · obtain ⟨last, hlast, hbetween⟩ := takeErrors_between hat
    rw [hnow] at hlast hbetween
    rw [← hinputEnd] at hbetween
    refine ⟨last, ?_, hbetween⟩
    unfold Walk.readExpression
    rw [run_bind_of_ok (run_attempt hread), run_bind_of_ok hlast]
    rfl

theorem run_readProgram (h : trace.Between input options stream) :
    ∃ trace', readProgram.run trace = some (.ok (stream.readProgram options).1, trace') ∧
      trace'.Between input options (stream.readProgram options).2 := by
  obtain ⟨here, herrors, rfl, hinputEnd⟩ := h
  have hfollows := follows_declarations (Stmt.advances_of_room maxNesting)
    (declaration_follows maxNesting) (fun _ => false) [] here (Nat.le_refl _)
  simp only [List.nil_append, bind_pure] at hfollows
  have hprogram : Parser.collectUntil (fun _ => false) (Stmt.parser maxNesting) = program := rfl
  rw [← hinputEnd, hprogram, run_program] at hfollows
  obtain ⟨read, hread, hsound, hnow⟩ := hfollows
  dsimp only at hread hnow
  rw [herrors, List.nil_append] at hnow
  have hat := here.move hsound List.nil_suffix hnow
  obtain ⟨last, hlast, hbetween⟩ := takeErrors_between hat
  rw [hnow] at hlast hbetween
  rw [← hinputEnd] at hbetween
  rw [readProgram_of_run (run_program stream trace.now.options)]
  refine ⟨last, ?_, hbetween⟩
  unfold Walk.readProgram
  rw [run_bind_of_ok hread, run_bind_of_ok hlast]
  rfl

theorem run_read (h : trace.Between input options stream) (entry : Entry) :
    ∃ trace', (read entry).run trace = some (.ok (answer options stream entry), trace') ∧
      trace'.Between input options (leftBy options stream entry) := by
  cases entry with
  | expression =>
    obtain ⟨trace', hrun, hbetween⟩ := run_readExpression h
    exact ⟨trace', run_bind_of_ok hrun, hbetween⟩
  | program =>
    obtain ⟨trace', hrun, hbetween⟩ := run_readProgram h
    exact ⟨trace', run_bind_of_ok hrun, hbetween⟩

theorem run_session (h : trace.Between input options stream) (entries : List Entry) :
    ∃ trace', (session entries).run trace = some (.ok (answers options stream entries), trace') ∧
      trace'.Between input options (after options stream entries) := by
  unfold session
  induction entries generalizing trace stream with
  | nil => exact ⟨trace, rfl, h⟩
  | cons entry entries ih =>
    obtain ⟨read, hread, hbetween⟩ := run_read h entry
    obtain ⟨trace', hrun, hlast⟩ := ih hbetween
    refine ⟨trace', ?_, hlast⟩
    rw [List.mapM_cons, run_bind_of_ok hread, run_bind_of_ok hrun]
    rfl

end Walk

end ScriptSyntax
