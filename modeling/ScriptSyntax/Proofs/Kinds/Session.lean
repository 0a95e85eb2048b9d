import ScriptSyntax.Proofs.Cursor.Lookahead
import ScriptSyntax.Proofs.Kinds.Grammar
import ScriptSyntax.Proofs.Lexical.Tokens
/-! # Readings depend on the kinds of tokens

Tokens changed into others of the same kinds are read in the same way: the trees and the errors are the
same but for the tokens in them.
-/

namespace ScriptSyntax

/-- The answer with every token in it changed. -/
def TokenStream.Answer.mapTokens (change : Token → Token) (inputEnd : Location) : Answer → Answer
  | .expression reading =>
    .expression ⟨reading.value.map (Expr.mapTokens change),
      reading.errors.map (SyntaxError.mapTokens change inputEnd)⟩
  | .program reading =>
    .program ⟨reading.value.map (Stmt.mapTokens change),
      reading.errors.map (SyntaxError.mapTokens change inputEnd)⟩

/-- What is left of an answer where only the kinds of tokens are kept. -/
def TokenStream.Answer.shape : Answer → Answer := mapTokens (fun t => .ofKind t.kind) .nowhere

namespace Relabeling

open TokenStream

variable {r : Relabeling} {options : Options}

/-! ## Streams -/

/-- The stream with every token in it changed. -/
def stream (r : Relabeling) (stream : TokenStream) : TokenStream :=
  ⟨stream.tokens.map r.token, r.inputEnd⟩

def answer (r : Relabeling) : Answer → Answer := Answer.mapTokens r.token r.inputEnd

theorem ofTokens_map {tokens : List Token} {eof : Token}
    (heof : tokens.find? (·.kind == .endOfInput) = some eof)
    (hend : r.inputEnd = (r.token eof).location) :
    ofTokens (tokens.map r.token) = r.stream (ofTokens tokens) := by
  obtain ⟨hkind, row, behind, rfl, hrow⟩ := List.find?_eq_some_iff_append.1 heof
  have hkind : eof.kind = .endOfInput := by simpa using hkind
  have hrow : ∀ t ∈ row, t.kind ≠ .endOfInput := by simpa using hrow
  have hchanged : ∀ t ∈ row.map r.token, t.kind ≠ .endOfInput := by
    simpa [r.kind_token] using hrow
  rw [ofTokens_append_cons hrow hkind, List.map_append, List.map_cons,
    ofTokens_append_cons hchanged ((r.kind_token eof).trans hkind), ← hend]
  rfl

theorem readExpression_stream (stream : TokenStream) :
    (r.stream stream).readExpression options =
      (⟨(stream.readExpression options).1.value.map (Expr.mapTokens r.token),
          (stream.readExpression options).1.errors.map r.error⟩,
        r.stream (stream.readExpression options).2) := by
  have hrun := Expr.mirrors_of_room (r := r) maxNesting ⟨options, stream.inputEnd⟩ stream.tokens
  unfold readExpression TokenStream.read
  rw [show (⟨options, (r.stream stream).inputEnd⟩ : Setting) =
    r.setting ⟨options, stream.inputEnd⟩ from rfl]
  dsimp only [Relabeling.stream]
  rw [hrun]
  rcases (Expr.parser maxNesting).run ⟨options, stream.inputEnd⟩ stream.tokens with
    ⟨e | a, errors, rest⟩
  · simp
  · rfl

theorem readProgram_stream (stream : TokenStream) :
    (r.stream stream).readProgram options =
      (⟨(stream.readProgram options).1.value.map (Stmt.mapTokens r.token),
          (stream.readProgram options).1.errors.map r.error⟩,
        r.stream (stream.readProgram options).2) := by
  have hadvances := Stmt.advances_of_room maxNesting
  have hprogram : r.Mirrors (List.map (Stmt.mapTokens r.token)) program program :=
    mirrors_collectUntil hadvances hadvances (Stmt.mirrors_of_room maxNesting)
  have hrun := hprogram ⟨options, stream.inputEnd⟩ stream.tokens
  rw [run_program, outcome_ok] at hrun
  have hread : (r.stream stream).readProgram options = _ := readProgram_of_run hrun
  rw [hread, readProgram_of_run (run_program stream options)]
  rfl

/-! ## Readings, one after the other -/

theorem answer_stream (stream : TokenStream) (entry : Entry) :
    TokenStream.answer options (r.stream stream) entry =
      r.answer (TokenStream.answer options stream entry) := by
  cases entry with
  | expression =>
    simp only [TokenStream.answer, readExpression_stream]
    rfl
  | program =>
    simp only [TokenStream.answer, readProgram_stream]
    rfl

theorem leftBy_stream (stream : TokenStream) (entry : Entry) :
    leftBy options (r.stream stream) entry = r.stream (leftBy options stream entry) := by
  cases entry with
  | expression => exact congrArg Prod.snd (readExpression_stream stream)
  | program => exact congrArg Prod.snd (readProgram_stream stream)

theorem answers_stream (stream : TokenStream) (entries : List Entry) :
    answers options (r.stream stream) entries =
      (answers options stream entries).map r.answer := by
  induction entries generalizing stream with
  | nil => rfl
  | cons entry entries ih =>
    rw [answers, answers, List.map_cons, answer_stream, leftBy_stream, ih]

theorem after_stream (stream : TokenStream) (entries : List Entry) :
    after options (r.stream stream) entries = r.stream (after options stream entries) := by
  induction entries generalizing stream with
  | nil => rfl
  | cons entry entries ih =>
    show after options (leftBy options (r.stream stream) entry) entries = _
    rw [leftBy_stream, ih]
    rfl

end Relabeling

/-! ## Cursors -/

open TokenStream

theorem run_session_start (tokens : List Token) (options : Options) (entries : List Entry) :
    ∃ trace, (Walk.session entries).run (.start tokens options) =
        some (.ok (answers options (ofTokens tokens) entries), trace) ∧
      trace.now.position = position tokens (after options (ofTokens tokens) entries) := by
  obtain ⟨input, hinput, hstream⟩ := exists_input tokens
  obtain ⟨trace, hrun, -⟩ :=
    Walk.run_session (Trace.between_start hinput hstream options) entries
  exact ⟨trace, hrun, Trace.Reached.position_eq ⟨_, hrun⟩⟩

/-- Readings with a cursor in front of changed tokens give what they give in front of the tokens, changed,
and leave the cursor where they leave it there. -/
theorem Relabeling.run_session {r : Relabeling} {tokens : List Token} {eof : Token}
    (heof : tokens.find? (·.kind == .endOfInput) = some eof)
    (hend : r.inputEnd = (r.token eof).location) (options : Options) (entries : List Entry) :
    ∃ found trace trace',
      (Walk.session entries).run (.start tokens options) = some (.ok found, trace) ∧
        (Walk.session entries).run (.start (tokens.map r.token) options) =
          some (.ok (found.map r.answer), trace') ∧
        trace'.now.position = trace.now.position := by
  obtain ⟨trace, hrun, hposition⟩ := run_session_start tokens options entries
  obtain ⟨trace', hrun', hposition'⟩ := run_session_start (tokens.map r.token) options entries
  rw [ofTokens_map heof hend, answers_stream] at hrun'
  rw [ofTokens_map heof hend, after_stream] at hposition'
  refine ⟨_, trace, trace', hrun, hrun', ?_⟩
  rw [hposition', hposition, position, position, ofTokens_map heof hend]
  simp [Relabeling.stream]

theorem exists_find?_of_getLast? {tokens : List Token}
    (h : ∃ last, tokens.getLast? = some last ∧ last.kind = .endOfInput) :
    ∃ eof, tokens.find? (·.kind == .endOfInput) = some eof := by
  obtain ⟨last, hlast, hkind⟩ := h
  refine Option.isSome_iff_exists.1 (List.find?_isSome.2 ⟨last, List.mem_of_getLast? hlast, ?_⟩)
  simpa using hkind

theorem run_session_of_kinds {tokens tokens' : List Token}
    (hend : ∃ last, tokens.getLast? = some last ∧ last.kind = .endOfInput)
    (hend' : ∃ last, tokens'.getLast? = some last ∧ last.kind = .endOfInput)
    (hkinds : tokens.map Token.kind = tokens'.map Token.kind) (options : Options)
    (entries : List Entry) :
    ∃ found found' trace trace',
      (Walk.session entries).run (.start tokens options) = some (.ok found, trace) ∧
        (Walk.session entries).run (.start tokens' options) = some (.ok found', trace') ∧
        found'.map Answer.shape = found.map Answer.shape ∧
        trace'.now.position = trace.now.position := by
  let r : Relabeling := ⟨fun t => .ofKind t.kind, fun _ => rfl, .nowhere⟩
  have hmap (tokens : List Token) : tokens.map r.token = Token.ofKinds (tokens.map Token.kind) := by
    simp [r, Token.ofKinds, Function.comp_def]
  obtain ⟨eof, heof⟩ := exists_find?_of_getLast? hend
  obtain ⟨eof', heof'⟩ := exists_find?_of_getLast? hend'
  obtain ⟨found, trace, plain, hrun, hplain, hposition⟩ :=
    r.run_session heof rfl options entries
  obtain ⟨found', trace', plain', hrun', hplain', hposition'⟩ :=
    r.run_session heof' rfl options entries
  -- Both rows are changed into the row that has the kinds and no more.
  rw [hmap, ← hkinds, ← hmap, hplain] at hplain'
  obtain ⟨hfound, hplaces⟩ := Prod.mk.inj (Option.some.inj hplain')
  refine ⟨found, found', trace, trace', hrun, hrun', (Except.ok.inj hfound).symm, ?_⟩
  rw [← hposition', ← hposition, hplaces]

theorem getLast?_tokenize {s : String} {tokens : List Token} (h : tokenize s = .ok tokens) :
    ∃ last, tokens.getLast? = some last ∧ last.kind = .endOfInput := by
  obtain ⟨_, _, -, -, -, rfl⟩ := exists_scans_of_tokenize h
  exact ⟨_, List.getLast?_concat, rfl⟩

/-- Whatever tokens are changed into, as long as they keep their kinds: behind any readings, one after the
other, the cursor is where it is without the change, and the trees and the errors are the same with the
changed tokens in them. So two texts whose tokens are of the same kinds give trees and errors of the same
shape. -/
theorem session_mapTokens :
    (∀ (change : Token → Token) (tokens : List Token) (options : Options) (entries : List Entry),
      (∀ t, (change t).kind = t.kind) →
      (∃ last, tokens.getLast? = some last ∧ last.kind = .endOfInput) →
      ∃ eof found trace trace', tokens.find? (·.kind == .endOfInput) = some eof ∧
        (Walk.session entries).run (.start tokens options) = some (.ok found, trace) ∧
        (Walk.session entries).run (.start (tokens.map change) options) =
          some (.ok (found.map (Answer.mapTokens change (change eof).location)), trace') ∧
        trace'.now.position = trace.now.position) ∧
      ∀ (s s' : String) (tokens tokens' : List Token) (options : Options) (entries : List Entry),
        tokenize s = .ok tokens → tokenize s' = .ok tokens' →
        tokens.map Token.kind = tokens'.map Token.kind →
        ∃ found found' trace trace',
          (Walk.session entries).run (.start tokens options) = some (.ok found, trace) ∧
            (Walk.session entries).run (.start tokens' options) = some (.ok found', trace') ∧
            found'.map Answer.shape = found.map Answer.shape ∧
            trace'.now.position = trace.now.position := by
  constructor
  · intro change tokens options entries hkind hend
    obtain ⟨eof, heof⟩ := exists_find?_of_getLast? hend
    obtain ⟨found, trace, trace', hrun⟩ :=
      Relabeling.run_session (r := ⟨change, hkind, (change eof).location⟩) heof rfl options entries
    exact ⟨eof, found, trace, trace', heof, hrun⟩
  · intro s s' tokens tokens' options entries h h' hkinds
    exact run_session_of_kinds (getLast?_tokenize h) (getLast?_tokenize h') hkinds options entries

/-- An assignment, and a keyword with nothing to print behind it. -/
def assignThenPrint : List Token :=
  Token.ofKinds [.identifier, .equal, .number, .printKeyword, .endOfInput]

/-- A token of the same kind somewhere else. -/
def moved (t : Token) : Token := ⟨t.kind, "x", none, ⟨7, 7⟩⟩

/-- A text of the same kinds of tokens as `remark`. -/
def gloss : String := "x\"\"7."

def glossTokens : List Token :=
  [⟨.identifier, "x", none, ⟨1, 1⟩⟩, ⟨.string, "\"\"", some (.text ""), ⟨1, 2⟩⟩,
    ⟨.number, "7", some (.number ⟨0x401C000000000000⟩), ⟨1, 4⟩⟩, ⟨.dot, ".", none, ⟨1, 5⟩⟩,
    .endOfInput ⟨1, 6⟩]

theorem tokenize_gloss : tokenize gloss = .ok glossTokens :=
  tokenize_of_toOption (by decide +kernel)

theorem session_mapTokens_of_moved :
    (∃ trace, (Walk.session [.expression, .program]).run
          (.start (assignThenPrint.map moved) .strict) =
        some (.ok [.expression ⟨some (.assignment (moved (.ofKind .identifier))
            (.literal (moved (.ofKind .number)))), []⟩,
          .program ⟨[], [⟨.endOfInput ⟨7, 7⟩, .noExpression⟩]⟩], trace) ∧
      trace.now.position = 4) ∧
      ∃ found trace, (Walk.session [.expression]).run (.start glossTokens .strict) =
          some (.ok found, trace) ∧
        found.map Answer.shape = [.expression ⟨some (.reference (.ofKind .identifier)), []⟩] ∧
        trace.now.position = 1 := by
  obtain ⟨hchange, hkinds⟩ := session_mapTokens
  constructor
  · obtain ⟨eof, found, trace, trace', heof, hrun, hrun', hposition⟩ :=
      hchange moved assignThenPrint .strict [.expression, .program] (fun _ => rfl) ⟨_, rfl, rfl⟩
    obtain ⟨_, hstart, hplace⟩ :=
      run_session_start assignThenPrint .strict [.expression, .program]
    obtain ⟨hfound, rfl⟩ := Prod.mk.inj (Option.some.inj (hstart.symm.trans hrun))
    obtain rfl := Except.ok.inj hfound
    obtain rfl := Option.some.inj heof
    exact ⟨trace', hrun', hposition.trans hplace⟩
  · obtain ⟨found, found', trace, trace', hrun, hrun', hshape, hposition⟩ :=
      hkinds remark gloss remarkTokens glossTokens .strict [.expression] tokenize_remark
        tokenize_gloss rfl
    obtain ⟨_, hstart, hplace⟩ := run_session_start remarkTokens .strict [.expression]
    obtain ⟨hfound, rfl⟩ := Prod.mk.inj (Option.some.inj (hstart.symm.trans hrun))
    obtain rfl := Except.ok.inj hfound
    exact ⟨found', trace', hrun', hshape, hposition.trans hplace⟩

end ScriptSyntax
