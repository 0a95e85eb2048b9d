import ScriptSyntax.Proofs.Cursor.Session
import ScriptSyntax.Proofs.Locality
/-! # What a reading depends on

A reading with a cursor depends on the tokens from the cursor up to the one where it ends, and on no
others. Neither what was read before nor what failed has any part in it.
-/

namespace ScriptSyntax

open TokenStream

/-! ## Rows that start alike -/

/-- The tokens up to the first one that ends the input, and that one. -/
def throughEnd (tokens : List Token) : List Token :=
  tokens.take (tokens.findIdx (·.kind == .endOfInput) + 1)

namespace Input

variable {input input' : Input} {read rest : List Token}

theorem throughEnd_tokens (input : Input) : throughEnd input.tokens = input.row ++ [input.eof] := by
  unfold throughEnd
  rw [input.findIdx_tokens, tokens, List.take_length_add_append]
  rfl

/-- An input from where the last tokens of its row start. -/
def leave (input : Input) (ahead : List Token) (h : ahead <:+ input.row) : Input :=
  { input with row := ahead, goes_on := fun t ht => input.goes_on t (h.subset ht) }

theorem site_eq_of_head?_eq (h : input'.tokens.head? = input.tokens.head?) (options : Options) :
    (Setting.mk options input'.eof.location).site input'.row =
      (Setting.mk options input.eof.location).site input.row := by
  obtain ⟨row, eof, behind, goes_on, ends⟩ := input
  obtain ⟨row', eof', behind', goes_on', ends'⟩ := input'
  unfold tokens at h
  cases row with
  | nil =>
    cases row' with
    | nil =>
      obtain rfl : eof' = eof := Option.some.inj h
      rfl
    | cons t' row' =>
      obtain rfl : t' = eof := Option.some.inj h
      exact absurd ends (goes_on' t' List.mem_cons_self)
  | cons t row =>
    cases row' with
    | nil =>
      obtain rfl : eof' = t := Option.some.inj h
      exact absurd ends' (goes_on eof' List.mem_cons_self)
    | cons t' row' =>
      obtain rfl : t' = t := Option.some.inj h
      rfl

/-- Where two inputs are alike through the token behind what is read, both go on with it, and have
the same site there. -/
theorem exists_rest_of_take_eq (hrow : input.row = read ++ rest)
    (h : input'.tokens.take (read.length + 1) = input.tokens.take (read.length + 1)) :
    ∃ rest', input'.row = read ++ rest' ∧ ∀ options,
      (Setting.mk options input'.eof.location).site rest' =
        (Setting.mk options input.eof.location).site rest := by
  induction read generalizing input input' with
  | nil =>
    have hhead : input'.tokens.head? = input.tokens.head? := by
      simpa [List.head?_take] using congrArg List.head? h
    refine ⟨input'.row, rfl, fun options => ?_⟩
    rw [site_eq_of_head?_eq hhead, hrow]
    rfl
  | cons t read ih =>
    have ht := input.goes_on t (by rw [hrow]; exact List.mem_cons_self)
    rcases hrow' : input'.row with _ | ⟨t', row'⟩
    · simp only [tokens, hrow, hrow', List.nil_append, List.cons_append, List.length_cons,
        List.take_succ_cons, List.cons.injEq] at h
      exact absurd input'.ends (h.1 ▸ ht)
    · simp only [tokens, hrow, hrow', List.cons_append, List.length_cons, List.take_succ_cons,
        List.cons.injEq] at h
      obtain ⟨rfl, h⟩ := h
      have htail : row' <:+ input'.row := hrow' ▸ List.suffix_cons t' row'
      have hbehind : read ++ rest <:+ input.row := hrow ▸ List.suffix_cons t' (read ++ rest)
      have hread : (input'.leave _ htail).tokens.take (read.length + 1) =
          (input.leave _ hbehind).tokens.take (read.length + 1) := h
      obtain ⟨rest', hrest', hsite⟩ := ih rfl hread
      exact ⟨rest', congrArg (t' :: ·) hrest', hsite⟩

theorem run_of_take_eq {α : Type} {p : Parser α} (hp : p.Local) {options : Options}
    {result : Except SyntaxError α} {errors : List SyntaxError}
    (hrun : p.run ⟨options, input.eof.location⟩ input.row = ⟨result, errors, rest⟩)
    (h : input'.tokens.take (input.row.length - rest.length + 1) =
      input.tokens.take (input.row.length - rest.length + 1)) :
    ∃ rest', p.run ⟨options, input'.eof.location⟩ input'.row = ⟨result, errors, rest'⟩ ∧
      input'.row.length - rest'.length = input.row.length - rest.length := by
  obtain ⟨read, hread⟩ := Parser.suffix_of_run hrun
  have hlength : input.row.length - rest.length = read.length := by
    rw [← hread, List.length_append, Nat.add_sub_cancel]
  rw [hlength] at h ⊢
  obtain ⟨rest', hrest', hsite⟩ := exists_rest_of_take_eq hread.symm h
  refine ⟨rest', ?_, by rw [hrest', List.length_append, Nat.add_sub_cancel]⟩
  have hoptions : (Setting.mk options input'.eof.location).options =
      (Setting.mk options input.eof.location).options := rfl
  rw [← hread] at hrun
  rw [hrest']
  exact hp hoptions (hsite options) hrun

theorem read_of_take_eq {α : Type} {p : Parser α} (hp : p.Local) {options : Options}
    (h : let taken := input.row.length - (input.stream.read options p).2.tokens.length
      input'.tokens.take (taken + 1) = input.tokens.take (taken + 1)) :
    (input'.stream.read options p).1 = (input.stream.read options p).1 ∧
      input'.row.length - (input'.stream.read options p).2.tokens.length =
        input.row.length - (input.stream.read options p).2.tokens.length := by
  rw [read_snd_tokens] at h
  rcases hrun : p.run ⟨options, input.eof.location⟩ input.row with ⟨result, errors, rest⟩
  obtain ⟨rest', hrun', hlength⟩ := run_of_take_eq hp hrun (by simpa [stream, hrun] using h)
  unfold TokenStream.read stream
  dsimp only
  rw [hrun, hrun']
  cases result with
  | error e => exact ⟨rfl, hlength⟩
  | ok a => exact ⟨rfl, hlength⟩

end Input

/-! ## Readings from a place in a row -/

/-- A cursor in front of a row has come to this after some readings. -/
def Trace.Reached (trace : Trace) (tokens : List Token) (options : Options) (entries : List Entry) :
    Prop :=
  ∃ answers, (Walk.session entries).run (.start tokens options) = some (.ok answers, trace)

namespace Trace

variable {trace : Trace} {input : Input} {stream : TokenStream} {tokens : List Token}
  {options : Options} {entries : List Entry}

theorem exists_reached (tokens : List Token) (options : Options) (entries : List Entry) :
    ∃ trace : Trace, trace.Reached tokens options entries := by
  obtain ⟨input, hinput, hstream⟩ := exists_input tokens
  obtain ⟨trace, hrun, -⟩ := Walk.run_session (between_start hinput hstream options) entries
  exact ⟨trace, _, hrun⟩

theorem Reached.between (h : trace.Reached tokens options entries) :
    ∃ input : Input, input.tokens = closed tokens ∧ ofTokens tokens = input.stream ∧
      trace.Between input options (after options (ofTokens tokens) entries) := by
  obtain ⟨input, hinput, hstream⟩ := exists_input tokens
  obtain ⟨trace', hrun, hbetween⟩ :=
    Walk.run_session (between_start hinput hstream options) entries
  obtain ⟨answers, hanswers⟩ := h
  rw [hanswers] at hrun
  obtain rfl := (Prod.mk.inj (Option.some.inj hrun)).2
  exact ⟨input, hinput, hstream, hbetween⟩

theorem Reached.position_eq (h : trace.Reached tokens options entries) :
    trace.now.position = position tokens (after options (ofTokens tokens) entries) := by
  obtain ⟨input, -, hstream, hbetween⟩ := h.between
  rw [hbetween.here.position_eq, position, hstream]
  rfl

theorem Reached.tokens_eq (h : trace.Reached tokens options entries) :
    trace.now.tokens = closed tokens := by
  obtain ⟨input, hinput, -, hbetween⟩ := h.between
  rw [hbetween.here.now_sound.tokens_eq, hinput]

/-- The tokens from the cursor on. -/
def ahead (trace : Trace) : List Token := trace.now.tokens.drop trace.now.position

theorem Between.exists_input (h : trace.Between input options stream) :
    ∃ input' : Input, input'.tokens = trace.ahead ∧ stream = input'.stream := by
  refine ⟨input.leave stream.tokens h.here.suffix, ?_, ?_⟩
  · rw [ahead, h.here.now_sound.tokens_eq, h.here.position_eq, Input.drop_placeOf h.here.suffix]
    rfl
  · exact congrArg (TokenStream.mk stream.tokens) h.inputEnd_eq

theorem Between.position_eq {trace' : Trace} {stream' : TokenStream}
    (h : trace.Between input options stream) (h' : trace'.Between input options stream')
    (hsuffix : stream'.tokens <:+ stream.tokens) :
    trace'.now.position = trace.now.position + (stream.tokens.length - stream'.tokens.length) := by
  have hle := h.here.suffix.length_le
  have hle' := hsuffix.length_le
  rw [h.here.position_eq, h'.here.position_eq]
  unfold Input.placeOf
  omega

end Trace

/-! ## The same tokens from two places -/

section same

variable {trace trace' : Trace} {tokens tokens' : List Token} {options : Options}
  {entries entries' : List Entry}

theorem run_readExpression_of_take_eq (h : trace.Reached tokens options entries)
    (h' : trace'.Reached tokens' options entries') :
    let reading := ((after options (ofTokens tokens) entries).readExpression options).1
    ∃ left, Walk.readExpression.run trace = some (.ok reading, left) ∧
      let taken := left.now.position - trace.now.position
      (trace'.ahead.take (taken + 1) = trace.ahead.take (taken + 1) →
        ∃ left', Walk.readExpression.run trace' = some (.ok reading, left') ∧
          left'.now.position = trace'.now.position + taken) := by
  obtain ⟨_, -, -, hbetween⟩ := h.between
  obtain ⟨_, -, -, hbetween'⟩ := h'.between
  obtain ⟨left, hrun, hleft⟩ := Walk.run_readExpression hbetween
  obtain ⟨left', hrun', hleft'⟩ := Walk.run_readExpression hbetween'
  have hposition := hbetween.position_eq hleft (read_suffix _)
  have hposition' := hbetween'.position_eq hleft' (read_suffix _)
  obtain ⟨input, hahead, hstream⟩ := hbetween.exists_input
  obtain ⟨input', hahead', hstream'⟩ := hbetween'.exists_input
  refine ⟨left, hrun, fun htake => ?_⟩
  rw [hposition, Nat.add_sub_cancel_left] at htake ⊢
  rw [hstream, ← hahead, ← hahead'] at htake
  rw [hstream'] at hrun' hposition'
  rw [hstream]
  obtain ⟨hreading, hlength⟩ := Input.read_of_take_eq (Expr.local_of_room maxNesting) htake
  have hreading : (input'.stream.readExpression options).1 =
      (input.stream.readExpression options).1 := hreading
  rw [hreading] at hrun'
  exact ⟨left', hrun', hposition'.trans (congrArg _ hlength)⟩

theorem run_readProgram_of_throughEnd_eq (h : trace.Reached tokens options entries)
    (h' : trace'.Reached tokens' options entries') :
    let reading := ((after options (ofTokens tokens) entries).readProgram options).1
    ∃ left, Walk.readProgram.run trace = some (.ok reading, left) ∧
      (throughEnd trace'.ahead = throughEnd trace.ahead →
        ∃ left', Walk.readProgram.run trace' = some (.ok reading, left')) := by
  obtain ⟨_, -, -, hbetween⟩ := h.between
  obtain ⟨_, -, -, hbetween'⟩ := h'.between
  obtain ⟨left, hrun, -⟩ := Walk.run_readProgram hbetween
  obtain ⟨left', hrun', -⟩ := Walk.run_readProgram hbetween'
  obtain ⟨input, hahead, hstream⟩ := hbetween.exists_input
  obtain ⟨input', hahead', hstream'⟩ := hbetween'.exists_input
  refine ⟨left, hrun, fun hsame => ?_⟩
  rw [← hahead, ← hahead', Input.throughEnd_tokens, Input.throughEnd_tokens] at hsame
  obtain ⟨hrow, heof⟩ := List.append_inj' hsame rfl
  have heof : input'.eof = input.eof := List.singleton_inj.1 heof
  have hsame : input'.stream = input.stream := by
    unfold Input.stream
    rw [hrow, heof]
  rw [hstream', hsame, ← hstream] at hrun'
  exact ⟨left', hrun'⟩

theorem run_read_of_start (h : trace.Reached tokens options entries) (entry : Entry) :
    let found := answer options (after options (ofTokens tokens) entries) entry
    ∃ left fresh, (Walk.read entry).run trace = some (.ok found, left) ∧
      (Walk.read entry).run (.start trace.ahead options) = some (.ok found, fresh) ∧
      left.now.position = trace.now.position + fresh.now.position := by
  obtain ⟨_, -, -, hbetween⟩ := h.between
  obtain ⟨input, hahead, hstream⟩ := hbetween.exists_input
  obtain ⟨row, hrow, hrest⟩ := exists_input trace.ahead
  have hsame : ofTokens trace.ahead = after options (ofTokens tokens) entries := by
    rw [hstream, ← hahead, Input.tokens, ofTokens_append_cons input.goes_on input.ends]
    rfl
  have hstart := Trace.between_start hrow hrest options
  rw [hsame] at hstart
  obtain ⟨left, hrun, hleft⟩ := Walk.run_read hbetween entry
  obtain ⟨fresh, hfreshRun, hfresh⟩ := Walk.run_read hstart entry
  have hposition := hbetween.position_eq hleft (leftBy_suffix entry)
  have hfreshPosition := hstart.position_eq hfresh (leftBy_suffix entry)
  refine ⟨left, fresh, hrun, hfreshRun, ?_⟩
  rw [hposition, hfreshPosition]
  exact congrArg _ (Nat.zero_add _).symm

/-- An expression is read in the same way from two places if the tokens from there through the one
where it ends are the same, and a program if they are the same through the first one that ends the
input. A cursor that has never read anything, in front of the tokens ahead, reads on in the same way
too. So nothing in front of a cursor has any part in a reading, nor has what is behind the token where
it ends. -/
theorem reads_tokens_ahead (h : trace.Reached tokens options entries)
    (h' : trace'.Reached tokens' options entries') :
    let stream := after options (ofTokens tokens) entries
    (∃ left, Walk.readExpression.run trace =
        some (.ok (stream.readExpression options).1, left) ∧
      let taken := left.now.position - trace.now.position
      (trace'.ahead.take (taken + 1) = trace.ahead.take (taken + 1) →
        ∃ left', Walk.readExpression.run trace' =
            some (.ok (stream.readExpression options).1, left') ∧
          left'.now.position = trace'.now.position + taken)) ∧
      (∃ left, Walk.readProgram.run trace = some (.ok (stream.readProgram options).1, left) ∧
        (throughEnd trace'.ahead = throughEnd trace.ahead →
          ∃ left', Walk.readProgram.run trace' =
            some (.ok (stream.readProgram options).1, left'))) ∧
      ∀ entry, ∃ left fresh,
        (Walk.read entry).run trace = some (.ok (answer options stream entry), left) ∧
          (Walk.read entry).run (.start trace.ahead options) =
            some (.ok (answer options stream entry), fresh) ∧
          left.now.position = trace.now.position + fresh.now.position :=
  ⟨run_readExpression_of_take_eq h h', run_readProgram_of_throughEnd_eq h h',
    run_read_of_start h⟩

end same

/-- A group that is never closed, and a name behind it. -/
def openGroup : List Token :=
  Token.ofKinds [.leftParen, .nilKeyword, .identifier, .comma, .star]

/-- The same name at the start, and more behind the end of the input. -/
def nameAndComma : List Token := Token.ofKinds [.identifier, .comma, .endOfInput, .nilKeyword]

theorem reads_name_behind_open_group :
    ∃ trace trace' : Trace, trace.Reached openGroup .strict [.expression] ∧
      trace'.Reached nameAndComma .strict [] ∧ trace.now.position = 2 ∧ trace'.now.position = 0 ∧
      ∃ left left',
        Walk.readExpression.run trace =
          some (.ok ⟨some (.reference (.ofKind .identifier)), []⟩, left) ∧
        Walk.readExpression.run trace' =
          some (.ok ⟨some (.reference (.ofKind .identifier)), []⟩, left') ∧
        left.now.position = 3 ∧ left'.now.position = 1 := by
  obtain ⟨trace, h⟩ := Trace.exists_reached openGroup .strict [.expression]
  obtain ⟨trace', h'⟩ := Trace.exists_reached nameAndComma .strict []
  obtain ⟨⟨left, hrun, hsame⟩, -, -⟩ := reads_tokens_ahead h h'
  have hposition : trace.now.position = 2 := h.position_eq
  have hposition' : trace'.now.position = 0 := h'.position_eq
  have hleft : left.now.position = 3 := by
    obtain ⟨_, -, -, hbetween⟩ := h.between
    obtain ⟨last, hlast, hend⟩ := Walk.run_readExpression hbetween
    obtain rfl : left = last := by
      rw [hrun] at hlast
      exact (Prod.mk.inj (Option.some.inj hlast)).2
    rw [hbetween.position_eq hend (read_suffix _), hposition]
    rfl
  have htake : trace'.ahead.take 2 = trace.ahead.take 2 := by
    unfold Trace.ahead
    rw [hposition, hposition', h.tokens_eq, h'.tokens_eq]
    rfl
  rw [hleft, hposition, hposition'] at hsame
  obtain ⟨left', hrun', hleft'⟩ := hsame htake
  exact ⟨trace, trace', h, h', hposition, hposition', left, left', hrun, hrun', hleft, hleft'⟩

end ScriptSyntax
