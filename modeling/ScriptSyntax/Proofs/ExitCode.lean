import ScriptSyntax.CommandLine.Report
import ScriptSyntax.Proofs.Concatenation
import ScriptSyntax.Proofs.Kinds.Session
/-! # What the exit code tells

The exit code for a program is 0 if the bytes are text and the text a sentence of the grammar. Whether
it is one hangs on the kinds of its tokens alone, and on no option.
-/

namespace ScriptSyntax

/-! ## Sentences -/

/-- The kinds of the tokens that write a program of the grammar, which nests no deeper than allowed and
has no call with too many arguments. -/
def IsSentence (kinds : List TokenKind) : Prop :=
  ∃ (p : List Stmt) (ts : List Token), (∀ s ∈ p, s.Derivable) ∧ Stmt.WritesAll p ts ∧
    Stmt.nestingOfAll p ≤ maxNesting ∧ Stmt.longCallsOfAll p = 0 ∧ ts.map Token.kind = kinds

namespace TokenStream

open ScriptSyntax.Parser

variable {stream : TokenStream} {options : Options} {p : List Stmt} {ts : List Token}

theorem readProgram_of_written (hderivable : ∀ s ∈ p, s.Derivable) (hw : Stmt.WritesAll p ts)
    (hnesting : Stmt.nestingOfAll p ≤ maxNesting) (hcalls : Stmt.longCallsOfAll p = 0)
    (inputEnd : Location) (options : Options) :
    ((TokenStream.mk ts inputEnd).readProgram options).1 = ⟨p, []⟩ := by
  have hexcess : Stmt.excessOfAll p ts = [] := by
    rw [← List.length_eq_zero_iff, ← hcalls]
    exact hw.length_excess fun s hs => ⟨hderivable s hs, fun _ => (hderivable s hs).length_excess⟩
  have htakes : program.Takes ⟨options, inputEnd⟩ ts [] p ((Stmt.excessOfAll p ts).map Expr.tooManyAt) :=
    takes_program hderivable hnesting hw
  have hrun := takes_to_end_iff.1 htakes
  rw [hexcess] at hrun
  rw [readProgram_of_run hrun]
  rfl

theorem written_of_readProgram (h : (stream.readProgram options).1.errors = []) :
    let program := (stream.readProgram options).1.value
    (∀ s ∈ program, s.Derivable) ∧ Stmt.WritesAll program stream.tokens ∧
      Stmt.nestingOfAll program ≤ maxNesting ∧ Stmt.longCallsOfAll program = 0 := by
  have hmade := readProgram_madeOf stream options
  have hw := hmade.write h
  refine ⟨hmade.derivable, hw, ?_, ?_⟩
  · exact Stmt.nestingOfAll_le_iff.2 fun s hs => Nat.le_of_lt_succ (hmade.nesting_lt s hs)
  · have hlength := hw.length_excess fun s hs =>
      ⟨hmade.derivable s hs, fun _ => (hmade.derivable s hs).length_excess⟩
    rw [excess_eq_nil h] at hlength
    exact hlength.symm

theorem readProgram_errors_eq_nil_of_kinds {ts us : List Token} (inputEnd inputEnd' : Location)
    (hkinds : ts.map Token.kind = us.map Token.kind)
    (h : ((TokenStream.mk ts inputEnd).readProgram options).1.errors = []) :
    ((TokenStream.mk us inputEnd').readProgram options).1.errors = [] := by
  -- Both rows are relabeled to one, in which a token has nothing but its kind.
  let r : Relabeling := ⟨fun t => .ofKind t.kind, fun _ => rfl, .nowhere⟩
  have hstream (ts : List Token) (inputEnd : Location) :
      r.stream ⟨ts, inputEnd⟩ = ⟨Token.ofKinds (ts.map Token.kind), .nowhere⟩ := by
    simp [r, Relabeling.stream, Token.ofKinds, Function.comp_def]
  have hread (ts : List Token) (inputEnd : Location) :
      (r.stream ⟨ts, inputEnd⟩).readProgram options = _ := r.readProgram_stream ⟨ts, inputEnd⟩
  have hts := hread ts inputEnd
  rw [hstream, hkinds, ← hstream us inputEnd', hread] at hts
  have herrors := congrArg (·.1.errors) hts
  dsimp only at herrors
  rw [h, List.map_nil, List.map_eq_nil_iff] at herrors
  exact herrors

theorem readProgram_errors_eq_nil_iff :
    (stream.readProgram options).1.errors = [] ↔ IsSentence (stream.tokens.map Token.kind) := by
  constructor
  · intro h
    obtain ⟨hderivable, hw, hnesting, hcalls⟩ := written_of_readProgram h
    exact ⟨_, stream.tokens, hderivable, hw, hnesting, hcalls, rfl⟩
  · rintro ⟨p, ts, hderivable, hw, hnesting, hcalls, hkinds⟩
    refine readProgram_errors_eq_nil_of_kinds .nowhere stream.inputEnd hkinds ?_
    rw [readProgram_of_written hderivable hw hnesting hcalls]

theorem readProgram_eq_of_no_errors (h : (stream.readProgram options).1.errors = [])
    (options' : Options) : (stream.readProgram options').1 = (stream.readProgram options).1 := by
  obtain ⟨hderivable, hw, hnesting, hcalls⟩ := written_of_readProgram h
  have hread (options : Options) := readProgram_of_written hderivable hw hnesting hcalls
    stream.inputEnd options
  rw [hread options', ← hread options]

end TokenStream

namespace CommandLine

open TokenStream

variable {text : String} {bytes : ByteArray}

/-! ## Texts -/

theorem decode_toUTF8 (text : String) : decode text.toUTF8 = .ok text := by
  simp only [decode, String.fromUTF8?, String.toUTF8_eq_toByteArray, dif_pos text.isValidUTF8]
  rfl

theorem exists_toUTF8_eq (h : bytes.IsValidUTF8) : ∃ text : String, text.toUTF8 = bytes :=
  ⟨.ofByteArray bytes h, rfl⟩

theorem decode_of_not_isValidUTF8 (h : ¬bytes.IsValidUTF8) : decode bytes = .error .notText := by
  simp only [decode, String.fromUTF8?, dif_neg h]

/-! ## Reports -/

theorem report_toUTF8 (command : Command) (text : String) :
    command.report (.ok text.toUTF8) = command.action.report text := by
  have hdecode : (Except.ok text.toUTF8 >>= decode) = .ok text := decode_toUTF8 text
  rw [Command.report, hdecode]

theorem code_of_not_isValidUTF8 (command : Command) (h : ¬bytes.IsValidUTF8) :
    (command.report (.ok bytes)).code = 1 := by
  have hdecode : (Except.ok bytes >>= decode) = .error .notText := decode_of_not_isValidUTF8 h
  rw [Command.report, hdecode]

theorem errorLines_eq_empty_iff {messages : List String} :
    errorLines messages = "" ↔ messages = [] := by
  unfold errorLines
  cases messages with
  | nil => simp
  | cons message messages => simp [String.append_eq_empty_iff]

/-- A report on a text is free of diagnostics and has the code 0, or it has neither. -/
theorem code_report (action : Action) (text : String) :
    (action.report text).code = 0 ∧ (action.report text).diagnostics = "" ∨
      (action.report text).code = 65 ∧ (action.report text).diagnostics ≠ "" := by
  have herror (e : LexicalError) : (reportLexicalError e).diagnostics ≠ "" := by
    rw [reportLexicalError, Ne, errorLines_eq_empty_iff]
    exact List.cons_ne_nil _ _
  have hreading (reading : Reading String) :
      (reportReading reading).code = 0 ∧ (reportReading reading).diagnostics = "" ∨
        (reportReading reading).code = 65 ∧ (reportReading reading).diagnostics ≠ "" := by
    rw [Ne, reportReading, errorLines_eq_empty_iff, List.map_eq_nil_iff]
    cases herrors : reading.errors with
    | nil => exact .inl ⟨by simp [Reading.hasErrors, herrors], rfl⟩
    | cons e errors => exact .inr ⟨by simp [Reading.hasErrors, herrors], List.cons_ne_nil e errors⟩
  unfold Action.report
  split
  · exact .inr ⟨rfl, herror _⟩
  · split
    · exact .inl ⟨rfl, rfl⟩
    · exact hreading _

theorem code_report_ne_one (action : Action) (text : String) : (action.report text).code ≠ 1 := by
  rcases code_report action text with ⟨hcode, -⟩ | ⟨hcode, -⟩ <;> rw [hcode] <;> decide

theorem report_program (strict : Bool) {tokens : List Token} (h : tokenize text = .ok tokens) :
    (Action.parse false strict).report text =
      reportReading ⟨Stmt.allParenthesized ((ofTokens tokens).readProgram ⟨strict⟩).1.value,
        ((ofTokens tokens).readProgram ⟨strict⟩).1.errors⟩ := by
  rw [Action.report, h]
  rfl

theorem code_reportReading_eq_zero_iff {reading : Reading String} :
    (reportReading reading).code = 0 ↔ reading.errors = [] := by
  unfold reportReading Reading.hasErrors
  cases reading.errors <;> simp

theorem code_program_eq_zero_iff (strict : Bool) (text : String) :
    ((Action.parse false strict).report text).code = 0 ↔
      ∃ tokens, tokenize text = .ok (tokens ++ [.endOfInput (placeBehind text.toList)]) ∧
        IsSentence (tokens.map Token.kind) := by
  rcases htokenize : tokenize text with e | all
  · have hreport : (Action.parse false strict).report text = reportLexicalError e := by
      rw [Action.report, htokenize]
    rw [hreport]
    constructor
    · intro hcode
      exact absurd hcode (by decide : (65 : UInt32) ≠ 0)
    · rintro ⟨tokens, htokens, -⟩
      contradiction
  · obtain ⟨tiles, last, hscans, -, -, rfl⟩ := exists_scans_of_tokenize htokenize
    have hstream : (ofTokens (tiles.map Tile.token ++
        [.endOfInput (placeBehind text.toList)])).tokens = tiles.map Tile.token := by
      rw [ofTokens_append_cons _ rfl]
      intro t ht
      obtain ⟨tile, htile, rfl⟩ := List.mem_map.1 ht
      obtain ⟨before, behind, rfl⟩ := List.append_of_mem htile
      exact hscans.isLongest.spelled.ne_endOfInput
    rw [report_program strict htokenize, code_reportReading_eq_zero_iff,
      readProgram_errors_eq_nil_iff, hstream]
    constructor
    · intro hsentence
      exact ⟨_, rfl, hsentence⟩
    · rintro ⟨tokens, htokens, hsentence⟩
      rwa [List.append_cancel_right (Except.ok.inj htokens)]

theorem report_program_eq_of_code {strict : Bool}
    (h : ((Action.parse false strict).report text).code = 0) (strict' : Bool) :
    (Action.parse false strict').report text = (Action.parse false strict).report text := by
  rcases htokenize : tokenize text with e | tokens
  · rw [Action.report, Action.report, htokenize]
  · rw [report_program strict htokenize, code_reportReading_eq_zero_iff] at h
    rw [report_program strict htokenize, report_program strict' htokenize,
      readProgram_eq_of_no_errors h]

theorem code_program_eq (strict strict' : Bool) (text : String) :
    ((Action.parse false strict').report text).code =
      ((Action.parse false strict).report text).code := by
  have hzero := (code_program_eq_zero_iff strict' text).trans (code_program_eq_zero_iff strict text).symm
  rcases code_report (.parse false strict) text with ⟨hcode, -⟩ | ⟨hcode, -⟩
  · rw [hcode, hzero, hcode]
  · rcases code_report (.parse false strict') text with ⟨hcode', -⟩ | ⟨hcode', -⟩
    · rw [hzero.1 hcode', hcode']
    · rw [hcode, hcode']

theorem report_eq_of_tokenize {e : LexicalError} (h : tokenize text = .error e) (action : Action) :
    action.report text = reportLexicalError e := by
  rw [Action.report, h]

theorem exists_tokenize_eq_error (h : (Action.tokenize.report text).code = 65) :
    ∃ e, tokenize text = .error e := by
  rcases htokenize : tokenize text with e | tokens
  · exact ⟨e, rfl⟩
  · rw [Action.report, htokenize] at h
    exact absurd h (by decide : (0 : UInt32) ≠ 65)

/-! ## Exit codes -/

/-- The exit code for a program tells whether the bytes are text, and whether the text is a sentence. No
option changes it, nor what is shown of a sentence. Diagnostics are given for all texts that are no
sentences. A text whose tokens cannot be told is reported on alike whatever is asked for. -/
theorem exitCode_decides (bytes : ByteArray) (input : Input) :
    let report (action : Action) : Report := Command.report ⟨action, input⟩ (.ok bytes)
    (∀ strict,
      ((report (.parse false strict)).code = 1 ↔ ¬bytes.IsValidUTF8) ∧
      ((report (.parse false strict)).code = 0 ↔
        ∃ (text : String) (tokens : List Token), text.toUTF8 = bytes ∧
          tokenize text = .ok (tokens ++ [.endOfInput (placeBehind text.toList)]) ∧
          IsSentence (tokens.map Token.kind)) ∧
      ((report (.parse false strict)).code = 1 ∨ (report (.parse false strict)).code = 0 ∨
        (report (.parse false strict)).code = 65) ∧
      ((report (.parse false strict)).code ≠ 1 →
        ((report (.parse false strict)).diagnostics = "" ↔
          (report (.parse false strict)).code = 0))) ∧
    (report (.parse false true)).code = (report (.parse false false)).code ∧
    ((report (.parse false false)).code = 0 →
      (report (.parse false true)).output = (report (.parse false false)).output) ∧
    ((report .tokenize).code = 65 → ∀ expressionOnly strict,
      report (.parse expressionOnly strict) =
        { code := 65, output := "", diagnostics := (report .tokenize).diagnostics }) ∧
    maxNesting = 64 ∧ maxArguments = 255 := by
  intro report
  by_cases hvalid : bytes.IsValidUTF8
  · obtain ⟨text, rfl⟩ := exists_toUTF8_eq hvalid
    have hreport (action : Action) : report action = action.report text := report_toUTF8 _ text
    simp only [hreport]
    refine ⟨fun strict => ⟨?_, ?_, ?_, fun _ => ?_⟩, ?_, fun hcode => ?_, fun hcode => ?_, rfl, rfl⟩
    · exact iff_of_false (code_report_ne_one _ text) (not_not_intro hvalid)
    · rw [code_program_eq_zero_iff]
      constructor
      · rintro ⟨tokens, htokens, hsentence⟩
        exact ⟨text, tokens, rfl, htokens, hsentence⟩
      · rintro ⟨text', tokens, htext, htokens, hsentence⟩
        obtain rfl : text' = text := String.toByteArray_inj.1 htext
        exact ⟨tokens, htokens, hsentence⟩
    · exact .inr ((code_report _ text).imp And.left And.left)
    · rcases code_report (.parse false strict) text with ⟨hcode, hnone⟩ | ⟨hcode, hsome⟩
      · exact iff_of_true hnone hcode
      · exact iff_of_false hsome (by rw [hcode]; decide)
    · exact code_program_eq false true text
    · rw [report_program_eq_of_code hcode]
    · obtain ⟨e, he⟩ := exists_tokenize_eq_error hcode
      intro expressionOnly strict
      rw [report_eq_of_tokenize he, report_eq_of_tokenize he]
      rfl
  · have hcode (action : Action) : (report action).code = 1 := code_of_not_isValidUTF8 _ hvalid
    refine ⟨fun strict => ⟨?_, ?_, ?_, fun h => absurd (hcode _) h⟩, ?_, fun h => ?_, fun h => ?_, rfl,
      rfl⟩
    · exact iff_of_true (hcode _) hvalid
    · refine iff_of_false (by rw [hcode]; decide) ?_
      rintro ⟨text, -, rfl, -⟩
      exact hvalid text.isValidUTF8
    · exact .inl (hcode _)
    · rw [hcode, hcode]
    · rw [hcode] at h
      contradiction
    · rw [hcode] at h
      contradiction

theorem exitCode_decides_of_print :
    let report (text : String) (action : Action) : Report :=
      Command.report ⟨action, .standard⟩ (.ok text.toUTF8)
    (report "print 1;" (.parse false true)).code = 0 ∧
      (report "print 1;" (.parse false true)).output =
        (report "print 1;" (.parse false false)).output ∧
      (∃ tokens, tokenize "print 1;" = .ok (tokens ++ [.endOfInput ⟨1, 9⟩]) ∧
        IsSentence (tokens.map Token.kind)) ∧
      (report ".." (.parse false true)).code = 65 ∧
      (report ".." (.parse false true)).diagnostics ≠ "" ∧
      report "print @" (.parse true false) =
        ⟨65, "", "error: [line 1] Error: Unexpected character: @\n"⟩ := by
  intro report
  have hreport (text : String) (action : Action) : report text action = action.report text :=
    report_toUTF8 _ text
  have hprint : (report "print 1;" (.parse false false)).code = 0 := by
    rw [hreport]
    decide +kernel
  have hdots : (report ".." (.parse false true)).code = 65 := by
    rw [hreport]
    decide +kernel
  have hat : report "print @" .tokenize =
      ⟨65, "", "error: [line 1] Error: Unexpected character: @\n"⟩ := by
    rw [hreport]
    decide +kernel
  obtain ⟨hprints, hcode, houtput, -⟩ := exitCode_decides "print 1;".toUTF8 .standard
  obtain ⟨text, tokens, htext, htokens, hsentence⟩ := (hprints false).2.1.1 hprint
  obtain rfl : text = "print 1;" := String.toByteArray_inj.1 htext
  obtain ⟨hdotted, -⟩ := exitCode_decides "..".toUTF8 .standard
  have hdiagnostics := (hdotted true).2.2.2 fun hone =>
    absurd (hone.symm.trans hdots) (by decide)
  obtain ⟨-, -, -, hlexical, -⟩ := exitCode_decides "print @".toUTF8 .standard
  refine ⟨hcode.trans hprint, houtput hprint, ⟨tokens, htokens, hsentence⟩, hdots, ?_, ?_⟩
  · intro hnone
    have hzero := hdiagnostics.1 hnone
    exact absurd (hzero.symm.trans hdots) (by decide)
  · refine (hlexical (congrArg Report.code hat) true false).trans ?_
    exact congrArg (Report.mk 65 "") (congrArg Report.diagnostics hat)

end CommandLine

end ScriptSyntax
