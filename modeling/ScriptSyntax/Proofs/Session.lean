import ScriptSyntax.Proofs.Progress
import ScriptSyntax.TokenStream
/-! # Reading from a stream again and again

Each reading goes on where the last one ended, and one of a program leaves nothing. The streams that
are reached this way are told apart by their positions in the row of tokens that they all come from.
-/

namespace ScriptSyntax

/-- A token of a kind, as it stands in no text. -/
def Token.ofKind (kind : TokenKind) : Token := ⟨kind, "", none, .nowhere⟩

def Token.ofKinds (kinds : List TokenKind) : List Token := kinds.map .ofKind

namespace TokenStream

open ScriptSyntax.Parser

variable {α : Type} {tokens ts rest : List Token} {stream : TokenStream} {options : Options}

/-! ## The tokens of a stream -/

theorem ofTokens_append (h : ∀ t ∈ ts, t.kind ≠ .endOfInput) (rest : List Token) :
    (ofTokens (ts ++ rest)).tokens = ts ++ (ofTokens rest).tokens :=
  List.takeWhile_append_of_pos (by simpa using h)

theorem ofTokens_endOfInput {eof : Token} (h : eof.kind = .endOfInput) (behind : List Token) :
    (ofTokens (eof :: behind)).tokens = [] := by
  simp [ofTokens, h]

theorem ofTokens_append_inputEnd {eof : Token} (hts : ∀ t ∈ ts, t.kind ≠ .endOfInput)
    (heof : eof.kind = .endOfInput) :
    (ofTokens (ts ++ (rest ++ [eof]))).inputEnd = (ofTokens (rest ++ [eof])).inputEnd := by
  have hnone : ts.find? (·.kind == .endOfInput) = none := by simpa using hts
  have hsome : ((rest ++ [eof]).find? (·.kind == .endOfInput)).isSome := by simp [heof]
  obtain ⟨t, ht⟩ := Option.isSome_iff_exists.1 hsome
  simp [ofTokens, hnone, ht]

theorem ofTokens_append_cons {eof : Token} (hts : ∀ t ∈ ts, t.kind ≠ .endOfInput)
    (heof : eof.kind = .endOfInput) (behind : List Token) :
    ofTokens (ts ++ eof :: behind) = ⟨ts, eof.location⟩ := by
  have htokens := ofTokens_append hts (eof :: behind)
  have hnone : ts.find? (·.kind == .endOfInput) = none := by simpa using hts
  rw [ofTokens_endOfInput heof, List.append_nil] at htokens
  simp only [ofTokens, TokenStream.mk.injEq] at htokens ⊢
  exact ⟨htokens, by simp [hnone, heof]⟩

/-! ## Readings, one after the other -/

/-- What can be read from a stream. -/
inductive Entry where
  | expression | program
deriving DecidableEq, Repr

/-- The stream of what a reading leaves. -/
def leftBy (options : Options) (stream : TokenStream) : Entry → TokenStream
  | .expression => (stream.readExpression options).2
  | .program => (stream.readProgram options).2

/-- The stream that some readings leave, one after the other. -/
def after (options : Options) (stream : TokenStream) (entries : List Entry) : TokenStream :=
  entries.foldl (leftBy options) stream

/-- How many tokens of a row are in front of a stream that comes from it. -/
def position (tokens : List Token) (stream : TokenStream) : Nat :=
  (ofTokens tokens).tokens.length - stream.tokens.length

/-! ## What a reading leaves -/

theorem read_snd_tokens (p : Parser α) :
    (stream.read options p).2.tokens = (p.run ⟨options, stream.inputEnd⟩ stream.tokens).rest := by
  unfold read
  dsimp only
  split <;> rfl

theorem read_suffix (p : Parser α) : (stream.read options p).2.tokens <:+ stream.tokens := by
  rw [read_snd_tokens]
  exact p.rest_suffix _ _

theorem leftBy_suffix (entry : Entry) : (leftBy options stream entry).tokens <:+ stream.tokens := by
  cases entry with
  | expression => exact read_suffix _
  | program => exact read_suffix program

theorem after_suffix (entries : List Entry) :
    (after options stream entries).tokens <:+ stream.tokens := by
  induction entries generalizing stream with
  | nil => exact List.suffix_rfl
  | cons entry entries ih => exact ih.trans (leftBy_suffix entry)

theorem read_inputEnd (p : Parser α) : (stream.read options p).2.inputEnd = stream.inputEnd := by
  unfold read
  dsimp only
  split <;> rfl

theorem after_inputEnd (entries : List Entry) :
    (after options stream entries).inputEnd = stream.inputEnd := by
  induction entries generalizing stream with
  | nil => rfl
  | cons entry entries ih =>
    refine ih.trans ?_
    cases entry with
    | expression => exact read_inputEnd _
    | program => exact read_inputEnd program

theorem takes_of_read {p : Parser α} {a : α} (h : (stream.read options p).1.value = some a) :
    ∃ read, stream.tokens = read ++ (stream.read options p).2.tokens ∧
      p.Takes ⟨options, stream.inputEnd⟩ read (stream.read options p).2.tokens a
        (stream.read options p).1.errors := by
  apply Parser.takes_of_run
  rw [read_snd_tokens]
  unfold read at *
  rcases hrun : p.run ⟨options, stream.inputEnd⟩ stream.tokens with ⟨e | a', errors, rest⟩
  · simp [hrun] at h
  · rw [hrun] at h
    obtain rfl := Option.some.inj h
    rfl

/-! ## Programs -/

theorem exists_run_program (setting : Setting) (tokens : List Token) :
    ∃ statements errors, program.run setting tokens = ⟨.ok statements, errors, []⟩ :=
  exists_run_collectUntil (Stmt.advances_of_room maxNesting) (neverStops_resume _) setting
    fun _ _ => rfl

theorem readProgram_of_run {statements : List Stmt} {errors : List SyntaxError}
    (h : program.run ⟨options, stream.inputEnd⟩ stream.tokens = ⟨.ok statements, errors, []⟩) :
    stream.readProgram options = (⟨statements, errors⟩, { stream with tokens := [] }) := by
  simp [readProgram, read, h]

theorem run_program (stream : TokenStream) (options : Options) :
    program.run ⟨options, stream.inputEnd⟩ stream.tokens =
      ⟨.ok (stream.readProgram options).1.value, (stream.readProgram options).1.errors, []⟩ := by
  obtain ⟨statements, errors, hrun⟩ := exists_run_program ⟨options, stream.inputEnd⟩ stream.tokens
  rw [readProgram_of_run hrun]
  exact hrun

theorem readProgram_tokens (stream : TokenStream) (options : Options) :
    (stream.readProgram options).2.tokens = [] := by
  rw [readProgram_of_run (run_program stream options)]

/-! ## The tokens between two positions -/

theorem exists_front (h : stream.tokens <:+ (ofTokens tokens).tokens) :
    ∃ front behind, tokens = front ++ (stream.tokens ++ behind) ∧
      position tokens stream = front.length ∧ ∀ t ∈ behind.head?, t.kind = .endOfInput := by
  obtain ⟨front, hfront⟩ := h
  refine ⟨front, tokens.dropWhile (·.kind != .endOfInput), ?_, ?_, fun t ht => ?_⟩
  · rw [← List.append_assoc, hfront]
    exact List.takeWhile_append_dropWhile.symm
  · rw [position, ← hfront, List.length_append]
    omega
  · have := List.head?_dropWhile_not (·.kind != .endOfInput) tokens
    rw [ht] at this
    simpa using this

theorem takeWhile_drop_position (h : stream.tokens <:+ (ofTokens tokens).tokens) :
    (tokens.drop (position tokens stream)).takeWhile (·.kind != .endOfInput) = stream.tokens := by
  have hall : ∀ t ∈ stream.tokens, (t.kind != .endOfInput) = true := fun t ht =>
    List.all_eq_true.1 List.all_takeWhile t (h.subset ht)
  obtain ⟨front, behind, rfl, hposition, hbehind⟩ := exists_front h
  rw [hposition, List.drop_left, List.takeWhile_append_of_pos hall]
  cases behind with
  | nil => simp
  | cons t behind =>
    have := hbehind t rfl
    simp [this]

theorem drop_take_position {left : TokenStream} {read : List Token}
    (h : stream.tokens <:+ (ofTokens tokens).tokens) (hread : stream.tokens = read ++ left.tokens) :
    (tokens.take (position tokens left)).drop (position tokens stream) = read := by
  have hle := h.length_le
  obtain ⟨front, behind, htokens, hposition, -⟩ := exists_front h
  have hlength := congrArg List.length hread
  rw [List.length_append] at hlength
  have hleft : position tokens left = front.length + read.length := by
    unfold position at *
    omega
  rw [hposition, hleft]
  rw [hread, List.append_assoc] at htokens
  rw [htokens, List.take_length_add_append, List.drop_left, List.take_left]

end TokenStream

end ScriptSyntax
