import ScriptSyntax.Proofs.Cursor.Walk
/-! # Walks that follow parsers

A walk follows a parser if it ends with what the parser makes of the tokens ahead, moves the cursor
behind those that the parser takes, records the errors that the parser tells of, and leaves all else
as it was. On the way, the cursor never moves back and never past the first token that ends the input,
and it counts no more levels than are allowed.
-/

namespace ScriptSyntax

variable {α β : Type}

/-- A row of tokens, the token that ends the input behind it, and what stands behind that. -/
structure Input where
  row : List Token
  eof : Token
  behind : List Token
  goes_on : ∀ t ∈ row, t.kind ≠ .endOfInput
  ends : eof.kind = .endOfInput

namespace Input

def tokens (input : Input) : List Token := input.row ++ input.eof :: input.behind

/-- Where the last tokens of the row start. -/
def placeOf (input : Input) (ahead : List Token) : Nat := input.row.length - ahead.length

variable {input : Input} {ahead : List Token}

theorem placeOf_le (input : Input) (ahead : List Token) :
    input.placeOf ahead ≤ input.row.length := Nat.sub_le _ _

theorem placeOf_cons {t : Token} (h : t :: ahead <:+ input.row) :
    input.placeOf ahead = input.placeOf (t :: ahead) + 1 := by
  have hle := h.length_le
  unfold placeOf
  rw [List.length_cons] at *
  omega

theorem drop_placeOf (h : ahead <:+ input.row) :
    input.tokens.drop (input.placeOf ahead) = ahead ++ input.eof :: input.behind := by
  obtain ⟨before, hrow⟩ := h
  have hplace : input.placeOf ahead = before.length := by
    rw [placeOf, ← hrow, List.length_append]
    omega
  rw [hplace, tokens, ← hrow, List.append_assoc, List.drop_left]

theorem getElem?_placeOf (h : ahead <:+ input.row) :
    input.tokens[input.placeOf ahead]? = some (ahead.head?.getD input.eof) := by
  rw [← List.head?_drop, drop_placeOf h]
  cases ahead <;> rfl

theorem findIdx_tokens (input : Input) :
    input.tokens.findIdx (·.kind == .endOfInput) = input.row.length := by
  have hrow : input.row.findIdx (·.kind == .endOfInput) = input.row.length :=
    List.findIdx_eq_length.2 fun t ht => by simpa using input.goes_on t ht
  simp [tokens, List.findIdx_append, hrow, List.findIdx_cons, input.ends]

end Input

/-- What is true of a cursor at every moment. -/
structure Cursor.Sound (cursor : Cursor) (input : Input) : Prop where
  tokens_eq : cursor.tokens = input.tokens
  position_le : cursor.position ≤ input.row.length
  depth_le : cursor.depth ≤ maxNesting

namespace Trace

/-- At every moment the cursor was sound, and it was never further than it is later. -/
structure Sound (trace : Trace) (input : Input) : Prop where
  each : ∀ cursor ∈ trace.now :: trace.past, cursor.Sound input
  forward : (trace.now :: trace.past).Pairwise fun later earlier =>
    earlier.position ≤ later.position

variable {trace : Trace} {input : Input} {ahead rest : List Token} {room : Nat}

theorem Sound.change (h : trace.Sound input) {cursor : Cursor} (hcursor : cursor.Sound input)
    (hposition : trace.now.position ≤ cursor.position) :
    Sound ⟨cursor, trace.now :: trace.past⟩ input := by
  refine ⟨List.forall_mem_cons.2 ⟨hcursor, h.each⟩, List.pairwise_cons.2 ⟨?_, h.forward⟩⟩
  intro earlier hmem
  rcases List.mem_cons.1 hmem with rfl | hmem
  · exact hposition
  · exact Nat.le_trans ((List.pairwise_cons.1 h.forward).1 earlier hmem) hposition

/-- The tokens of `ahead` are those of the row that are left, and `room` more levels are allowed. -/
structure At (trace : Trace) (input : Input) (ahead : List Token) (room : Nat) : Prop where
  sound : trace.Sound input
  suffix : ahead <:+ input.row
  position_eq : trace.now.position = input.placeOf ahead
  depth_eq : trace.now.depth + room = maxNesting

theorem At.now_sound (h : trace.At input ahead room) : trace.now.Sound input :=
  h.sound.each _ List.mem_cons_self

theorem At.move (h : trace.At input ahead room) {trace' : Trace} (hsound : trace'.Sound input)
    (hrest : rest <:+ ahead) {errors : List SyntaxError}
    (hnow : trace'.now = { trace.now with position := input.placeOf rest, errors := errors }) :
    trace'.At input rest room where
  sound := hsound
  suffix := hrest.trans h.suffix
  position_eq := by rw [hnow]
  depth_eq := by
    rw [hnow]
    exact h.depth_eq

end Trace

namespace Walk

variable {trace trace' : Trace} {input : Input} {ahead rest : List Token} {room limit : Nat}

/-! ## Ends of walks -/

@[simp] theorem run_pure (a : α) (trace : Trace) :
    (pure a : Walk α).run trace = some (.ok a, trace) := rfl

@[simp] theorem run_throw (e : SyntaxError) (trace : Trace) :
    (throw e : Walk α).run trace = some (.error e, trace) := rfl

@[simp] theorem run_current (trace : Trace) : current.run trace = some (.ok trace.now, trace) := rfl

@[simp] theorem run_change (f : Cursor → Cursor) (trace : Trace) :
    (change f).run trace = some (.ok (), ⟨f trace.now, trace.now :: trace.past⟩) := rfl

theorem run_bind_of_ok {walk : Walk α} {f : α → Walk β} {a : α}
    (h : walk.run trace = some (.ok a, trace')) : (walk >>= f).run trace = (f a).run trace' := by
  unfold run at *
  show (walk trace >>= _) = _
  rw [h]
  rfl

theorem run_bind_of_error {walk : Walk α} {f : α → Walk β} {e : SyntaxError}
    (h : walk.run trace = some (.error e, trace')) :
    (walk >>= f).run trace = some (.error e, trace') := by
  unfold run at *
  show (walk trace >>= _) = _
  rw [h]
  rfl

theorem run_attempt {walk : Walk α} {result : Except SyntaxError α}
    (h : walk.run trace = some (result, trace')) :
    (attempt walk).run trace = some (.ok result, trace') := by
  unfold run at *
  show (walk trace >>= _) = _
  rw [h]
  rfl

/-- A walk ends as an outcome says, and changes nothing else. -/
def EndsAs (walk : Walk α) (trace : Trace) (input : Input) (outcome : Outcome α) : Prop :=
  ∃ trace', walk.run trace = some (outcome.result, trace') ∧ trace'.Sound input ∧
    trace'.now = { trace.now with
      position := input.placeOf outcome.rest
      errors := trace.now.errors ++ outcome.errors }

theorem EndsAs.of_run_eq {walk walk' : Walk α} {outcome : Outcome α}
    (h : walk'.EndsAs trace input outcome) (hrun : walk.run trace = walk'.run trace) :
    walk.EndsAs trace input outcome := by
  unfold EndsAs
  rwa [hrun]

theorem EndsAs.bind {walk : Walk α} {f : α → Walk β} {a : α} {errors : List SyntaxError}
    {outcome last : Outcome β} (h : walk.EndsAs trace input ⟨.ok a, errors, rest⟩)
    (hf : ∀ trace', trace'.Sound input →
      trace'.now = { trace.now with
        position := input.placeOf rest
        errors := trace.now.errors ++ errors } → (f a).EndsAs trace' input outcome)
    (hlast : outcome.behind errors = last) : (walk >>= f).EndsAs trace input last := by
  subst hlast
  obtain ⟨trace', hrun, hsound, hnow⟩ := h
  obtain ⟨last, hlast, hlastSound, hlastNow⟩ := hf trace' hsound hnow
  refine ⟨last, (run_bind_of_ok hrun).trans hlast, hlastSound, ?_⟩
  rw [hlastNow, hnow]
  simp [Outcome.behind]

theorem EndsAs.bind_error {walk : Walk α} {e : SyntaxError} {errors : List SyntaxError}
    (h : walk.EndsAs trace input ⟨.error e, errors, rest⟩) (f : α → Walk β) :
    (walk >>= f).EndsAs trace input ⟨.error e, errors, rest⟩ := by
  obtain ⟨trace', hrun, hsound, hnow⟩ := h
  exact ⟨trace', run_bind_of_error hrun, hsound, hnow⟩

theorem endsAs_of_run {walk : Walk α} {result : Except SyntaxError α}
    (hat : trace.At input ahead room) (h : walk.run trace = some (result, trace)) :
    walk.EndsAs trace input ⟨result, [], ahead⟩ :=
  ⟨trace, h, hat.sound, by rw [← hat.position_eq, List.append_nil]⟩

/-! ## Tokens -/

theorem run_peek (hat : trace.At input ahead room) :
    peek.run trace = some (.ok (ahead.head?.getD input.eof), trace) := by
  unfold peek
  rw [run_bind_of_ok (run_current trace), hat.now_sound.tokens_eq, hat.position_eq,
    Input.getElem?_placeOf hat.suffix]
  rfl

theorem run_errorHere (hat : trace.At input ahead room) (cause : SyntaxCause) (options : Options) :
    (errorHere cause).run trace =
      some (.ok ⟨(Setting.mk options input.eof.location).site ahead, cause⟩, trace) := by
  unfold errorHere
  rw [run_bind_of_ok (run_peek hat)]
  cases ahead with
  | nil => simp [Site.ofToken, input.ends, Setting.site]
  | cons t ahead =>
    have ht := input.goes_on t (hat.suffix.subset List.mem_cons_self)
    simp [Site.ofToken, ht, Setting.site]

theorem run_atEnd (hat : trace.At input ahead room) :
    atEnd.run trace = some (.ok ahead.isEmpty, trace) := by
  unfold atEnd
  rw [run_bind_of_ok (run_peek hat)]
  cases ahead with
  | nil => simp [input.ends]
  | cons t ahead =>
    have ht := input.goes_on t (hat.suffix.subset List.mem_cons_self)
    simp [ht]

theorem run_check (hat : trace.At input ahead room) (accepts : TokenKind → Bool) :
    (check accepts).run trace = some (.ok (ahead.head?.any (accepts ·.kind)), trace) := by
  unfold check
  rw [run_bind_of_ok (run_atEnd hat), run_bind_of_ok (run_peek hat)]
  cases ahead <;> simp

theorem run_previous {t : Token} (hat : trace.At input ahead room)
    (ht : t :: ahead <:+ input.row) : previous.run trace = some (.ok (some t), trace) := by
  unfold previous
  have hplace := Input.placeOf_cons ht
  rw [run_bind_of_ok (run_current trace), hat.now_sound.tokens_eq, hat.position_eq,
    if_neg (by omega), hplace, Nat.add_sub_cancel, Input.getElem?_placeOf ht]
  rfl

theorem advance_endsAs {t : Token} (hat : trace.At input (t :: ahead) room) :
    advance.EndsAs trace input ⟨.ok (some t), [], ahead⟩ := by
  have hplace := Input.placeOf_cons hat.suffix
  have hnow := hat.now_sound
  have hsound : Trace.Sound ⟨{ trace.now with position := trace.now.position + 1 },
      trace.now :: trace.past⟩ input := by
    refine hat.sound.change ⟨hnow.tokens_eq, ?_, hnow.depth_le⟩ (Nat.le_succ _)
    dsimp only
    rw [hat.position_eq, ← hplace]
    exact input.placeOf_le ahead
  have hmoved : Cursor.mk trace.now.tokens (trace.now.position + 1) trace.now.options
      trace.now.errors trace.now.depth =
      { trace.now with position := input.placeOf ahead, errors := trace.now.errors ++ [] } := by
    rw [hat.position_eq, ← hplace, List.append_nil]
  refine ⟨_, ?_, hsound, hmoved⟩
  unfold advance
  rw [run_bind_of_ok (run_atEnd hat)]
  simp only [List.isEmpty_cons, Bool.false_eq_true, if_false]
  rw [run_bind_of_ok (run_change _ trace)]
  exact run_previous (hat.move hsound (List.suffix_cons t ahead) hmoved) hat.suffix

theorem takeIf_endsAs {t : Token} {accepts : TokenKind → Bool}
    (hat : trace.At input (t :: ahead) room) (ht : accepts t.kind = true) :
    (takeIf accepts).EndsAs trace input ⟨.ok (some t), [], ahead⟩ := by
  obtain ⟨trace', hrun, hsound, hnow⟩ := advance_endsAs hat
  refine ⟨trace', ?_, hsound, hnow⟩
  unfold takeIf
  rw [run_bind_of_ok (run_check hat accepts)]
  simpa [ht] using hrun

theorem run_takeIf_of_not {accepts : TokenKind → Bool} (hat : trace.At input ahead room)
    (h : ∀ t ∈ ahead.head?, accepts t.kind = false) :
    (takeIf accepts).run trace = some (.ok none, trace) := by
  unfold takeIf
  rw [run_bind_of_ok (run_check hat accepts)]
  cases ahead with
  | nil => rfl
  | cons t ahead =>
    have ht : accepts t.kind = false := h t rfl
    simp [ht]

/-! ## Walks and parsers -/

/-- Where so much room is left and no more tokens than `limit`, a walk ends as a parser does. -/
def Follows (walk : Walk α) (p : Parser α) (room limit : Nat) : Prop :=
  ∀ ⦃trace input ahead⦄, trace.At input ahead room → ahead.length ≤ limit →
    walk.EndsAs trace input (p.run ⟨trace.now.options, input.eof.location⟩ ahead)

theorem follows_pure (a : α) : (pure a : Walk α).Follows (pure a) room limit :=
  fun _ _ _ hat _ => endsAs_of_run hat rfl

theorem follows_throw (cause : SyntaxCause) :
    (errorHere cause >>= throw : Walk α).Follows (Parser.fail cause) room limit :=
  fun _ _ _ hat _ =>
    endsAs_of_run hat ((run_bind_of_ok (run_errorHere hat cause _)).trans (run_throw _ _))

theorem record_endsAs (hat : trace.At input ahead room) (e : SyntaxError) :
    (record e).EndsAs trace input ⟨.ok (), [e], ahead⟩ := by
  refine ⟨_, run_change _ trace, ?_, by rw [← hat.position_eq]⟩
  have hnow := hat.now_sound
  exact hat.sound.change ⟨hnow.tokens_eq, hnow.position_le, hnow.depth_le⟩ (Nat.le_refl _)

theorem follows_record {t : Token} (ht : t.kind ≠ .endOfInput) (cause : SyntaxCause) :
    (record ⟨.ofToken t, cause⟩).Follows (Parser.report (.token t) cause) room limit := by
  intro trace input ahead hat _
  rw [Site.ofToken, if_neg ht]
  exact record_endsAs hat _

theorem follows_recordHere (cause : SyntaxCause) :
    (errorHere cause >>= record).Follows (Parser.reportNext cause) room limit := by
  intro trace input ahead hat _
  obtain ⟨trace', hrun, hsound, hnow⟩ := record_endsAs hat
    ⟨(Setting.mk trace.now.options input.eof.location).site ahead, cause⟩
  exact ⟨trace', (run_bind_of_ok (run_errorHere hat cause _)).trans hrun, hsound, hnow⟩

theorem Follows.bind {walk : Walk α} {f : α → Walk β} {p : Parser α} {g : α → Parser β}
    (h : walk.Follows p room limit) (hf : ∀ a, (f a).Follows (g a) room limit) :
    (walk >>= f).Follows (p >>= g) room limit := by
  intro trace input ahead hat hle
  have hwalk := h hat hle
  rw [Parser.run_bind]
  rcases hp : p.run ⟨trace.now.options, input.eof.location⟩ ahead with ⟨e | a, errors, rest⟩
  · rw [hp] at hwalk
    exact hwalk.bind_error f
  · rw [hp] at hwalk
    have hrest := Parser.suffix_of_run hp
    refine hwalk.bind (fun trace' hsound hnow => ?_) rfl
    have := hf a (hat.move hsound hrest hnow) (Nat.le_trans hrest.length_le hle)
    rwa [hnow] at this

theorem Follows.bind_endsAs {walk : Walk α} {f : α → Walk β} {p : Parser α} {g : α → Parser β}
    {t : Token} (h : walk.Follows p room limit) (hp : p.Advances)
    (hf : ∀ a, ∀ less < (t :: ahead).length, (f a).Follows (g a) room less)
    (hat : trace.At input (t :: ahead) room) (hle : (t :: ahead).length ≤ limit) :
    (walk >>= f).EndsAs trace input
      ((p >>= g).run ⟨trace.now.options, input.eof.location⟩ (t :: ahead)) := by
  have hwalk := h hat hle
  rw [Parser.run_bind]
  rcases hrun : p.run ⟨trace.now.options, input.eof.location⟩ (t :: ahead) with
    ⟨e | a, errors, rest⟩
  · rw [hrun] at hwalk
    exact hwalk.bind_error f
  · rw [hrun] at hwalk
    refine hwalk.bind (fun trace' hsound hnow => ?_) rfl
    have := hf a rest.length (hp.length_lt_of_run hrun)
      (hat.move hsound (Parser.suffix_of_run hrun) hnow) (Nat.le_refl _)
    rwa [hnow] at this

theorem follows_takeIf {accepts : TokenKind → Bool} {taken : Token → Walk α} {other : Walk α}
    {p : Token → Parser α} {q : Parser α}
    (htaken : ∀ t, accepts t.kind = true → ∀ less < limit, (taken t).Follows (p t) room less)
    (hother : other.Follows q room limit) :
    (do match ← takeIf accepts with
      | some t => taken t
      | none => other).Follows
      (Parser.onNext (fun kind => if accepts kind then some p else none) q) room limit := by
  intro trace input ahead hat hle
  by_cases hnext : ∀ t ∈ ahead.head?, accepts t.kind = false
  · obtain ⟨trace', hrun, hend⟩ := hother hat hle
    refine ⟨trace', (run_bind_of_ok (run_takeIf_of_not hat hnext)).trans ?_, ?_⟩
    all_goals
      cases ahead with
      | nil => assumption
      | cons t ahead =>
        have ht : accepts t.kind = false := hnext t rfl
        rw [Parser.run_onNext_of_eq_none (by simp [ht])]
        assumption
  · cases ahead with
    | nil => simp at hnext
    | cons t ahead =>
      have ht : accepts t.kind = true := by simpa using hnext
      rw [Parser.run_onNext_of_eq_some (p := p) (by simp [ht])]
      refine (takeIf_endsAs hat ht).bind (fun trace' hsound hnow => ?_) rfl
      have := htaken t ht ahead.length hle (hat.move hsound (List.suffix_cons t ahead) hnow)
        (Nat.le_refl _)
      rwa [hnow] at this

theorem follows_expect (kind : TokenKind) (cause : SyntaxCause) :
    (expect kind cause).Follows (Parser.expect kind cause) room limit := by
  have h : (expect kind cause).Follows (Parser.onNext
      (fun next => if decide (next = kind) then some pure else none) (Parser.fail cause))
      room limit :=
    follows_takeIf (fun t _ less _ => follows_pure t) (follows_throw cause)
  unfold Parser.expect
  simpa only [decide_eq_true_eq] using h

/-! ## Going on behind an error -/

/-- Behind a token that was dropped, skipping drops what is left of the statement. -/
theorem skip_endsAs {t : Token} (hat : trace.At input ahead room) (ht : t :: ahead <:+ input.row) :
    skip.EndsAs trace input ⟨.ok (), [], dropStatement (t :: ahead)⟩ := by
  induction ahead generalizing t trace with
  | nil =>
    apply endsAs_of_run hat
    rw [skip, run_bind_of_ok (run_atEnd hat)]
    rfl
  | cons next ahead ih =>
    have hrun : skip.run trace =
        (if t.kind = .semicolon || next.kind.startsStatement then pure ()
          else advance >>= fun _ => skip : Walk Unit).run trace := by
      conv => lhs; rw [skip]
      rw [run_bind_of_ok (run_atEnd hat)]
      simp only [List.isEmpty_cons, Bool.false_eq_true, if_false]
      rw [run_bind_of_ok (run_previous hat ht)]
      by_cases hsemicolon : t.kind = .semicolon
      · simp [hsemicolon]
      · simp only [Option.any_some, hsemicolon, decide_false, Bool.false_eq_true, if_false,
          Bool.false_or]
        rw [run_bind_of_ok (run_peek hat)]
        rfl
    refine EndsAs.of_run_eq ?_ hrun
    unfold dropStatement
    split
    · exact endsAs_of_run hat rfl
    · exact (advance_endsAs hat).bind (fun trace' hsound hnow =>
        ih (hat.move hsound (List.suffix_cons next ahead) hnow) hat.suffix) rfl

theorem run_synchronize_of_end (hat : trace.At input [] room) :
    synchronize.run trace = some (.ok (), trace) := by
  have hadvance : advance.run trace = previous.run trace := by
    unfold advance
    rw [run_bind_of_ok (run_atEnd hat)]
    rfl
  have hprevious : ∃ t, previous.run trace = some (.ok t, trace) := ⟨_, rfl⟩
  obtain ⟨t, ht⟩ := hprevious
  unfold synchronize
  rw [run_bind_of_ok (hadvance.trans ht), skip, run_bind_of_ok (run_atEnd hat)]
  rfl

theorem synchronize_endsAs (hat : trace.At input ahead room) :
    synchronize.EndsAs trace input ⟨.ok (), [], dropStatement ahead⟩ := by
  cases ahead with
  | nil => exact endsAs_of_run hat (run_synchronize_of_end hat)
  | cons t ahead =>
    exact (advance_endsAs hat).bind (fun trace' hsound hnow =>
      skip_endsAs (hat.move hsound (List.suffix_cons t ahead) hnow) hat.suffix) rfl

theorem Follows.recover {walk : Walk α} {p : Parser α} (h : walk.Follows p room limit) :
    (recover walk).Follows p.resume room limit := by
  intro trace input ahead hat hle
  obtain ⟨trace', hrun, hsound, hnow⟩ := h hat hle
  rcases hp : p.run ⟨trace.now.options, input.eof.location⟩ ahead with ⟨e | a, errors, rest⟩
  · rw [hp] at hrun hnow
    have hrest := Parser.suffix_of_run hp
    rw [Parser.run_resume_of_error hp]
    have hattempt : (attempt walk).EndsAs trace input ⟨.ok (.error e), errors, rest⟩ :=
      ⟨trace', run_attempt hrun, hsound, hnow⟩
    have hdrop : ∀ told, told.At input rest room →
        (synchronize >>= fun _ => pure none : Walk (Option α)).EndsAs told input
          ⟨.ok none, [], dropStatement rest⟩ := fun told htold =>
      (synchronize_endsAs htold).bind (fun last hsound hnow =>
        endsAs_of_run (htold.move hsound (dropStatement_suffix rest) hnow) rfl) rfl
    have htell : ∀ trace', trace'.At input rest room →
        (record e >>= fun _ => synchronize >>= fun _ => pure none : Walk (Option α)).EndsAs trace'
          input ⟨.ok none, [e], dropStatement rest⟩ := fun trace' hat' =>
      (record_endsAs hat' e).bind (fun told hsound hnow =>
        hdrop told (hat'.move hsound List.suffix_rfl hnow)) rfl
    exact hattempt.bind (fun trace' hsound hnow => htell trace' (hat.move hsound hrest hnow)) rfl
  · rw [hp] at hrun hnow
    rw [Parser.run_resume_of_ok hp]
    exact ⟨trace', run_bind_of_ok (run_attempt hrun), hsound, hnow⟩

/-! ## Nesting -/

theorem follows_nested_of_no_room (walk : Walk α) :
    (nested walk).Follows (Parser.fail .tooDeep) 0 limit := by
  intro trace input ahead hat _
  have hfull : maxNesting ≤ trace.now.depth := Nat.le_of_eq hat.depth_eq.symm
  apply endsAs_of_run hat
  apply run_bind_of_error
  unfold enter
  rw [run_bind_of_ok (run_current trace), if_pos hfull, run_bind_of_ok (run_errorHere hat _ _)]
  rfl

/-- One level deeper there is one level less room, and the depth is the same again behind it. -/
theorem Follows.nested {walk : Walk α} {p : Parser α} (h : walk.Follows p room limit) :
    (nested walk).Follows p (room + 1) limit := by
  intro trace input ahead hat hle
  have hnow := hat.now_sound
  have hdepth := hat.depth_eq
  have hentered : Trace.At ⟨{ trace.now with depth := trace.now.depth + 1 },
      trace.now :: trace.past⟩ input ahead room := by
    refine ⟨hat.sound.change ⟨hnow.tokens_eq, hnow.position_le, ?_⟩ (Nat.le_refl _), hat.suffix,
      hat.position_eq, ?_⟩
    · dsimp only
      omega
    · dsimp only
      omega
  obtain ⟨inner, hrun, hsound, hinner⟩ := h hentered hle
  dsimp only at hrun hinner
  have hleft : Trace.Sound ⟨{ inner.now with depth := inner.now.depth - 1 },
      inner.now :: inner.past⟩ input := by
    have := hsound.each _ List.mem_cons_self
    exact hsound.change ⟨this.tokens_eq, this.position_le,
      Nat.le_trans (Nat.sub_le _ _) this.depth_le⟩ (Nat.le_refl _)
  refine ⟨_, ?_, hleft, by rw [hinner]; rfl⟩
  have henter : enter.run trace = some (.ok (), ⟨{ trace.now with depth := trace.now.depth + 1 },
      trace.now :: trace.past⟩) := by
    unfold enter
    rw [run_bind_of_ok (run_current trace), if_neg (by omega), run_change]
  have hleave : leave.run inner = some (.ok (), ⟨{ inner.now with depth := inner.now.depth - 1 },
      inner.now :: inner.past⟩) := by
    unfold leave
    rw [run_bind_of_ok (run_current inner), if_neg (by rw [hinner]; exact Nat.succ_ne_zero _),
      run_change]
  rw [run_bind_of_ok henter, run_bind_of_ok (run_attempt hrun), run_bind_of_ok hleave]
  rcases (p.run ⟨trace.now.options, input.eof.location⟩ ahead).result with e | a <;> rfl

end Walk

end ScriptSyntax
